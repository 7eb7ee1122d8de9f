import PlotAdvisor.Assistant.Choices

/-! Requests of an editor about the program in it.

The program of the last request is remembered by its digest, with its context. A program that cannot be read is
remembered too, while the context stays that of the last program that could be read.

* `matchesFor` - where the elements that fit a query are used.
* `summary` - what is known about the uses at a place.
* `handle` - one request.
-/
set_option autoImplicit false

namespace PlotAdvisor.Assistant

open Program Elements Scalar Documentation

/-- What is kept from one request to the next. -/
structure Desk where
  last : Option Int := none
  context : Option Context := none
  names : Names := sessionTable

/-- Faults of marking that tell that the text is no program. -/
def asUnparsable : Fault → Fault
  | .broken _ => .unparsable
  | .outOfRange => .unparsable
  | f => f

def Setup.read (s : Setup) (code : String) : Except Fault Tree :=
  match s.parse code with
  | .error f => .error f
  | .ok _ => (s.marked code).mapError asUnparsable

/-- Takes up a program. An empty one, and one with the digest of the one that was taken up last, change
nothing. -/
def Desk.prepare (s : Setup) (code : String) (d : Desk) : Except Fault Unit × Desk :=
  if code == "" || d.last == some (s.digest code) then (.ok (), d)
  else
    let d := { d with last := some (s.digest code) }
    match s.read code with
    | .error f => (.error f, d)
    | .ok t =>
      let (c, names) := Context.ofTree s.normalizer d.names t
      (.ok (), { d with context := some c, names := names })

/-! ## Matches -/

section
variable {α : Type}

structure Match (α : Type) where
  element : String
  type : String
  weight : α
  span : Span

/-- Whether an element gives its weight to its parents: one that is not in use, or a positional argument. -/
def passesOn (used : List String) (id : String) : Bool := !used.contains id || isPositional id

def matchOf (l : Library) (weights : Table String α) (u : Use) : Except Fault (Option (Match α)) :=
  match weights.get? u.id, l.find? u.id with
  | some w, some e => do return some ⟨u.id, e.type, w, ← u.span⟩
  | _, _ => .ok none

variable [Scalar α]

/-- Adds the weights of elements that pass them on to those of their parents that are in use. -/
def spread (l : Library) (used : List String) (weights : Table String α) : Table String α :=
  weights.entries.foldl (fun (t : Table String α) (e, w) =>
    if passesOn used e then
      ((l.parents e).filter used.contains).foldl (fun (t : Table String α) p => t.alter p (decimal 0 0) (· + w)) t
    else t) weights

/-- The uses that fit suggested elements with their scores, those with the shortest ids first. -/
def matchesAmong (l : Library) (c : Context) (items : List (String × α)) : Except Fault (List (Match α)) := do
  let weights := spread l c.used (Table.ofList (Advice.highlight items))
  let found ← c.uses.mapM (matchOf l weights)
  return Sorting.sortBy (fun a b => decide (a.element.length < b.element.length)) (found.filterMap id)

def matchesFor (l : Library) (suggest : Context → String → List (String × α)) (context : Option Context)
    (query code : String) : Except Fault (List (Match α)) :=
  match context with
  | some c => if Text.trim query == "" || code == "" then .ok [] else matchesAmong l c (suggest c query)
  | none => .ok []

end

def Setup.suggested (s : Setup) (c : Context) (query : String) : List (String × Numeric) :=
  (s.model.suggest ⟨c.used, s.counts, s.plotting.drawing⟩ query).map fun i => (i.element, i.score)

def matches? (s : Setup) (d : Desk) (query code : String) : Except Fault (List (Match Numeric)) :=
  matchesFor s.library s.suggested d.context query code

/-! ## Summaries -/

structure Summary where
  entry : Entry String
  id : String
  doc : String
  signature : Option String
  valueSpan : Option Span
  choices : Option Choices

def locatedDoc (s : Setup) (e : Entry String) : String :=
  if e.expanded != "" then e.expanded
  else
    match (s.located.get? e.fullName).filter (· != "") with
    | some text => "HTML" ++ text
    | none => ""

def summaryOf (s : Setup) (c : Option Context) (query code : String) (u : Use) :
    Except Fault (Option Summary) :=
  match s.library.find? u.id with
  | none => .ok none
  | some e => do
    let range ← u.valueSpan
    let given ← givenTo (Text.splitOn code "\n") u e.type
    let choices ← s.choices c query code u.id (some (u, given))
    return some ⟨e, u.id, locatedDoc s e, s.signature? e, range, choices⟩

/-- Longer ids come first. -/
def isShorter (a b : Use) : Bool :=
  if a.id.length = b.id.length then decide (a.id < b.id) else decide (a.id.length < b.id.length)

/-- The uses at a place, the most special first, and the functions that can be called. -/
def summaries (s : Setup) (c : Option Context) (query code : String) (p : Place) :
    Except Fault (List Summary × Choices) := do
  let uses ← (c.map fun c => usesAtPlace c p).getD (.ok [])
  let found ← (Sorting.falling isShorter uses).mapM (summaryOf s c query code)
  return (found.filterMap id, ← s.functionChoices c query code)

/-! ## Requests -/

/-- A request. What it needs beside its type is looked at only when the type needs it. -/
structure Request where
  type : String
  code : String
  query : String
  line : Except Fault Int
  column : Except Fault Int
  element : Except Fault String

inductive Response where
  | nothing
  | matched (ms : List (Match Numeric))
  | summary (groups : List Summary) (functions : Choices)
  | suggested (choices : Option Choices)
  | mode (name : String)

def noMode : String := "no_mode"

def isControl (mode : String) : Except Fault Bool := do
  return (← orFault mode.toList.head? .outOfRange) == 'g'

/-- Where the cursor stands; an editor counts lines from zero. -/
def Request.place (r : Request) : Except Fault Place := do
  let line ← r.line
  return ⟨line + 1, ← r.column⟩

/-- Answers a request once its program has been taken up. -/
def respond (s : Setup) (mode : String) (d : Desk) (r : Request) : Except Fault Response := do
  let control ← isControl mode
  match r.type with
  | "nlp" => if control then return .nothing else return .matched (← matches? s d r.query r.code)
  | "summary" =>
    if control then return .nothing
    let (groups, functions) ← summaries s d.context r.query r.code (← r.place)
    return .summary groups functions
  | "suggest" =>
    if control then return .nothing
    let _ ← r.place
    return .suggested (← s.choices d.context r.query r.code (← r.element) none)
  | "google" => return .nothing
  | "experiment_mode" => return .mode mode
  | t => .error (.badValue ("Unrecognized request type: \"" ++ t ++ "\""))

def handle (s : Setup) (modeText : Option String) (d : Desk) (r : Request) : Except Fault Response × Desk :=
  let mode := (modeText.map Text.trim).getD noMode
  match d.prepare s r.code with
  | (.error f, d) => (.error f, d)
  | (.ok _, d) => (respond s mode d r, d)

end PlotAdvisor.Assistant
