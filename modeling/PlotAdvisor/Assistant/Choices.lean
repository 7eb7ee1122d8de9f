import PlotAdvisor.Advice.Highlight
import PlotAdvisor.Assistant.Cursor
import PlotAdvisor.Mining.Positions
import PlotAdvisor.Mining.Snippets
import PlotAdvisor.Text.Integer
import PlotAdvisor.World.Basic

/-! Choices that are offered for a program: functions to call, parameters to give, values to give them.

* `functionChoices`, `parameterChoices`, `valueChoices` - the three kinds of them.
-/
set_option autoImplicit false

namespace PlotAdvisor.Assistant

open Program Elements Scalar Documentation

/-- What is known when choices are made. -/
structure Setup where
  normalizer : Normalizer
  library : Library
  plotting : Knowledge.Plotting
  counts : Table String Int
  values : Table String (List (String × Int))
  positions : Mining.Positions Numeric
  /-- The examples of functions. -/
  samples : Table String (List Sample)
  located : Table String String
  model : Models.Elements.Model Float
  parse : String → Except Fault Tree
  marked : String → Except Fault Tree
  /-- A number by which program texts are told apart; different texts may have the same. -/
  digest : String → Int

def samplesByFunction (samples : List Sample) : Table String (List Sample) :=
  let grouped := samples.foldl (fun (t : Table String (List Sample)) s => t.push s.function s) .empty
  grouped.mapValues (Sorting.sortBy fun a b =>
    decide (Mining.effectiveLength a.code < Mining.effectiveLength b.code))

/-- What a choice tells beside its name and weight. -/
inductive Detail where
  | function (inGallery : Bool) (signature : Option String) (examples : Option (List Sample))
  | parameter (given : Option String)
  | value
  deriving Inhabited

structure Choice where
  text : String
  weight : Numeric
  doc : String
  element : String
  count : Int
  detail : Detail
  deriving Inhabited

inductive Choices where
  | functions (items : List Choice)
  | parameters (owner : Entry String) (id : String) (toInsert : Bool) (items : List Choice)
      (places : Option (List (Int × Numeric))) (range : Option Span)
  | values (id : String) (items : List Choice)

/-! ## Ranking -/

def weighed (scores : List (String × Numeric)) (cs : List Choice) : List Choice :=
  let weights : Table String Numeric := Table.ofList (Advice.highlight scores)
  cs.map fun c => { c with weight := weights.getD c.element c.weight }

/-- By falling weight, or without a query by falling count. -/
def sorted (hasQuery : Bool) (cs : List Choice) : List Choice :=
  if hasQuery then Sorting.sortBy (fun a b => less (-a.weight) (-b.weight)) cs
  else Sorting.sortBy (fun a b => decide (b.count < a.count)) cs

namespace Setup

def ranked (s : Setup) (c : Option Context) (query : String) (cs : List Choice) :
    Except Fault (List Choice) := do
  let c ← orFault c .noAttribute
  let scores := s.model.score query c.used (cs.map Choice.element)
  return sorted (query != "") (weighed (scores.map fun (e, x) => (e, .real x)) cs)

/-! ## Functions -/

def signature? (s : Setup) (e : Entry String) : Option String :=
  if e.type == "func" then (s.located.get? e.fullName).filter (· != "") else none

def neverOffered : List String := ["subplot2grid", "show", "gca", "close", "rc"]

def functionChoice (s : Setup) (inGallery : Bool) (f : String) : Except Fault Choice := do
  match s.library.find? ("plt." ++ f) with
  | none => .error (.broken f)
  | some e =>
    return { text := e.name, weight := .real 0.0, doc := e.expanded, element := e.id
             count := ← Text.readInt 10 e.count, detail := .function inGallery (s.signature? e) none }

def called (s : Setup) (code : String) : Except Fault (List String) := do
  if Text.trim code == "" then return []
  return (callNodes (← s.parse code)).filterMap Mining.calledName

def withExamples (s : Setup) (c : Choice) : Choice :=
  match c.detail with
  | .function g sig _ => { c with detail := .function g sig (s.samples.get? c.text) }
  | _ => c

def functionChoices (s : Setup) (c : Option Context) (query code : String) : Except Fault Choices := do
  let called ← s.called code
  let drawn := called.any s.plotting.drawing.contains
  let candidates := (if drawn then s.plotting.other else s.plotting.drawing).filter fun f =>
    !called.contains f && !neverOffered.contains f
  let cs ← candidates.mapM (s.functionChoice !drawn)
  return .functions ((← s.ranked c query cs).map s.withExamples)

/-! ## Parameters -/

def parameterChoice (e : Entry String) : Except Fault Choice := do
  return { text := e.name, weight := .real 0.0, doc := e.expanded, element := e.id
           count := ← Text.readInt 10 e.count, detail := .parameter none }

def fill (name text : String) (cs : List Choice) : Option (List Choice) :=
  (Text.Chars.findLast? [name] (cs.map Choice.text)).map fun i =>
    cs.modify i fun c => { c with detail := .parameter (some text) }

def withGiven (documented : List Choice) (given : List Given) : List Choice :=
  let (documented, more) := given.foldl (fun (ds, more) g =>
    let slot := g.slot.getD default
    match fill slot.name g.text ds with
    | some ds => (ds, more)
    | none =>
      (ds, more ++ [{ text := slot.name, weight := .real 0.0, doc := "", element := slot.element
                      count := 0, detail := .parameter (some g.text) }]))
    (documented, ([] : List Choice))
  documented ++ more

def parameterChoices (s : Setup) (c : Option Context) (query code id : String)
    (use : Option (Use × List Given)) : Except Fault (Option Choices) := do
  match if id == "" then none else s.library.find? id with
  | none => return none
  | some e =>
    if e.type != "func" && e.type != "arg" then return none
    let own := (s.library.children id).filter fun x => x.type == "arg" || x.type == "argkey"
    let documented ← own.mapM parameterChoice
    let items ← s.ranked c query (withGiven documented ((use.map Prod.snd).getD []))
    let places :=
      if e.type == "func" then some (Mining.insertionLinesIn s.positions s.parse code e.name) else none
    let range ← use.mapM fun u => u.1.span
    return some (.parameters e id use.isNone items places range)

/-! ## Values -/

def valueLimit : Nat := 30

def weighedValues (counted : List (String × Int)) : List (String × Numeric) :=
  let sorted := Sorting.sortBy (fun a b => decide (b.2 < a.2)) counted
  let first := (sorted.filter fun v => !Text.has v.1 "$").take valueLimit
  let total : Float := Decimal.ofInt ((first.map Prod.snd).foldr (· + ·) 0) + 0.1
  Advice.highlight (first.map fun (v, n) => (v, (.real (Decimal.ofInt n / total) : Numeric)))

def valueChoices (s : Setup) (id : String) : Option Choices :=
  match if id == "" then none else s.library.find? id with
  | none => none
  | some e =>
    if e.type != "arg" && e.type != "argkey" then none
    else (s.values.get? id).map fun counted =>
      .values id ((weighedValues counted).map fun (v, w) =>
        { text := v, weight := w, doc := "", element := v, count := 0, detail := .value })

/-! ## By element -/

/-- Stands for the plotting module itself, whose functions are offered. -/
def topModule : String := "TOP_MODULE"

/-- The choices for an element: values where they are known, else parameters. -/
def choices (s : Setup) (c : Option Context) (query code id : String)
    (use : Option (Use × List Given)) : Except Fault (Option Choices) :=
  if id == topModule then some <$> s.functionChoices c query code
  else
    match s.valueChoices id with
    | some v => .ok (some v)
    | none => s.parameterChoices c query code id use

end Setup

end PlotAdvisor.Assistant
