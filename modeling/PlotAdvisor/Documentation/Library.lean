import PlotAdvisor.Documentation.Borrowed

/-! The library of documentation entries, with their parents and children. -/
set_option autoImplicit false

namespace PlotAdvisor.Documentation

/-! ## The entry of an element: a function, an argument, or a key of an argument -/

open Elements

structure Entry (κ : Type) where
  id : String
  name : String
  fullName : String
  type : String
  parent : String
  returns : String
  count : κ
  utterance : String
  /-- For people to read. -/
  expanded : String
  deriving Inhabited

def entryHeading : List String :=
  ["elem_id", "name", "full_name", "type", "parent_id", "rtype", "count", "utter", "utter_expand"]

/-- The fields in order, given the count as text. -/
def Entry.fields {κ : Type} (shown : κ → String) (e : Entry κ) : List String :=
  [e.id, e.name, e.fullName, e.type, e.parent, e.returns, shown e.count, e.utterance, e.expanded]

namespace Base

def fullName (b : Base) (id : String) : Except Fault String := do
  return lengthen (← b.normalizer.infer id false)

def isArgumentName (name : String) : Bool :=
  name != "" && !(["true", "false"].contains (Text.lower name)) && !Text.has name " "

/-- The entry with what further is known about the element. -/
def complete (b : Base) (id name fullName type parent : String) (u : Option Utterance) : Entry Int :=
  let u := u.getD default
  let u :=
    if u.short == "" then ((b.additional.get? id).map fun d => (⟨d, d⟩ : Utterance)).getD u else u
  { id := id, name := name, fullName := fullName, type := type, parent := parent
    returns := b.returnTypes.getD id "", count := b.counts.getD id 0
    utterance := u.short, expanded := u.full }

def entry (b : Base) (id : String) : Except Fault (Option (Entry Int)) := do
  ensure (id != "") ""
  let fullName ← b.fullName id
  match Text.splitOn id "@" with
  | [path] =>
    let parts := Text.splitOn path "."
    return some (b.complete id ((parts.getLast?).getD "") fullName "func" (Text.join "." parts.dropLast)
      (b.borrowed.functions.get? fullName))
  | [parent, name] =>
    if !isArgumentName name then return none
    let owner ← b.fullName parent
    return some (b.complete id name fullName "arg" parent (b.borrowed.arguments.get? (owner, name)))
  | [function, argument, name] =>
    let parent := function ++ "@" ++ argument
    let owner ← b.fullName parent
    return some (b.complete id name fullName "argkey" parent (b.borrowed.keys.get? (owner, name)))
  | _ => .error (.broken "")

def elements (b : Base) : List String :=
  let n := b.normalizer
  b.counts.keys ++ b.borrowed.functions.keys.map n.simplify ++
    b.borrowed.arguments.keys.map (fun (f, a) => n.simplify f ++ "@" ++ a) ++ b.additional.keys

/-- The table of all entries, as text; an element comes once. -/
def table (b : Base) : Except Fault String := do
  let ids := b.elements.foldl (fun out id => if out.contains id then out else out ++ [id]) []
  let entries ← ids.mapM b.entry
  return Csv.write (entryHeading :: (entries.filterMap id).map (Entry.fields toString))

end Base

/-! ## The library -/

/-- The entries of a table by id; counts are kept as they are written. -/
structure Library where
  entries : Table String (Entry String)
  deriving Inhabited

def entryOfRow : List String → Except Fault (Entry String)
  | [id, name, fullName, type, parent, returns, count, utterance, expanded] =>
    .ok ⟨id, name, fullName, type, parent, returns, count, utterance, expanded⟩
  | _ => .error .wrongKind

def readEntries (s : Knowledge.Sources) : Except Fault (List (Entry String)) := do
  (← rowsUnder entryHeading s.elementDocs).mapM entryOfRow

namespace Library

def ofSources (s : Knowledge.Sources) : Except Fault Library := do
  return ⟨Table.ofList ((← readEntries s).map fun e => (e.id, e))⟩

def find? (l : Library) (id : String) : Option (Entry String) := l.entries.get? id

def children (l : Library) (id : String) : List (Entry String) :=
  if id == "" then [] else l.entries.values.filter fun e => e.parent == id

def parentsUpTo (l : Library) : Nat → String → List String
  | 0, _ => []
  | fuel + 1, id =>
    match l.find? id with
    | none => []
    | some e => if e.parent == "" then [] else e.parent :: l.parentsUpTo fuel e.parent

def parents (l : Library) (id : String) : List String := l.parentsUpTo l.entries.size id

def ownTexts (l : Library) (id : String) : List String :=
  match l.find? id with
  | some e => if e.utterance == "" then [] else [e.utterance, e.name]
  | none => []

def trainingText (l : Library) (id : String) (withParents : Bool) : String :=
  if (l.find? id).isNone then ""
  else Text.join " " (l.ownTexts id ++ if withParents then (l.parents id).flatMap l.ownTexts else [])

/-- The functions of a name with the largest count, counts being compared as text. -/
def guess? (l : Library) (function : String) : Option String :=
  (l.entries.values.foldl (fun (best : Option (Entry String)) e =>
    if e.type == "func" && Text.lastPart e.id "." == function && best.all (fun b => decide (b.count < e.count))
    then some e else best) none).map Entry.id

end Library

/-- Whether an element is an argument given by its place. -/
def isPositional (id : String) : Bool :=
  match (Text.splitOnce id "@").2 with
  | some rest => ((rest.toList.head?).map Char.isDigit).getD false
  | none => false

end PlotAdvisor.Documentation
