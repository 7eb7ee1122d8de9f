import PlotAdvisor.Messages.Value

/-! Records: objects with named attributes in the order in which they were first set, of one of the
classes that the debugger knows. -/
set_option autoImplicit false

namespace PlotAdvisor.Messages

structure Record where
  cls : String
  attributes : List (String × Value)
  deriving Inhabited

namespace Record

def toValue (r : Record) : Value := .record r.cls r.attributes

def get? (r : Record) (name : String) : Option Value := r.attributes.lookup name

def set (r : Record) (name : String) (v : Value) : Record :=
  if r.attributes.any fun a => a.1 == name then
    { r with attributes := r.attributes.map fun a => if a.1 == name then (name, v) else a }
  else { r with attributes := r.attributes ++ [(name, v)] }

def setAll (r : Record) (named : List (String × Value)) : Record :=
  named.foldl (fun r a => r.set a.1 a.2) r

/-- Names that every object has without setting them. -/
def innate : List String := [
  "__class__", "__delattr__", "__dict__", "__dir__", "__doc__", "__eq__", "__format__", "__ge__",
  "__getattribute__", "__getstate__", "__gt__", "__hash__", "__init__", "__init_subclass__", "__le__",
  "__lt__", "__module__", "__ne__", "__new__", "__reduce__", "__reduce_ex__", "__repr__",
  "__setattr__", "__sizeof__", "__str__", "__subclasshook__", "__weakref__", "setdefault", "update"]

/-- Names that the objects of a class have beside the innate ones. -/
def ofClass (cls : String) : List String :=
  if cls == "FrameInfo" then ["get_description"]
  else if cls == "TextRange" then
    ["contains_smaller", "contains_smaller_eq", "not_smaller_in", "is_smaller_in", "not_smaller_eq_in",
      "is_smaller_eq_in", "get_start_index", "get_end_index"]
  else []

def hasName (r : Record) (name : String) : Bool :=
  r.attributes.any (fun a => a.1 == name) || innate.contains name || (ofClass r.cls).contains name

/-- The classes of records that are made from named attributes alone. -/
def plainClasses : List String :=
  ["Record", "ValueInfo", "FrameInfo", "ToplevelCommand", "InputSubmission"]

def commandClasses : List String := ["DebuggerCommand", "InlineCommand"]

/-- No attribute may be given under a name that the maker uses itself. -/
def freeNames (taken : List String) (named : List (String × Value)) : Except Fault Unit :=
  if named.any fun a => taken.contains a.1 then .error .wrongKind else .ok ()

def make (cls : String) (named : List (String × Value)) : Except Fault Record := do
  if plainClasses.contains cls then
    freeNames ["self"] named
    return (Record.mk cls []).setAll named
  else if commandClasses.contains cls || cls == "TextRange" then .error .wrongKind
  else .error .noAttribute

def command (cls : String) (what : Value) (named : List (String × Value)) : Except Fault Record := do
  freeNames ["self", "command"] named
  return ((Record.mk cls []).setAll named).set "command" what

def range (l c el ec : Int) : Record :=
  ⟨"TextRange", [("lineno", .int l), ("col_offset", .int c), ("end_lineno", .int el),
    ("end_col_offset", .int ec)]⟩

/-- A name of the class can be used as a function unless an attribute hides it. -/
def callable (r : Record) (name : String) : Except Fault Unit :=
  if r.attributes.any fun a => a.1 == name then .error .wrongKind else .ok ()

def update (r : Record) (named : List (String × Value)) : Except Fault Record := do
  r.callable "update"
  freeNames ["self"] named
  return r.setAll named

def setMissing (r : Record) (named : List (String × Value)) : Except Fault Record := do
  r.callable "setdefault"
  freeNames ["self"] named
  return named.foldl (fun r a => if r.hasName a.1 then r else r.set a.1 a.2) r

def render (r : Record) : String := r.toValue.render

/-- The record as it is shown to people: attributes sorted and all values in quotes; a text range in
its short form. -/
def plain (r : Record) : List Nat :=
  if r.cls == "TextRange" then
    let at? (name : String) : List Nat := ((r.get? name).map Value.plain).getD []
    let s (t : String) : List Nat := t.toList.map Char.toNat
    s "TR(" ++ at? "lineno" ++ s "." ++ at? "col_offset" ++ s ", " ++ at? "end_lineno" ++ s "." ++
      at? "end_col_offset" ++ s ")"
  else r.toValue.plain

def same (a b : Record) : Bool := a.toValue.same b.toValue

def description (r : Record) : Except Fault (List Nat) := do
  r.callable "get_description"
  if r.cls != "FrameInfo" then .error .noAttribute
  let s (t : String) : List Nat := t.toList.map Char.toNat
  let text (name : String) : Except Fault (List Nat) := do
    match ← orFault (r.get? name) .noAttribute with
    | .text points => return points
    | _ => .error .wrongKind
  let id ← orFault (r.get? "id") .noAttribute
  let name ← text "code_name"
  let file ← text "filename"
  let focus ← orFault (r.get? "focus") .noAttribute
  return s "[" ++ id.plain ++ s "] " ++ name ++ s " in " ++ file ++ s ", focus=" ++ focus.plain

end Record

/-- What is printed of an object: its class, then its attributes by name. -/
def structureLines (cls : String) (attributes : List (String × Value)) : List Nat :=
  let s (t : String) : List Nat := t.toList.map Char.toNat
  let sorted := attributes.mergeSort fun a b => decide (a.1 ≤ b.1)
  s (cls ++ "\n") ++ sorted.flatMap fun a => s (a.1 ++ " = ") ++ a.2.plain ++ s "\n"

end PlotAdvisor.Messages
