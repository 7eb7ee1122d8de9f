import PlotAdvisor.Elements.Context

/-! What stands at a place of a program: the uses of elements there, and what is given to them.

* `usesAtPlace` - the uses at a place.
* `givenTo` - the arguments or keys that a use gives, with the text of their values.
-/
set_option autoImplicit false

namespace PlotAdvisor.Assistant

open Program Elements

/-- Whether a use is meant by a place. For an argument the place must lie in its range, an end of it
included; for a function it is enough that it lies on the lines of the range. -/
def isAt (p : Place) (id : String) (s : Span) : Bool :=
  let onLines := decide (s.start.line ≤ p.line) && decide (p.line ≤ s.stop.line)
  let early := p.line == s.start.line && decide (p.col < s.start.col)
  let late := p.line == s.stop.line && decide (s.stop.col < p.col)
  onLines && (!Text.has id "@" || (!early && !late))

def usesAtPlace (c : Context) (p : Place) : Except Fault (List Use) :=
  c.uses.filterM fun u => do return isAt p u.id (← u.span)

/-! ## What is given to an element -/

def lineAt (lines : List String) (i : Int) : Except Fault String :=
  orFault (lines[(i - 1).toNat]?) .outOfRange

def linesFrom (lines : List String) (s : Span) : Nat → Int → Except Fault (List String)
  | 0, _ => .ok []
  | count + 1, line => do
    let l ← lineAt lines line
    let first := if line = s.start.line then s.start.col else 0
    let last := if line = s.stop.line then s.stop.col else (l.length : Int)
    return Text.slice l first last :: (← linesFrom lines s count (line + 1))

def textOf (lines : List String) (s : Span) : Except Fault String := do
  return Text.join "\n" (← linesFrom lines s (s.stop.line - s.start.line + 1).toNat s.start.line)

def textOfNode (lines : List String) (t : Tree) : Except Fault String := do
  textOf lines (← orFault t.span .noAttribute)

/-- What something is given for: an argument or a key, by its name and as an element. -/
structure Slot where
  name : String
  element : String
  deriving Inhabited

structure Given where
  slot : Option Slot
  text : String
  deriving Inhabited

def givenFor (owner name : String) (text : String) : Given := ⟨some ⟨name, owner ++ "@" ++ name⟩, text⟩

def givenByKeywords (lines : List String) (owner : String) (call : Tree) : Except Fault (List Given) :=
  (call.fieldItems "keywords").mapM fun kw => do
    let text ← textOfNode lines (kw.field "value")
    return givenFor owner (← orFault (kw.fieldText? "arg") .wrongKind) text

def givenByCall (lines : List String) (owner : String) (call : Tree) : Except Fault (List Given) := do
  let args ← (call.fieldItems "args").zipIdx.mapM fun (a, i) => do
    return givenFor owner (toString i) (← textOfNode lines a)
  return args ++ (← givenByKeywords lines owner call)

/-- The keys of a table, which a display or a call of `dict` gives. -/
def givenByTable (lines : List String) (owner : String) (t : Tree) : Except Fault (List Given) :=
  if t.kind == "Dict" then do
    let given ← ((t.fieldItems "keys").zip (t.fieldItems "values")).mapM fun (k, v) =>
      match k.literal? with
      | some (.text s) => do return some (givenFor owner s (← textOfNode lines v))
      | _ => .ok none
    return given.filterMap id
  else if t.kind == "Call" && (t.field "func").kind == "Name" &&
      (t.field "func").fieldText? "id" == some "dict" then
    givenByKeywords lines owner t
  else .ok []

def givenTo (lines : List String) (u : Use) (type : String) : Except Fault (List Given) :=
  match type with
  | "func" => if u.node.kind == "Call" then givenByCall lines u.id u.node else .ok []
  | "arg" =>
    match u.value with
    | some v => givenByTable lines u.id v
    | none => .ok []
  | "argkey" => do
    return [⟨none, ← textOfNode lines (← orFault u.value .noAttribute)⟩]
  | _ => .ok []

end PlotAdvisor.Assistant
