import PlotAdvisor.Program.Fields
import PlotAdvisor.Program.Symbol

/-! Trees as parts that alternate between nodes and fields, down to literal values. A field that holds a
list is kept apart from one that holds a single part, and a field may have nothing below it yet.

* `Part.ofTree` - the parts of a syntax tree.
* `Part.partialTrees` - for every part that is not a value: what came before it and what is below it.
* `Part.toTree` - the syntax tree of parts; fields that are missing are filled in.
-/
set_option autoImplicit false

namespace PlotAdvisor.Program

inductive Part where
  | node (kind : String) (fields : List Part)
  | one (field : String) (child : Part)
  | many (field : String) (children : List Part)
  | bare (field : String)
  | leaf (value : Literal)
  deriving Inhabited

namespace Part

def symbol : Part → Symbol
  | .node kind _ => .node kind
  | .one name _ => .field name
  | .many name _ => .field name
  | .bare name => .field name
  | .leaf v => .content v

/-! ## From a syntax tree -/

def nothingGiven : Fault :=
  .badValue "Either node, fv_pair, field_name, or content should bespecified."

mutual

def ofTree : Tree → Except Fault Part
  | .node kind _ fields => do return .node kind (← ofFields fields)
  | .list [] => .error nothingGiven
  | .list _ => .error .noAttribute
  | .lit v => .error (if v.isFalsy then nothingGiven else .noAttribute)

def ofFields : List (String × Tree) → Except Fault (List Part)
  | [] => .ok []
  | (_, .lit .none) :: rest => ofFields rest
  | (name, .lit v) :: rest => do return .one name (.leaf v) :: (← ofFields rest)
  | (name, .list ts) :: rest => do
    let items ← ofItems ts
    return .many name items :: (← ofFields rest)
  | (name, t) :: rest => do
    let child ← ofTree t
    return .one name child :: (← ofFields rest)

def ofItems : List Tree → Except Fault (List Part)
  | [] => .ok []
  | t :: rest => do
    let part ← ofTree t
    return part :: (← ofItems rest)

end

/-! ## Counting and values -/

mutual

def count : Part → Nat
  | .node _ fields => 1 + countAll fields
  | .one _ child => 1 + child.count
  | .many _ children => 1 + countAll children
  | .bare _ => 0
  | .leaf _ => 0

def countAll : List Part → Nat
  | [] => 0
  | p :: ps => p.count + countAll ps

end

mutual

def values : Part → List Literal
  | .node _ fields => valuesOfAll fields
  | .one _ child => child.values
  | .many _ children => valuesOfAll children
  | .bare _ => []
  | .leaf v => [v]

def valuesOfAll : List Part → List Literal
  | [] => []
  | p :: ps => p.values ++ valuesOfAll ps

end

end Part

/-! ## Partial trees -/

/-- What is directly below a part: a list, or one thing. -/
inductive Below where
  | one (s : Symbol)
  | many (ss : List Symbol)
  deriving DecidableEq, Inhabited, Repr

namespace Below

def simple : Below → Below
  | .one s => .one s.simple
  | .many ss => .many (ss.map Symbol.simple)

def same : Below → Below → Bool
  | .one a, .one b => a.same b
  | .many as, .many bs => Symbol.sameAll as bs
  | _, _ => false

end Below

/-- A part with its surroundings: the last values before it, the parts above it, nearest first, and what
is directly below it. -/
structure PartialTree where
  terminals : List Symbol
  ancestors : List Symbol
  parent : Symbol
  children : Below
  deriving Inhabited

/-- How much of the surroundings is remembered. -/
structure Memory where
  terminals : Int
  ancestors : Int

namespace Memory

def lastTerminals (m : Memory) (before : List Literal) : List Symbol :=
  ((before.take m.terminals.toNat).reverse).map Symbol.content

def nearest (m : Memory) (above : List Symbol) : List Symbol :=
  if m.ancestors ≤ 0 then above else above.take m.ancestors.toNat

end Memory

namespace Part

mutual

def partialsFrom (m : Memory) (above : List Symbol) (before : List Literal) :
    Part → List PartialTree × List Literal
  | .node kind fields =>
    let here : PartialTree := ⟨m.lastTerminals before, m.nearest above, .node kind, .many (fields.map symbol)⟩
    let (rest, after) := partialsFromAll m (.node kind :: above) before fields
    (here :: rest, after)
  | .one name child =>
    let here : PartialTree := ⟨m.lastTerminals before, m.nearest above, .field name, .one child.symbol⟩
    let (rest, after) := partialsFrom m (.field name :: above) before child
    (here :: rest, after)
  | .many name children =>
    let here : PartialTree :=
      ⟨m.lastTerminals before, m.nearest above, .field name, .many (children.map symbol)⟩
    let (rest, after) := partialsFromAll m (.field name :: above) before children
    (here :: rest, after)
  | .bare _ => ([], before)
  | .leaf v => ([], v :: before)

def partialsFromAll (m : Memory) (above : List Symbol) (before : List Literal) :
    List Part → List PartialTree × List Literal
  | [] => ([], before)
  | p :: ps =>
    let (here, after) := partialsFrom m above before p
    let (rest, last) := partialsFromAll m above after ps
    (here ++ rest, last)

end

def partialTrees (m : Memory) (p : Part) : List PartialTree := (p.partialsFrom m [] []).1

/-! ## Back to a syntax tree -/

def listFields : List String := ["keywords", "decorator_list", "args", "defaults"]

def unsetField (name : String) : Tree := if listFields.contains name then .list [] else .lit .none

/-- A node whose fields were set in the given order, the last setting of each counting. -/
def assemble (kind : String) (set : List (String × Tree)) : Tree :=
  .node kind none ((fieldNames kind).map fun name => (name, (set.reverse.lookup name).getD (unsetField name)))

mutual

def toTree : Part → Tree
  | .node kind fields => assemble kind (settings fields)
  | .one _ child => child.toTree
  | .many _ children => .list (toTrees children)
  | .bare _ => .lit .none
  | .leaf v => .lit v

def settings : List Part → List (String × Tree)
  | [] => []
  | .one name child :: rest => (name, child.toTree) :: settings rest
  | .many name children :: rest => (name, .list (toTrees children)) :: settings rest
  | _ :: rest => settings rest

def toTrees : List Part → List Tree
  | [] => []
  | p :: ps => p.toTree :: toTrees ps

end

end Part

end PlotAdvisor.Program
