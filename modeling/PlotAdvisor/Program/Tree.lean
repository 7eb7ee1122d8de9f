import PlotAdvisor.Program.Span
import PlotAdvisor.Text.Quoted

/-! Syntax trees of Python programs. A node has a class name, a range for the classes that have a
place in the text, and its fields in the order of the grammar; a field holds a node, a list or a
literal.

* `Tree.children` - the nodes directly below, fields in order, lists item by item.
* `Tree.preorder` - all nodes, each before those below it. A node's number is its position here.
-/
set_option autoImplicit false

namespace PlotAdvisor.Program

/-- A value that stands in the tree itself. Numbers that are not integers, and bytes, are kept in
their written form. -/
inductive Literal where
  | none
  | bool (b : Bool)
  | int (n : Int)
  | text (s : String)
  | real (written : String)
  | imaginary (written : String)
  | bytes (written : String)
  | ellipsis
  deriving DecidableEq, Inhabited, Repr

namespace Literal

def render : Literal → String
  | .none => "None"
  | .bool b => if b then "True" else "False"
  | .int n => toString n
  | .text s => Text.quoted s
  | .real w => w
  | .imaginary w => w
  | .bytes w => w
  | .ellipsis => "Ellipsis"

def isFalsy : Literal → Bool
  | .none => true
  | .bool b => !b
  | .int n => n == 0
  | .text s => s == ""
  | .real w => w == "0.0" || w == "-0.0"
  | .imaginary w => w == "0j"
  | .bytes w => w == "b''"
  | .ellipsis => false

end Literal

inductive Tree where
  | node (kind : String) (span : Option Span) (fields : List (String × Tree))
  | list (items : List Tree)
  | lit (value : Literal)
  deriving Inhabited

namespace Tree

def isNode : Tree → Bool
  | .node .. => true
  | _ => false

/-- The class name of a node, empty for anything else. -/
def kind : Tree → String
  | .node k _ _ => k
  | _ => ""

def span : Tree → Option Span
  | .node _ s _ => s
  | _ => none

def fields : Tree → List (String × Tree)
  | .node _ _ fs => fs
  | _ => []

def field? (t : Tree) (name : String) : Option Tree :=
  (t.fields.find? fun f => f.1 == name).map Prod.snd

def field (t : Tree) (name : String) : Tree := (t.field? name).getD (.lit .none)

def items : Tree → List Tree
  | .list ts => ts
  | _ => []

def fieldItems (t : Tree) (name : String) : List Tree := (t.field name).items

def isNone : Tree → Bool
  | .lit .none => true
  | _ => false

def fieldText? (t : Tree) (name : String) : Option String :=
  match t.field name with
  | .lit (.text s) => some s
  | _ => none

def literal? (t : Tree) : Option Literal :=
  match t with
  | .node "Constant" _ _ =>
    match t.field "value" with
    | .lit v => some v
    | _ => none
  | _ => none

def isText (t : Tree) : Bool :=
  match t.literal? with
  | some (.text _) => true
  | _ => false

/-- A literal number; truth values are none. -/
def isNumber (t : Tree) : Bool :=
  match t.literal? with
  | some (.int _) => true
  | some (.real _) => true
  | some (.imaginary _) => true
  | _ => false

def children (t : Tree) : List Tree :=
  t.fields.flatMap fun f =>
    match f.2 with
    | .node k s fs => [.node k s fs]
    | .list ts => ts.filter isNode
    | .lit _ => []

def start? (t : Tree) : Option Place := t.span.map Span.start

/-! ## Walks -/

mutual

def preorder : Tree → List Tree
  | .node k s fs => .node k s fs :: preorderFields fs
  | .list ts => preorderItems ts
  | .lit _ => []

def preorderFields : List (String × Tree) → List Tree
  | [] => []
  | (_, t) :: rest => preorder t ++ preorderFields rest

def preorderItems : List Tree → List Tree
  | [] => []
  | t :: rest => preorder t ++ preorderItems rest

end

def size (t : Tree) : Nat := t.preorder.length

end Tree

end PlotAdvisor.Program
