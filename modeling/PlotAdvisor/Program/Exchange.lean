import PlotAdvisor.Datum.Exchange
import PlotAdvisor.Program.Query

/-! How trees, tokens and ranges are exchanged. A node is `[class, range, [[field, value], …]]`, a list
`{"l": items}`, and a literal stands for itself or names its kind. -/
set_option autoImplicit false

namespace PlotAdvisor.Program

instance : FromDatum Place := ⟨fun d => do
  let (l, c) ← (fromDatum d : Option (Int × Int))
  return ⟨l, c⟩⟩

instance : FromDatum Span := ⟨fun d => do
  let (l, c, el, ec) ← (fromDatum d : Option (Int × Int × Int × Int))
  return Span.of l c el ec⟩

instance : ToDatum Span := ⟨fun s => toDatum (s.start.line, s.start.col, s.stop.line, s.stop.col)⟩

def literalOf? : Datum → Option Literal
  | .null => some .none
  | .bool b => some (.bool b)
  | .int n => some (.int n)
  | .text s => some (.text s)
  | .points codes => (fromDatum (.points codes) : Option String).map .text
  | .object [("i", .text ds)] =>
    match ds.toList with
    | '-' :: rest => some (.int (-(Nat.ofDigitChars 10 rest 0 : Nat)))
    | cs => some (.int (Nat.ofDigitChars 10 cs 0 : Nat))
  | .object [("d", .text w)] => some (.real w)
  | .object [("c", .text w)] => some (.imaginary w)
  | .object [("y", .text w)] => some (.bytes w)
  | .object [("e", _)] => some .ellipsis
  | _ => none

mutual

def treeOf? : Datum → Option Tree
  | .list [.text kind, range, .list fields] => do
    return .node kind (← (fromDatum range : Option (Option Span))) (← treeFieldsOf? fields)
  | .object [("l", .list items)] => do return .list (← treeItemsOf? items)
  | d => (literalOf? d).map .lit

def treeFieldsOf? : List Datum → Option (List (String × Tree))
  | [] => some []
  | .list [.text name, value] :: rest => do
    return (name, ← treeOf? value) :: (← treeFieldsOf? rest)
  | _ :: _ => none

def treeItemsOf? : List Datum → Option (List Tree)
  | [] => some []
  | d :: rest => do return (← treeOf? d) :: (← treeItemsOf? rest)

end

instance : FromDatum Tree := ⟨treeOf?⟩

def Token.Kind.ofName (name : String) : Token.Kind :=
  match name with
  | "NAME" => .name
  | "NUMBER" => .number
  | "STRING" => .text
  | "OP" => .operator
  | "NEWLINE" => .newline
  | "NL" => .blankLine
  | "COMMENT" => .comment
  | "INDENT" => .indent
  | "ENCODING" => .encoding
  | _ => .other

/-- The tokens of a text as far as there are any, and how they end. -/
structure Tokens where
  tokens : List Token
  last : Except Fault Unit

def Tokens.all (ts : Tokens) : Except Fault (List Token) := do
  ts.last
  return ts.tokens

def tokensFrom : List Datum → Option Tokens
  | [] => some ⟨[], .ok ()⟩
  | .list [.text "TokenError"] :: _ => some ⟨[], .error .unfinishedToken⟩
  | .list [.text "SyntaxError"] :: _ => some ⟨[], .error .unparsable⟩
  | d :: rest => do
    let (kind, string, start, stop) ← (fromDatum d : Option (String × String × Place × Place))
    let more ← tokensFrom rest
    return ⟨⟨.ofName kind, string, start, stop⟩ :: more.tokens, more.last⟩

instance : FromDatum Tokens := ⟨fun d =>
  match d with
  | .list items => tokensFrom items
  | _ => none⟩

/-- A node by its class and range; nothing, yes, or the written form of a literal. -/
def nodeRef : Tree → Datum
  | .node kind none _ => toDatum [kind]
  | .node kind (some s) _ =>
    toDatum (kind, s.start.line, s.start.col, s.stop.line, s.stop.col)
  | .lit .none => .null
  | .lit (.bool true) => .bool true
  | .lit v => .text v.render
  | .list _ => .null

instance : ToDatum LastPart := ⟨fun p =>
  match p with
  | .none => .null
  | .some => .bool true
  | .is t => nodeRef t⟩

/-- What is known of program texts: the tree of each, or that it has none; and its tokens. -/
structure Parses where
  trees : List (String × Option Tree)
  tokens : List (String × Tokens)

namespace Parses

def tree (p : Parses) (code : String) : Except Fault Tree :=
  match p.trees.lookup code with
  | some (some t) => .ok t
  | _ => .error .unparsable

def tokensOf (p : Parses) (code : String) : Except Fault (List Token) :=
  match p.tokens.lookup code with
  | some ts => ts.all
  | none => .ok []

def marked (p : Parses) (code : String) : Except Fault Tree := do
  mark code (p.tokensOf code) (← p.tree code)

def ofDatum (d : Datum) : Option Parses := do
  let trees : List (String × Option Tree) ← if d.hasField "trees" then fromDatum (d.field "trees") else some []
  let tokens : List (String × Tokens) ←
    if d.hasField "tokens" then fromDatum (d.field "tokens") else some []
  return ⟨trees, tokens⟩

end Parses

/-! ## Questions about trees -/

structure Numbered where
  text : String
  tree : Tree
  nodes : Array Tree

namespace Numbered

def of (text : String) (tree : Tree) : Numbered := ⟨text, tree, tree.preorder.toArray⟩

def node (n : Numbered) (i : Int) : Except Fault Tree := orFault n.nodes[i.toNat]? .outOfRange

def answer (n : Numbered) : List Datum → Except Fault Reply
  | [.text "text", r] => do return .one (toDatum (← textIn n.text (← r.as Span)))
  | [.text "closest", r] => do return .one (toDatum ((n.tree.closest (← r.as Span)).map nodeRef))
  | [.text "expr", r] => do return .one (toDatum ((n.tree.expressionAt (← r.as Span)).map nodeRef))
  | [.text "contains", .int i, .int j] => .ok (.one (toDatum (isBelow n.nodes i.toNat j.toNat)))
  | [.text "has_parent", .int i, .text cls] => do return .one (toDatum (← hasAncestorOf n.nodes i.toNat cls))
  | [.text "cmp", .int i, .int j] => do return .one (toDatum (← compareNodes (← n.node i) (← n.node j)))
  | [.text "last"] => .ok (.each (n.nodes.toList.map fun t => toDatum <$> lastPart t))
  | [.text "ordered"] => .ok (.one (.list (n.nodes.toList.map fun t => .list ((orderedChildren t).map nodeRef))))
  | _ => .error .wrongKind

end Numbered

end PlotAdvisor.Program
