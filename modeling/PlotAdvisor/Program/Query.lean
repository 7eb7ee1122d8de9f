import PlotAdvisor.Program.Marking

/-! Questions about a tree and its text: the text of a range, the innermost node around a range, what
lies below what, the order of nodes and the last part of a node. -/
set_option autoImplicit false

namespace PlotAdvisor.Program

/-! ## Text -/

def mapLast {α : Type} (f : α → α) : List α → List α
  | [] => []
  | [x] => [f x]
  | x :: y :: rest => x :: mapLast f (y :: rest)

def textIn (text : String) (range : Span) : Except Fault String :=
  let lines := Text.Chars.linesKeeping [] text.toList
  match Text.Chars.slice lines (range.start.line - 1) range.stop.line with
  | [] => .error .outOfRange
  | picked =>
    let cutEnd := mapLast (fun l => Text.Chars.slice l 0 range.stop.col) picked
    match cutEnd with
    | [] => .error .outOfRange
    | first :: rest =>
      .ok (String.ofList ((Text.Chars.slice first range.start.col first.length) ++ rest.flatten))

/-! ## Search -/

namespace Tree

mutual

/-- The innermost node whose range contains the given one, children before their parent. -/
def closest (range : Span) : Tree → Option Tree
  | .node kind span fields =>
    match closestInFields range fields with
    | some t => some t
    | none =>
      match span with
      | some s => if s.covers range then some (.node kind span fields) else none
      | none => none
  | .list ts => closestInItems range ts
  | .lit _ => none

def closestInFields (range : Span) : List (String × Tree) → Option Tree
  | [] => none
  | (_, t) :: rest =>
    match closest range t with
    | some found => some found
    | none => closestInFields range rest

def closestInItems (range : Span) : List Tree → Option Tree
  | [] => none
  | t :: rest =>
    match closest range t with
    | some found => some found
    | none => closestInItems range rest

end

def expressionAt (range : Span) (t : Tree) : Option Tree :=
  t.preorder.find? fun n => n.span == some range && isExpression n.kind

end Tree

/-! ## Numbered nodes

A node is known by its number in preorder. The nodes below node `i` are those with the next
`size - 1` numbers. A shared node stands at every place of its class. -/

def sameNode (nodes : Array Tree) (j target : Nat) : Bool :=
  j == target ||
    match nodes[j]?, nodes[target]? with
    | some a, some b => a.kind == b.kind && isShared a.kind
    | _, _ => false

def isBelow (nodes : Array Tree) (i target : Nat) : Bool :=
  match nodes[i]? with
  | none => false
  | some t => (List.range (t.size - 1)).any fun k => sameNode nodes (i + 1 + k) target

def hasAncestorOf (nodes : Array Tree) (target : Nat) (cls : String) : Except Fault Bool := do
  let flags ← (List.range nodes.size).mapM fun i => do
    let t ← orFault nodes[i]? .outOfRange
    let fits ← orFault (t.isA? cls) .noAttribute
    return fits && isBelow nodes i target
  return flags.any id

/-- Positive when the first node starts later, negative when it starts on an earlier line; nodes on one
line count as equal unless the first starts later. -/
def comparePlaces (p q : Place) : Int :=
  if p.line > q.line then 1 else if p.line < q.line then -1 else if p.col > q.col then 1 else 0

def compareNodes (a b : Tree) : Except Fault Int := do
  let p ← orFault a.start? .noAttribute
  let q ← orFault b.start? .noAttribute
  return comparePlaces p q

/-- The children in the order of the text where the grammar has another: entries of a dictionary
display pair by pair, and function, arguments and keyword values of a call by their starts. -/
def orderedChildren (t : Tree) : List Tree :=
  if t.kind == "Dict" then
    ((t.fieldItems "keys").zip (t.fieldItems "values")).flatMap fun p => [p.1, p.2]
  else if t.kind == "Call" then
    let parts := [t.field "func"] ++ t.fieldItems "args" ++
      (t.fieldItems "keywords").map fun kw => kw.field "value"
    Visit.inOrder t.kind Tree.start? parts
  else t.children

inductive LastPart where
  | none
  /-- There is one, which is not named. -/
  | some
  | is (t : Tree)

def lastItem (ts : List Tree) : Except Fault LastPart := do
  return .is (← orFault ts.getLast? .outOfRange)

def lastPart (t : Tree) : Except Fault LastPart :=
  let named (name : String) : Except Fault LastPart := .ok (.is (t.field name))
  match t.kind with
  | "Call" =>
    if !(t.fieldItems "keywords").isEmpty then lastItem (t.fieldItems "keywords")
    else if !(t.fieldItems "args").isEmpty then lastItem (t.fieldItems "args")
    else named "func"
  | "BoolOp" => lastItem (t.fieldItems "values")
  | "BinOp" => named "right"
  | "Compare" => lastItem (t.fieldItems "comparators")
  | "UnaryOp" => named "operand"
  | "Tuple" | "List" | "Set" =>
    if (t.fieldItems "elts").isEmpty then .ok .none else lastItem (t.fieldItems "elts")
  | "Dict" =>
    if (t.fieldItems "values").isEmpty then .ok .none else lastItem (t.fieldItems "values")
  | "Delete" => .error .noAttribute
  | "Return" | "Assign" | "AugAssign" | "Yield" =>
    if (t.field "value").isNone then .ok .none else named "value"
  | "Expr" => named "value"
  | "Assert" => if (t.field "msg").isNone then named "test" else named "msg"
  | "Subscript" =>
    let index := t.field "slice"
    match index.field? "value" with
    | .some v => .ok (.is v)
    | .none =>
      if index.kind != "Slice" then .error (.broken "")
      else if !(index.field "step").isNone then .ok (.is (index.field "step"))
      else if !(index.field "upper").isNone then .ok (.is (index.field "upper"))
      else .ok (.is (index.field "lower"))
  | "For" | "While" | "If" | "With" => .ok .some
  | _ => .ok .none

/-! ## Token columns -/

def columnsInBytes (text : String) (encoding : String) (t : Token) : Except Fault Unit :=
  if t.start.line == 0 || (t.start.col == 0 && t.stop.col == 0) then .ok ()
  else
    let lines := (Text.Chars.splitOn ['\n'] text.toList).map (· ++ ['\n'])
    let check (p : Place) : Except Fault Unit := do
      let line ← orFault lines[(p.line - 1).toNat]? .outOfRange
      if encoding == "utf-8" then
        let _ ← orFault (charsInBytes line p.col.toNat) .undecodable
    do
      check t.start
      check t.stop

def checkColumns (text : String) (tokens : List Token) (last : Except Fault Unit) :
    Except Fault Unit := do
  let encoding := ((tokens.find? fun t => t.kind == .encoding).map Token.string).getD "utf-8"
  if encoding == "iso-8859-1" && text.toList.any fun c => 255 < c.toNat then .error .unencodable
  tokens.forM (columnsInBytes text encoding)
  last

end PlotAdvisor.Program
