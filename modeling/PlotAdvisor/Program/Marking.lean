import PlotAdvisor.Fault
import PlotAdvisor.Program.Kind

/-! Marking the text ranges of a tree. A parser counts columns in bytes; here every node gets the
range of its text in characters, and a keyword of a call gets the range of its name.

The work is done on a `Visit`: the tree with its nodes numbered in preorder and with the children that
are visited, in natural order. It has two steps.

* `Visit.settle` moves the start of every node, children first: a literal text starts at the next
  string token, an operation, call, attribute or subscript not after its first operand, and any other
  column is turned from bytes into characters.
* `Visit.mark` finds the end of every node, last child first: among the tokens between the start of the
  node and the start of what follows it, those that do not belong to it are stripped from the end.

`mark text tokens tree` does both and puts the ranges into the tree.
-/
set_option autoImplicit false

namespace PlotAdvisor.Program

/-! ## What is visited -/

structure KeywordSite where
  number : Nat
  name : Option String
  valueNumber : Option Nat

/-- What marking needs to know about a node. -/
structure Site where
  number : Nat
  kind : String
  start : Option Place
  isText : Bool
  /-- The operand that a node may not start after, and whether it is a literal text. -/
  anchor : Option (Nat × Bool)
  keywords : List KeywordSite
  /-- A call without arguments. -/
  bare : Bool

inductive Visit where
  /-- An entry of a dictionary display that has no key. -/
  | missing
  | node (site : Site) (children : List Visit)

namespace Visit

def number : Visit → Nat
  | .missing => 0
  | .node s _ => s.number

def start? : Visit → Option Place
  | .missing => none
  | .node s _ => s.start

def children : Visit → List Visit
  | .missing => []
  | .node _ vs => vs

def inOrder {α : Type} (kind : String) (start : α → Option Place) (xs : List α) : List α :=
  if kind == "Call" then
    xs.mergeSort fun a b =>
      match start a, start b with
      | some p, some q => p.atOrBefore q
      | _, _ => true
  else xs

end Visit

/-- The field whose node a node of this class may not start after. -/
def anchorField (kind : String) : Option String :=
  if kind == "BinOp" then some "left"
  else if kind == "Call" then some "func"
  else if kind == "Attribute" || kind == "Subscript" || kind == "Expr" then some "value"
  else none

def pairKeys : List Tree → List Visit → List Visit
  | [], _ => []
  | .node _ _ _ :: ts, v :: vs => v :: pairKeys ts vs
  | .node _ _ _ :: ts, [] => .missing :: pairKeys ts []
  | _ :: ts, vs => .missing :: pairKeys ts vs

/-- The nodes directly below a node, each with its visit, by the names of their fields. -/
abbrev FieldVisits := List (String × List (Tree × Visit))

namespace FieldVisits

def named (below : FieldVisits) (name : String) : List (Tree × Visit) :=
  (below.filter fun f => f.1 == name).flatMap Prod.snd

/-- The children of a node that are visited: of a dictionary the keys with their values, of a call the values of its
keywords in their place. -/
def children (below : FieldVisits) (t : Tree) : List Visit :=
  if t.kind == "Dict" then
    let values := (below.named "values").map Prod.snd
    let keys := pairKeys (t.fieldItems "keys") ((below.named "keys").map Prod.snd)
    (keys.zip values).flatMap fun p => [p.1, p.2]
  else if t.kind == "Call" then
    (below.named "func" ++ below.named "args").map Prod.snd ++ (below.named "keywords").flatMap fun kw => kw.2.children
  else (below.flatMap Prod.snd).map Prod.snd

def site (below : FieldVisits) (n : Nat) (t : Tree) : Site where
  number := n
  kind := t.kind
  start := t.start?
  isText := t.isText
  anchor := (anchorField t.kind).bind fun name => (below.named name).head?.map fun p => (p.2.number, p.1.isText)
  keywords :=
    if t.kind == "Call" then
      (below.named "keywords").map fun kw =>
        ⟨kw.2.number, kw.1.fieldText? "arg", kw.2.children.head?.map Visit.number⟩
    else []
  bare := t.kind == "Call" && (t.fieldItems "args").isEmpty && (t.fieldItems "keywords").isEmpty

end FieldVisits

mutual

def visitsOf (n : Nat) : Tree → List (Tree × Visit) × Nat
  | .node kind span fields =>
    let (below, next) := visitsOfFields (n + 1) fields
    let t := Tree.node kind span fields
    ([(t, .node (below.site n t) (below.children t))], next)
  | .list ts => visitsOfItems n ts
  | .lit _ => ([], n)

def visitsOfFields (n : Nat) : List (String × Tree) → FieldVisits × Nat
  | [] => ([], n)
  | (name, t) :: rest =>
    let (here, next) := visitsOf n t
    let (others, last) := visitsOfFields next rest
    ((name, here) :: others, last)

def visitsOfItems (n : Nat) : List Tree → List (Tree × Visit) × Nat
  | [] => ([], n)
  | t :: rest =>
    let (here, next) := visitsOf n t
    let (others, last) := visitsOfItems next rest
    (here ++ others, last)

end

/-! ## Starts -/

def charsInBytes : List Char → Nat → Option Nat
  | [], _ => some 0
  | c :: cs, n =>
    if n = 0 then some 0
    else if c.utf8Size ≤ n then (charsInBytes cs (n - c.utf8Size)).map (· + 1)
    else none

/-- Settling uses up the string tokens of the text in order. -/
abbrev Settling := StateT (List Token) (Except Fault)

def startOf? (vs : List Visit) (number : Nat) : Option Place :=
  (vs.find? fun v => v.number == number).bind Visit.start?

def placeInChars (lines : List (List Char)) (p : Place) : Except Fault Place := do
  let line ← orFault lines[(p.line - 1).toNat]? .outOfRange
  let col ← orFault (charsInBytes line p.col.toNat) .undecodable
  return ⟨p.line, col⟩

def settledStart (lines : List (List Char)) (site : Site) (children : List Visit) :
    Settling (Option Place) := fun strings =>
  let anchorStart := site.anchor.bind fun a => startOf? children a.1
  let anchorIsText := (site.anchor.map Prod.snd).getD false
  if site.isText then
    match strings with
    | [] => .error .outOfRange
    | t :: rest => .ok (some t.start, rest)
  else if (site.kind == "Expr" || site.kind == "Attribute") && anchorIsText then
    .ok (anchorStart, strings)
  else
    match site.start, anchorStart with
    | some p, some a =>
      if site.kind != "Expr" && a.before p then .ok (some a, strings)
      else (placeInChars lines p).map fun q => (some q, strings)
    | some p, none => (placeInChars lines p).map fun q => (some q, strings)
    | none, _ => .ok (none, strings)

def settleInOrder (kind : String) (steps : List (Visit × Settling Visit)) : Settling (List Visit) := do
  let done ← (Visit.inOrder kind (fun s => s.1.start?) steps).mapM Prod.snd
  return if kind == "Call" then done.mergeSort fun a b => decide (a.number ≤ b.number) else done

namespace Visit

mutual

def settle (lines : List (List Char)) : Visit → Settling Visit
  | .missing => throw .noAttribute
  | .node site children => do
    let settled ← settleInOrder site.kind (settleSteps lines children)
    let start ← settledStart lines site settled
    return .node { site with start } settled

def settleSteps (lines : List (List Char)) : List Visit → List (Visit × Settling Visit)
  | [] => []
  | v :: vs => (v, settle lines v) :: settleSteps lines vs

end

end Visit

/-! ## Ends -/

def Token.opens (t : Token) : Bool := ["(", "\x7b", "["].contains t.string

def Token.closes (t : Token) : Bool := [")", "\x7d", "]"].contains t.string

def tokensBetween (start stop : Place) (ts : List Token) : List Token :=
  ts.filter fun t => start.atOrBefore t.start && t.stop.atOrBefore stop && t.string != ""

def stripEnd (p : Token → Bool) (ts : List Token) : Except Fault (List Token) :=
  let kept := (ts.reverse.dropWhile p).reverse
  if kept.isEmpty then .error .outOfRange else .ok kept

/-- What may stand behind a statement, up to the next. -/
def endsStatement (t : Token) : Bool :=
  [.blankLine, .comment, .newline, .indent].contains t.kind ||
    [":", "else", "elif", "finally", "except"].contains t.string

def endsNoExpression (t : Token) : Bool :=
  (!([.name, .number, .text].contains t.kind) && !t.closes) ||
    ["and", "as", "assert", "class", "def", "del", "elif", "else", "except", "exec", "finally", "for",
      "from", "global", "if", "import", "in", "is", "lambda", "not", "or", "try", "while", "with",
      "yield"].contains t.string

def beforeExtraCloser (commaEnds : Bool) : Int → List Token → List Token
  | _, [] => []
  | level, t :: ts =>
    let level := if t.opens then level + 1 else if t.closes then level - 1 else level
    if (level == 0 && t.string == "," && commaEnds) || level < 0 then []
    else t :: beforeExtraCloser commaEnds level ts

def beforeUnclosed : Int → List Token → List Token → List Token
  | _, kept, [] => kept
  | level, kept, t :: rest =>
    let level := if t.opens then level - 1 else if t.closes then level + 1 else level
    if level < 0 then beforeUnclosed 0 rest rest else beforeUnclosed level kept rest

def lastToken (ts : List Token) : Except Fault Token := orFault ts.getLast? .outOfRange

def realEnd (site : Site) (ts : List Token) : Except Fault (Place × List Token) := do
  let own ←
    if isStatement site.kind then stripEnd endsStatement ts
    else
      let ts := beforeExtraCloser (site.kind != "Tuple") 0 ts
      let ts := (beforeUnclosed 0 ts.reverse ts.reverse).reverse
      stripEnd endsNoExpression ts
  let last ← lastToken own
  if site.bare then
    ensure (last.string == ")") ""
    return (last.stop, ← stripEnd endsNoExpression own.dropLast)
  else if site.kind == "Attribute" then
    ensure (last.kind == .name) ""
    return (last.stop, ← stripEnd endsNoExpression own.dropLast)
  else return (last.stop, own)

def nameBefore? (ts : List Token) (p : Place) : Option Token :=
  ts.reverse.find? fun t => t.kind == .name && t.start.before p

/-- The range of a keyword is that of the last name before its value. -/
def keywordSpan (ts : List Token) (children : List Visit) (kw : KeywordSite) :
    Except Fault (Nat × Span) := do
  let value ← orFault (kw.valueNumber.bind (startOf? children)) (.broken "")
  let t ← orFault (nameBefore? ts value) (.broken "")
  ensure (some t.string == kw.name) ""
  return (kw.number, ⟨t.start, t.stop⟩)

/-- The ranges found so far by the number of their node, and the start of what was visited last. -/
abbrev Marks := Place × List (Nat × Span)

abbrev MarkStep := List Token → Place → Except Fault Marks

/-- Visits the children from the last to the first, each up to the start of the one behind it. -/
def markBackward (ts : List Token) : List MarkStep → Marks → Except Fault Marks
  | [], m => .ok m
  | step :: steps, m => do
    let (front, found) ← step ts m.1
    markBackward ts steps (front, found ++ m.2)

namespace Visit

mutual

def mark : Visit → MarkStep
  | .missing, _, _ => .error .noAttribute
  | .node site children, ts, stop => do
    let (own, ts) ←
      match site.start with
      | none => pure ([], ts)
      | some start =>
        let (last, rest) ← realEnd site (tokensBetween start stop ts)
        pure ([(site.number, Span.mk start last)], rest)
    let steps := inOrder site.kind (fun s => s.1.start?) (markSteps children)
    let (front, found) ← markBackward ts (steps.map Prod.snd).reverse (stop, own)
    let keywords ← site.keywords.mapM (keywordSpan ts children)
    return (site.start.getD front, keywords ++ found)

def markSteps : List Visit → List (Visit × MarkStep)
  | [] => []
  | v :: vs => (v, mark v) :: markSteps vs

end

end Visit

/-! ## The marked tree -/

mutual

def respan (ranges : List (Nat × Span)) (n : Nat) : Tree → Tree × Nat
  | .node kind span fields =>
    let (fields, next) := respanFields ranges (n + 1) fields
    (.node kind ((ranges.lookup n).or span) fields, next)
  | .list ts =>
    let (ts, next) := respanItems ranges n ts
    (.list ts, next)
  | .lit v => (.lit v, n)

def respanFields (ranges : List (Nat × Span)) (n : Nat) :
    List (String × Tree) → List (String × Tree) × Nat
  | [] => ([], n)
  | (name, t) :: rest =>
    let (t, next) := respan ranges n t
    let (rest, last) := respanFields ranges next rest
    ((name, t) :: rest, last)

def respanItems (ranges : List (Nat × Span)) (n : Nat) : List Tree → List Tree × Nat
  | [] => ([], n)
  | t :: rest =>
    let (t, next) := respan ranges n t
    let (rest, last) := respanItems ranges next rest
    (t :: rest, last)

end

def rangesOf (text : String) (tokens : List Token) (tree : Tree) : Except Fault (List (Nat × Span)) := do
  let lines := Text.Chars.linesKeeping [] text.toList
  let strings := tokens.filter fun t => t.kind == .text
  let stop : Place := ⟨lines.length, ((lines.getLast?.map List.length).getD 0 : Nat)⟩
  match (visitsOf 0 tree).1 with
  | [] => return []
  | (_, v) :: _ =>
    let (v, _) ← (v.settle lines).run strings
    let (_, ranges) ← v.mark tokens stop
    return ranges

def mark (text : String) (tokens : Except Fault (List Token)) (tree : Tree) : Except Fault Tree := do
  ensure (!(Text.trim text).isEmpty) "source must be non-empty"
  let ranges ← rangesOf text (← tokens) tree
  return (respan ranges 0 tree).1

end PlotAdvisor.Program
