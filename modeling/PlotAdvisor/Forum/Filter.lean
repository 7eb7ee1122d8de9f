import PlotAdvisor.Forum.Post

/-! Filters on posts, as they are written in queries: conditions joined by `AND`, then an order, then a limit.

* `Filter.apply` - the posts that pass, sorted, the first few of them.
* `Filter.read` - the filter of a text.
* `visits` - the questions that pass a filter, with the answers that pass another.
-/
set_option autoImplicit false

namespace PlotAdvisor.Forum

inductive Comparison where
  | equal
  | unequal
  | less
  | atMost
  | greater
  | atLeast
  deriving DecidableEq, Inhabited

def Comparison.holds (c : Comparison) (a b : Int) : Bool :=
  match c with
  | .equal => a == b
  | .unequal => a != b
  | .less => decide (a < b)
  | .atMost => decide (a ≤ b)
  | .greater => decide (b < a)
  | .atLeast => decide (b ≤ a)

inductive Condition where
  | compare (column : String) (c : Comparison) (n : Int)
  /-- The text fits a pattern, in which `%` stands for anything and `_` for one character. -/
  | like (column pattern : String)
  | missing (column : String) (isMissing : Bool)
  deriving Inhabited

/-- Letters of the Latin alphabet count the same in both cases. -/
def sameLetter (a b : Char) : Bool := a.toLower == b.toLower

/-- Whether a text fits a pattern. The fuel bounds the steps; both lengths together are enough. -/
def fitsUpTo : Nat → List Char → List Char → Bool
  | 0, _, _ => false
  | _ + 1, [], s => s.isEmpty
  | fuel + 1, '%' :: p, s =>
    fitsUpTo fuel p s || (match s with
      | [] => false
      | _ :: rest => fitsUpTo fuel ('%' :: p) rest)
  | _ + 1, _ :: _, [] => false
  | fuel + 1, c :: p, d :: rest => (c == '_' || sameLetter c d) && fitsUpTo fuel p rest

def fits (pattern text : String) : Bool :=
  fitsUpTo (pattern.length + text.length + 1) pattern.toList text.toList

def Condition.holds (p : Post) : Condition → Bool
  | .compare column c n =>
    match p.cell column with
    | some (.number m) => c.holds m n
    | some (.text _) => [Comparison.unequal, .greater, .atLeast].contains c
    | _ => false
  | .like column pattern =>
    match p.cell column with
    | some (.text s) => fits pattern s
    | some (.number n) => fits pattern (toString n)
    | _ => false
  | .missing column isMissing => (p.cell column == some .missing) == isMissing

structure Filter where
  conditions : List Condition := []
  /-- Columns to sort by, and whether from the largest on. -/
  order : List (String × Bool) := []
  limit : Option Nat := none
  deriving Inhabited

def Cell.le : Cell → Cell → Bool
  | .missing, _ => true
  | _, .missing => false
  | .number a, .number b => decide (a ≤ b)
  | .number _, .text _ => true
  | .text _, .number _ => false
  | .text a, .text b => decide (a ≤ b)

def Filter.le (columns : List (String × Bool)) (p q : Post) : Bool :=
  match columns with
  | [] => true
  | (c, falling) :: rest =>
    let a := (p.cell c).getD .missing
    let b := (q.cell c).getD .missing
    if a = b then Filter.le rest p q else if falling then b.le a else a.le b

def Filter.apply (f : Filter) (posts : List Post) : List Post :=
  let passed := posts.filter fun p => f.conditions.all fun c => c.holds p
  let sorted := if f.order.isEmpty then passed else passed.mergeSort (Filter.le f.order)
  match f.limit with
  | some n => sorted.take n
  | none => sorted

/-! ## Reading -/

inductive Lexeme where
  | word (s : String)
  | number (n : Int)
  | text (s : String)
  | mark (s : String)
  deriving DecidableEq, Inhabited

def isWordPart (c : Char) : Bool := c.isAlphanum || c == '_'

def quotedText : List Char → Option (List Char × List Char)
  | [] => none
  | '\'' :: '\'' :: rest => (quotedText rest).map fun (s, r) => ('\'' :: s, r)
  | '\'' :: rest => some ([], rest)
  | c :: rest => (quotedText rest).map fun (s, r) => (c :: s, r)

def marks : List String := ["<=", ">=", "<>", "!=", "==", "=", "<", ">", ","]

def lexemesUpTo : Nat → List Char → Option (List Lexeme)
  | _, [] => some []
  | 0, _ :: _ => none
  | fuel + 1, c :: rest =>
    if c.isWhitespace then lexemesUpTo fuel rest
    else if c == '\'' then do
      let (s, rest) ← quotedText rest
      return .text (String.ofList s) :: (← lexemesUpTo fuel rest)
    else if c.isDigit || (c == '-' && (rest.head?.map Char.isDigit).getD false) then do
      let digits := if c == '-' then rest.takeWhile Char.isDigit else (c :: rest).takeWhile Char.isDigit
      let after := if c == '-' then rest.dropWhile Char.isDigit else (c :: rest).dropWhile Char.isDigit
      let n : Int := Nat.ofDigitChars 10 digits 0
      return .number (if c == '-' then -n else n) :: (← lexemesUpTo fuel after)
    else if isWordPart c then do
      let word := (c :: rest).takeWhile isWordPart
      return .word (String.ofList (word.map Char.toLower)) :: (← lexemesUpTo fuel ((c :: rest).dropWhile isWordPart))
    else do
      let m ← marks.find? fun m => Text.Chars.startsWith m.toList (c :: rest)
      return .mark m :: (← lexemesUpTo fuel ((c :: rest).drop m.length))

def comparisonOf : String → Option Comparison
  | "=" | "==" => some .equal
  | "<>" | "!=" => some .unequal
  | "<" => some .less
  | "<=" => some .atMost
  | ">" => some .greater
  | ">=" => some .atLeast
  | _ => none

def readLimit : List Lexeme → Option (Option Nat)
  | [] => some none
  | [.word "limit", .number n] => some (if n < 0 then none else some n.toNat)
  | _ => none

def readOrder : List Lexeme → Option (List (String × Bool) × Option Nat)
  | .word c :: .word "desc" :: .mark "," :: rest => (readOrder rest).map fun (o, l) => ((c, true) :: o, l)
  | .word c :: .word "asc" :: .mark "," :: rest => (readOrder rest).map fun (o, l) => ((c, false) :: o, l)
  | .word c :: .mark "," :: rest => (readOrder rest).map fun (o, l) => ((c, false) :: o, l)
  | .word c :: .word "desc" :: rest => (readLimit rest).map fun l => ([(c, true)], l)
  | .word c :: .word "asc" :: rest => (readLimit rest).map fun l => ([(c, false)], l)
  | .word c :: rest => (readLimit rest).map fun l => ([(c, false)], l)
  | _ => none

def readTail : List Lexeme → Option Filter
  | .word "order" :: .word "by" :: rest => (readOrder rest).map fun (o, l) => { order := o, limit := l }
  | rest => (readLimit rest).map fun l => { limit := l }

def readConditions : List Lexeme → Option Filter
  | .word c :: .word "like" :: .text p :: rest => further (.like c p) rest
  | .word c :: .word "is" :: .word "not" :: .word "null" :: rest => further (.missing c false) rest
  | .word c :: .word "is" :: .word "null" :: rest => further (.missing c true) rest
  | .word c :: .mark m :: .number n :: rest => do further (.compare c (← comparisonOf m) n) rest
  | _ => none
where
  further (c : Condition) : List Lexeme → Option Filter
  | .word "and" :: rest => (readConditions rest).map fun f => { f with conditions := c :: f.conditions }
  | rest => (readTail rest).map fun f => { f with conditions := [c] }

def Filter.read (text : String) : Except Fault Filter :=
  orFault ((lexemesUpTo text.length text.toList).bind readConditions) .wrongKind

/-! ## Threads

The questions of a forum with their answers. A question without answers is no thread. -/

def progressStep : Nat := 1000

/-- A question gone through: what is told before it, and its thread. -/
structure Visited where
  told : String
  thread : Option Thread

def threadOf (answers : Filter) (posts : List Post) (q : Post) : Option Thread :=
  match answers.apply (posts.filter fun p => p.parent == some q.id) with
  | [] => none
  | as => some ⟨q.id, q.title, q.body, q.score, as.map fun a => ⟨a.id, a.body, a.score⟩⟩

def visits (questions answers : Filter) (posts : List Post) : List Visited :=
  (questions.apply posts).zipIdx.map fun (q, i) =>
    ⟨if (i + 1) % progressStep = 0 then toString (i + 1) ++ "\n" else "", threadOf answers posts q⟩

def threads (vs : List Visited) : List Thread := vs.filterMap Visited.thread

end PlotAdvisor.Forum
