import PlotAdvisor.Text.Character

/-! Cutting, joining and searching text. The work is done on lists of characters, so that every
function is by recursion on the text; the functions on strings below only unpack and pack.

* `Chars.cutAt sep cs` - the text before and after the first `sep`.
* `Chars.splitOn sep cs` - the pieces between the `sep`s.
* `Chars.replace old new cs` - every `old`, from the left, becomes `new`; with `Chars.replaceFirst` only the first.
* `Chars.words cs` - the maximal runs without blanks; `Chars.asciiWords cs` those without the blanks of ASCII.
-/
set_option autoImplicit false

namespace PlotAdvisor.Text.Chars

/-! ## Starts and ends -/

def dropStart? {α : Type} [BEq α] : List α → List α → Option (List α)
  | [], cs => some cs
  | _ :: _, [] => none
  | s :: start, c :: cs => if s == c then dropStart? start cs else none

def startsWith {α : Type} [BEq α] (start cs : List α) : Bool :=
  (dropStart? start cs).isSome

def endsWith {α : Type} [BEq α] (tail cs : List α) : Bool :=
  startsWith tail.reverse cs.reverse

def trimStart (cs : List Char) : List Char := cs.dropWhile isBlank

def trimEnd (cs : List Char) : List Char := (cs.reverse.dropWhile isBlank).reverse

def trim (cs : List Char) : List Char := trimEnd (trimStart cs)

def trimBy (p : Char → Bool) (cs : List Char) : List Char :=
  ((cs.dropWhile p).reverse.dropWhile p).reverse

/-! ## Search -/

def cutAt {α : Type} [BEq α] (sep : List α) : List α → Option (List α × List α)
  | [] => if sep.isEmpty then some ([], []) else none
  | c :: cs =>
    match dropStart? sep (c :: cs) with
    | some rest => some ([], rest)
    | none => (cutAt sep cs).map fun (before, after) => (c :: before, after)

def find? {α : Type} [BEq α] (sep cs : List α) : Option Nat :=
  (cutAt sep cs).map fun p => p.1.length

def contains {α : Type} [BEq α] (sep cs : List α) : Bool := (cutAt sep cs).isSome

def findLast? {α : Type} [BEq α] (sep cs : List α) : Option Nat :=
  (find? sep.reverse cs.reverse).map fun i => cs.length - sep.length - i

/-! ## Pieces -/

def splitFrom {α : Type} [BEq α] (sep : List α) : Nat → List α → List α → List (List α)
  | _, cur, [] => [cur.reverse]
  | skip + 1, cur, _ :: cs => splitFrom sep skip cur cs
  | 0, cur, c :: cs =>
    if startsWith sep (c :: cs) then cur.reverse :: splitFrom sep (sep.length - 1) [] cs
    else splitFrom sep 0 (c :: cur) cs

def splitOn {α : Type} [BEq α] (sep cs : List α) : List (List α) :=
  if sep.isEmpty then [cs] else splitFrom sep 0 [] cs

def joinWith {α : Type} (sep : List α) : List (List α) → List α
  | [] => []
  | [p] => p
  | p :: ps => p ++ sep ++ joinWith sep ps

def replace {α : Type} [BEq α] (old new cs : List α) : List α :=
  joinWith new (splitOn old cs)

def replaceFirst {α : Type} [BEq α] (old new cs : List α) : List α :=
  match cutAt old cs with
  | none => cs
  | some (before, after) => before ++ new ++ after

def wordsFrom (blank : Char → Bool) (run : List Char) : List Char → List (List Char)
  | [] => if run.isEmpty then [] else [run.reverse]
  | c :: cs =>
    if blank c then
      if run.isEmpty then wordsFrom blank [] cs else run.reverse :: wordsFrom blank [] cs
    else wordsFrom blank (c :: run) cs

def words (cs : List Char) : List (List Char) := wordsFrom isBlank [] cs

/-- The words of text that stands for bytes, which only the blanks of ASCII part. -/
def asciiWords (cs : List Char) : List (List Char) := wordsFrom isAsciiBlank [] cs

def linesKeeping (cur : List Char) : List Char → List (List Char)
  | [] => if cur.isEmpty then [] else [cur.reverse]
  | '\r' :: '\n' :: cs => ('\n' :: '\r' :: cur).reverse :: linesKeeping [] cs
  | c :: cs =>
    if isLineEnd c then (c :: cur).reverse :: linesKeeping [] cs else linesKeeping (c :: cur) cs

def lines (cur : List Char) : List Char → List (List Char)
  | [] => if cur.isEmpty then [] else [cur.reverse]
  | '\r' :: '\n' :: cs => cur.reverse :: lines [] cs
  | c :: cs => if isLineEnd c then cur.reverse :: lines [] cs else lines (c :: cur) cs

/-- The items from `lo` up to `hi`; a negative bound counts from the end, and bounds outside are
moved to the nearest end. -/
def slice {α : Type} (cs : List α) (lo hi : Int) : List α :=
  let n : Int := cs.length
  let fit (i : Int) : Nat := (if i < 0 then max 0 (i + n) else min i n).toNat
  (cs.take (fit hi)).drop (fit lo)

end PlotAdvisor.Text.Chars

namespace PlotAdvisor.Text

/-! ## The same on strings -/

def startsWith (s start : String) : Bool := Chars.startsWith start.toList s.toList

def endsWith (s tail : String) : Bool := Chars.endsWith tail.toList s.toList

def has (s part : String) : Bool := Chars.contains part.toList s.toList

def find? (s part : String) : Option Nat := Chars.find? part.toList s.toList

def splitOn (s sep : String) : List String := (Chars.splitOn sep.toList s.toList).map String.ofList

/-- The text before the first `sep` and, if there is one, the text after it. -/
def splitOnce (s sep : String) : String × Option String :=
  match Chars.cutAt sep.toList s.toList with
  | none => (s, none)
  | some (before, after) => (String.ofList before, some (String.ofList after))

def join (sep : String) (ps : List String) : String :=
  String.ofList (Chars.joinWith sep.toList (ps.map String.toList))

def replace (s old new : String) : String :=
  String.ofList (Chars.replace old.toList new.toList s.toList)

def replaceFirst (s old new : String) : String :=
  String.ofList (Chars.replaceFirst old.toList new.toList s.toList)

def words (s : String) : List String := (Chars.words s.toList).map String.ofList

def trim (s : String) : String := String.ofList (Chars.trim s.toList)

def trimStart (s : String) : String := String.ofList (Chars.trimStart s.toList)

def trimEnd (s : String) : String := String.ofList (Chars.trimEnd s.toList)

def fieldsAtNewline (s : String) : List String := splitOn s "\n"

def slice (s : String) (lo hi : Int) : String := String.ofList (Chars.slice s.toList lo hi)

def lastPart (s sep : String) : String := ((splitOn s sep).getLast?).getD s

def repeated (s : String) (n : Nat) : String := String.join (List.replicate n s)

def padStart (width : Nat) (s : String) : String := repeated " " (width - s.length) ++ s

end PlotAdvisor.Text
