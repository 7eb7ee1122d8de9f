import PlotAdvisor.Text.Integer

/-! Files of word vectors: a line with the number of words and their size, then each word up to a blank,
followed by its values of four bytes, the lowest byte first. Line ends in front of or inside a word are left
out.

* `readWithin` - reads a file with a bound on the reads for a word, into a table of any kind.
* `readRows` - the words, and a row of values for each.
* `readFlat` - the words, and all values in one list.
-/
set_option autoImplicit false

namespace PlotAdvisor.Models.Vectors

/-- The number of words and the size of the vectors. -/
structure Header where
  count : Int
  size : Int
  deriving DecidableEq

def cutLine (bytes : List Nat) : List Nat × List Nat :=
  (bytes.takeWhile (· ≠ 10), (bytes.dropWhile (· ≠ 10)).drop 1)

def readHeader (bytes : List Nat) : Except Fault (Header × List Nat) := do
  let (line, rest) := cutLine bytes
  match Text.Chars.asciiWords (line.map Char.ofNat) with
  | [count, size] =>
    let count ← Text.readIntOfBytes 10 count
    let size ← Text.readIntOfBytes 10 size
    return (⟨count, size⟩, rest)
  | _ => throw (.broken "")

def readWordUpTo : Nat → List Nat → List Nat → Except Fault (List Nat × List Nat)
  | 0, _, _ => .error .unending
  | reads + 1, word, [] => readWordUpTo reads word []
  | reads + 1, word, b :: bytes =>
    if b = 10 ∨ b = 13 then readWordUpTo reads word bytes
    else if b = 32 then .ok (word.reverse, bytes)
    else readWordUpTo reads (b :: word) bytes

def readWord (reads : Nat) (bytes : List Nat) : Except Fault (String × List Nat) := do
  let (word, rest) ← readWordUpTo reads [] bytes
  return (String.ofList (word.map Char.ofNat), rest)

/-- How values are kept: the table to begin with, and the table with a value put into it, by the numbers of
the word and of the value in its vector. -/
structure Store (α τ : Type) where
  start : Header → Except Fault τ
  put : Header → Nat → Nat → α → τ → τ

section
variable {α τ : Type}

def Store.rows (zero : α) : Store α (List (List α)) where
  start h :=
    if h.count < 0 ∨ h.size < 0 then .error (.badValue "negative dimensions are not allowed")
    else .ok (List.replicate h.count.toNat (List.replicate h.size.toNat zero))
  put _ i j x t := t.modify i fun row => row.set j x

def Store.flat (zero : α) : Store α (List α) where
  start h := .ok (List.replicate (h.count * h.size).toNat zero)
  put h i j x t := t.set (i * h.size.toNat + j) x

def readValues (valueOf : Nat → α) (put : Nat → α → τ → τ) : Nat → Nat → τ → List Nat → Except Fault (τ × List Nat)
  | 0, _, t, bytes => .ok (t, bytes)
  | n + 1, j, t, a :: b :: c :: d :: bytes =>
    readValues valueOf put n (j + 1) (put j (valueOf (a + 256 * (b + 256 * (c + 256 * d)))) t) bytes
  | _ + 1, _, _, _ => .error .shortRecord

def readEntries (reads : Nat) (store : Store α τ) (valueOf : Nat → α) (h : Header) :
    Nat → Nat → τ → List Nat → Except Fault (List String × τ)
  | 0, _, t, _ => .ok ([], t)
  | n + 1, i, t, bytes => do
    let (word, bytes) ← readWord reads bytes
    let (t, bytes) ← readValues valueOf (store.put h i) h.size.toNat 0 t bytes
    let (words, t) ← readEntries reads store valueOf h n (i + 1) t bytes
    return (word :: words, t)

structure Contents (τ : Type) where
  header : Header
  words : List String
  values : τ

def readWithin (reads : Nat) (store : Store α τ) (valueOf : Nat → α) (bytes : List Nat) :
    Except Fault (Contents τ) := do
  let (h, rest) ← readHeader bytes
  let t ← store.start h
  let (words, t) ← readEntries reads store valueOf h h.count.toNat 0 t rest
  return ⟨h, words, t⟩

def readFile (store : Store α τ) (valueOf : Nat → α) (bytes : List Nat) : Except Fault (Contents τ) :=
  readWithin bytes.length store valueOf bytes

def readRows (valueOf : Nat → α) (bytes : List Nat) : Except Fault (Contents (List (List α))) :=
  readFile (.rows (valueOf 0)) valueOf bytes

def readFlat (valueOf : Nat → α) (bytes : List Nat) : Except Fault (Contents (List α)) :=
  readFile (.flat (valueOf 0)) valueOf bytes

end

def single (bits : Nat) : Float := (Float32.ofBits bits.toUInt32).toFloat

end PlotAdvisor.Models.Vectors
