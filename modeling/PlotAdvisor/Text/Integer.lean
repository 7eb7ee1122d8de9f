import PlotAdvisor.Fault
import PlotAdvisor.Text.Quoted

/-! Reading integers. Blanks around the number are left out; a sign may stand in front, then the mark of
the base; digits of all scripts count, and a single underscore may stand between digits. -/
set_option autoImplicit false

namespace PlotAdvisor.Text

/-- The blanks that may stand around a number: white space of all scripts, or of ASCII for ASCII text. -/
def isMargin (ascii : Bool) (c : Char) : Bool := if ascii then isAsciiBlank c else isBlank c

def digitIn (base : Nat) (c : Char) : Option Nat :=
  let v :=
    match digitValue? c with
    | some v => some v
    | none =>
      if 'a' ≤ c ∧ c ≤ 'z' then some (c.toNat - 87)
      else if 'A' ≤ c ∧ c ≤ 'Z' then some (c.toNat - 55)
      else none
  v.filter fun v => decide (v < base)

def digitsFrom (base : Nat) : Bool → Nat → List Char → Option Nat
  | joined, n, [] => if joined then some n else none
  | joined, n, c :: cs =>
    if c == '_' then if joined then digitsFrom base false n cs else none
    else
      match digitIn base c with
      | some v => digitsFrom base true (n * base + v) cs
      | none => none

def baseMark (base : Nat) : List Char → Option (List Char)
  | '0' :: c :: rest =>
    let marked :=
      (base == 16 && (c == 'x' || c == 'X')) || (base == 8 && (c == 'o' || c == 'O')) ||
        (base == 2 && (c == 'b' || c == 'B'))
    if marked then
      match rest with
      | '_' :: more => some more
      | rest => some rest
    else none
  | _ => none

def naturalIn (base : Nat) (cs : List Char) : Option Nat :=
  digitsFrom base false 0 ((baseMark base cs).getD cs)

def integerIn (base : Nat) (margin : Char → Bool) (cs : List Char) : Option Int :=
  match Chars.trimBy margin cs with
  | '-' :: cs => (naturalIn base cs).map fun n => -(n : Int)
  | '+' :: cs => (naturalIn base cs).map fun n => (n : Int)
  | cs => (naturalIn base cs).map fun n => (n : Int)

def readInt? (base : Nat) (s : String) : Option Int :=
  integerIn base (isMargin (s.toList.all fun c => decide (c.toNat < 128))) s.toList

def noInteger (base : Nat) (s : String) : Fault :=
  .badValue ("invalid literal for int() with base " ++ toString base ++ ": " ++ slice (quoted s) 0 200)

/-- The integer of a text, or a fault that shows the text. -/
def readInt (base : Nat) (s : String) : Except Fault Int := orFault (readInt? base s) (noInteger base s)

/-- The integer that characters stand for as bytes, among which only the blanks of ASCII are blanks. -/
def readIntOfBytes (base : Nat) (cs : List Char) : Except Fault Int :=
  orFault (integerIn base isAsciiBlank cs) (noInteger base (String.ofList cs))

end PlotAdvisor.Text
