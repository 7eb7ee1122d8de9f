import PlotAdvisor.Datum.Basic
import PlotAdvisor.Text.Integer

/-! Reading floating-point numbers: digits with a point, an exponent, or the words for what is not finite.
A single underscore may stand between digits. -/
set_option autoImplicit false

namespace PlotAdvisor.Text

def takeDigits : List Char → List Nat × List Char
  | [] => ([], [])
  | c :: cs =>
    match digitValue? c with
    | none => ([], c :: cs)
    | some v =>
      match cs with
      | '_' :: d :: more =>
        if isDigit d then
          let (vs, rest) := takeDigits (d :: more)
          (v :: vs, rest)
        else ([v], cs)
      | cs =>
        let (vs, rest) := takeDigits cs
        (v :: vs, rest)

def valueOfDigits (vs : List Nat) : Nat := vs.foldl (fun n v => n * 10 + v) 0

/-- The exponent, zero when there is none; nothing when something else follows. -/
def exponentOf : List Char → Option Int
  | [] => some 0
  | c :: cs =>
    if c == 'e' || c == 'E' then
      let (sign, ds) : Int × List Char :=
        match cs with
        | '-' :: ds => (-1, ds)
        | '+' :: ds => (1, ds)
        | ds => (1, ds)
      match takeDigits ds with
      | ([], _) => none
      | (vs, []) => some (sign * (valueOfDigits vs : Int))
      | _ => none
    else none

def magnitude? (cs : List Char) : Option Float :=
  let word := cs.map Char.toLower
  if word == "inf".toList || word == "infinity".toList then some (1.0 / 0.0)
  else if word == "nan".toList then some (0.0 / 0.0)
  else
    let (whole, rest) := takeDigits cs
    let (part, rest) :=
      match rest with
      | '.' :: more => takeDigits more
      | rest => ([], rest)
    if whole.isEmpty && part.isEmpty then none
    else (exponentOf rest).map fun e =>
      Datum.floatOf (valueOfDigits (whole ++ part)) (e - part.length)

/-- The floating-point number that a text stands for. -/
def readReal? (s : String) : Option Float :=
  match Chars.trimBy (isMargin (s.toList.all fun c => decide (c.toNat < 128))) s.toList with
  | '-' :: cs => (magnitude? cs).map fun x => -x
  | '+' :: cs => magnitude? cs
  | cs => magnitude? cs

end PlotAdvisor.Text
