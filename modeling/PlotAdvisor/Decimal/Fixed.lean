import PlotAdvisor.Decimal.Shortest

/-! Numbers with a fixed count of decimals. -/
set_option autoImplicit false

namespace PlotAdvisor.Decimal

/-- The quotient rounded to the nearest integer, a half to the even one. -/
def roundDiv (num den : Nat) : Nat :=
  let q := num / den
  let r := num % den
  if 2 * r < den then q else if den < 2 * r then q + 1 else if q % 2 = 0 then q else q + 1

def pointed (n places : Nat) : String :=
  let ds := digitsOf n
  let padded := List.replicate (places + 1 - ds.length) '0' ++ ds
  let whole := padded.take (padded.length - places)
  let rest := padded.drop (padded.length - places)
  String.ofList (if places = 0 then whole else whole ++ ['.'] ++ rest)

/-- The number with so many decimals, its exact value rounded half to even. -/
def fixed (places : Nat) (x : Float) : String :=
  match decode x with
  | .notANumber => "nan"
  | .infinite negative => if negative then "-inf" else "inf"
  | .finite negative m q =>
    let (num, den) := fractionOf m q
    let body := pointed (roundDiv (num * Nat.pow 10 places) den) places
    if negative then "-" ++ body else body

/-- A measured number is reported in millionths, rounded half up. -/
def millionths (x : Float) : String :=
  match decode x with
  | .notANumber => "nan"
  | .infinite negative => if negative then "-inf" else "inf"
  | .finite .. =>
    let n := floor (x * 1000000.0 + 0.5)
    if n < 0 then "-" ++ pointed n.natAbs 6 else pointed n.natAbs 6

end PlotAdvisor.Decimal
