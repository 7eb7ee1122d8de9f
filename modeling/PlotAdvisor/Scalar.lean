import PlotAdvisor.Datum.Basic
import PlotAdvisor.Decimal.Fixed

/-! The numbers that models calculate with. The programs run on floating-point numbers; the same
definitions make sense for every type with these operations, such as the exact reals. -/
set_option autoImplicit false

namespace PlotAdvisor

class Scalar (α : Type) extends Add α, Sub α, Mul α, Div α, Neg α where
  ofInt : Int → α
  decimal : Int → Nat → α
  less : α → α → Bool
  /-- At most; not the same as `less` the other way round where a number cannot be compared. -/
  atMost : α → α → Bool
  exp : α → α
  log : α → α
  sqrt : α → α
  pow : α → α → α
  nearest : α → Int
  /-- The integer part. -/
  trunc : α → Int

namespace Decimal

/-- The nearest integer, a half going to the even one. -/
def nearest (x : Float) : Int :=
  match decode x with
  | .finite negative m q =>
    let (num, den) := fractionOf m q
    let n : Int := roundDiv num den
    if negative then -n else n
  | _ => 0

end Decimal

instance : Scalar Float where
  ofInt := Decimal.ofInt
  decimal m e := Datum.floatOf m (-(e : Int))
  less a b := a < b
  atMost a b := a ≤ b
  exp := Float.exp
  log := Float.log
  sqrt := Float.sqrt
  pow := Float.pow
  nearest := Decimal.nearest
  trunc := Decimal.trunc

namespace Scalar

variable {α : Type} [Scalar α]

def zero : α := ofInt 0

def one : α := ofInt 1

def maxOf (a b : α) : α := if less a b then b else a

def minOf (a b : α) : α := if less b a then b else a

def magnitude (a : α) : α := if less a zero then -a else a

def sum (xs : List α) : α := xs.foldl (· + ·) zero

/-- `x / (1 + exp (-y))` for `x` one: a weight between zero and one. -/
def logistic (y : α) : α := one / (one + exp (-y))

end Scalar

end PlotAdvisor
