import PlotAdvisor.Datum.Exchange
import PlotAdvisor.Scalar

/-! Numbers that are integers or floating-point. An operation of two integers gives an integer, but for
division; with a floating-point number among them the result is one. -/
set_option autoImplicit false

namespace PlotAdvisor

inductive Numeric where
  | int (n : Int)
  | real (x : Float)
  deriving Inhabited

namespace Numeric

def toFloat : Numeric → Float
  | .int n => Decimal.ofInt n
  | .real x => x

instance : Scalar Numeric where
  add a b :=
    match a, b with
    | .int a, .int b => .int (a + b)
    | a, b => .real (a.toFloat + b.toFloat)
  sub a b :=
    match a, b with
    | .int a, .int b => .int (a - b)
    | a, b => .real (a.toFloat - b.toFloat)
  mul a b :=
    match a, b with
    | .int a, .int b => .int (a * b)
    | a, b => .real (a.toFloat * b.toFloat)
  div a b := .real (a.toFloat / b.toFloat)
  neg a :=
    match a with
    | .int a => .int (-a)
    | .real x => .real (-x)
  ofInt := .int
  decimal m e := .real (Datum.floatOf m (-(e : Int)))
  less a b :=
    match a, b with
    | .int a, .int b => decide (a < b)
    | a, b => a.toFloat < b.toFloat
  atMost a b :=
    match a, b with
    | .int a, .int b => decide (a ≤ b)
    | a, b => a.toFloat ≤ b.toFloat
  exp a := .real a.toFloat.exp
  log a := .real a.toFloat.log
  sqrt a := .real a.toFloat.sqrt
  pow a b := .real (Float.pow a.toFloat b.toFloat)
  nearest a :=
    match a with
    | .int a => a
    | .real x => Decimal.nearest x
  trunc a :=
    match a with
    | .int a => a
    | .real x => Decimal.trunc x

def render : Numeric → String
  | .int n => toString n
  | .real x => Decimal.render x

instance : ToDatum Numeric := ⟨fun n =>
  match n with
  | .int n => toDatum n
  | .real x => toDatum x⟩

instance : FromDatum Numeric := ⟨fun d =>
  match d with
  | .int n => some (.int n)
  | .decimal m e => some (.real (Datum.floatOf m e))
  | .bool b => some (.int (if b then 1 else 0))
  | _ => none⟩

end Numeric

end PlotAdvisor
