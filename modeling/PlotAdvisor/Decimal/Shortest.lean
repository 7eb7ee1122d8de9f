/-! The shortest decimal text that reads back as the same floating-point number.

The reals that round to `m · 2^q` form an interval around it, whose ends belong to it when `m` is
even. For 1, 2, … 17 digits the two neighbours of the number on the decimal grid of so many digits are
tried; the first grid with a point in the interval wins, and of two points the nearer. -/
set_option autoImplicit false

namespace PlotAdvisor.Decimal

/-! ## Floating-point numbers as exact fractions

A finite number is `m · 2^q` with natural `m`. -/

inductive Number where
  | notANumber
  | infinite (negative : Bool)
  | finite (negative : Bool) (mantissa : Nat) (exponent : Int)

def ofBits (bits : Nat) : Number :=
  let negative := decide (bits / Nat.pow 2 63 = 1)
  let field : Nat := bits / Nat.pow 2 52 % Nat.pow 2 11
  let fraction : Nat := bits % Nat.pow 2 52
  if field = 2047 then if fraction = 0 then .infinite negative else .notANumber
  else if field = 0 then .finite negative fraction (-1074)
  else .finite negative (fraction + Nat.pow 2 52) ((field : Int) - 1075)

def decode (x : Float) : Number := ofBits x.toBits.toNat

def fractionOf (m : Nat) (q : Int) : Nat × Nat :=
  if 0 ≤ q then (m * Nat.pow 2 q.toNat, 1) else (m, Nat.pow 2 (-q).toNat)

def floorOf (negative : Bool) (m : Nat) (q : Int) : Int :=
  let (n, d) := fractionOf m q
  if negative then Int.fdiv (-(n : Int)) d else Int.fdiv n d

def truncOf (negative : Bool) (m : Nat) (q : Int) : Int :=
  let (n, d) := fractionOf m q
  let whole : Int := (n / d : Nat)
  if negative then -whole else whole

/-- The largest integer not above a number, zero for those that are not finite. -/
def floor (x : Float) : Int :=
  match decode x with
  | .finite negative m q => floorOf negative m q
  | _ => 0

/-- The number cut toward zero, zero for those that are not finite. -/
def trunc (x : Float) : Int :=
  match decode x with
  | .finite negative m q => truncOf negative m q
  | _ => 0

def ceil (x : Float) : Int := -floor (-x)

def ofInt (n : Int) : Float :=
  match n with
  | .ofNat k => Float.ofNat k
  | .negSucc k => -Float.ofNat (k + 1)

/-! ## Shortest digits -/

/-- Decimal digits `0.d₁d₂… · 10^point`. -/
structure Digits where
  digits : List Char
  point : Int

def digitsOf (n : Nat) : List Char := Nat.toDigits 10 n

def scaled (a b : Nat) (k : Int) : Nat × Nat :=
  if 0 ≤ k then (a * Nat.pow 10 k.toNat, b) else (a, b * Nat.pow 10 (-k).toNat)

def pointOf (num den : Nat) : Int :=
  let guess : Int := (digitsOf num).length - (digitsOf den).length
  let below (p : Int) : Bool :=
    let (l, r) := scaled den num p
    decide (r < l)
  if below (guess - 1) then guess - 1 else if below guess then guess else guess + 1

def onGrid (lo num hi den : Nat) (closed : Bool) (point : Int) (count : Nat) : Option Nat :=
  let unit : Int := point - count
  -- the grid point `c` against `x / den` compares `c · 10^unit · den` with `x`
  let (den', scale) := scaled den 1 unit
  let c := num * scale / den'
  let inside (c : Nat) : Bool :=
    let v := c * den'
    if closed then decide (lo * scale ≤ v) && decide (v ≤ hi * scale)
    else decide (lo * scale < v) && decide (v < hi * scale)
  let down := num * scale - c * den'
  let up := (c + 1) * den' - num * scale
  match inside c, inside (c + 1) with
  | true, true => some (if down < up ∨ (down = up ∧ c % 2 = 0) then c else c + 1)
  | true, false => some c
  | false, true => some (c + 1)
  | false, false => none

def searchGrid (lo num hi den : Nat) (closed : Bool) (point : Int) : Nat → Nat → Nat × Nat
  | 0, count => (num, count)
  | fuel + 1, count =>
    match onGrid lo num hi den closed point count with
    | some c => (c, count)
    | none => searchGrid lo num hi den closed point fuel (count + 1)

def shortest (m : Nat) (q : Int) : Digits :=
  let narrow := decide (m = Nat.pow 2 52) && decide (-1074 < q)
  let (num, den) := fractionOf (4 * m) (q - 2)
  let (hi, _) := fractionOf (4 * m + 2) (q - 2)
  let (lo, _) := fractionOf (4 * m - (if narrow then 1 else 2)) (q - 2)
  let point := pointOf num den
  let (c, count) := searchGrid lo num hi den (decide (m % 2 = 0)) point 17 1
  let ds := digitsOf c
  let kept := (ds.reverse.dropWhile (· == '0')).reverse
  ⟨kept, point + ((ds.length : Int) - count)⟩

/-- Positional notation from 0.0001 up to 10^16, with `.0` behind a whole number; outside it one digit
before the point and an exponent of at least two digits with its sign. -/
def Digits.render (d : Digits) : List Char :=
  let n := d.digits.length
  if -4 < d.point ∧ d.point ≤ 16 then
    if d.point ≤ 0 then ['0', '.'] ++ List.replicate (-d.point).toNat '0' ++ d.digits
    else
      let p := d.point.toNat
      if n ≤ p then d.digits ++ List.replicate (p - n) '0' ++ ['.', '0']
      else d.digits.take p ++ ['.'] ++ d.digits.drop p
  else
    let e := d.point - 1
    let ds := digitsOf e.natAbs
    let padded := if ds.length < 2 then '0' :: ds else ds
    d.digits.take 1 ++ (if n = 1 then [] else '.' :: d.digits.drop 1) ++
      ['e', if e < 0 then '-' else '+'] ++ padded

def render (x : Float) : String :=
  match decode x with
  | .notANumber => "nan"
  | .infinite negative => if negative then "-inf" else "inf"
  | .finite negative m q =>
    let body := if m = 0 then "0.0" else String.ofList (shortest m q).render
    if negative then "-" ++ body else body

end PlotAdvisor.Decimal
