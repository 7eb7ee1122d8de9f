import Mathlib.Analysis.SpecialFunctions.Pow.Real
import PlotAdvisor.Scalar

/-! Calculating without rounding, in an ordered field. Arithmetic and comparisons are those of the field. The
functions that a field does not have are not fixed: what holds of a model over exact numbers holds for every choice
of them.

* `realFunctions` - those of the real numbers.
* `unchanging` - a choice for the rational numbers, with which they can be evaluated. -/
set_option autoImplicit false

namespace PlotAdvisor.Exact

/-- The functions that come on top of the arithmetic of a field. -/
class Functions (K : Type) where
  exp : K → K
  log : K → K
  sqrt : K → K
  pow : K → K → K
  nearest : K → Int
  trunc : K → Int

@[reducible] noncomputable def realFunctions : Functions ℝ where
  exp := Real.exp
  log := Real.log
  sqrt := Real.sqrt
  pow x y := x ^ y
  nearest := round
  trunc x := if 0 ≤ x then ⌊x⌋ else ⌈x⌉

@[reducible] def unchanging : Functions ℚ := ⟨id, id, id, fun x _ => x, Rat.floor, Rat.floor⟩

variable {K : Type} [Field K] [LinearOrder K] [Functions K]

instance : Scalar K where
  ofInt n := n
  decimal m e := m / 10 ^ e
  less a b := decide (a < b)
  atMost a b := decide (a ≤ b)
  exp := Functions.exp
  log := Functions.log
  sqrt := Functions.sqrt
  pow := Functions.pow
  nearest := Functions.nearest
  trunc := Functions.trunc

theorem ofInt_eq (n : Int) : (Scalar.ofInt n : K) = n := rfl

theorem zero_eq : (Scalar.zero : K) = 0 := Int.cast_zero

theorem one_eq : (Scalar.one : K) = 1 := Int.cast_one

theorem decimal_eq (m : Int) (e : Nat) : (Scalar.decimal m e : K) = m / 10 ^ e := rfl

theorem decimal_zero : (Scalar.decimal 0 0 : K) = 0 := by simp [decimal_eq]

theorem atMost_iff {a b : K} : Scalar.atMost a b = true ↔ a ≤ b := decide_eq_true_iff

theorem less_iff {a b : K} : Scalar.less a b = true ↔ a < b := decide_eq_true_iff

theorem maxOf_eq (a b : K) : Scalar.maxOf a b = max a b := by
  unfold Scalar.maxOf
  by_cases h : a < b
  · rw [if_pos (less_iff.2 h), max_eq_right h.le]
  · rw [if_neg (mt less_iff.1 h), max_eq_left (not_lt.1 h)]

theorem minOf_eq (a b : K) : Scalar.minOf a b = min a b := by
  unfold Scalar.minOf
  by_cases h : b < a
  · rw [if_pos (less_iff.2 h), min_eq_right h.le]
  · rw [if_neg (mt less_iff.1 h), min_eq_left (not_lt.1 h)]

theorem sum_eq (xs : List K) : Scalar.sum xs = xs.sum := by
  rw [Scalar.sum, zero_eq, List.sum_eq_foldl]

theorem magnitude_eq [IsStrictOrderedRing K] (a : K) : Scalar.magnitude a = |a| := by
  unfold Scalar.magnitude
  by_cases h : a < 0
  · rw [if_pos (less_iff.2 (by rwa [zero_eq])), abs_of_neg h]
  · rw [if_neg (mt less_iff.1 (by rwa [zero_eq])), abs_of_nonneg (not_lt.1 h)]

end PlotAdvisor.Exact
