import Mathlib
import PlotAdvisor.Models.Vectors.File
import PlotAdvisor.Scalar

/-! Floating-point numbers: those that are kept as four bytes, and those without a minus sign. What is known about their
bits is reached only through the library as a whole.

* `Models.Vectors.single_toBits` - the value of a number that is kept in its bits.
* `Decimal.Unsigned` - numbers without a minus sign; products, quotients and natural numbers are such.
* `Decimal.not_lt_zero` - they are not below zero.
-/
set_option autoImplicit false

namespace PlotAdvisor

namespace Models.Vectors

theorem single_toBits (x : Float32) : single x.toBits.toNat = x.toFloat := by
  have hbits : x.toBits.toNat.toUInt32 = x.toBits := UInt32.ofNat_toNat
  rw [single, hbits, Float32.ofBits_toBits]

end Models.Vectors

namespace Decimal

open Float.Model Float.Model.UnpackedFloat

/-! ## Numbers without a minus sign -/

def Positive : UnpackedFloat → Prop
  | .infinity s => s = .positive
  | .notANumber => True
  | .zero s => s = .positive
  | .finite s _ _ _ => s = .positive

@[simp] theorem positive_infinity {s : Sign} : Positive (.infinity s) ↔ s = .positive := Iff.rfl

@[simp] theorem positive_notANumber : Positive .notANumber := trivial

@[simp] theorem positive_zero {s : Sign} : Positive (.zero s) ↔ s = .positive := Iff.rfl

@[simp] theorem positive_finite {s : Sign} {m : Nat} {e : Int} {h : 0 < m} :
    Positive (.finite s m e h) ↔ s = .positive :=
  Iff.rfl

@[simp] theorem mul_of_positive : Sign.positive * Sign.positive = .positive := rfl

@[simp] theorem div_of_positive : Sign.positive / Sign.positive = .positive := rfl

@[simp] theorem positive_roundWithAccuracy (spec : Format) (m : Nat) (e : Int) (acc : Accuracy) :
    Positive (roundWithAccuracy spec .positive m e acc) := by
  unfold roundWithAccuracy
  dsimp only
  split
  · rfl
  · rfl

theorem Positive.mul {a b : UnpackedFloat} (spec : Format) (ha : Positive a) (hb : Positive b) :
    Positive (a.mul spec b) := by
  fun_cases UnpackedFloat.mul spec a b <;> simp_all

theorem Positive.div {a b : UnpackedFloat} (spec : Format) (ha : Positive a) (hb : Positive b) :
    Positive (a.div spec b) := by
  fun_cases UnpackedFloat.div spec a b <;> simp_all

theorem positive_ofNat (spec : Format) (n : Nat) : Positive (UnpackedFloat.ofNat spec n) := by
  unfold UnpackedFloat.ofNat UnpackedFloat.ofInt UnpackedFloat.normalize
  split
  · next h =>
    rw [Int.compare_eq_lt] at h
    omega
  · rfl
  · exact positive_roundWithAccuracy _ _ _ _

theorem positive_ofScientific (spec : Format) (m : Nat) (e : Int) : Positive (UnpackedFloat.ofScientific spec m e) := by
  unfold UnpackedFloat.ofScientific
  split
  · rfl
  · split
    · rfl
    · split
      · rfl
      · split
        · exact Positive.mul spec rfl rfl
        · exact Positive.div spec rfl rfl

theorem compare_zero_of_positive {a : UnpackedFloat} (h : Positive a) (s : Sign) : a.compare (.zero s) ≠ some .lt := by
  intro hlt
  cases a with
  | notANumber => cases hlt
  | infinity t =>
    obtain rfl : t = .positive := h
    cases hlt
  | zero t => cases hlt
  | finite t m e hm =>
    obtain rfl : t = .positive := h
    cases hlt

/-! ## Packing -/

theorem positive_unpack {spec : Format} {e : BitVec spec.exponentBits} {m : BitVec spec.mantissaBitsWithoutImplicit} :
    Positive (UnpackedFloat.unpack spec (packComponents spec .positive e m)) := by
  have hsign : Sign.ofBitVec (unpackSign (packComponents spec .positive e m)) = .positive := by
    rw [unpackSign_packComponents]
    rfl
  unfold UnpackedFloat.unpack
  simp only [hsign]
  repeat' split
  all_goals trivial

theorem Positive.unpack_pack {a : UnpackedFloat} (spec : Format) (h : Positive a) :
    Positive (UnpackedFloat.unpack spec (UnpackedFloat.pack spec a)) := by
  fun_cases UnpackedFloat.pack spec a <;>
    simp_all [packedNaN, packedInfinity, packedZero, positive_unpack]

/-! ## Numbers -/

def Unsigned (x : Float) : Prop := Positive x.toModel.unpack

theorem unsigned_ofModel {a : UnpackedFloat} (h : Positive a) : Unsigned (.ofModel (.pack a)) := h.unpack_pack _

theorem unsigned_mul {x y : Float} (hx : Unsigned x) (hy : Unsigned y) : Unsigned (x * y) :=
  unsigned_ofModel (hx.mul _ hy)

theorem unsigned_div {x y : Float} (hx : Unsigned x) (hy : Unsigned y) : Unsigned (x / y) :=
  unsigned_ofModel (hx.div _ hy)

theorem unsigned_ofNat (n : Nat) : Unsigned (Float.ofNat n) := by
  change Unsigned (Float.ofScientific n false 0)
  unfold Float.ofScientific
  split
  · have hone : Unsigned Float.exactlyRepresentablePowersOfTen[0] := (rfl : Sign.positive = .positive)
    exact unsigned_mul (unsigned_ofModel (positive_ofNat _ _)) hone
  · exact unsigned_ofModel (positive_ofScientific _ _ _)

theorem not_lt_zero {x : Float} (h : Unsigned x) : ¬ x < ofInt 0 := by
  intro hlt
  have hzero : (ofInt 0).toModel.unpack = .zero .positive := rfl
  have hless : x.toModel.unpack.lt (ofInt 0).toModel.unpack = true := by
    have hmodel : decide (x.toModel < (ofInt 0).toModel) = true := hlt
    exact of_decide_eq_true hmodel
  rw [hzero] at hless
  exact compare_zero_of_positive h .positive (by simpa [UnpackedFloat.lt] using hless)

end Decimal

end PlotAdvisor
