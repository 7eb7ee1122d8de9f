import Mathlib.Algebra.Order.Field.Rat
import PlotAdvisor.Program.Part

/-! Sameness of values, of symbols and of what is below a part is equality of a key. Numbers have as key the rational
number that they are, or an end of the line; an imaginary zero has that of zero, and everything else is its own key.
So sameness is an equivalence, and among numbers the comparison by size is the order of the keys. -/
set_option autoImplicit false

namespace PlotAdvisor.Program

namespace Literal

/-! ## Sizes -/

/-- A fraction has a denominator. -/
def Size.Proper : Size → Prop
  | .at _ d => 0 < d
  | _ => True

/-- Where a size lies on the line of the rational numbers with its two ends. -/
def Size.value : Size → WithBot (WithTop ℚ)
  | .below => ⊥
  | .at n d => (((n / d : ℚ) : WithTop ℚ) : WithBot (WithTop ℚ))
  | .above => ((⊤ : WithTop ℚ) : WithBot (WithTop ℚ))

theorem fractionOf_pos (m : Nat) (q : Int) : 0 < (Decimal.fractionOf m q).2 := by
  unfold Decimal.fractionOf
  split
  · exact Nat.one_pos
  · exact Nat.pow_pos (by omega)

theorem size?_proper {v : Literal} {x : Size} (h : v.size? = some x) : x.Proper := by
  cases v with
  | bool b =>
    obtain rfl := Option.some.inj h
    exact Nat.one_pos
  | int n =>
    obtain rfl := Option.some.inj h
    exact Nat.one_pos
  | real w =>
    simp only [size?] at h
    cases hd : Decimal.decode (floatOfText w) with
    | notANumber => simp [hd] at h
    | infinite negative =>
      rw [hd] at h
      obtain rfl := Option.some.inj h
      cases negative <;> exact trivial
    | finite negative m q =>
      rw [hd] at h
      obtain rfl := Option.some.inj h
      exact fractionOf_pos m q
  | _ => simp [size?] at h

section Sizes

variable {x y : Size}

theorem Size.same_iff (hx : x.Proper) (hy : y.Proper) : x.same y = true ↔ x.value = y.value := by
  cases x with
  | below => cases y <;> simp [same, value]
  | above => cases y <;> simp [same, value]
  | «at» m d =>
    cases y with
    | below => simp [same, value]
    | above => simp [same, value]
    | «at» n e =>
      have hd : (d : ℚ) ≠ 0 := by exact_mod_cast Nat.pos_iff_ne_zero.1 hx
      have he : (e : ℚ) ≠ 0 := by exact_mod_cast Nat.pos_iff_ne_zero.1 hy
      simp only [same, value, beq_iff_eq, WithBot.coe_inj, WithTop.coe_inj, div_eq_div_iff hd he]
      exact_mod_cast Iff.rfl

theorem Size.less_iff (hx : x.Proper) (hy : y.Proper) : x.less y = true ↔ x.value < y.value := by
  cases x with
  | below => cases y <;> simp [less, value]
  | above => cases y <;> simp [less, value]
  | «at» m d =>
    cases y with
    | below => simp [less, value]
    | above => exact ⟨fun _ => WithBot.coe_lt_coe.2 (WithTop.coe_lt_top _), fun _ => rfl⟩
    | «at» n e =>
      have hd : (0 : ℚ) < d := by exact_mod_cast hx
      have he : (0 : ℚ) < e := by exact_mod_cast hy
      simp only [less, value, decide_eq_true_eq, WithBot.coe_lt_coe, WithTop.coe_lt_coe, div_lt_div_iff₀ hd he]
      exact_mod_cast Iff.rfl

end Sizes

/-! ## Keys -/

abbrev Key := WithBot (WithTop ℚ) ⊕ Literal

def counted (v : Literal) : Literal := if v = .imaginary "0j" then .int 0 else v

def key (v : Literal) : Key :=
  match v.counted.size? with
  | some x => .inl x.value
  | Option.none => .inr v.counted

theorem key_of_size? {v : Literal} {x : Size} (h : v.counted.size? = some x) : v.key = .inl x.value := by
  simp [key, h]

theorem key_of_size?_eq_none {v : Literal} (h : v.counted.size? = Option.none) : v.key = .inr v.counted := by
  simp [key, h]

theorem same_iff {a b : Literal} : a.same b = true ↔ a.key = b.key := by
  have hbeq (v : Literal) : (if v == .imaginary "0j" then Literal.int 0 else v) = v.counted := by
    simp [counted]
  simp only [same, hbeq]
  cases ha : a.counted.size? with
  | none =>
    cases hb : b.counted.size? with
    | none => simp [key_of_size?_eq_none ha, key_of_size?_eq_none hb]
    | some y =>
      have hne : a.counted ≠ b.counted := by
        intro h
        simp [h, hb] at ha
      simp [key_of_size?_eq_none ha, key_of_size? hb, hne]
  | some x =>
    cases hb : b.counted.size? with
    | none =>
      have hne : a.counted ≠ b.counted := by
        intro h
        simp [h, hb] at ha
      simp [key_of_size? ha, key_of_size?_eq_none hb, hne]
    | some y =>
      simp only [key_of_size? ha, key_of_size? hb, Sum.inl.injEq]
      exact Size.same_iff (size?_proper ha) (size?_proper hb)

end Literal

namespace Symbol

def key : Symbol → Symbol ⊕ Literal.Key
  | .content v => .inr v.key
  | s => .inl s

theorem same_iff {a b : Symbol} : a.same b = true ↔ a.key = b.key := by
  cases a with
  | content v =>
    cases b with
    | content w => simp [same, key, Literal.same_iff]
    | _ => simp [same, key]
  | _ => cases b <;> simp [same, key]

theorem sameAll_iff {as bs : List Symbol} : sameAll as bs = true ↔ as.map key = bs.map key := by
  induction as generalizing bs with
  | nil => cases bs <;> simp [sameAll]
  | cons a as ih =>
    cases bs with
    | nil => simp [sameAll]
    | cons b bs => simp [sameAll, same_iff, ih]

end Symbol

namespace Below

def key : Below → (Symbol ⊕ Literal.Key) ⊕ List (Symbol ⊕ Literal.Key)
  | .one s => .inl s.key
  | .many ss => .inr (ss.map Symbol.key)

theorem same_iff {a b : Below} : a.same b = true ↔ a.key = b.key := by
  cases a <;> cases b <;> simp [same, key, Symbol.same_iff, Symbol.sameAll_iff]

end Below

end PlotAdvisor.Program
