import Mathlib.Data.List.Lex
import PlotAdvisor.Proofs.Sameness

/-! How values are written. Text is written in quotes, bytes in quotes behind a `b`, numbers begin with a sign or a digit
and end with a digit, and an imaginary number ends with a `j`. So the first character tells text and bytes from
everything else, and the last one tells numbers from imaginary numbers and from the ellipsis. -/
set_option autoImplicit false

namespace PlotAdvisor.Program

def codes (s : String) : List Nat := s.toList.map Char.toNat

theorem codes_append (s t : String) : codes (s ++ t) = codes s ++ codes t := by
  simp [codes]

theorem codes_injective {s t : String} (h : codes s = codes t) : s = t := by
  have hinj : Function.Injective Char.toNat := fun c d hcd => by
    rw [← Char.ofNat_toNat c, ← Char.ofNat_toNat d, hcd]
  exact String.toList_injective (List.map_injective_iff.2 hinj h)

theorem codes_lt_iff {s t : String} : codes s < codes t ↔ s < t := by
  change s.toList.map Char.toNat < t.toList.map Char.toNat ↔ s.toList < t.toList
  generalize s.toList = cs
  generalize t.toList = ds
  induction cs generalizing ds with
  | nil => cases ds <;> simp
  | cons c cs ih =>
    cases ds with
    | nil => simp
    | cons d ds =>
      have hlt : c.toNat < d.toNat ↔ c < d := Iff.rfl
      have heq : c.toNat = d.toNat ↔ c = d := ⟨fun h => by rw [← Char.ofNat_toNat c, ← Char.ofNat_toNat d, h],
        fun h => h ▸ rfl⟩
      simp [List.cons_lt_cons_iff, ih, hlt, heq]

namespace Literal

/-! ## Bytes -/

def bytePoint (quote n : Nat) : List Char :=
  if n = quote ∨ n = 92 then ['\\', Char.ofNat n]
  else if n = 9 then ['\\', 't']
  else if n = 10 then ['\\', 'n']
  else if n = 13 then ['\\', 'r']
  else if 32 ≤ n ∧ n < 127 then [Char.ofNat n]
  else '\\' :: 'x' :: Text.hexDigits 2 n

def writtenBytes (bs : List Nat) : String :=
  let quote := Text.quoteFor bs
  String.ofList ('b' :: Char.ofNat quote :: (bs.flatMap (bytePoint quote) ++ [Char.ofNat quote]))

theorem toNat_ofNat {n : Nat} (h : n < 128) : (Char.ofNat n).toNat = n := by
  have hvalid : n.isValidChar := Or.inl (by omega)
  rw [Char.ofNat, dif_pos hvalid]
  rfl

theorem hexValue_hexDigit : ∀ n < 16, Datum.hexValue (Text.hexDigit n) = some n := by decide

theorem hexNumber_hexDigits {n : Nat} (h : n < 256) : Datum.hexNumber (Text.hexDigits 2 n) = some n := by
  have hlow := hexValue_hexDigit (n % 16) (by omega)
  have hhigh := hexValue_hexDigit (n / 16 % 16) (by omega)
  simp only [Text.hexDigits, Datum.hexNumber, List.nil_append, List.cons_append, List.foldl_cons, List.foldl_nil,
    Option.bind_some, hhigh, hlow, Option.map_some]
  congr 1
  omega

theorem bytesFrom_plain {c : Char} (h : c ≠ '\\') (rest : List Char) :
    bytesFrom (c :: rest) = c.toNat :: bytesFrom rest := by
  rw [bytesFrom] <;> simp_all

theorem bytesFrom_escaped {c : Char} (hx : c ≠ 'x') (ht : c ≠ 't') (hn : c ≠ 'n') (hr : c ≠ 'r') (rest : List Char) :
    bytesFrom ('\\' :: c :: rest) = c.toNat :: bytesFrom rest := by
  rw [bytesFrom] <;> simp_all

theorem bytesFrom_bytePoint {quote n : Nat} (hq : quote = 34 ∨ quote = 39) (hn : n < 256) (rest : List Char) :
    bytesFrom (bytePoint quote n ++ rest) = n :: bytesFrom rest := by
  unfold bytePoint
  split
  · next hquote =>
    have hcases : n = 34 ∨ n = 39 ∨ n = 92 := by omega
    rcases hcases with rfl | rfl | rfl <;> exact bytesFrom_escaped (by decide) (by decide) (by decide) (by decide) rest
  · next hquote =>
    split
    · next h => exact h ▸ rfl
    · split
      · next h => exact h ▸ rfl
      · split
        · next h => exact h ▸ rfl
        · split
          · next h =>
            have hslash : Char.ofNat n ≠ '\\' := by
              intro heq
              have := congrArg Char.toNat heq
              rw [toNat_ofNat (by omega)] at this
              exact hquote (Or.inr this)
            rw [List.singleton_append, bytesFrom_plain hslash, toNat_ofNat (by omega)]
          · have hnumber := hexNumber_hexDigits hn
            simp only [Text.hexDigits, List.nil_append, List.cons_append] at hnumber ⊢
            rw [bytesFrom, hnumber]
            rfl

theorem bytesOf_writtenBytes {bs : List Nat} (h : ∀ n ∈ bs, n < 256) : bytesOf (writtenBytes bs) = bs := by
  have hq : Text.quoteFor bs = 34 ∨ Text.quoteFor bs = 39 := by
    unfold Text.quoteFor
    split
    · exact Or.inl rfl
    · exact Or.inr rfl
  rw [bytesOf, writtenBytes, String.toList_ofList]
  simp only [List.drop_succ_cons, List.drop_zero, List.dropLast_concat]
  generalize Text.quoteFor bs = quote at hq
  induction bs with
  | nil => rfl
  | cons n bs ih =>
    rw [List.forall_mem_cons] at h
    rw [List.flatMap_cons, bytesFrom_bytePoint hq h.1, ih h.2]

/-! ## Written values -/

/-- The text begins with a sign or a digit and ends with a digit. -/
structure Numeral (w : String) : Prop where
  first : ∃ n rest, codes w = n :: rest ∧ (n = 45 ∨ (48 ≤ n ∧ n ≤ 57))
  last : ∃ n rest, codes w = rest ++ [n] ∧ 48 ≤ n ∧ n ≤ 57

/-- The values that a program can hold, in the form in which they are shown. Text outside ASCII is taken as unknown and
does not occur. -/
def Written : Literal → Prop
  | .none => False
  | .text s => ∀ c ∈ s.toList, c.toNat < 128
  | .real w => w = "inf" ∨ w = "-inf" ∨ (Numeral w ∧ ∃ n d, (Literal.real w).size? = some (.at n d))
  | .imaginary w => ∃ u, w = u ++ "j" ∧ (u = "inf" ∨ Numeral u)
  | .bytes w => ∃ bs, (∀ n ∈ bs, n < 256) ∧ w = writtenBytes bs
  | _ => True

theorem Written.simple_eq {v : Literal} (h : v.Written) : v.simple = v := by
  cases v with
  | text s =>
    have hall : (s.toList.all fun c => c.toNat < 128) = true := by simpa [Written] using h
    rw [simple, if_pos hall]
  | _ => rfl

theorem codes_digits {c : Char} {n : Nat} (h : c ∈ Nat.toDigits 10 n) : 48 ≤ c.toNat ∧ c.toNat ≤ 57 := by
  have hdigit := Nat.isDigit_of_mem_toDigits (by omega) (by omega) h
  simpa [Char.isDigit_iff_toNat] using hdigit

theorem numeral_repr (n : Nat) : Numeral n.repr := by
  have hcodes : codes n.repr = (Nat.toDigits 10 n).map Char.toNat := by
    rw [codes, Nat.repr, String.toList_ofList]
  have hne : Nat.toDigits 10 n ≠ [] := Nat.toDigits_ne_nil
  refine ⟨⟨((Nat.toDigits 10 n).head hne).toNat, (Nat.toDigits 10 n).tail.map Char.toNat, ?_, ?_⟩,
    ((Nat.toDigits 10 n).getLast hne).toNat, (Nat.toDigits 10 n).dropLast.map Char.toNat, ?_, ?_⟩
  · rw [hcodes, ← List.map_cons, List.cons_head_tail]
  · exact Or.inr (codes_digits (List.head_mem hne))
  · conv_lhs => rw [hcodes, ← List.dropLast_append_getLast hne, List.map_append]
    rfl
  · exact codes_digits (List.getLast_mem hne)

theorem numeral_toString (n : Int) : Numeral (toString n) := by
  cases n with
  | ofNat n => exact numeral_repr n
  | negSucc n =>
    have hcodes : codes (toString (Int.negSucc n)) = 45 :: codes (n + 1).repr := codes_append "-" (n + 1).repr
    obtain ⟨-, k, rest, hlast, hk⟩ := numeral_repr (n + 1)
    exact ⟨⟨45, _, hcodes, Or.inl rfl⟩, k, 45 :: rest, by rw [hcodes, hlast, List.cons_append], hk⟩

def isOther : Literal → Bool
  | .text _ => false
  | .bytes _ => false
  | _ => true

section Ends

variable {v : Literal}

/-- What is neither text nor bytes begins before or behind a `b`, and behind quotes. Only what is infinite begins behind
a `b`. -/
theorem Written.first (h : v.Written) (ho : v.isOther = true) :
    ∃ n rest, codes v.render = n :: rest ∧ 45 ≤ n ∧
      (n < 98 ∨ (98 < n ∧ (v = .real "inf" ∨ v = .imaginary "infj"))) := by
  have hnumeral : ∀ {w : String}, Numeral w → ∃ n rest, codes w = n :: rest ∧ 45 ≤ n ∧ n < 98 := by
    intro w hw
    obtain ⟨n, rest, hcodes, hn⟩ := hw.first
    exact ⟨n, rest, hcodes, by omega, by omega⟩
  cases v with
  | none => exact h.elim
  | text s => simp [isOther] at ho
  | bytes w => simp [isOther] at ho
  | ellipsis => exact ⟨69, _, rfl, by decide, Or.inl (by decide)⟩
  | bool b =>
    cases b with
    | false => exact ⟨70, _, rfl, by decide, Or.inl (by decide)⟩
    | true => exact ⟨84, _, rfl, by decide, Or.inl (by decide)⟩
  | int k =>
    obtain ⟨n, rest, hcodes, hlow, hhigh⟩ := hnumeral (numeral_toString k)
    exact ⟨n, rest, hcodes, hlow, Or.inl hhigh⟩
  | real w =>
    rcases h with rfl | rfl | ⟨hw, -⟩
    · exact ⟨105, _, rfl, by decide, Or.inr ⟨by decide, Or.inl rfl⟩⟩
    · exact ⟨45, _, rfl, by decide, Or.inl (by decide)⟩
    · obtain ⟨n, rest, hcodes, hlow, hhigh⟩ := hnumeral hw
      exact ⟨n, rest, hcodes, hlow, Or.inl hhigh⟩
  | imaginary w =>
    obtain ⟨u, rfl, rfl | hu⟩ := h
    · exact ⟨105, _, rfl, by decide, Or.inr ⟨by decide, Or.inr rfl⟩⟩
    · obtain ⟨n, rest, hcodes, hlow, hhigh⟩ := hnumeral hu
      exact ⟨n, rest ++ [106], by rw [render, codes_append, hcodes]; rfl, hlow, Or.inl hhigh⟩

theorem first_text (s : String) : ∃ n rest, codes (Literal.text s).render = n :: rest ∧ n < 45 := by
  have hcodes : codes (Literal.text s).render = (Text.quotedPoints (s.toList.map Char.toNat)).map Char.toNat := by
    rw [codes, render, Text.quoted, String.toList_ofList]
  refine ⟨_, _, hcodes.trans rfl, ?_⟩
  unfold Text.quoteFor
  split <;> decide

theorem Written.first_bytes {w : String} (h : (Literal.bytes w).Written) : ∃ rest, codes w = 98 :: rest := by
  obtain ⟨bs, -, rfl⟩ := h
  exact ⟨_, by rw [codes, writtenBytes, String.toList_ofList]; rfl⟩

/-- The last character tells what cannot be compared by size from numbers. -/
theorem Written.last (h : v.Written) (ho : v.isOther = true) :
    ∃ n rest, codes v.render = rest ++ [n] ∧
      (n = 106 ↔ ∃ w, v = .imaginary w) ∧ (n = 115 ↔ v = .ellipsis) := by
  cases v with
  | none => exact h.elim
  | text s => simp [isOther] at ho
  | bytes w => simp [isOther] at ho
  | ellipsis => exact ⟨115, [69, 108, 108, 105, 112, 115, 105], rfl, by simp, by simp⟩
  | bool b =>
    cases b with
    | false => exact ⟨101, [70, 97, 108, 115], rfl, by simp, by simp⟩
    | true => exact ⟨101, [84, 114, 117], rfl, by simp, by simp⟩
  | int k =>
    obtain ⟨n, rest, hcodes, hn⟩ := (numeral_toString k).last
    exact ⟨n, rest, hcodes, by simp; omega, by simp; omega⟩
  | real w =>
    rcases h with rfl | rfl | ⟨hw, -⟩
    · exact ⟨102, [105, 110], rfl, by simp, by simp⟩
    · exact ⟨102, [45, 105, 110], rfl, by simp, by simp⟩
    · obtain ⟨n, rest, hcodes, hn⟩ := hw.last
      exact ⟨n, rest, hcodes, by simp; omega, by simp; omega⟩
  | imaginary w =>
    obtain ⟨u, rfl, -⟩ := h
    exact ⟨106, codes u, by rw [render, codes_append]; rfl, by simp, by simp⟩

end Ends

end Literal

end PlotAdvisor.Program
