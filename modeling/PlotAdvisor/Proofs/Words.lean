import Mathlib.Data.List.DropRight
import PlotAdvisor.Text.Integer

/-! What is cut out of a text: its words, its slices, its text without the blanks at the end, and the numbers written
in it.

* `Chars.MaximalRun`, `Chars.mem_wordsFrom_iff` - words are the maximal runs of what is not blank, for any kind of
  blanks.
* `Chars.slice_append` - the slice from one place of a text to another.
-/
set_option autoImplicit false

namespace PlotAdvisor.Text

/-! ## Blanks at the end -/

theorem trimEnd_eq_nil_iff {cs : List Char} : Chars.trimEnd cs = [] ↔ ∀ c ∈ cs, isBlank c = true :=
  List.rdropWhile_eq_nil_iff

theorem trimEnd_of_blank {s : String} (h : ∀ c ∈ s.toList, isBlank c = true) : trimEnd s = "" := by
  rw [trimEnd, trimEnd_eq_nil_iff.2 h, String.ofList_nil]

theorem trimEnd_trimEnd (s : String) : trimEnd (trimEnd s) = trimEnd s := by
  have hchars : Chars.trimEnd (Chars.trimEnd s.toList) = Chars.trimEnd s.toList := List.rdropWhile_idempotent _ _
  rw [trimEnd, trimEnd, String.toList_ofList, hchars]

/-! ## Slices -/

theorem Chars.slice_append {α : Type} (before mid after : List α) {lo hi : Int} (hlo : lo = before.length)
    (hhi : hi = before.length + mid.length) : slice (before ++ (mid ++ after)) lo hi = mid := by
  have hlength : (before ++ (mid ++ after)).length = before.length + mid.length + after.length := by
    simp [Nat.add_assoc]
  have hfit (i : Int) (n : Nat) (hi : i = n) (hn : n ≤ before.length + mid.length) :
      (if i < 0 then max 0 (i + (before ++ (mid ++ after)).length) else
        min i (before ++ (mid ++ after)).length).toNat = n := by
    rw [if_neg (by omega)]
    omega
  have hstart := hfit lo before.length hlo (Nat.le_add_right _ _)
  have hstop := hfit hi (before.length + mid.length) (by omega) (Nat.le_refl _)
  simp only [slice, hstart, hstop]
  rw [List.take_length_add_append, List.drop_left, List.take_left]

theorem slice_whole (s : String) : slice s 0 s.length = s := by
  have hchars : Chars.slice ([] ++ (s.toList ++ [])) 0 s.length = s.toList :=
    Chars.slice_append [] s.toList [] rfl (by simp [← String.length_toList])
  rw [List.nil_append, List.append_nil] at hchars
  rw [slice, hchars, String.ofList_toList]

namespace Chars

/-! ## Runs and words -/

/-- A run of characters that satisfy `p`, all that stand together. -/
def MaximalRun (p : Char → Bool) (w cs : List Char) : Prop :=
  w ≠ [] ∧ (∀ c ∈ w, p c = true) ∧ ∃ before after, cs = before ++ w ++ after ∧
    (∀ u c, before = u ++ [c] → p c = false) ∧ ∀ c u, after = c :: u → p c = false

section
variable {p : Char → Bool} {w cs : List Char}

theorem maximalRun_of_all (hcs : ∀ c ∈ cs, p c = true) : MaximalRun p w cs ↔ cs ≠ [] ∧ w = cs := by
  constructor
  · rintro ⟨hne, -, before, after, rfl, hbefore, hafter⟩
    -- a neighbour of the run would satisfy `p`
    have hfirst : before = [] := by
      rcases List.eq_nil_or_concat' before with h | ⟨u, c, rfl⟩
      · exact h
      · exact absurd (hcs c (by simp)) (by simp [hbefore u c rfl])
    have hlast : after = [] := by
      cases after with
      | nil => rfl
      | cons c u => exact absurd (hcs c (by simp)) (by simp [hafter c u rfl])
    simpa [hfirst, hlast] using hne
  · rintro ⟨hne, rfl⟩
    exact ⟨hne, hcs, [], [], by simp, by simp, by simp⟩

/-- A character that does not satisfy `p` parts the runs before it from those behind it. -/
theorem maximalRun_append_cons {c : Char} (hc : p c = false) (front rest : List Char) :
    MaximalRun p w (front ++ c :: rest) ↔ MaximalRun p w front ∨ MaximalRun p w rest := by
  constructor
  · rintro ⟨hne, hall, before, after, heq, hbefore, hafter⟩
    have hout : c ∉ w := fun hmem => by simp [hall c hmem] at hc
    rw [List.append_assoc, List.append_eq_append_iff] at heq
    rcases heq with ⟨more, rfl, hrest⟩ | ⟨more, rfl, hrest⟩
    · cases more with
      | nil =>
        obtain ⟨d, v, rfl⟩ := List.exists_cons_of_ne_nil hne
        obtain ⟨rfl, -⟩ := List.cons.inj hrest
        exact absurd List.mem_cons_self hout
      | cons d more =>
        obtain ⟨rfl, rfl⟩ := List.cons.inj hrest
        exact .inr ⟨hne, hall, more, after, by simp, fun u e he => hbefore (front ++ c :: u) e (by simp [he]), hafter⟩
    · rcases List.append_eq_append_iff.1 hrest with ⟨left, rfl, rfl⟩ | ⟨left, rfl, hleft⟩
      · exact .inl ⟨hne, hall, before, left, by simp, hbefore, fun d u hd => hafter d (u ++ c :: rest) (by simp [hd])⟩
      · cases left with
        | nil => exact .inl ⟨hne, hall, before, [], by simp, hbefore, by simp⟩
        | cons d left =>
          obtain ⟨rfl, -⟩ := List.cons.inj hleft
          exact absurd (by simp) hout
  · rintro (⟨hne, hall, before, after, rfl, hbefore, hafter⟩ | ⟨hne, hall, before, after, rfl, hbefore, hafter⟩)
    · refine ⟨hne, hall, before, after ++ c :: rest, by simp, hbefore, fun d u hd => ?_⟩
      cases after with
      | nil =>
        obtain ⟨rfl, -⟩ := List.cons.inj hd
        exact hc
      | cons e after =>
        obtain ⟨rfl, -⟩ := List.cons.inj hd
        exact hafter e after rfl
    · refine ⟨hne, hall, front ++ c :: before, after, by simp, fun u d hd => ?_, hafter⟩
      rcases List.eq_nil_or_concat' before with rfl | ⟨v, e, rfl⟩
      · obtain ⟨-, hsame⟩ := List.append_inj' hd rfl
        simpa [← List.singleton_inj.1 hsame] using hc
      · have hd : (front ++ c :: v) ++ [e] = u ++ [d] := by simpa using hd
        obtain ⟨-, hsame⟩ := List.append_inj' hd rfl
        exact hbefore v d (by rw [List.singleton_inj.1 hsame])

theorem mem_wordsFrom_iff {blank : Char → Bool} {run : List Char} (hrun : ∀ c ∈ run, blank c = false) :
    w ∈ wordsFrom blank run cs ↔ MaximalRun (fun c => !blank c) w (run.reverse ++ cs) := by
  induction cs generalizing run with
  | nil =>
    rw [List.append_nil, maximalRun_of_all (by simpa using hrun), wordsFrom]
    split <;> simp_all
  | cons c cs ih =>
    rw [wordsFrom]
    split
    · next hc =>
      have hrest : w ∈ wordsFrom blank [] cs ↔ MaximalRun (fun c => !blank c) w cs := ih (by simp)
      rw [maximalRun_append_cons (by simp [hc]), maximalRun_of_all (by simpa using hrun)]
      split <;> simp_all
    · next hc =>
      rw [ih (by simp_all), List.reverse_cons, List.append_assoc, List.singleton_append]

theorem mem_asciiWords_iff (w cs : List Char) : w ∈ asciiWords cs ↔ MaximalRun (fun c => !isAsciiBlank c) w cs := by
  rw [asciiWords, mem_wordsFrom_iff (by simp), List.reverse_nil, List.nil_append]

/-- Characters that leave a run are made others that satisfy no more than they do. -/
theorem maximalRun_map {q : Char → Bool} {f : Char → Char} (hp : ∀ c ∈ cs, p (f c) = q c)
    (hf : ∀ c ∈ cs, q c = true → f c = c) : MaximalRun p w (cs.map f) ↔ MaximalRun q w cs := by
  constructor
  · rintro ⟨hne, hall, before, after, heq, hbefore, hafter⟩
    obtain ⟨front, rest, rfl, hfront, rfl⟩ := List.map_eq_append_iff.1 heq
    obtain ⟨front, v, rfl, rfl, hv⟩ := List.map_eq_append_iff.1 hfront
    have hq (c : Char) (hc : c ∈ v) : q c = true := by
      rw [← hp c (by simp [hc])]
      exact hall _ (hv ▸ List.mem_map_of_mem hc)
    obtain rfl : v = w := by
      rw [← hv]
      exact (List.map_id v).symm.trans (List.map_congr_left fun c hc => (hf c (by simp [hc]) (hq c hc)).symm)
    refine ⟨hne, hq, front, rest, rfl, fun u c hu => ?_, fun c u hu => ?_⟩
    · rw [← hp c (by simp [hu])]
      exact hbefore (u.map f) (f c) (by simp [hu])
    · rw [← hp c (by simp [hu])]
      exact hafter (f c) (u.map f) (by simp [hu])
  · rintro ⟨hne, hall, before, after, rfl, hbefore, hafter⟩
    have hsame : w.map f = w := by
      conv_rhs => rw [← List.map_id w]
      exact List.map_congr_left fun c hc => hf c (by simp [hc]) (hall c hc)
    refine ⟨hne, fun c hc => ?_, before.map f, after.map f, by simp [hsame], fun u c hu => ?_, fun c u hu => ?_⟩
    · rw [← hf c (by simp [hc]) (hall c hc), hp c (by simp [hc])]
      exact hall c hc
    · obtain ⟨v, d, rfl, -, hd⟩ := List.map_eq_append_iff.1 hu
      obtain ⟨e, rfl, rfl⟩ := List.map_eq_singleton_iff.1 hd
      rw [hp e (by simp)]
      exact hbefore v e rfl
    · obtain ⟨e, v, rfl, rfl, -⟩ := List.map_eq_cons_iff.1 hu
      rw [hp e (by simp)]
      exact hafter e v rfl

end

theorem wordsFrom_append {blank : Char → Bool} {word : List Char} (h : ∀ c ∈ word, blank c = false)
    (run rest : List Char) : wordsFrom blank run (word ++ rest) = wordsFrom blank (word.reverse ++ run) rest := by
  induction word generalizing run with
  | nil => rfl
  | cons c word ih =>
    rw [List.forall_mem_cons] at h
    rw [List.cons_append, wordsFrom, if_neg (by simp [h.1]), ih h.2, List.reverse_cons, List.append_assoc,
      List.singleton_append]

theorem asciiWords_pair {a b : List Char} (ha : a ≠ []) (hb : b ≠ []) (hablank : ∀ c ∈ a, isAsciiBlank c = false)
    (hbblank : ∀ c ∈ b, isAsciiBlank c = false) : asciiWords (a ++ ' ' :: b) = [a, b] := by
  have hlast : wordsFrom isAsciiBlank [] b = [b] := by
    have hrun := wordsFrom_append hbblank [] []
    rw [List.append_nil, List.append_nil] at hrun
    rw [hrun, wordsFrom, if_neg (by simpa using hb), List.reverse_reverse]
  rw [asciiWords, wordsFrom_append hablank, List.append_nil, wordsFrom, if_pos (by decide),
    if_neg (by simpa using ha), List.reverse_reverse, hlast]

end Chars

/-! ## Written numbers -/

theorem digitIn_ten {c : Char} (h : c.isDigit = true) : digitIn 10 c = some (c.toNat - '0'.toNat) := by
  obtain ⟨hlow, hhigh⟩ := Char.isDigit_iff_toNat.1 h
  have hzero : '0'.toNat = 48 := rfl
  have hnine : '9'.toNat = 57 := rfl
  have hvalue : digitValue? c = some (c.toNat - 48) := by
    rw [digitValue?, zeros, List.find?_cons_of_pos (by simp; omega)]
    rfl
  rw [digitIn, hvalue]
  simp
  omega

theorem digitsFrom_ten {cs : List Char} (h : ∀ c ∈ cs, c.isDigit = true) {joined : Bool} (n : Nat)
    (hne : joined = true ∨ cs ≠ []) : digitsFrom 10 joined n cs = some (Nat.ofDigitChars 10 cs n) := by
  induction cs generalizing joined n with
  | nil => simp [digitsFrom, hne.resolve_right (by simp)]
  | cons c cs ih =>
    rw [List.forall_mem_cons] at h
    have hscore : ¬ (c == '_') = true := by
      intro heq
      rw [beq_iff_eq.1 heq] at h
      exact absurd h.1 (by decide)
    rw [digitsFrom, if_neg hscore, digitIn_ten h.1, Nat.ofDigitChars_cons, Nat.mul_comm]
    exact ih h.2 _ (Or.inl rfl)

theorem isAsciiBlank_of_isDigit {c : Char} (h : c.isDigit = true) : isAsciiBlank c = false := by
  obtain ⟨hlow, hhigh⟩ := Char.isDigit_iff_toNat.1 h
  have hzero : '0'.toNat = 48 := rfl
  have hblank : (c == ' ') = false := by
    rw [beq_eq_false_iff_ne]
    rintro rfl
    exact absurd hlow (by decide)
  simp [isAsciiBlank, hblank]
  omega

theorem dropWhile_of_none {p : Char → Bool} {cs : List Char} (h : ∀ c ∈ cs, p c = false) : cs.dropWhile p = cs := by
  cases cs with
  | nil => rfl
  | cons c cs => rw [List.dropWhile_cons_of_neg (by simp [h c])]

theorem toList_toString (n : Nat) : (toString n).toList = Nat.toDigits 10 n := String.toList_ofList

theorem isDigit_of_mem_toString {n : Nat} {c : Char} (h : c ∈ (toString n).toList) : c.isDigit = true := by
  rw [toList_toString] at h
  exact Nat.isDigit_of_mem_toDigits (by omega) (by omega) h

theorem toString_ne_nil (n : Nat) : (toString n).toList ≠ [] := by
  rw [toList_toString]
  exact Nat.toDigits_ne_nil

theorem isAsciiBlank_of_mem_toString {n : Nat} : ∀ c ∈ (toString n).toList, isAsciiBlank c = false := fun _ hc =>
  isAsciiBlank_of_isDigit (isDigit_of_mem_toString hc)

/-- A number that is written as bytes is read back. -/
theorem readIntOfBytes_toString (n : Nat) : readIntOfBytes 10 (toString n).toList = .ok (n : Int) := by
  have hdigits : ∀ c ∈ (toString n).toList, c.isDigit = true := fun c => isDigit_of_mem_toString
  have hmark : baseMark 10 (toString n).toList = none := by
    unfold baseMark
    split <;> simp
  have hnat : naturalIn 10 (toString n).toList = some n := by
    rw [naturalIn, hmark, Option.getD_none, digitsFrom_ten hdigits 0 (Or.inr (toString_ne_nil n)), toList_toString,
      Nat.ofDigitChars_ten_toDigits]
  have hread : integerIn 10 isAsciiBlank (toString n).toList = some (n : Int) := by
    rw [integerIn, Chars.trimBy, dropWhile_of_none isAsciiBlank_of_mem_toString,
      dropWhile_of_none (fun c hc => isAsciiBlank_of_mem_toString c (List.mem_reverse.1 hc)), List.reverse_reverse]
    split
    · next heq => exact absurd (hdigits '-' (by rw [heq]; simp)) (by decide)
    · next heq => exact absurd (hdigits '+' (by rw [heq]; simp)) (by decide)
    · rw [hnat]
      rfl
  rw [readIntOfBytes, hread]
  rfl

end PlotAdvisor.Text
