import Mathlib.Algebra.Order.Ring.Nat
import Mathlib.Algebra.Order.Sub.Basic
import Mathlib.Data.Nat.SuccPred
import Mathlib.Data.String.Basic
import PlotAdvisor.Documentation.Library
import PlotAdvisor.Proofs.Faults
import PlotAdvisor.Proofs.Table

/-! The function that a bare name is taken for. Of the functions of that name it is one whose count comes last as
text, which need not be the largest number. -/
set_option autoImplicit false
set_option maxRecDepth 4000

namespace PlotAdvisor

namespace Text

/-! ## Numbers by their digits -/

/-- A text of digits, such as a number in decimal notation; it may begin with zeros. -/
def Digital (s : String) : Prop := ∀ c ∈ s.toList, c.isDigit = true

instance (s : String) : Decidable (Digital s) := decidable_of_iff (s.toList.all Char.isDigit = true) List.all_eq_true

def numberOf (s : String) : Nat := Nat.ofDigitChars 10 s.toList 0

def significant (s : String) : List Char := s.toList.dropWhile (· == '0')

theorem ofDigitChars_cons_zero (c : Char) (cs : List Char) :
    Nat.ofDigitChars 10 (c :: cs) 0 = 10 ^ cs.length * (c.toNat - '0'.toNat) + Nat.ofDigitChars 10 cs 0 := by
  rw [Nat.ofDigitChars_cons, Nat.ofDigitChars_eq_ofDigitChars_zero, Nat.mul_zero, Nat.zero_add]

/-- A larger first digit outweighs the digits after it. -/
theorem lead_lt {size a b low : Nat} (hlow : low < size) (hab : a < b) (rest : Nat) :
    size * a + low < size * b + rest :=
  calc size * a + low < size * a + size := by omega
    _ = size * (a + 1) := by rw [Nat.mul_add, Nat.mul_one]
    _ ≤ size * b := Nat.mul_le_mul_left size hab
    _ ≤ size * b + rest := Nat.le_add_right _ _

theorem ofDigitChars_lt_pow {cs : List Char} (h : ∀ c ∈ cs, c.isDigit = true) :
    Nat.ofDigitChars 10 cs 0 < 10 ^ cs.length := by
  induction cs with
  | nil => simp
  | cons c cs ih =>
    rw [List.forall_mem_cons] at h
    have hdigit : c.toNat - '0'.toNat < 10 := by
      have : c.toNat ≤ '0'.toNat + 9 := (Char.isDigit_iff_toNat.1 h.1).2
      omega
    rw [ofDigitChars_cons_zero, List.length_cons, pow_succ]
    exact lead_lt (ih h.2) hdigit 0

/-- Equally many digits are ordered as texts the way their numbers are. -/
theorem lt_iff_ofDigitChars_lt {as bs : List Char} (ha : ∀ c ∈ as, c.isDigit = true) (hb : ∀ c ∈ bs, c.isDigit = true)
    (hlength : as.length = bs.length) : as < bs ↔ Nat.ofDigitChars 10 as 0 < Nat.ofDigitChars 10 bs 0 := by
  induction as generalizing bs with
  | nil =>
    have hnil : bs = [] := List.length_eq_zero_iff.1 hlength.symm
    simp [hnil]
  | cons c cs ih =>
    cases bs with
    | nil => simp at hlength
    | cons d ds =>
      rw [List.forall_mem_cons] at ha hb
      have hsame : cs.length = ds.length := Nat.succ.inj hlength
      have hcs := ofDigitChars_lt_pow ha.2
      have hds := ofDigitChars_lt_pow hb.2
      have hc := (Char.isDigit_iff_toNat.1 ha.1).1
      have hd := (Char.isDigit_iff_toNat.1 hb.1).1
      rw [List.cons_lt_cons_iff, ih ha.2 hb.2 hsame, ofDigitChars_cons_zero, ofDigitChars_cons_zero]
      rw [hsame] at hcs ⊢
      rcases lt_trichotomy c d with hlt | rfl | hgt
      · have hdigits : c.toNat - '0'.toNat < d.toNat - '0'.toNat := by
          have : c.toNat < d.toNat := hlt
          omega
        exact iff_of_true (.inl hlt) (lead_lt hcs hdigits _)
      · simp
      · have hdigits : d.toNat - '0'.toNat < c.toNat - '0'.toNat := by
          have : d.toNat < c.toNat := hgt
          omega
        refine iff_of_false ?_ (lead_lt hds hdigits _).not_gt
        rintro (h | ⟨rfl, -⟩)
        · exact lt_asymm h hgt
        · exact lt_irrefl _ hgt

theorem ofDigitChars_lt_of_shorter {as bs : List Char} (ha : ∀ c ∈ as, c.isDigit = true)
    (hb : ∀ c ∈ bs, c.isDigit = true) (hlead : bs.head? ≠ some '0') (hlength : as.length < bs.length) :
    Nat.ofDigitChars 10 as 0 < Nat.ofDigitChars 10 bs 0 := by
  cases bs with
  | nil => simp at hlength
  | cons d ds =>
    have hd := (Char.isDigit_iff_toNat.1 (hb d (by simp))).1
    have hne : d.toNat ≠ '0'.toNat := fun h => hlead (by rw [List.head?_cons, Char.toNat_inj.1 h])
    have hdigit : 0 < d.toNat - '0'.toNat := by omega
    have has : Nat.ofDigitChars 10 as 0 < 10 ^ ds.length :=
      (ofDigitChars_lt_pow ha).trans_le (Nat.pow_le_pow_right (by omega) (Nat.lt_succ_iff.1 hlength))
    rw [ofDigitChars_cons_zero]
    simpa using lead_lt has hdigit (Nat.ofDigitChars 10 ds 0)

theorem numberOf_eq_significant (s : String) : numberOf s = Nat.ofDigitChars 10 (significant s) 0 := by
  unfold numberOf significant
  induction s.toList with
  | nil => rfl
  | cons c cs ih =>
    by_cases hc : c = '0'
    · rw [List.dropWhile_cons_of_pos (by simpa using hc), ← ih, ofDigitChars_cons_zero, hc]
      simp
    · rw [List.dropWhile_cons_of_neg (by simpa using hc)]

theorem head?_significant (s : String) : (significant s).head? ≠ some '0' := by
  intro h
  have := List.head?_dropWhile_not (· == '0') s.toList
  rw [show s.toList.dropWhile (· == '0') = significant s from rfl, h] at this
  simp at this

theorem Digital.significant {s : String} (h : Digital s) : ∀ c ∈ significant s, c.isDigit = true :=
  fun c hc => h c ((List.dropWhile_sublist _).mem hc)

theorem numberOf_lt_iff {a b : String} (ha : Digital a) (hb : Digital b) :
    numberOf a < numberOf b ↔ (significant a).length < (significant b).length ∨
      (significant a).length = (significant b).length ∧ significant a < significant b := by
  rw [numberOf_eq_significant, numberOf_eq_significant]
  rcases lt_trichotomy (significant a).length (significant b).length with h | h | h
  · exact iff_of_true (ofDigitChars_lt_of_shorter ha.significant hb.significant (head?_significant b) h) (.inl h)
  · rw [← lt_iff_ofDigitChars_lt ha.significant hb.significant h]
    simp [h]
  · have hgt := ofDigitChars_lt_of_shorter hb.significant ha.significant (head?_significant a) h
    exact iff_of_false hgt.not_gt (by omega)

theorem numberOf_le_of_length_eq {a b : String} (ha : Digital a) (hb : Digital b) (hlength : a.length = b.length)
    (h : a ≤ b) : numberOf a ≤ numberOf b := by
  have hlists : a.toList.length = b.toList.length := by
    rw [String.length_toList, String.length_toList, hlength]
  by_contra hlt
  have hlater := (lt_iff_ofDigitChars_lt hb ha hlists.symm).2 (not_le.1 hlt)
  exact not_lt.2 h (String.lt_iff_toList_lt.2 hlater)

end Text

namespace Documentation.Library

open Knowledge

/-! ## The functions of a name -/

/-- The entries of functions with this as the last part of their ids. -/
def namesakes (l : Library) (name : String) : List (Entry String) :=
  l.entries.values.filter fun e => e.type == "func" && Text.lastPart e.id "." == name

def LastOf (es : List (Entry String)) : Option (Entry String) → Prop
  | none => es = []
  | some e => e ∈ es ∧ ∀ e' ∈ es, e'.count ≤ e.count

def Popular (l : Library) (name id : String) : Prop :=
  ∃ e ∈ l.namesakes name, e.id = id ∧ ∀ e' ∈ l.namesakes name, Text.numberOf e'.count ≤ Text.numberOf e.count

instance (l : Library) (name id : String) : Decidable (l.Popular name id) :=
  inferInstanceAs (Decidable (∃ e ∈ l.namesakes name, e.id = id ∧
    ∀ e' ∈ l.namesakes name, Text.numberOf e'.count ≤ Text.numberOf e.count))

theorem lastOf_foldl (p : Entry String → Bool) (es seen : List (Entry String)) (best : Option (Entry String))
    (h : LastOf seen best) :
    LastOf (seen ++ es.filter p)
      (es.foldl
        (fun best e => if p e && best.all (fun b => decide (b.count < e.count)) then some e else best) best) := by
  induction es generalizing seen best with
  | nil => simpa using h
  | cons e es ih =>
    rw [List.foldl_cons]
    by_cases hp : p e = true
    · rw [List.filter_cons_of_pos hp, ← List.singleton_append, ← List.append_assoc]
      apply ih
      cases best with
      | none =>
        rw [show seen = [] from h]
        simp [LastOf, hp]
      | some b =>
        obtain ⟨hb, hlast⟩ := h
        by_cases hlt : b.count < e.count
        · rw [if_pos (by rw [hp, Option.all_some, decide_eq_true hlt]; rfl)]
          refine ⟨by simp, fun e' he' => ?_⟩
          rcases List.mem_append.1 he' with hseen | hnew
          · exact (hlast e' hseen).trans hlt.le
          · rw [List.mem_singleton.1 hnew]
        · rw [if_neg (by rw [hp, Option.all_some, decide_eq_false hlt]; decide)]
          refine ⟨List.mem_append_left _ hb, fun e' he' => ?_⟩
          rcases List.mem_append.1 he' with hseen | hnew
          · exact hlast e' hseen
          · rw [List.mem_singleton.1 hnew]
            exact not_lt.1 hlt
    · rw [List.filter_cons_of_neg hp, if_neg (by simp [hp])]
      exact ih seen best h

theorem guess?_spec (l : Library) (name : String) :
    ∃ best, l.guess? name = best.map Entry.id ∧ LastOf (l.namesakes name) best :=
  ⟨_, rfl, lastOf_foldl (fun e => e.type == "func" && Text.lastPart e.id "." == name) l.entries.values [] none rfl⟩

theorem exists_rows {s : Sources} {l : Library} (h : ofSources s = .ok l) :
    ∃ rows : List (Entry String), l = ⟨Table.ofList (rows.map fun e => (e.id, e))⟩ := by
  obtain ⟨rows, -, hl⟩ := bind_eq_ok h
  exact ⟨rows, (Except.ok.inj hl).symm⟩

theorem get?_of_mem_values {s : Sources} {l : Library} (h : ofSources s = .ok l) {e : Entry String}
    (he : e ∈ l.entries.values) : l.entries.get? e.id = some e := by
  obtain ⟨rows, rfl⟩ := exists_rows h
  obtain ⟨⟨k, e⟩, hentry, rfl⟩ := List.mem_map.1 he
  have hget := Table.get?_of_mem_entries (Table.nodup_keys_ofList _) hentry
  rcases Table.mem_of_get?_setAll hget with hrow | hempty
  · obtain ⟨row, -, hpair⟩ := List.mem_map.1 hrow
    obtain ⟨rfl, rfl⟩ := Prod.mk.inj hpair
    exact hget
  · cases hempty

theorem eq_of_id_eq {s : Sources} {l : Library} (h : ofSources s = .ok l) {name : String} {e e' : Entry String}
    (he : e ∈ l.namesakes name) (he' : e' ∈ l.namesakes name) (hid : e.id = e'.id) : e = e' := by
  have hget := get?_of_mem_values h (List.mem_filter.1 he).1
  rw [hid, get?_of_mem_values h (List.mem_filter.1 he').1] at hget
  exact (Option.some.inj hget).symm

/-- Where counts are numbers in decimal notation, a name that no function has is not guessed, and the guess for any
other is a function of that name whose count comes last as text. That is the most popular one exactly if no count
has more digits than the last one, or as many and later ones, zeros in front apart. So it is for counts of equal
length. -/
theorem guess_popular_iff {s : Sources} {l : Library} (h : ofSources s = .ok l)
    (hcounts : ∀ e ∈ l.entries.values, Text.Digital e.count) (name : String) :
    (l.guess? name = none ↔ l.namesakes name = []) ∧
    (∀ id, l.guess? name = some id →
      ∃ e ∈ l.namesakes name, e.id = id ∧ ∀ e' ∈ l.namesakes name, e'.count ≤ e.count) ∧
    ((∀ id, l.guess? name = some id → l.Popular name id) ↔
      ∀ e ∈ l.namesakes name, (∀ e' ∈ l.namesakes name, e'.count ≤ e.count) → ∀ e' ∈ l.namesakes name,
        ¬ ((Text.significant e.count).length < (Text.significant e'.count).length ∨
          (Text.significant e.count).length = (Text.significant e'.count).length ∧
            Text.significant e.count < Text.significant e'.count)) ∧
    ((∀ e ∈ l.namesakes name, ∀ e' ∈ l.namesakes name, e.count.length = e'.count.length) →
      ∀ id, l.guess? name = some id → l.Popular name id) := by
  have hdigital {e : Entry String} (he : e ∈ l.namesakes name) : Text.Digital e.count :=
    hcounts e (List.mem_filter.1 he).1
  obtain ⟨best, hguess, hlast⟩ := guess?_spec l name
  cases best with
  | none =>
    have hnone : l.namesakes name = [] := hlast
    simp [hguess, hnone]
  | some b =>
    obtain ⟨hb, hlast⟩ := hlast
    have hguess : l.guess? name = some b.id := hguess
    have hpopular : l.Popular name b.id ↔
        ∀ e' ∈ l.namesakes name, Text.numberOf e'.count ≤ Text.numberOf b.count := by
      refine ⟨?_, fun hall => ⟨b, hb, rfl, hall⟩⟩
      rintro ⟨e, he, hid, hall⟩
      rwa [eq_of_id_eq h he hb hid] at hall
    simp only [hguess, Option.some.injEq, forall_eq', reduceCtorEq, false_iff, hpopular]
    refine ⟨List.ne_nil_of_mem hb, ⟨b, hb, rfl, hlast⟩, ⟨?_, ?_⟩, ?_⟩
    · intro hall e he helast e' he'
      -- two counts that both come last are the same text
      have hsame : e.count = b.count := le_antisymm (hlast e he) (helast b hb)
      rw [hsame, ← Text.numberOf_lt_iff (hdigital hb) (hdigital he')]
      exact (hall e' he').not_gt
    · intro hdigits e' he'
      have := hdigits b hb hlast e' he'
      rw [← Text.numberOf_lt_iff (hdigital hb) (hdigital he')] at this
      exact not_lt.1 this
    · intro hlength e' he'
      exact Text.numberOf_le_of_length_eq (hdigital he') (hdigital hb) (hlength e' he' b hb) (hlast e' he')

def barSources (count count' : String) : Sources :=
  { Sources.shipped with
    elementDocs := "elem_id,name,full_name,type,parent_id,rtype,count,utter,utter_expand\nplt.bar,bar,bar,func,plt,," ++
      count ++ ",,\nax.bar,bar,bar,func,ax,," ++ count' ++ ",,\n" }

def barLibrary (count count' : String) : Library :=
  ⟨⟨[("plt.bar", ⟨"plt.bar", "bar", "bar", "func", "plt", "", count, "", ""⟩),
    ("ax.bar", ⟨"ax.bar", "bar", "bar", "func", "ax", "", count', "", ""⟩)]⟩⟩

theorem guess_popular_ninety :
    ofSources (barSources "9" "90") = .ok (barLibrary "9" "90") ∧
    (∀ e ∈ (barLibrary "9" "90").entries.values, Text.Digital e.count) ∧
    (barLibrary "9" "90").guess? "bar" = some "ax.bar" ∧ (barLibrary "9" "90").Popular "bar" "ax.bar" := by
  have hread : ofSources (barSources "9" "90") = .ok (barLibrary "9" "90") := by rfl
  have hcounts : ∀ e ∈ (barLibrary "9" "90").entries.values, Text.Digital e.count := by decide
  have hguess : (barLibrary "9" "90").guess? "bar" = some "ax.bar" := by rfl
  refine ⟨hread, hcounts, hguess, (guess_popular_iff hread hcounts "bar").2.2.1.2 ?_ "ax.bar" hguess⟩
  decide

theorem guess_nine_over_ten :
    ofSources (barSources "9" "10") = .ok (barLibrary "9" "10") ∧
    (∀ e ∈ (barLibrary "9" "10").entries.values, Text.Digital e.count) ∧
    (barLibrary "9" "10").guess? "bar" = some "plt.bar" ∧ ¬ (barLibrary "9" "10").Popular "bar" "plt.bar" := by
  refine ⟨by rfl, by decide, by rfl, by decide⟩

end Documentation.Library
end PlotAdvisor
