import PlotAdvisor.Proofs.Sorting
import PlotAdvisor.Proofs.WrittenForms

/-! The comparison of symbols. Of two different symbols one comes before the other. Numbers are compared by size, and
all other pairs as lists of codes, so that the comparison is an order among the numbers and an order among symbols with
at most one number. Across the two it is an order just when imaginary numbers and ellipses fall in line with the sizes:
numbers that are written before one of them must not be larger than numbers that are written behind it. -/
set_option autoImplicit false

namespace PlotAdvisor.Program

/-! ## Values -/

namespace Literal

variable {a b v : Literal}

def rank : Literal → List Nat
  | .text s => 0 :: codes s
  | .bytes w => 1 :: 98 :: bytesOf w
  | v => 1 :: codes (v.render ++ ")")

theorem rank_of_isOther (h : v.isOther = true) : v.rank = 1 :: codes (v.render ++ ")") := by
  cases v with
  | text s => simp [isOther] at h
  | bytes w => simp [isOther] at h
  | _ => rfl

theorem rank_lt (v : Literal) {n : Nat} (hn : 1 < n) (rest : List Nat) : v.rank < n :: rest := by
  cases v with
  | text s => exact List.cons_lt_cons_iff.2 (Or.inl (by omega))
  | _ => exact List.cons_lt_cons_iff.2 (Or.inl hn)

theorem Written.begins (h : v.Written) :
    ∃ n rest, codes v.render = n :: rest ∧
      ((n < 45 ∧ ∃ s, v = .text s) ∨ (n = 98 ∧ ∃ w, v = .bytes w) ∨ (45 ≤ n ∧ n ≠ 98 ∧ v.isOther = true)) := by
  cases ho : v.isOther with
  | true =>
    obtain ⟨n, rest, hcodes, hlow, hn⟩ := h.first ho
    exact ⟨n, rest, hcodes, Or.inr (Or.inr ⟨hlow, by omega, rfl⟩)⟩
  | false =>
    cases v with
    | text s =>
      obtain ⟨n, rest, hcodes, hn⟩ := first_text s
      exact ⟨n, rest, hcodes, Or.inl ⟨hn, s, rfl⟩⟩
    | bytes w =>
      obtain ⟨rest, hcodes⟩ := h.first_bytes
      exact ⟨98, rest, hcodes, Or.inr (Or.inl ⟨rfl, w, rfl⟩)⟩
    | _ => simp [isOther] at ho

theorem less?_of_size? {x y : Size} (ha : a.size? = some x) (hb : b.size? = some y) :
    a.less? b = some (x.less y) := by
  unfold less?
  split
  · simp [size?] at ha
  · simp [size?] at ha
  · rw [ha, hb]

theorem less?_eq_none (ht : ∀ s t, a = .text s → b ≠ .text t) (hw : ∀ s t, a = .bytes s → b ≠ .bytes t)
    (hn : a.size? = Option.none ∨ b.size? = Option.none) : a.less? b = Option.none := by
  unfold less?
  split
  · next s t => exact absurd rfl (ht s t rfl)
  · next s t => exact absurd rfl (hw s t rfl)
  · rcases hn with hn | hn
    · rw [hn]
    · rw [hn]
      cases a.size? <;> rfl

/-- Different first characters decide. -/
theorem render_lt_iff {m n : Nat} {r s : List Nat} (ha : codes a.render = m :: r) (hb : codes b.render = n :: s)
    (hne : m ≠ n) : a.render ++ ")" < b.render ++ ")" ↔ m < n := by
  rw [← codes_lt_iff, codes_append, codes_append, ha, hb, List.cons_append, List.cons_append, List.cons_lt_cons_iff]
  exact or_iff_left fun h => hne h.1

theorem render_lt_iff_rank (ha : a.Written) (hb : b.Written) (ht : ∀ s t, a = .text s → b ≠ .text t)
    (hw : ∀ s t, a = .bytes s → b ≠ .bytes t) : a.render ++ ")" < b.render ++ ")" ↔ a.rank < b.rank := by
  obtain ⟨m, r, hm, hma⟩ := ha.begins
  obtain ⟨n, s, hs, hnb⟩ := hb.begins
  rcases hma with ⟨hm45, t, rfl⟩ | ⟨hm98, w, rfl⟩ | ⟨hmlow, hm98, hao⟩
  · rw [rank]
    rcases hnb with ⟨hn45, u, rfl⟩ | ⟨hn98, x, rfl⟩ | ⟨hnlow, hn98, hbo⟩
    · exact absurd rfl (ht t u rfl)
    · rw [render_lt_iff hm hs (by omega), rank, List.cons_lt_cons_iff]
      omega
    · rw [render_lt_iff hm hs (by omega), rank_of_isOther hbo, List.cons_lt_cons_iff]
      omega
  · rw [rank]
    rcases hnb with ⟨hn45, u, rfl⟩ | ⟨hn98, x, rfl⟩ | ⟨hnlow, hn98, hbo⟩
    · rw [render_lt_iff hm hs (by omega), rank, List.cons_lt_cons_iff]
      omega
    · exact absurd rfl (hw w x rfl)
    · rw [render_lt_iff hm hs (by omega), rank_of_isOther hbo, codes_append, hs, List.cons_append,
        List.cons_lt_cons_iff, List.cons_lt_cons_iff]
      omega
  · rw [rank_of_isOther hao]
    rcases hnb with ⟨hn45, u, rfl⟩ | ⟨hn98, x, rfl⟩ | ⟨hnlow, hn98, hbo⟩
    · rw [render_lt_iff hm hs (by omega), rank, List.cons_lt_cons_iff]
      omega
    · rw [render_lt_iff hm hs (by omega), rank, codes_append, hm, List.cons_append, List.cons_lt_cons_iff,
        List.cons_lt_cons_iff]
      omega
    · simp [rank_of_isOther hbo, codes_lt_iff]

/-- Values that are not both numbers are compared as lists of codes. -/
theorem less_iff_rank (ha : a.Written) (hb : b.Written) (hn : a.size? = Option.none ∨ b.size? = Option.none) :
    (a.less? b).getD (decide (a.render ++ ")" < b.render ++ ")")) = true ↔ a.rank < b.rank := by
  by_cases ht : ∃ s t, a = .text s ∧ b = .text t
  · obtain ⟨s, t, rfl, rfl⟩ := ht
    simp [less?, rank, codes_lt_iff]
  · by_cases hw : ∃ s t, a = .bytes s ∧ b = .bytes t
    · obtain ⟨s, t, rfl, rfl⟩ := hw
      simp [less?, rank]
    · have ht' : ∀ s t, a = .text s → b ≠ .text t := fun s t hs h => ht ⟨s, t, hs, h⟩
      have hw' : ∀ s t, a = .bytes s → b ≠ .bytes t := fun s t hs h => hw ⟨s, t, hs, h⟩
      rw [less?_eq_none ht' hw' hn, Option.getD_none, decide_eq_true_iff]
      exact render_lt_iff_rank ha hb ht' hw'

theorem Written.imaginary_or_ellipsis (h : v.Written) (ho : v.isOther = true) (hn : v.size? = Option.none) :
    (∃ w, v = .imaginary w) ∨ v = .ellipsis := by
  cases v with
  | imaginary w => exact Or.inl ⟨w, rfl⟩
  | ellipsis => exact Or.inr rfl
  | none => exact h.elim
  | text s => simp [isOther] at ho
  | bytes w => simp [isOther] at ho
  | bool b => simp [size?] at hn
  | int n => simp [size?] at hn
  | real w =>
    rcases h with rfl | rfl | ⟨-, n, d, hsize⟩
    · exact absurd hn (by decide)
    · exact absurd hn (by decide)
    · simp [hsize] at hn

theorem Written.eq_of_render (ha : a.Written) (hb : b.Written) (hao : a.isOther = true) (hbo : b.isOther = true)
    (hn : a.size? = Option.none) (h : a.render = b.render) : a = b := by
  obtain ⟨m, r, hm, hmj, hms⟩ := ha.last hao
  obtain ⟨n, s, hs, hnj, hns⟩ := hb.last hbo
  have hmn : m = n := by
    rw [h, hs] at hm
    simpa using (List.append_inj' hm rfl).2.symm
  subst hmn
  rcases ha.imaginary_or_ellipsis hao hn with himag | rfl
  · obtain ⟨w, rfl⟩ := himag
    obtain ⟨x, rfl⟩ := hnj.1 (hmj.2 ⟨w, rfl⟩)
    exact congrArg Literal.imaginary h
  · exact (hns.1 (hms.2 rfl)).symm

/-- The codes tell values apart that are not both numbers. -/
theorem eq_of_rank (ha : a.Written) (hb : b.Written) (hn : a.size? = Option.none ∨ b.size? = Option.none)
    (h : a.rank = b.rank) : a = b := by
  obtain ⟨m, r, hm, hma⟩ := ha.begins
  obtain ⟨n, s, hs, hnb⟩ := hb.begins
  rcases hma with ⟨hm45, t, rfl⟩ | ⟨hm98, w, rfl⟩ | ⟨hmlow, hm98, hao⟩
  · rw [rank] at h
    rcases hnb with ⟨hn45, u, rfl⟩ | ⟨hn98, x, rfl⟩ | ⟨hnlow, hn98, hbo⟩
    · rw [rank, List.cons.injEq] at h
      rw [codes_injective h.2]
    · simp [rank] at h
    · simp [rank_of_isOther hbo] at h
  · rw [rank] at h
    rcases hnb with ⟨hn45, u, rfl⟩ | ⟨hn98, x, rfl⟩ | ⟨hnlow, hn98, hbo⟩
    · simp [rank] at h
    · obtain ⟨bs, hbs, rfl⟩ := ha
      obtain ⟨cs, hcs, rfl⟩ := hb
      simp only [rank, bytesOf_writtenBytes hbs, bytesOf_writtenBytes hcs, List.cons.injEq, true_and] at h
      rw [h]
    · simp only [rank_of_isOther hbo, codes_append, hs, List.cons_append, List.cons.injEq, true_and] at h
      omega
  · rw [rank_of_isOther hao] at h
    rcases hnb with ⟨hn45, u, rfl⟩ | ⟨hn98, x, rfl⟩ | ⟨hnlow, hn98, hbo⟩
    · simp [rank] at h
    · simp only [rank, codes_append, hm, List.cons_append, List.cons.injEq, true_and] at h
      omega
    · rw [rank_of_isOther hbo, codes_append, codes_append, List.cons.injEq] at h
      have hrender : a.render = b.render := codes_injective (List.append_cancel_right h.2)
      rcases hn with hn | hn
      · exact ha.eq_of_render hb hao hbo hn hrender
      · exact (hb.eq_of_render ha hbo hao hn hrender.symm).symm

theorem counted_of_size? {x : Size} (h : v.size? = some x) : v.counted = v := by
  rw [counted, if_neg]
  rintro rfl
  simp [size?] at h

theorem counted_of_size?_eq_none (h : v.counted.size? = Option.none) : v.counted = v := by
  rw [counted] at h ⊢
  split at h
  · simp [size?] at h
  · next hv => rw [if_neg hv]

theorem key_eq_iff :
    a.key = b.key ↔
      a = b ∨ ∃ x, a.counted.size?.map Size.value = some x ∧ b.counted.size?.map Size.value = some x := by
  cases ha : a.counted.size? with
  | none =>
    cases hb : b.counted.size? with
    | none =>
      rw [key_of_size?_eq_none ha, key_of_size?_eq_none hb, counted_of_size?_eq_none ha, counted_of_size?_eq_none hb]
      simp
    | some y =>
      have hne : a ≠ b := by
        rintro rfl
        simp [ha] at hb
      simp [key_of_size?_eq_none ha, key_of_size? hb, hne]
  | some x =>
    cases hb : b.counted.size? with
    | none =>
      have hne : a ≠ b := by
        rintro rfl
        simp [hb] at ha
      simp [key_of_size? ha, key_of_size?_eq_none hb, hne]
    | some y =>
      have heq : a = b → x.value = y.value := by
        rintro rfl
        rw [Option.some.inj (ha.symm.trans hb)]
      simp only [key_of_size? ha, key_of_size? hb, Sum.inl.injEq, Option.map_some, Option.some.injEq, exists_eq_left']
      exact ⟨fun h => Or.inr h.symm, fun h => h.elim heq Eq.symm⟩

theorem isOther_of_counted {x : Size} (h : v.counted.size? = some x) : v.isOther = true := by
  cases v with
  | text s => simp [counted, size?] at h
  | bytes w => simp [counted, size?] at h
  | _ => rfl

theorem Written.first_of_counted {x : Size} (h : v.Written) (hx : v.counted.size? = some x) :
    ∃ n rest, codes v.render = n :: rest ∧ n ≠ 98 ∧ (n < 98 ↔ x.value ≠ ⊤) := by
  obtain ⟨n, rest, hcodes, -, hn⟩ := h.first (isOther_of_counted hx)
  have hfinite (k : Int) (d : Nat) : (Size.at k d).value ≠ ⊤ := by
    simp [Size.value]
  refine ⟨n, rest, hcodes, by omega, ?_⟩
  rcases hn with hn | ⟨hn, rfl | rfl⟩
  · refine iff_of_true hn ?_
    cases v with
    | real w =>
      rcases h with rfl | rfl | ⟨-, k, d, hsize⟩
      · obtain ⟨rfl, -⟩ := List.cons.inj (hcodes.symm.trans (show codes "inf" = [105, 110, 102] from rfl))
        omega
      · have hbelow : some x = some Size.below := hx.symm.trans (by decide)
        obtain rfl := Option.some.inj hbelow
        simp [Size.value]
      · rw [counted_of_size? hsize, hsize] at hx
        obtain rfl := Option.some.inj hx
        exact hfinite k d
    | bool b =>
      obtain rfl := Option.some.inj hx
      exact hfinite _ 1
    | int k =>
      obtain rfl := Option.some.inj hx
      exact hfinite k 1
    | imaginary w =>
      by_cases hw : w = "0j"
      · subst hw
        obtain rfl := Option.some.inj hx
        exact hfinite 0 1
      · simp [counted, hw, size?] at hx
    | _ => simp [counted, size?] at hx
  · have habove : some x = some Size.above := hx.symm.trans (by decide)
    obtain rfl := Option.some.inj habove
    exact iff_of_false (by omega) (by simp [Size.value])
  · simp [counted, size?] at hx

end Literal

/-! ## Symbols -/

namespace Symbol

variable {a b c w : Symbol} {x y : WithBot (WithTop ℚ)}

/-- A value in the form in which it is shown; classes and fields have none. -/
def Written : Symbol → Prop
  | .content v => v.Written
  | _ => True

def number? : Symbol → Option (WithBot (WithTop ℚ))
  | .content v => v.size?.map Literal.Size.value
  | _ => none

def countedNumber? : Symbol → Option (WithBot (WithTop ℚ))
  | .content v => v.counted.size?.map Literal.Size.value
  | _ => none

def rank : Symbol → List Nat
  | .content v => v.rank
  | .field name => 2 :: codes name
  | .node kind => 3 :: codes kind

theorem countedNumber?_of_number? (h : a.number? = some x) : a.countedNumber? = some x := by
  cases a with
  | content v =>
    obtain ⟨z, hz, rfl⟩ := Option.map_eq_some_iff.1 h
    simp [countedNumber?, Literal.counted_of_size? hz, hz]
  | _ => simp [number?] at h

theorem same_iff_eq_or : a.same b = true ↔ a = b ∨ ∃ x, a.countedNumber? = some x ∧ b.countedNumber? = some x := by
  rw [same_iff]
  cases a with
  | content v =>
    cases b with
    | content u =>
      simp only [key, countedNumber?, Sum.inr.injEq, content.injEq]
      exact Literal.key_eq_iff
    | _ => simp [key, countedNumber?]
  | _ => cases b <;> simp [key, countedNumber?]

theorem same_comm : a.same b = b.same a := by
  rw [Bool.eq_iff_iff, same_iff, same_iff, eq_comm]

theorem less_of_same (h : a.same b = true) : a.less b = false := by
  cases a with
  | content v =>
    cases b with
    | content u => exact if_pos h
    | _ => simp [same] at h
  | field s =>
    obtain rfl := eq_of_beq h
    simp [less]
  | node s =>
    obtain rfl := eq_of_beq h
    simp [less]

theorem less_iff_number (ha : a.number? = some x) (hb : b.number? = some y) : a.less b = true ↔ x < y := by
  cases a with
  | content v =>
    cases b with
    | content u =>
      obtain ⟨p, hp, rfl⟩ := Option.map_eq_some_iff.1 ha
      obtain ⟨q, hq, rfl⟩ := Option.map_eq_some_iff.1 hb
      have hless := Literal.Size.less_iff (Literal.size?_proper hp) (Literal.size?_proper hq)
      cases hs : v.same u with
      | true =>
        have hvalue : p.value = q.value := by
          rw [Literal.same_iff, Literal.key_of_size? (Literal.counted_of_size? hp ▸ hp),
            Literal.key_of_size? (Literal.counted_of_size? hq ▸ hq)] at hs
          exact Sum.inl.inj hs
        simp [less, hs, hvalue]
      | false => simp [less, hs, Literal.less?_of_size? hp hq, hless]
    | _ => simp [number?] at hb
  | _ => simp [number?] at ha

theorem less_iff_rank (ha : a.Written) (hb : b.Written) (hn : a.number? = none ∨ b.number? = none)
    (hs : a.same b = false) : a.less b = true ↔ a.rank < b.rank := by
  cases a with
  | content v =>
    cases b with
    | content u =>
      have hs' : v.same u = false := hs
      have hn' : v.size? = none ∨ u.size? = none := by simpa [number?] using hn
      simp only [less, hs', Bool.false_eq_true, if_false, rank]
      exact Literal.less_iff_rank ha hb hn'
    | field s => exact iff_of_true rfl (v.rank_lt (by decide) _)
    | node s => exact iff_of_true rfl (v.rank_lt (by decide) _)
  | field s =>
    cases b with
    | content u => exact iff_of_false (by simp [less]) (u.rank_lt (by decide) _).asymm
    | field s' => simp [less, rank, codes_lt_iff]
    | node s' => simp [less, rank, List.cons_lt_cons_iff]
  | node s =>
    cases b with
    | content u => exact iff_of_false (by simp [less]) (u.rank_lt (by decide) _).asymm
    | field s' =>
      rw [rank, rank, List.cons_lt_cons_iff]
      simp [less]
    | node s' => simp [less, rank, codes_lt_iff]

theorem eq_of_rank (ha : a.Written) (hb : b.Written) (hn : a.number? = none ∨ b.number? = none)
    (h : a.rank = b.rank) : a = b := by
  cases a with
  | content v =>
    cases b with
    | content u => exact congrArg content (Literal.eq_of_rank ha hb (by simpa [number?] using hn) h)
    | field s => exact absurd h (v.rank_lt (by decide) _).ne
    | node s => exact absurd h (v.rank_lt (by decide) _).ne
  | field s =>
    cases b with
    | content u => exact absurd h (u.rank_lt (by decide) _).ne'
    | field s' => rw [codes_injective (List.cons.inj h).2]
    | node s' => simp [rank] at h
  | node s =>
    cases b with
    | content u => exact absurd h (u.rank_lt (by decide) _).ne'
    | field s' => simp [rank] at h
    | node s' => rw [codes_injective (List.cons.inj h).2]

/-! ## One of three -/

theorem number?_cases (a b : Symbol) :
    (a.number? = none ∨ b.number? = none) ∨ ∃ x y, a.number? = some x ∧ b.number? = some y := by
  cases a.number? <;> cases b.number? <;> simp

theorem same_of_less (h : a.less b = true) : a.same b = false := by
  cases hs : a.same b with
  | true => simp [less_of_same hs] at h
  | false => rfl

theorem less_asymm (ha : a.Written) (hb : b.Written) (h : a.less b = true) : b.less a = false := by
  have hs : a.same b = false := same_of_less h
  refine Bool.eq_false_iff.2 fun hba => ?_
  rcases number?_cases a b with hn | ⟨x, y, hx, hy⟩
  · rw [less_iff_rank ha hb hn hs] at h
    rw [less_iff_rank hb ha hn.symm (same_comm ▸ hs)] at hba
    exact lt_asymm h hba
  · rw [less_iff_number hx hy] at h
    rw [less_iff_number hy hx] at hba
    exact lt_asymm h hba

theorem less_or_less (ha : a.Written) (hb : b.Written) (h : a.same b = false) : a.less b = true ∨ b.less a = true := by
  rcases number?_cases a b with hn | ⟨x, y, hx, hy⟩
  · rw [less_iff_rank ha hb hn h, less_iff_rank hb ha hn.symm (same_comm ▸ h)]
    refine lt_or_gt_of_ne fun hrank => ?_
    rw [eq_of_rank ha hb hn hrank, same_iff.2 rfl] at h
    cases h
  · rw [less_iff_number hx hy, less_iff_number hy hx]
    refine lt_or_gt_of_ne fun hvalue => ?_
    subst hvalue
    rw [same_iff_eq_or.2 (Or.inr ⟨x, countedNumber?_of_number? hx, countedNumber?_of_number? hy⟩)] at h
    cases h

theorem less_iff_not_less (ha : a.Written) (hb : b.Written) (h : a.same b = false) :
    b.less a = true ↔ ¬ a.less b = true := by
  constructor
  · intro hba
    simp [less_asymm hb ha hba]
  · intro hab
    exact (less_or_less ha hb h).resolve_left hab

theorem count_compared (ha : a.Written) (hb : b.Written) : [a.less b, a.same b, b.less a].count true = 1 := by
  cases hs : a.same b with
  | true => simp [less_of_same hs, less_of_same (same_comm ▸ hs)]
  | false =>
    rcases less_or_less ha hb hs with h | h
    · simp [h, less_asymm ha hb h]
    · simp [h, less_asymm hb ha h]

/-! ## Falling in line -/

def IsApart : Symbol → Prop
  | .content (.imaginary _) => True
  | .content .ellipsis => True
  | _ => False

/-- The same, or two numbers of which the first is smaller. -/
def Precedes (a b : Symbol) : Prop :=
  a.same b = true ∨ (a.number?.isSome = true ∧ b.number?.isSome = true ∧ a.less b = true)

def InLine (a b w : Symbol) : Prop := (b.less w = true → a.less w = true) ∧ (w.less a = true → w.less b = true)

theorem Precedes.counted (h : a.Precedes b) :
    a = b ∨ ∃ x y, a.countedNumber? = some x ∧ b.countedNumber? = some y ∧ x ≤ y := by
  rcases h with hs | ⟨ha, hb, hless⟩
  · rcases same_iff_eq_or.1 hs with rfl | ⟨x, hx, hy⟩
    · exact Or.inl rfl
    · exact Or.inr ⟨x, x, hx, hy, le_rfl⟩
  · obtain ⟨x, hx⟩ := Option.isSome_iff_exists.1 ha
    obtain ⟨y, hy⟩ := Option.isSome_iff_exists.1 hb
    exact Or.inr ⟨x, y, countedNumber?_of_number? hx, countedNumber?_of_number? hy, ((less_iff_number hx hy).1 hless).le⟩

theorem exists_content_of_countedNumber? (h : a.countedNumber? = some x) :
    ∃ v z, a = .content v ∧ v.counted.size? = some z ∧ z.value = x := by
  cases a with
  | content v =>
    obtain ⟨z, hz, hvalue⟩ := Option.map_eq_some_iff.1 h
    exact ⟨v, z, rfl, hz, hvalue⟩
  | _ => simp [countedNumber?] at h

theorem same_of_countedNumber? (hx : a.countedNumber? = some x) (hb : b.countedNumber? = none) : a.same b = false := by
  refine Bool.eq_false_iff.2 fun h => ?_
  rcases same_iff_eq_or.1 h with rfl | ⟨y, -, hy⟩
  · simp [hx] at hb
  · simp [hy] at hb

theorem less_bytes_iff {s : String} (ha : a.Written) (hs : (content (.bytes s)).Written)
    (hx : a.countedNumber? = some x) :
    (a.less (.content (.bytes s)) = true ↔ x ≠ ⊤) ∧
      ((content (.bytes s)).less a = true ↔ x = ⊤) := by
  have hsame : a.same (.content (.bytes s)) = false :=
    same_of_countedNumber? hx (by simp [countedNumber?, Literal.counted, Literal.size?])
  have hless : a.less (.content (.bytes s)) = true ↔ x ≠ ⊤ := by
    rw [less_iff_rank ha hs (Or.inr rfl) hsame]
    obtain ⟨v, z, rfl, hz, rfl⟩ := exists_content_of_countedNumber? hx
    obtain ⟨n, rest, hcodes, hne, hn⟩ := Literal.Written.first_of_counted ha hz
    rw [← hn, rank, rank, Literal.rank_of_isOther (Literal.isOther_of_counted hz), Literal.rank, codes_append, hcodes,
      List.cons_append, List.cons_lt_cons_iff, List.cons_lt_cons_iff]
    omega
  exact ⟨hless, by rw [less_iff_not_less ha hs hsame, hless, not_not]⟩

theorem text_less {s : String} (ha : a.Written) (hs : (content (.text s)).Written) (hx : a.countedNumber? = some x) :
    (content (.text s)).less a = true := by
  have hsame : a.same (.content (.text s)) = false :=
    same_of_countedNumber? hx (by simp [countedNumber?, Literal.counted, Literal.size?])
  rw [less_iff_rank hs ha (Or.inl rfl) (same_comm ▸ hsame)]
  obtain ⟨v, z, rfl, hz, rfl⟩ := exists_content_of_countedNumber? hx
  rw [rank, rank, Literal.rank_of_isOther (Literal.isOther_of_counted hz), Literal.rank, List.cons_lt_cons_iff]
  omega

/-- Text, bytes, fields and classes always fall in line. -/
theorem inLine_of_not_isApart (ha : a.Written) (hb : b.Written) (hw : w.Written) (h : a.Precedes b)
    (hnumber : w.number? = none) (hapart : ¬ w.IsApart) : InLine a b w := by
  rcases h.counted with rfl | ⟨x, y, hx, hy, hle⟩
  · exact ⟨id, id⟩
  · cases w with
    | content v =>
      cases ho : v.isOther with
      | true =>
        have hnone : v.size? = none := by simpa [number?] using hnumber
        rcases Literal.Written.imaginary_or_ellipsis hw ho hnone with ⟨u, rfl⟩ | rfl
        · exact absurd trivial hapart
        · exact absurd trivial hapart
      | false =>
        cases v with
        | text s =>
          have hbefore := text_less hb hw hy
          refine ⟨fun hbw => ?_, fun _ => hbefore⟩
          simp [less_asymm hw hb hbefore] at hbw
        | bytes s =>
          obtain ⟨haw, hwa⟩ := less_bytes_iff ha hw hx
          obtain ⟨hbw, hwb⟩ := less_bytes_iff hb hw hy
          have htop : x = ⊤ → y = ⊤ := fun h => top_unique (h ▸ hle)
          rw [InLine, haw, hwa, hbw, hwb]
          exact ⟨mt htop, htop⟩
        | _ => simp [Literal.isOther] at ho
    | _ =>
      obtain ⟨v, -, rfl, -⟩ := exists_content_of_countedNumber? hx
      obtain ⟨u, -, rfl, -⟩ := exists_content_of_countedNumber? hy
      exact ⟨fun _ => rfl, fun h => by simp [less] at h⟩

/-- Among these symbols, imaginary numbers and ellipses fall in line with the sizes of numbers. -/
def Orderly (S : Set Symbol) : Prop :=
  ∀ a ∈ S, ∀ b ∈ S, ∀ w ∈ S, w.IsApart → a.Precedes b → InLine a b w

theorem Orderly.inLine {S : Set Symbol} (hS : ∀ s ∈ S, s.Written) (h : Orderly S) (ha : a ∈ S) (hb : b ∈ S) (hw : w ∈ S)
    (hnumber : w.number? = none) (hab : a.Precedes b) : InLine a b w := by
  by_cases hapart : w.IsApart
  · exact h a ha b hb w hw hapart hab
  · exact inLine_of_not_isApart (hS a ha) (hS b hb) (hS w hw) hab hnumber hapart

theorem eq_imaginary_zero (hx : a.countedNumber? = some x) (hn : a.number? = none) :
    a = .content (.imaginary "0j") := by
  obtain ⟨v, z, rfl, hz, -⟩ := exists_content_of_countedNumber? hx
  by_cases hv : v = .imaginary "0j"
  · rw [hv]
  · rw [Literal.counted, if_neg hv] at hz
    simp [number?, hz] at hn

theorem eq_of_same_of_number? (h : a.same b = true) (ha : a.number? = none) (hb : b.number? = none) : a = b := by
  rcases same_iff_eq_or.1 h with rfl | ⟨x, hx, hy⟩
  · rfl
  · rw [eq_imaginary_zero hx ha, eq_imaginary_zero hy hb]

/-- With at most one number among three symbols all comparisons go by the codes. -/
theorem less_trans_of_rank (ha : a.Written) (hb : b.Written) (hc : c.Written) (hab : a.number? = none ∨ b.number? = none)
    (hbc : b.number? = none ∨ c.number? = none) (hac : a.number? = none ∨ c.number? = none) (hs : a.same c = false)
    (h : a.less b = true) (h' : b.less c = true) : a.less c = true := by
  rw [less_iff_rank ha hb hab (same_of_less h)] at h
  rw [less_iff_rank hb hc hbc (same_of_less h')] at h'
  rw [less_iff_rank ha hc hac hs]
  exact lt_trans h h'

theorem Orderly.less_trans {S : Set Symbol} (hS : ∀ s ∈ S, s.Written) (h : Orderly S) (ha : a ∈ S) (hb : b ∈ S)
    (hc : c ∈ S) (hab : a.less b = true) (hbc : b.less c = true) : a.less c = true := by
  cases hnb : b.number? with
  | none =>
    -- The last does not precede the first: what is between them would not be in line.
    have hback : ¬ c.Precedes a := by
      intro hca
      have hcb := (h.inLine hS hc ha hb hnb hca).1 hab
      simp [less_asymm (hS b hb) (hS c hc) hbc] at hcb
    have hs : a.same c = false := Bool.eq_false_iff.2 fun hs => hback (Or.inl (same_comm ▸ hs))
    rcases number?_cases a c with hn | ⟨x, z, hx, hz⟩
    · exact less_trans_of_rank (hS a ha) (hS b hb) (hS c hc) (Or.inr hnb) (Or.inl hnb) hn hs hab hbc
    · refine (less_or_less (hS a ha) (hS c hc) hs).resolve_right fun hca => hback (Or.inr ⟨?_, ?_, hca⟩)
      · rw [hz, Option.isSome_some]
      · rw [hx, Option.isSome_some]
  | some y =>
    cases hna : a.number? with
    | none =>
      cases hnc : c.number? with
      | none =>
        have hs : a.same c = false := by
          refine Bool.eq_false_iff.2 fun hs => ?_
          obtain rfl := eq_of_same_of_number? hs hna hnc
          simp [less_asymm (hS a ha) (hS b hb) hab] at hbc
        exact less_trans_of_rank (hS a ha) (hS b hb) (hS c hc) (Or.inl hna) (Or.inr hnc) (Or.inl hna) hs hab hbc
      | some z =>
        have hprec : b.Precedes c := Or.inr ⟨by rw [hnb, Option.isSome_some], by rw [hnc, Option.isSome_some], hbc⟩
        exact (h.inLine hS hb hc ha hna hprec).2 hab
    | some x =>
      cases hnc : c.number? with
      | none =>
        have hprec : a.Precedes b := Or.inr ⟨by rw [hna, Option.isSome_some], by rw [hnb, Option.isSome_some], hab⟩
        exact (h.inLine hS ha hb hc hnc hprec).1 hbc
      | some z =>
        rw [less_iff_number hna hnb] at hab
        rw [less_iff_number hnb hnc] at hbc
        rw [less_iff_number hna hnc]
        exact lt_trans hab hbc

theorem orders_of_less_trans {S : Set Symbol} (hS : ∀ s ∈ S, s.Written)
    (htrans : ∀ a ∈ S, ∀ b ∈ S, ∀ c ∈ S, a.less b = true → b.less c = true → a.less c = true) :
    Sorting.Orders less key (· ∈ S) where
  apart := fun _ _ hab hkey => by simp [less_of_same (same_iff.2 hkey)] at hab
  total := fun ha hb hkey => less_or_less (hS _ ha) (hS _ hb) (Bool.eq_false_iff.2 (mt same_iff.1 hkey))
  trans := fun ha hb hc => htrans _ ha _ hb _ hc

/-- The comparison is an order just where imaginary numbers and ellipses fall in line. -/
theorem less_trans_iff {S : Set Symbol} (hS : ∀ s ∈ S, s.Written) :
    (∀ a ∈ S, ∀ b ∈ S, ∀ c ∈ S, a.less b = true → b.less c = true → a.less c = true) ↔ Orderly S := by
  constructor
  · intro htrans a ha b hb w hw _ hab
    have horders := orders_of_less_trans hS htrans
    rcases hab with hs | ⟨-, -, hless⟩
    · rw [same_iff] at hs
      exact ⟨horders.congr_left hb ha hw hs.symm, horders.congr_right ha hb hw hs⟩
    · exact ⟨htrans a ha b hb w hw hless, fun hwa => htrans w hw a ha b hb hwa hless⟩
  · intro h a ha b hb c hc hab hbc
    exact h.less_trans hS ha hb hc hab hbc

end Symbol

end PlotAdvisor.Program
