import PlotAdvisor.Table

/-! What a table holds after entries are set one after the other: the last entry of a key counts, and a key
without one keeps what it had. Entries set in two tables side by side keep what the tables have in common. -/
set_option autoImplicit false

namespace PlotAdvisor.Table

variable {κ ν : Type} [BEq κ]

theorem getD_congr {t u : Table κ ν} {x : κ} (default : ν) (h : t.get? x = u.get? x) :
    t.getD x default = u.getD x default := by
  rw [getD, getD, h]

def setAll (t : Table κ ν) (es : List (κ × ν)) : Table κ ν := es.foldl (fun t e => t.set e.1 e.2) t

theorem keys_setIn (k : κ) (v : ν) (es : List (κ × ν)) :
    (setIn k v es).map Prod.fst = if es.any (fun e => e.1 == k) then es.map Prod.fst else es.map Prod.fst ++ [k] := by
  induction es with
  | nil => rfl
  | cons e es ih =>
    rw [setIn]
    by_cases he : (e.1 == k) = true
    · simp [he]
    · have hmore : (e :: es).any (fun e => e.1 == k) = es.any fun e => e.1 == k := by simp [he]
      rw [if_neg he, hmore, List.map_cons, ih]
      split <;> rfl

section Lawful
variable [LawfulBEq κ]

theorem lookup_setIn (k x : κ) (v : ν) (es : List (κ × ν)) :
    (setIn k v es).lookup x = if x == k then some v else es.lookup x := by
  induction es with
  | nil => cases hx : x == k <;> simp [setIn, List.lookup_cons, hx]
  | cons e es ih =>
    obtain ⟨j, w⟩ := e
    rw [setIn]
    by_cases hj : j = k
    · subst hj
      cases hx : x == j <;> simp [List.lookup_cons, hx]
    · rw [if_neg (by simpa using hj)]
      cases hx : x == j with
      | true =>
        have hxj : x = j := by simpa using hx
        have hxk : (x == k) = false := by simpa [hxj] using hj
        simp [List.lookup_cons, hx, hxk]
      | false => simp only [List.lookup_cons, hx, ih]

theorem get?_set (t : Table κ ν) (k x : κ) (v : ν) :
    (t.set k v).get? x = if x == k then some v else t.get? x :=
  lookup_setIn k x v t.entries

theorem mem_entries_of_get? {t : Table κ ν} {k : κ} {v : ν} (h : t.get? k = some v) : (k, v) ∈ t.entries := by
  obtain ⟨before, after, hentries, -⟩ := List.lookup_eq_some_iff.1 h
  simp [hentries]

theorem setIn_of_notMem {k : κ} (v : ν) {es : List (κ × ν)} (hk : k ∉ es.map Prod.fst) :
    setIn k v es = es ++ [(k, v)] := by
  induction es with
  | nil => rfl
  | cons e es ih =>
    simp only [List.map_cons, List.mem_cons, not_or] at hk
    have he : ¬ (e.1 == k) = true := by simpa using fun h : e.1 = k => hk.1 h.symm
    rw [setIn, if_neg he, ih hk.2]
    rfl

theorem get?_of_mem_entries {t : Table κ ν} (ht : t.keys.Nodup) {k : κ} {v : ν} (h : (k, v) ∈ t.entries) :
    t.get? k = some v := by
  obtain ⟨before, after, hentries⟩ := List.append_of_mem h
  refine List.lookup_eq_some_iff.2 ⟨before, after, hentries, ?_⟩
  intro e he
  rw [keys, hentries, List.map_append, List.map_cons, List.nodup_append] at ht
  have hne := ht.2.2 e.1 (List.mem_map_of_mem he) k (by simp)
  simpa using hne.symm

theorem keys_set (t : Table κ ν) (k : κ) (v : ν) :
    (t.set k v).keys = if k ∈ t.keys then t.keys else t.keys ++ [k] := by
  have hkeys : (t.set k v).keys = _ := keys_setIn k v t.entries
  have hany : t.entries.any (fun e => e.1 == k) = true ↔ k ∈ t.keys := by
    rw [keys, List.any_eq_true, List.mem_map]
    simp only [beq_iff_eq]
  rw [hkeys]
  by_cases hk : k ∈ t.keys
  · rw [if_pos hk, if_pos (hany.2 hk)]
    rfl
  · rw [if_neg hk, if_neg (fun h => hk (hany.1 h))]
    rfl

theorem nodup_keys_set {t : Table κ ν} (ht : t.keys.Nodup) (k : κ) (v : ν) : (t.set k v).keys.Nodup := by
  rw [keys_set]
  split
  · exact ht
  · next hk =>
    refine List.nodup_append.2 ⟨ht, by simp, ?_⟩
    rintro x hx y hy rfl
    exact hk (List.mem_singleton.1 hy ▸ hx)

theorem nodup_keys_ofList (es : List (κ × ν)) : (ofList es).keys.Nodup := by
  have hall (t : Table κ ν) (ht : t.keys.Nodup) : (t.setAll es).keys.Nodup := by
    induction es generalizing t with
    | nil => exact ht
    | cons e es ih => exact ih (t.set e.1 e.2) (nodup_keys_set ht e.1 e.2)
  exact hall empty List.nodup_nil

theorem entries_ofList {es : List (κ × ν)} (hes : (es.map Prod.fst).Nodup) : (ofList es).entries = es := by
  have hall (t : Table κ ν) (h : (t.keys ++ es.map Prod.fst).Nodup) : (t.setAll es).entries = t.entries ++ es := by
    induction es generalizing t with
    | nil => simp [setAll]
    | cons e es ih =>
      have hk : e.1 ∉ t.keys := fun hk => (List.nodup_append.1 h).2.2 e.1 hk e.1 (by simp) rfl
      have hentries : (t.set e.1 e.2).entries = t.entries ++ [e] := setIn_of_notMem e.2 hk
      have hset := ih (List.nodup_cons.1 (by simpa using hes)).2 (t.set e.1 e.2)
        (by simpa [keys, hentries] using h)
      rw [hentries, List.append_assoc] at hset
      exact hset
  exact hall empty (by simpa [keys, empty] using hes)

theorem get?_setAll_of_notMem (t : Table κ ν) (es : List (κ × ν)) (x : κ) (hx : x ∉ es.map Prod.fst) :
    (t.setAll es).get? x = t.get? x := by
  induction es generalizing t with
  | nil => rfl
  | cons e es ih =>
    simp only [List.map_cons, List.mem_cons, not_or] at hx
    have hset := get?_set t e.1 x e.2
    rw [if_neg (by simpa using hx.1)] at hset
    exact (ih (t.set e.1 e.2) hx.2).trans hset

theorem get?_setAll_of_mem (t u : Table κ ν) (es : List (κ × ν)) (x : κ) (hx : x ∈ es.map Prod.fst) :
    (t.setAll es).get? x = (u.setAll es).get? x := by
  induction es generalizing t u with
  | nil => simp at hx
  | cons e es ih =>
    by_cases hes : x ∈ es.map Prod.fst
    · exact ih (t.set e.1 e.2) (u.set e.1 e.2) hes
    · have he : x = e.1 := by simpa [hes] using hx
      have ht := get?_setAll_of_notMem (t.set e.1 e.2) es x hes
      have hu := get?_setAll_of_notMem (u.set e.1 e.2) es x hes
      rw [get?_set, if_pos (by simpa using he)] at ht hu
      exact ht.trans hu.symm

theorem mem_of_get?_setAll {t : Table κ ν} {es : List (κ × ν)} {x : κ} {v : ν}
    (h : (t.setAll es).get? x = some v) : (x, v) ∈ es ∨ t.get? x = some v := by
  induction es generalizing t with
  | nil => exact Or.inr h
  | cons e es ih =>
    rcases ih h with hes | ht
    · exact Or.inl (List.mem_cons_of_mem e hes)
    · rw [get?_set] at ht
      split at ht
      · next hx =>
        have he : (x, v) = e := Prod.ext (by simpa using hx) (Option.some.inj ht).symm
        exact Or.inl (he ▸ List.mem_cons_self)
      · exact Or.inr ht

theorem exists_get?_setAll (t : Table κ ν) {es : List (κ × ν)} {x : κ} (hx : x ∈ es.map Prod.fst) :
    ∃ v, (x, v) ∈ es ∧ (t.setAll es).get? x = some v := by
  induction es generalizing t with
  | nil => simp at hx
  | cons e es ih =>
    by_cases hes : x ∈ es.map Prod.fst
    · obtain ⟨v, hv, hget⟩ := ih (t.set e.1 e.2) hes
      exact ⟨v, List.mem_cons_of_mem e hv, hget⟩
    · have he : x = e.1 := by simpa [hes] using hx
      refine ⟨e.2, he ▸ List.mem_cons_self, ?_⟩
      have hkept := get?_setAll_of_notMem (t.set e.1 e.2) es x hes
      rw [get?_set, if_pos (by simpa using he)] at hkept
      exact hkept

theorem get?_alter (t : Table κ ν) (k x : κ) (default : ν) (f : ν → ν) :
    (t.alter k default f).get? x = if x == k then some (f (t.getD k default)) else t.get? x :=
  get?_set t k x _

theorem mem_keys_iff {t : Table κ ν} {k : κ} : k ∈ t.keys ↔ (t.get? k).isSome = true := by
  cases hget : t.get? k with
  | some v => exact ⟨fun _ => rfl, fun _ => List.mem_map.2 ⟨(k, v), mem_entries_of_get? hget, rfl⟩⟩
  | none =>
    refine ⟨fun hk => ?_, nofun⟩
    obtain ⟨e, he, rfl⟩ := List.mem_map.1 hk
    exact absurd (List.lookup_eq_none_iff.1 hget e he) (by simp)

theorem mem_keys_of_get? {t : Table κ ν} {k : κ} {v : ν} (h : t.get? k = some v) : k ∈ t.keys :=
  mem_keys_iff.2 (by rw [h]; rfl)

theorem exists_get?_of_mem_keys {t : Table κ ν} {k : κ} (h : k ∈ t.keys) : ∃ v, t.get? k = some v :=
  Option.isSome_iff_exists.1 (mem_keys_iff.1 h)

theorem mem_keys_alter {t : Table κ ν} {k x : κ} {default : ν} {f : ν → ν} :
    x ∈ (t.alter k default f).keys ↔ x ∈ t.keys ∨ k = x := by
  rw [mem_keys_iff, mem_keys_iff, get?_alter]
  by_cases hx : x = k
  · simp [hx]
  · have hne : ¬ k = x := fun h => hx h.symm
    simp [hx, hne]

theorem mem_getD_foldl_push {α β : Type} (key : α → κ) (item : α → β) (xs : List α) (t : Table κ (List β)) (k : κ)
    (b : β) : b ∈ (xs.foldl (fun t x => t.push (key x) (item x)) t).getD k [] ↔
      b ∈ t.getD k [] ∨ ∃ x ∈ xs, key x = k ∧ item x = b := by
  induction xs generalizing t with
  | nil => simp
  | cons x xs ih =>
    have hpush : b ∈ (t.push (key x) (item x)).getD k [] ↔ b ∈ t.getD k [] ∨ key x = k ∧ item x = b := by
      rw [getD, push, get?_alter]
      by_cases hk : k = key x
      · simp [hk, eq_comm]
      · have hne : ¬ key x = k := fun h => hk h.symm
        simp [hk, hne, getD]
    rw [List.foldl_cons, ih, hpush, or_assoc]
    simp only [List.mem_cons, exists_eq_or_imp]

theorem mem_keys_foldl_push {α β : Type} (key : α → κ) (item : α → β) (xs : List α) (t : Table κ (List β)) (k : κ) :
    k ∈ (xs.foldl (fun t x => t.push (key x) (item x)) t).keys ↔ k ∈ t.keys ∨ ∃ x ∈ xs, key x = k := by
  induction xs generalizing t with
  | nil => simp
  | cons x xs ih =>
    rw [List.foldl_cons, ih, push, mem_keys_alter, or_assoc]
    simp only [List.mem_cons, exists_eq_or_imp]

theorem mem_getD_pushed {α β : Type} (key : α → κ) (item : α → β) {xs : List α} {k : κ} {b : β} :
    b ∈ (xs.foldl (fun t x => t.push (key x) (item x)) empty).getD k [] ↔ ∃ x ∈ xs, key x = k ∧ item x = b :=
  (mem_getD_foldl_push key item xs empty k b).trans (or_iff_right List.not_mem_nil)

theorem mem_keys_pushed {α β : Type} (key : α → κ) (item : α → β) {xs : List α} {k : κ} :
    k ∈ (xs.foldl (fun t x => t.push (key x) (item x)) empty).keys ↔ ∃ x ∈ xs, key x = k :=
  (mem_keys_foldl_push key item xs empty k).trans (or_iff_right List.not_mem_nil)

/-- Entries whose values go by their keys can be set in any order and more than once. -/
theorem get?_ofList_map (f : κ → ν) (ks : List κ) (x : κ) :
    (ofList (ks.map fun k => (k, f k))).get? x = if x ∈ ks then some (f x) else none := by
  have hkeys : (ks.map fun k => (k, f k)).map Prod.fst = ks := by simp [Function.comp_def]
  split
  · next hx =>
    obtain ⟨v, hv, hget⟩ := exists_get?_setAll empty (by rwa [hkeys] : x ∈ (ks.map fun k => (k, f k)).map Prod.fst)
    obtain ⟨k, -, heq⟩ := List.mem_map.1 hv
    obtain ⟨rfl, rfl⟩ := Prod.mk.inj heq
    exact hget
  · next hx => exact get?_setAll_of_notMem empty _ x (by rwa [hkeys])

theorem lookup_map (f : κ → ν) (ks : List κ) (x : κ) :
    (ks.map fun k => (k, f k)).lookup x = if x ∈ ks then some (f x) else none := by
  induction ks with
  | nil => rfl
  | cons k ks ih =>
    rw [List.map_cons, List.lookup_cons, ih]
    by_cases hx : x = k
    · simp [hx]
    · have hne : (x == k) = false := by simpa using hx
      simp [hx, hne]

theorem get?_setAll_related {ι : Type} {K : κ → Prop} {σ : κ → κ} {R : κ → Option ν → Option ν → Prop}
    (hσ : ∀ a b, K a → K b → σ a = σ b → a = b) (is : List ι) (key : ι → κ) (v w : ι → ν) (t u : Table κ ν)
    (h : ∀ x, K x → R x (t.get? x) (u.get? (σ x)))
    (hset : ∀ i ∈ is, K (key i) ∧ R (key i) (some (v i)) (some (w i))) (x : κ) (hx : K x) :
    R x ((t.setAll (is.map fun i => (key i, v i))).get? x)
      ((u.setAll (is.map fun i => (σ (key i), w i))).get? (σ x)) := by
  induction is generalizing t u with
  | nil => exact h x hx
  | cons i is ih =>
    obtain ⟨hkey, hi⟩ := hset i (by simp)
    refine ih (t.set (key i) (v i)) (u.set (σ (key i)) (w i)) (fun y hy => ?_) fun j hj => hset j (by simp [hj])
    rw [get?_set, get?_set]
    by_cases hyi : y = key i
    · rw [if_pos (by simpa using hyi), if_pos (by simp [hyi]), hyi]
      exact hi
    · have hne : σ y ≠ σ (key i) := fun e => hyi (hσ y (key i) hy hkey e)
      rw [if_neg (by simpa using hyi), if_neg (by simpa using hne)]
      exact h y hy

end Lawful

end PlotAdvisor.Table
