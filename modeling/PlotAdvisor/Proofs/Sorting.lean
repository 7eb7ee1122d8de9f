import Mathlib.Data.List.Nodup
import PlotAdvisor.Sorting

/-! Sorting rearranges: whatever the comparison is, every item comes out as often as it went in. Where the comparison is
a strict order and tells items with different keys apart, the sorted list rises strictly, for short lists and for long
ones. Its keys then depend only on the keys of the items, and not on the order in which these were given.

* `sortBy_perm` - sorting rearranges.
* `pairwise_sortBy` - the sorted list rises.
* `map_key_sortBy_eq` - its keys do not depend on the order of the items.
-/
set_option autoImplicit false

namespace PlotAdvisor.Sorting

variable {α : Type} (less : α → α → Bool)

theorem firstRun_append (falling : Bool) (prev : α) (xs : List α) :
    (firstRun less falling prev xs).1 ++ (firstRun less falling prev xs).2 = xs := by
  induction xs generalizing prev with
  | nil => rfl
  | cons x xs ih =>
    rw [firstRun]
    split
    · exact congrArg (x :: ·) (ih x)
    · rfl

theorem insertInto_perm (sorted : List α) (x : α) : (insertInto less sorted x).Perm (x :: sorted) := by
  rw [insertInto]
  refine List.perm_middle.trans (List.Perm.cons x ?_)
  rw [List.take_append_drop]

theorem foldl_insertInto_perm (xs sorted : List α) : (xs.foldl (insertInto less) sorted).Perm (sorted ++ xs) := by
  induction xs generalizing sorted with
  | nil => simp
  | cons x xs ih =>
    refine (ih (insertInto less sorted x)).trans ?_
    exact ((insertInto_perm less sorted x).append_right xs).trans List.perm_middle.symm

theorem insertion_perm (xs : List α) : (insertion less xs).Perm xs := by
  match xs with
  | [] => rfl
  | [a] => rfl
  | a :: b :: rest =>
    have hrun := firstRun_append less (less b a) a (b :: rest)
    simp only [insertion]
    rcases hfirst : firstRun less (less b a) a (b :: rest) with ⟨run, later⟩
    rw [hfirst] at hrun
    refine (foldl_insertInto_perm less later _).trans ?_
    simp only at hrun ⊢
    rw [← hrun, ← List.cons_append]
    refine List.Perm.append_right later ?_
    split
    · exact List.reverse_perm _
    · rfl

theorem sortBy_perm (xs : List α) : (sortBy less xs).Perm xs := by
  rw [sortBy]
  split
  · exact insertion_perm less xs
  · exact List.mergeSort_perm xs _

theorem mem_sortBy {xs : List α} {x : α} : x ∈ sortBy less xs ↔ x ∈ xs := (sortBy_perm less xs).mem_iff

end PlotAdvisor.Sorting

/-! ## Comparisons that order keys -/

namespace PlotAdvisor.Sorting

variable {α κ : Type} {less : α → α → Bool} {key : α → κ} {S : α → Prop}

/-- Among the items of `S` the comparison is a strict order, and items can be compared just when their keys differ. -/
structure Orders (less : α → α → Bool) (key : α → κ) (S : α → Prop) : Prop where
  apart : ∀ {a b}, S a → S b → less a b = true → key a ≠ key b
  total : ∀ {a b}, S a → S b → key a ≠ key b → less a b = true ∨ less b a = true
  trans : ∀ {a b c}, S a → S b → S c → less a b = true → less b c = true → less a c = true

namespace Orders

variable {a b c : α}

theorem asymm (h : Orders less key S) (ha : S a) (hb : S b) (hab : less a b = true) : less b a = false := by
  refine Bool.eq_false_iff.2 fun hba => ?_
  exact h.apart ha ha (h.trans ha hb ha hab hba) rfl

theorem congr_left (h : Orders less key S) (ha : S a) (hb : S b) (hc : S c) (hkey : key a = key b)
    (hac : less a c = true) : less b c = true := by
  have hne : key b ≠ key c := hkey ▸ h.apart ha hc hac
  refine (h.total hb hc hne).resolve_right fun hcb => ?_
  exact h.apart ha hb (h.trans ha hc hb hac hcb) hkey

theorem congr_right (h : Orders less key S) (ha : S a) (hb : S b) (hc : S c) (hkey : key a = key b)
    (hca : less c a = true) : less c b = true := by
  have hne : key c ≠ key b := hkey ▸ h.apart hc ha hca
  refine (h.total hc hb hne).resolve_right fun hbc => ?_
  exact h.apart hb ha (h.trans hb hc ha hbc hca) hkey.symm

theorem comap {β : Type} (h : Orders less key S) (f : β → α) :
    Orders (fun a b => less (f a) (f b)) (fun c => key (f c)) (fun c => S (f c)) where
  apart := fun ha hb => h.apart ha hb
  total := fun ha hb => h.total ha hb
  trans := fun ha hb hc => h.trans ha hb hc

theorem less_of_not_less (h : Orders less key S) (ha : S a) (hb : S b) (hne : key a ≠ key b)
    (hba : less b a = false) : less a b = true :=
  (h.total ha hb hne).resolve_right (by simp [hba])

end Orders

/-! ## Short lists -/

theorem placeFor_spec {x : α} {sorted : List α}
    (mono : ∀ (i j : Nat) y z, i ≤ j → sorted[i]? = some y → sorted[j]? = some z → less x y = true → less x z = true)
    (fuel lo hi : Nat) (hlo : lo ≤ hi) (hhi : hi ≤ sorted.length) (hfuel : hi - lo ≤ fuel)
    (before : ∀ j y, j < lo → sorted[j]? = some y → less x y = false)
    (after : ∀ j y, hi ≤ j → sorted[j]? = some y → less x y = true) :
    (∀ j y, j < placeFor less x sorted.toArray fuel lo hi → sorted[j]? = some y → less x y = false) ∧
      ∀ j y, placeFor less x sorted.toArray fuel lo hi ≤ j → sorted[j]? = some y → less x y = true := by
  induction fuel generalizing lo hi with
  | zero =>
    obtain rfl : lo = hi := by omega
    exact ⟨before, after⟩
  | succ fuel ih =>
    rw [placeFor]
    split
    · next hlt =>
      have hmid : (lo + hi) / 2 < sorted.length := by omega
      simp only [List.getElem?_toArray, List.getElem?_eq_getElem hmid]
      split
      · next hless =>
        refine ih lo ((lo + hi) / 2) (by omega) (by omega) (by omega) before fun j y hj hy => ?_
        exact mono _ j _ y hj (List.getElem?_eq_getElem hmid) hy hless
      · next hless =>
        refine ih ((lo + hi) / 2 + 1) hi (by omega) hhi (by omega) (fun j y hj hy => ?_) after
        refine Bool.eq_false_iff.2 fun hxy => hless ?_
        exact mono j _ y _ (by omega) hy (List.getElem?_eq_getElem hmid) hxy
    · next hge =>
      obtain rfl : lo = hi := by omega
      exact ⟨before, after⟩

theorem pairwise_insertInto (h : Orders less key S) {x : α} (hx : S x) {sorted : List α} (hS : ∀ y ∈ sorted, S y)
    (hkey : ∀ y ∈ sorted, key x ≠ key y) (hsorted : sorted.Pairwise fun a b => less a b = true) :
    (insertInto less sorted x).Pairwise fun a b => less a b = true := by
  have mono : ∀ (i j : Nat) y z, i ≤ j → sorted[i]? = some y → sorted[j]? = some z → less x y = true → less x z = true := by
    intro i j y z hij hy hz hxy
    obtain ⟨hi, rfl⟩ := List.getElem?_eq_some_iff.1 hy
    obtain ⟨hj, rfl⟩ := List.getElem?_eq_some_iff.1 hz
    rcases Nat.lt_or_eq_of_le hij with hij | rfl
    · exact h.trans hx (hS _ (List.getElem_mem hi)) (hS _ (List.getElem_mem hj)) hxy
        (List.pairwise_iff_getElem.1 hsorted i j hi hj hij)
    · exact hxy
  obtain ⟨before, after⟩ := placeFor_spec mono sorted.length 0 sorted.length (Nat.zero_le _) (Nat.le_refl _)
    (by omega) (fun j y hj => absurd hj (Nat.not_lt_zero j)) fun j y hj hy => by
      rw [List.getElem?_eq_none hj] at hy
      exact nomatch hy
  rw [insertInto]
  generalize placeFor less x sorted.toArray sorted.length 0 sorted.length = i at before after
  have hsplit := hsorted
  rw [← List.take_append_drop i sorted, List.pairwise_append] at hsplit
  have hlow : ∀ y ∈ sorted.take i, less y x = true := by
    intro y hy
    have hmem := List.mem_of_mem_take hy
    obtain ⟨j, hj, rfl⟩ := List.mem_take_iff_getElem.1 hy
    refine h.less_of_not_less (hS _ hmem) hx (hkey _ hmem).symm ?_
    exact before j _ (by omega) (List.getElem?_eq_getElem _)
  have hhigh : ∀ y ∈ sorted.drop i, less x y = true := by
    intro y hy
    obtain ⟨j, hj, rfl⟩ := List.mem_drop_iff_getElem.1 hy
    exact after (i + j) _ (by omega) (List.getElem?_eq_getElem _)
  rw [List.pairwise_append, List.pairwise_cons]
  refine ⟨hsplit.1, ⟨hhigh, hsplit.2.1⟩, fun y hy z hz => ?_⟩
  rcases List.mem_cons.1 hz with rfl | hz
  · exact hlow y hy
  · exact hsplit.2.2 y hy z hz

theorem pairwise_foldl_insertInto (h : Orders less key S) {xs sorted : List α} (hS : ∀ y ∈ sorted ++ xs, S y)
    (hkey : ((sorted ++ xs).map key).Nodup) (hsorted : sorted.Pairwise fun a b => less a b = true) :
    (xs.foldl (insertInto less) sorted).Pairwise fun a b => less a b = true := by
  induction xs generalizing sorted with
  | nil => exact hsorted
  | cons x xs ih =>
    have hperm : (insertInto less sorted x ++ xs).Perm (sorted ++ x :: xs) :=
      ((insertInto_perm less sorted x).append_right xs).trans List.perm_middle.symm
    refine ih (fun y hy => hS y (hperm.mem_iff.1 hy)) ((hperm.map key).nodup_iff.2 hkey) ?_
    refine pairwise_insertInto h (hS x (by simp)) (fun y hy => hS y (by simp [hy])) (fun y hy heq => ?_) hsorted
    rw [List.map_append, List.nodup_append] at hkey
    exact hkey.2.2 (key y) (List.mem_map_of_mem hy) (key x) (by simp) heq.symm

theorem pairwise_firstRun (h : Orders less key S) (falling : Bool) {prev : α} {xs : List α}
    (hS : ∀ y ∈ prev :: xs, S y) (hkey : ((prev :: xs).map key).Nodup) :
    (prev :: (firstRun less falling prev xs).1).Pairwise fun a b =>
      (if falling then less b a else less a b) = true := by
  induction xs generalizing prev with
  | nil => simp [firstRun]
  | cons x xs ih =>
    have hprev : S prev := hS prev (by simp)
    have hx : S x := hS x (by simp)
    rw [firstRun]
    by_cases hstep : (less x prev == falling) = true
    · rw [if_pos hstep]
      have hrun := ih (fun y hy => hS y (List.mem_cons_of_mem prev hy)) (List.nodup_cons.1 hkey).2
      have hmem : ∀ y ∈ (firstRun less falling x xs).1, S y := by
        intro y hy
        refine hS y (List.mem_cons_of_mem _ (List.mem_cons_of_mem _ ?_))
        rw [← firstRun_append less falling x xs]
        exact List.mem_append_left _ hy
      have hne : key prev ≠ key x := by
        have hnot := (List.nodup_cons.1 hkey).1
        exact fun heq => hnot (by simp [heq])
      have hnext : (if falling then less x prev else less prev x) = true := by
        cases falling with
        | true => simpa using hstep
        | false => exact h.less_of_not_less hprev hx hne (by simpa using hstep)
      refine List.pairwise_cons.2 ⟨fun y hy => ?_, hrun⟩
      rcases List.mem_cons.1 hy with rfl | hy
      · exact hnext
      · have hlater := (List.pairwise_cons.1 hrun).1 y hy
        cases falling with
        | true => exact h.trans (hmem y hy) hx hprev hlater hnext
        | false => exact h.trans hprev hx (hmem y hy) hnext hlater
    · rw [if_neg hstep]
      exact List.pairwise_singleton _ prev

theorem pairwise_insertion (h : Orders less key S) {xs : List α} (hS : ∀ y ∈ xs, S y) (hkey : (xs.map key).Nodup) :
    (insertion less xs).Pairwise fun a b => less a b = true := by
  match xs with
  | [] => exact List.Pairwise.nil
  | [a] => exact List.pairwise_singleton _ a
  | a :: b :: rest =>
    have hrun := pairwise_firstRun h (less b a) hS hkey
    have happend := firstRun_append less (less b a) a (b :: rest)
    simp only [insertion]
    generalize firstRun less (less b a) a (b :: rest) = first at hrun happend
    obtain ⟨run, later⟩ := first
    dsimp only at hrun happend ⊢
    rw [← happend, ← List.cons_append] at hS hkey
    have hstart : (if less b a = true then (a :: run).reverse else a :: run).Perm (a :: run) := by
      split
      · exact List.reverse_perm _
      · exact List.Perm.refl _
    have hperm := hstart.append_right later
    refine pairwise_foldl_insertInto h (fun y hy => hS y (hperm.mem_iff.1 hy)) ((hperm.map key).nodup_iff.2 hkey) ?_
    cases hfalls : less b a with
    | true =>
      rw [if_pos rfl, List.pairwise_reverse]
      simpa [hfalls] using hrun
    | false =>
      rw [if_neg (by simp)]
      simpa [hfalls] using hrun

/-! ## Long lists -/

theorem pairwise_mergeSort (h : Orders less key S) {xs : List α} (hS : ∀ y ∈ xs, S y) (hkey : (xs.map key).Nodup) :
    (xs.mergeSort fun a b => !less b a).Pairwise fun a b => less a b = true := by
  -- merging asks for an order on a whole type, here that of the items of `S`
  have hmerged : ((xs.attachWith S hS).mergeSort fun a b => !less b.1 a.1).map Subtype.val =
      xs.mergeSort fun a b => !less b a := by
    rw [List.map_mergeSort (s := fun a b => !less b a) (fun a _ b _ => rfl), List.attachWith_map_subtype_val]
  have hrises : ((xs.attachWith S hS).mergeSort fun a b => !less b.1 a.1).Pairwise fun a b => (!less b.1 a.1) = true := by
    refine List.pairwise_mergeSort ?_ ?_ _
    · intro a b c hab hbc
      simp only [Bool.not_eq_true'] at hab hbc ⊢
      refine Bool.eq_false_iff.2 fun hca => ?_
      by_cases hkeys : key a.1 = key b.1
      · exact Bool.eq_false_iff.1 hbc (h.congr_right a.2 b.2 c.2 hkeys hca)
      · have hlt := h.less_of_not_less a.2 b.2 hkeys hab
        exact Bool.eq_false_iff.1 hbc (h.trans c.2 a.2 b.2 hca hlt)
    · intro a b
      cases hba : less b.1 a.1 with
      | false => rfl
      | true => simp [h.asymm b.2 a.2 hba]
  have hperm := List.mergeSort_perm xs fun a b => !less b a
  have hdistinct : (xs.mergeSort fun a b => !less b a).Pairwise fun a b => key a ≠ key b :=
    List.pairwise_map.1 ((hperm.map key).nodup_iff.2 hkey)
  have hweak : (xs.mergeSort fun a b => !less b a).Pairwise fun a b => less b a = false := by
    rw [← hmerged, List.pairwise_map]
    exact hrises.imp fun hab => by simpa using hab
  refine (hweak.and hdistinct).imp_of_mem fun ha hb hab => ?_
  exact h.less_of_not_less (hS _ (hperm.mem_iff.1 ha)) (hS _ (hperm.mem_iff.1 hb)) hab.2 hab.1

theorem pairwise_sortBy (h : Orders less key S) {xs : List α} (hS : ∀ y ∈ xs, S y) (hkey : (xs.map key).Nodup) :
    (sortBy less xs).Pairwise fun a b => less a b = true := by
  rw [sortBy]
  split
  · exact pairwise_insertion h hS hkey
  · exact pairwise_mergeSort h hS hkey

/-! ## One sorted list for given keys -/

theorem map_key_eq_of_pairwise (h : Orders less key S) {xs ys : List α} (hxs : ∀ x ∈ xs, S x) (hys : ∀ y ∈ ys, S y)
    (hx : xs.Pairwise fun a b => less a b = true) (hy : ys.Pairwise fun a b => less a b = true)
    (hperm : (xs.map key).Perm (ys.map key)) : xs.map key = ys.map key := by
  induction xs generalizing ys with
  | nil => simpa using hperm.symm
  | cons x xs ih =>
    cases ys with
    | nil => simp at hperm
    | cons y ys =>
      rw [List.pairwise_cons] at hx hy
      rw [List.forall_mem_cons] at hxs hys
      have hhead : key x = key y := by
        by_contra hne
        -- each head would stand below the item that has the key of the other
        have hxmem : key x ∈ (y :: ys).map key := hperm.mem_iff.1 (by simp)
        have hymem : key y ∈ (x :: xs).map key := hperm.mem_iff.2 (by simp)
        obtain ⟨x', hx', hxx'⟩ : ∃ x' ∈ ys, key x' = key x := by simpa [hne] using hxmem
        obtain ⟨y', hy', hyy'⟩ : ∃ y' ∈ xs, key y' = key y := by simpa [Ne.symm hne] using hymem
        have hyx : less y x = true := h.congr_right (hys.2 x' hx') hxs.1 hys.1 hxx' (hy.1 x' hx')
        have hxy : less x y = true := h.congr_right (hxs.2 y' hy') hys.1 hxs.1 hyy' (hx.1 y' hy')
        simp [h.asymm hxs.1 hys.1 hxy] at hyx
      rw [List.map_cons, List.map_cons, hhead] at hperm ⊢
      rw [ih hxs.2 hys.2 hx.2 hy.2 (List.perm_cons _ |>.1 hperm)]

theorem map_key_sortBy_eq (h : Orders less key S) {xs ys : List α} (hxs : ∀ x ∈ xs, S x) (hys : ∀ y ∈ ys, S y)
    (hkey : (xs.map key).Nodup) (hperm : (xs.map key).Perm (ys.map key)) :
    (sortBy less xs).map key = (sortBy less ys).map key := by
  have hsx := sortBy_perm less xs
  have hsy := sortBy_perm less ys
  refine map_key_eq_of_pairwise h (fun x hx => hxs x (hsx.mem_iff.1 hx)) (fun y hy => hys y (hsy.mem_iff.1 hy))
    (pairwise_sortBy h hxs hkey) (pairwise_sortBy h hys (hperm.nodup_iff.1 hkey)) ?_
  exact ((hsx.map key).trans hperm).trans (hsy.map key).symm

end PlotAdvisor.Sorting
