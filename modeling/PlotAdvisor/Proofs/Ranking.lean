import PlotAdvisor.Proofs.Pruning

/-! What pruning makes of a ranking. Whether an item is stripped depends on the item alone, and what was seen before it
only decides whether anything is returned for it. So the items returned are those of a part of the ranking, in its
order, each stripped or left as it is. -/
set_option autoImplicit false

namespace PlotAdvisor.Advice

open Text

/-! ## Where the returned items come from -/

/-- What is returned for an item, if anything is: an argument of a function that is not in use is stripped. -/
def Item.advised (used : List String) (i : Item) : Item :=
  if functionId i.element ∉ used ∧ i.isArgument = true then i.stripped else i

theorem functionId_advised (used : List String) (i : Item) :
    functionId (i.advised used).element = functionId i.element := by
  rw [Item.advised]
  split
  · exact functionId_functionId i.element
  · rfl

theorem score_advised (used : List String) (i : Item) : (i.advised used).score = i.score := by
  rw [Item.advised]
  split <;> rfl

theorem advised_of_used {used : List String} {i : Item} (h : functionId i.element ∈ used) : i.advised used = i :=
  if_neg fun hnot => hnot.1 h

theorem advised_of_unused {used : List String} {i : Item} (h : functionId i.element ∉ used) :
    i.advised used = i.stripped := by
  by_cases harg : i.isArgument = true
  · exact if_pos ⟨h, harg⟩
  · -- an item that is no argument is its own function
    have hself : i.element = functionId i.element := by
      by_contra hne
      exact harg ((isArgument_iff i).2 hne)
    rw [Item.advised, if_neg fun hboth => harg hboth.2, Item.stripped, ← hself]

/-- Rule 4 holds for what is returned. -/
theorem used_of_mem_advised {used : List String} {i : Item} (h : '@' ∈ (i.advised used).element.toList) :
    functionId (i.advised used).element ∈ used := by
  by_contra hnot
  rw [functionId_advised] at hnot
  rw [advised_of_unused hnot] at h
  exact notMem_functionId i.element h

theorem withFunctions_cons_advised (used seen : List String) (i : Item) (rest : List Item) :
    withFunctions used seen (i :: rest) =
      if functionId i.element ∈ seen then withFunctions used seen rest
      else i.advised used :: withFunctions used
        (if functionId i.element ∉ used ∧ i.isArgument = true then functionId i.element :: seen else seen) rest := by
  rw [withFunctions_cons, Item.advised]
  split
  · rfl
  · split <;> rfl

theorem exists_origins (used seen : List String) (items : List Item) :
    ∃ origins : List Item, origins.Sublist items ∧ withFunctions used seen items = origins.map (Item.advised used) := by
  induction items generalizing seen with
  | nil => exact ⟨[], List.Sublist.refl [], rfl⟩
  | cons i items ih =>
    rw [withFunctions_cons_advised]
    split
    · obtain ⟨origins, hsub, hmap⟩ := ih seen
      exact ⟨origins, hsub.cons i, hmap⟩
    · obtain ⟨origins, hsub, hmap⟩ := ih
        (if functionId i.element ∉ used ∧ i.isArgument = true then functionId i.element :: seen else seen)
      exact ⟨i :: origins, hsub.cons_cons i, by rw [hmap, List.map_cons]⟩

/-! ## The rules -/

/-- What the first two rules allow: names of functions in use, and of all others those of drawing functions exactly
when no drawing function is in use. -/
def Setting.Allows (s : Setting) (name : String) : Prop :=
  name ∈ s.usedFunctions ∨
  (name ∉ s.drawing ∧ ∃ f ∈ s.usedFunctions, f ∈ s.drawing) ∨
  (name ∈ s.drawing ∧ ∀ f ∈ s.usedFunctions, f ∉ s.drawing)

theorem Setting.hasDrawn_iff (s : Setting) : s.hasDrawn = true ↔ ∃ f ∈ s.usedFunctions, f ∈ s.drawing := by
  simp [hasDrawn]

theorem Setting.fits_iff (s : Setting) (element : String) :
    s.fits element = true ↔ s.Allows (functionName element) := by
  have hnone : (∀ f ∈ s.usedFunctions, f ∉ s.drawing) ↔ ¬ s.hasDrawn = true := by
    simp only [hasDrawn_iff, not_exists, not_and]
  rw [fits, Allows, ← hasDrawn_iff, hnone, Bool.or_eq_true, List.contains_iff_mem, bne_iff_ne]
  cases hdrawn : s.hasDrawn <;> cases hname : s.drawing.contains (functionName element) <;> simp_all

theorem Setting.passes_iff (s : Setting) (i : Item) :
    s.passes i = true ↔ s.isFrequent i.element = true ∧ s.Allows (functionName i.element) := by
  rw [passes, Bool.and_eq_true, fits_iff]

/-- An argument only of a function that is in use. -/
def Setting.InPlace (s : Setting) (element : String) : Prop := '@' ∈ element.toList → functionId element ∈ s.used

theorem withFunctions_of_inPlace {s : Setting} {items : List Item} (h : ∀ i ∈ items, s.InPlace i.element) :
    withFunctions s.used [] items = items := by
  induction items with
  | nil => rfl
  | cons i items ih =>
    have hstays : ¬ (functionId i.element ∉ s.used ∧ i.isArgument = true) := by
      rintro ⟨hnot, harg⟩
      exact hnot (h i (by simp) ((has_iff (c := '@') rfl i.element).1 harg))
    rw [withFunctions_cons, if_neg (by simp), if_neg hstays, ih fun j hj => h j (by simp [hj])]

/-- The first, second and fourth rule hold for everything that is returned: its function has the name of one in use, or
is a drawing function exactly when none is in use, and with an argument it is in use itself. A list is returned as it is
exactly when all the rules hold for its items. -/
theorem prune_obeys (s : Setting) (items : List Item) :
    (∀ i ∈ prune s items, s.Allows (functionName i.element) ∧ s.InPlace i.element) ∧
    (prune s items = items ↔
      ∀ i ∈ items, s.isFrequent i.element = true ∧ s.Allows (functionName i.element) ∧ s.InPlace i.element) := by
  obtain ⟨origins, hsub, hmap⟩ := exists_origins s.used [] (items.filter s.passes)
  have hrules : ∀ i ∈ prune s items, s.Allows (functionName i.element) ∧ s.InPlace i.element := by
    intro i hi
    rw [prune, hmap] at hi
    obtain ⟨o, ho, rfl⟩ := List.mem_map.1 hi
    have hpass : s.passes o = true := (List.mem_filter.1 (hsub.subset ho)).2
    have hname : functionName (o.advised s.used).element = functionName o.element := by
      rw [functionName, functionName, functionId_advised]
    rw [hname]
    exact ⟨((s.passes_iff o).1 hpass).2, used_of_mem_advised⟩
  refine ⟨hrules, fun hself i hi => ?_, fun hall => ?_⟩
  · -- nothing was left out, so that every item has passed
    have hlength : items.length ≤ (items.filter s.passes).length := by
      calc items.length = (prune s items).length := by rw [hself]
        _ = origins.length := by rw [prune, hmap, List.length_map]
        _ ≤ (items.filter s.passes).length := hsub.length_le
    have hpass : s.passes i = true :=
      List.filter_eq_self.1 (List.filter_sublist.eq_of_length_le hlength) i hi
    exact ⟨((s.passes_iff i).1 hpass).1, hrules i (hself.symm ▸ hi)⟩
  · have hpassed : items.filter s.passes = items := by
      refine List.filter_eq_self.2 fun i hi => (s.passes_iff i).2 ?_
      obtain ⟨hfrequent, hallowed, -⟩ := hall i hi
      exact ⟨hfrequent, hallowed⟩
    rw [prune, hpassed]
    exact withFunctions_of_inPlace fun i hi => (hall i hi).2.2

/-! ## The ranking -/

theorem filter_used_withFunctions {used seen : List String} (items : List Item) (hseen : ∀ f ∈ seen, f ∉ used) :
    (withFunctions used seen items).filter (fun i => functionId i.element ∈ used) =
      items.filter fun i => functionId i.element ∈ used := by
  induction items generalizing seen with
  | nil => rfl
  | cons i items ih =>
    rw [withFunctions_cons_advised]
    by_cases hused : functionId i.element ∈ used
    · have hnew : functionId i.element ∉ seen := fun hmem => hseen _ hmem hused
      rw [if_neg hnew, if_neg fun hboth => hboth.1 hused, advised_of_used hused]
      simp [hused, ih hseen]
    · -- an item of another function, returned or not, is no item of a function in use
      have hskip (j : Item) (hj : functionId j.element = functionId i.element) (more : List Item) :
          (j :: more).filter (fun i => functionId i.element ∈ used) =
            more.filter fun i => functionId i.element ∈ used :=
        List.filter_cons_of_neg (by simpa [hj] using hused)
      rw [hskip i rfl]
      split
      · exact ih hseen
      · rw [hskip _ (functionId_advised used i)]
        refine ih fun f hf => ?_
        split at hf
        · rcases List.mem_cons.1 hf with rfl | hf
          · exact hused
          · exact hseen f hf
        · exact hseen f hf

theorem stripped_mem_withFunctions {used seen : List String} {items : List Item} {f : String} {i : Item}
    (hused : f ∉ used) (hseen : f ∉ seen) (h : items.find? (fun j => functionId j.element == f) = some i) :
    ⟨f, i.score⟩ ∈ withFunctions used seen items := by
  induction items generalizing seen with
  | nil => simp at h
  | cons j items ih =>
    rw [withFunctions_cons_advised]
    by_cases hj : functionId j.element = f
    · obtain rfl : j = i := by simpa [hj] using h
      rw [if_neg (hj ▸ hseen), advised_of_unused (hj ▸ hused), Item.stripped, hj]
      exact List.mem_cons_self
    · have hother : f ≠ functionId j.element := fun e => hj e.symm
      have hrest : items.find? (fun j => functionId j.element == f) = some i := by simpa [hj] using h
      split
      · exact ih hseen hrest
      · refine List.mem_cons_of_mem _ (ih ?_ hrest)
        split
        · simpa [hother] using hseen
        · exact hseen

/-- Of the items that pass the first three rules, pruning returns all those of functions in use as they are, and for
every other function that is among them the function itself with the score of its first item. All that it returns comes
from a part of these items, in their order and with their scores, so that scores that were sorted stay so, in
non-increasing order as by any other relation. -/
theorem prune_keeps_ranking (s : Setting) (items : List Item) :
    let passed := items.filter s.passes
    let isUsed (i : Item) : Bool := functionId i.element ∈ s.used
    (prune s items).filter isUsed = passed.filter isUsed ∧
    (∀ f ∉ s.used, ∀ i, passed.find? (fun j => functionId j.element == f) = some i →
      ⟨f, i.score⟩ ∈ prune s items) ∧
    (∃ origins : List Item, origins.Sublist passed ∧ prune s items = origins.map (Item.advised s.used) ∧
      (prune s items).map Item.score = origins.map Item.score) ∧
    ∀ r : Numeric → Numeric → Prop, (items.map Item.score).Pairwise r → ((prune s items).map Item.score).Pairwise r := by
  intro passed isUsed
  obtain ⟨origins, hsub, hmap⟩ := exists_origins s.used [] passed
  have hscores : (prune s items).map Item.score = origins.map Item.score := by
    rw [prune, hmap, List.map_map]
    exact List.map_congr_left fun o _ => score_advised s.used o
  refine ⟨filter_used_withFunctions passed (by simp), fun f hf i hi => ?_, ⟨origins, hsub, hmap, hscores⟩,
    fun r hsorted => ?_⟩
  · exact stripped_mem_withFunctions hf (by simp) hi
  · rw [hscores]
    exact hsorted.sublist ((hsub.trans List.filter_sublist).map Item.score)

end PlotAdvisor.Advice
