import Mathlib.Tactic.ByContra
import PlotAdvisor.Advice.Pruning
import PlotAdvisor.Proofs.Pieces

/-! What is left of advice after pruning. Rule 4 treats the items of one function without a look at the others, so that
what it returns is known once it is known for each function: all of them where the function is in use, else those
up to the first argument, with the function in the place of that argument. -/
set_option autoImplicit false

namespace PlotAdvisor.Advice

open Text

/-! ## Functions and arguments -/

def Item.isArgument (i : Item) : Bool := Text.has i.element "@"

/-- The function of an argument, with the score of the argument. -/
def Item.stripped (i : Item) : Item := ⟨functionId i.element, i.score⟩

theorem functionId_eq (e : String) : functionId e = upTo '@' e := splitOnce_fst rfl e

theorem notMem_functionId (e : String) : '@' ∉ (functionId e).toList := by
  rw [functionId_eq]
  exact notMem_upTo '@' e

theorem functionId_functionId (e : String) : functionId (functionId e) = functionId e := by
  rw [functionId_eq (functionId e), upTo_of_notMem (notMem_functionId e)]

theorem isArgument_iff (i : Item) : i.isArgument = true ↔ i.element ≠ functionId i.element := by
  rw [Item.isArgument, has_iff (c := '@') rfl]
  constructor
  · intro hat hself
    rw [hself] at hat
    exact notMem_functionId i.element hat
  · intro hne
    by_contra hat
    rw [functionId_eq, upTo_of_notMem hat] at hne
    exact hne rfl

/-! ## One function at a time -/

theorem withFunctions_cons (used seen : List String) (i : Item) (rest : List Item) :
    withFunctions used seen (i :: rest) =
      if functionId i.element ∈ seen then withFunctions used seen rest
      else if functionId i.element ∉ used ∧ i.isArgument = true then
        i.stripped :: withFunctions used (functionId i.element :: seen) rest
      else i :: withFunctions used seen rest := by
  rw [withFunctions]
  by_cases hseen : functionId i.element ∈ seen
  · simp [hseen]
  · by_cases hused : functionId i.element ∈ used
    · simp [hseen, hused]
    · cases harg : i.isArgument with
      | false =>
        unfold Item.isArgument at harg
        simp [hseen, hused, harg]
      | true =>
        unfold Item.isArgument at harg
        simp [hseen, hused, harg, Item.stripped]

def ofFunction (f : String) (items : List Item) : List Item := items.filter fun i => functionId i.element == f

theorem ofFunction_cons (f : String) (i : Item) (items : List Item) :
    ofFunction f (i :: items) = if functionId i.element = f then i :: ofFunction f items else ofFunction f items := by
  simp [ofFunction, List.filter_cons]

theorem functionId_of_mem_ofFunction {f : String} {i : Item} {items : List Item} (h : i ∈ ofFunction f items) :
    functionId i.element = f := by
  simpa using (List.mem_filter.1 h).2

theorem mem_ofFunction {i : Item} {items : List Item} (h : i ∈ items) :
    i ∈ ofFunction (functionId i.element) items :=
  List.mem_filter.2 ⟨h, by simp⟩

theorem ofFunction_cons_stripped (i : Item) (items : List Item) :
    ofFunction (functionId i.element) (i.stripped :: items) =
      i.stripped :: ofFunction (functionId i.element) items := by
  have hf : functionId i.stripped.element = functionId i.element := functionId_functionId i.element
  rw [ofFunction_cons, if_pos hf]

theorem ofFunction_withFunctions (used : List String) (f : String) (seen others : List String) (items : List Item)
    (h : f ∈ seen ↔ f ∈ others) :
    ofFunction f (withFunctions used seen items) = withFunctions used others (ofFunction f items) := by
  induction items generalizing seen others with
  | nil => rfl
  | cons i items ih =>
    rw [withFunctions_cons, ofFunction_cons]
    by_cases hf : functionId i.element = f
    · subst hf
      rw [if_pos rfl, withFunctions_cons]
      by_cases hseen : functionId i.element ∈ seen
      · rw [if_pos hseen, if_pos (h.1 hseen)]
        exact ih seen others h
      · rw [if_neg hseen, if_neg fun ho => hseen (h.2 ho)]
        split
        · rw [ofFunction_cons_stripped, ih _ (functionId i.element :: others) (by simp)]
        · rw [ofFunction_cons, if_pos rfl, ih seen others h]
    · -- an item of another function changes nothing for this one
      have hother : f ∈ functionId i.element :: seen ↔ f ∈ others := by
        rw [List.mem_cons, ← h]
        exact or_iff_right fun e => hf e.symm
      rw [if_neg hf]
      split
      · exact ih seen others h
      · split
        · rw [ofFunction_cons, if_neg (by rwa [Item.stripped, functionId_functionId])]
          exact ih _ others hother
        · rw [ofFunction_cons, if_neg hf]
          exact ih seen others h

theorem withFunctions_of_used {used seen : List String} {f : String} {items : List Item}
    (hitems : ∀ i ∈ items, functionId i.element = f) (hused : f ∈ used) (hseen : f ∉ seen) :
    withFunctions used seen items = items := by
  induction items with
  | nil => rfl
  | cons i items ih =>
    have hi : functionId i.element = f := hitems i (by simp)
    rw [withFunctions_cons, hi, if_neg hseen, if_neg (by simp [hused]), ih fun j hj => hitems j (by simp [hj])]

theorem withFunctions_of_seen {used seen : List String} {f : String} {items : List Item}
    (hitems : ∀ i ∈ items, functionId i.element = f) (hseen : f ∈ seen) : withFunctions used seen items = [] := by
  induction items with
  | nil => rfl
  | cons i items ih =>
    have hi : functionId i.element = f := hitems i (by simp)
    rw [withFunctions_cons, hi, if_pos hseen, ih fun j hj => hitems j (by simp [hj])]

def upToArgument : List Item → List Item
  | [] => []
  | i :: items => if i.isArgument then [i.stripped] else i :: upToArgument items

theorem withFunctions_of_unused {used seen : List String} {f : String} {items : List Item}
    (hitems : ∀ i ∈ items, functionId i.element = f) (hused : f ∉ used) (hseen : f ∉ seen) :
    withFunctions used seen items = upToArgument items := by
  induction items with
  | nil => rfl
  | cons i items ih =>
    have hi : functionId i.element = f := hitems i (by simp)
    have hrest : ∀ j ∈ items, functionId j.element = f := fun j hj => hitems j (by simp [hj])
    rw [withFunctions_cons, hi, if_neg hseen, upToArgument]
    cases harg : i.isArgument with
    | false => simp [ih hrest]
    | true => simp [hused, withFunctions_of_seen hrest]

theorem ofFunction_prune (s : Setting) (items : List Item) (f : String) :
    ofFunction f (prune s items) =
      if f ∈ s.used then ofFunction f (items.filter s.passes)
      else upToArgument (ofFunction f (items.filter s.passes)) := by
  have hitems : ∀ i ∈ ofFunction f (items.filter s.passes), functionId i.element = f :=
    fun i hi => functionId_of_mem_ofFunction hi
  rw [prune, ofFunction_withFunctions s.used f [] [] _ Iff.rfl]
  split
  · next hused => exact withFunctions_of_used hitems hused (by simp)
  · next hused => exact withFunctions_of_unused hitems hused (by simp)

/-! ## Elements that are returned twice -/

theorem nodup_iff_ofFunction (items : List Item) :
    (items.map Item.element).Nodup ↔ ∀ f, ((ofFunction f items).map Item.element).Nodup := by
  constructor
  · intro h f
    exact h.sublist (List.filter_sublist.map Item.element)
  · intro h
    induction items with
    | nil => exact List.nodup_nil
    | cons i items ih =>
      have hi := h (functionId i.element)
      rw [ofFunction_cons, if_pos rfl, List.map_cons, List.nodup_cons] at hi
      rw [List.map_cons, List.nodup_cons]
      refine ⟨fun hmem => hi.1 ?_, ih fun f => ?_⟩
      · obtain ⟨j, hj, hji⟩ := List.mem_map.1 hmem
        have hjf : j ∈ ofFunction (functionId i.element) items := hji ▸ mem_ofFunction hj
        exact List.mem_map.2 ⟨j, hjf, hji⟩
      · have hf := h f
        rw [ofFunction_cons] at hf
        split at hf
        · exact (List.nodup_cons.1 hf).2
        · exact hf

theorem nodup_upToArgument_iff {f : String} {items : List Item} (hitems : ∀ i ∈ items, functionId i.element = f)
    (h : (items.map Item.element).Nodup) :
    ((upToArgument items).map Item.element).Nodup ↔ ∀ i rest, items = i :: rest → i.element = f → rest = [] := by
  cases items with
  | nil => simp [upToArgument]
  | cons i items =>
    have hi : functionId i.element = f := hitems i (by simp)
    cases harg : i.isArgument with
    | true =>
      have hne : i.element ≠ f := hi ▸ (isArgument_iff i).1 harg
      simp [upToArgument, harg, hne]
    | false =>
      have hself : i.element = f := by
        by_contra hne
        have hyes := (isArgument_iff i).2 (hi ▸ hne)
        exact nomatch hyes.symm.trans harg
      cases items with
      | nil => simp [upToArgument, harg]
      | cons j items =>
        -- the second item is another one of the same function, and so an argument
        have hj : functionId j.element = f := hitems j (by simp)
        have hne : j.element ≠ functionId j.element := by
          rw [hj, ← hself]
          intro e
          simp [e] at h
        have hjarg : j.isArgument = true := (isArgument_iff j).2 hne
        have htwice : (upToArgument (i :: j :: items)).map Item.element = [f, f] := by
          simp [upToArgument, harg, hjarg, Item.stripped, hself, hj]
        rw [htwice]
        simp [hself]

/-- Of items with different elements, pruning returns no element twice exactly when no function that is not in use
stands in front of all the other items of it that pass the first three rules, where there are such. -/
theorem prune_nodup_iff (s : Setting) (items : List Item) (h : (items.map Item.element).Nodup) :
    ((prune s items).map Item.element).Nodup ↔
      ∀ f, f ∉ s.used → ∀ i rest, ofFunction f (items.filter s.passes) = i :: rest → i.element = f → rest = [] := by
  have hpassed : ((items.filter s.passes).map Item.element).Nodup := h.sublist (List.filter_sublist.map Item.element)
  have hgroup (f : String) : ((ofFunction f (items.filter s.passes)).map Item.element).Nodup :=
    (nodup_iff_ofFunction _).1 hpassed f
  rw [nodup_iff_ofFunction]
  refine forall_congr' fun f => ?_
  rw [ofFunction_prune]
  split
  · next hused => exact iff_of_true (hgroup f) fun hnot => absurd hused hnot
  · next hused =>
    rw [nodup_upToArgument_iff (fun i hi => functionId_of_mem_ofFunction hi) (hgroup f)]
    exact ⟨fun hrest _ => hrest, fun hrest => hrest hused⟩

/-- Nothing is in use yet, and the only drawing function is often met with an argument. -/
def beginning : Setting where
  used := []
  counts := ⟨[("plt.pie", 50), ("plt.pie@0", 20)]⟩
  drawing := ["pie"]

theorem prune_nodup_iff_pie :
    let items : List Item := [⟨"plt.pie@0", .int 2⟩, ⟨"plt.pie", .int 1⟩]
    (items.map Item.element).Nodup ∧ ((prune beginning items).map Item.element).Nodup := by
  intro items
  have hdiff : (items.map Item.element).Nodup := by decide
  refine ⟨hdiff, (prune_nodup_iff beginning items hdiff).2 ?_⟩
  rintro f - i rest hgroup rfl
  have hi : i ∈ ofFunction i.element (items.filter beginning.passes) := by simp [hgroup]
  have hself := functionId_of_mem_ofFunction hi
  have hmem : i ∈ items := (List.mem_filter.1 (List.mem_filter.1 hi).1).1
  rcases List.mem_cons.1 hmem with rfl | hmem
  · exact absurd hself (by decide)
  · obtain rfl := List.mem_singleton.1 hmem
    have hfirst : (ofFunction "plt.pie" (items.filter beginning.passes)).head?.map Item.element =
        some "plt.pie@0" := by decide
    rw [hgroup] at hfirst
    exact absurd hfirst (by simp)

/-- A function in front of its argument is returned twice. -/
theorem function_returned_twice :
    let items : List Item := [⟨"plt.pie", .int 2⟩, ⟨"plt.pie@0", .int 1⟩]
    (items.map Item.element).Nodup ∧ (prune beginning items).map Item.element = ["plt.pie", "plt.pie"] ∧
      ¬ ((prune beginning items).map Item.element).Nodup := by
  decide

/-! ## Elements that are met too seldom -/

theorem mem_upToArgument {i : Item} {items : List Item} (h : i ∈ upToArgument items) :
    i ∈ items ∨ ∃ j ∈ items, j.isArgument = true ∧ i = j.stripped := by
  induction items with
  | nil => exact absurd h (by simp [upToArgument])
  | cons j items ih =>
    rw [upToArgument] at h
    split at h
    · next harg => exact Or.inr ⟨j, by simp, harg, by simpa using h⟩
    · rcases List.mem_cons.1 h with rfl | h
      · exact Or.inl (by simp)
      · rcases ih h with hmem | ⟨k, hk, hrest⟩
        · exact Or.inl (by simp [hmem])
        · exact Or.inr ⟨k, by simp [hk], hrest⟩

theorem exists_mem_upToArgument {f : String} {items : List Item} (hitems : ∀ i ∈ items, functionId i.element = f)
    {i : Item} (hi : i ∈ items) (harg : i.isArgument = true) : ∃ j ∈ upToArgument items, j.element = f := by
  induction items with
  | nil => exact absurd hi (by simp)
  | cons k items ih =>
    rw [upToArgument]
    split
    · exact ⟨k.stripped, by simp, hitems k (by simp)⟩
    · next hk =>
      have hrest : i ∈ items := by
        rcases List.mem_cons.1 hi with rfl | hrest
        · exact absurd harg hk
        · exact hrest
      obtain ⟨j, hj, hjf⟩ := ih (fun l hl => hitems l (by simp [hl])) hrest
      exact ⟨j, by simp [hj], hjf⟩

/-- Everything that pruning returns is frequent exactly when the functions are that are not in use and of which an
argument passes the first three rules. -/
theorem prune_frequent_iff (s : Setting) (items : List Item) :
    (∀ i ∈ prune s items, s.isFrequent i.element = true) ↔
      ∀ i ∈ items, s.passes i = true → i.isArgument = true → functionId i.element ∉ s.used →
        s.isFrequent (functionId i.element) = true := by
  constructor
  · intro h i hi hpass harg hused
    have hgroup : i ∈ ofFunction (functionId i.element) (items.filter s.passes) :=
      mem_ofFunction (List.mem_filter.2 ⟨hi, hpass⟩)
    obtain ⟨j, hj, hjf⟩ := exists_mem_upToArgument (fun _ hk => functionId_of_mem_ofFunction hk) hgroup harg
    have hreturned := ofFunction_prune s items (functionId i.element)
    rw [if_neg hused] at hreturned
    rw [← hreturned] at hj
    exact hjf ▸ h j (List.mem_filter.1 hj).1
  · intro h i hi
    have hpassed (j : Item) (hj : j ∈ ofFunction (functionId i.element) (items.filter s.passes)) :
        j ∈ items ∧ s.passes j = true := List.mem_filter.1 (List.mem_filter.1 hj).1
    have hown (j : Item) (hj : s.passes j = true) : s.isFrequent j.element = true := by
      rw [Setting.passes, Bool.and_eq_true] at hj
      exact hj.1
    have hgroup := mem_ofFunction hi
    rw [ofFunction_prune] at hgroup
    split at hgroup
    · exact hown i (hpassed i hgroup).2
    · next hused =>
      rcases mem_upToArgument hgroup with hmem | ⟨j, hj, harg, rfl⟩
      · exact hown i (hpassed i hmem).2
      · obtain ⟨hjmem, hjpass⟩ := hpassed j hj
        have hjf : functionId j.element = functionId j.stripped.element := functionId_of_mem_ofFunction hj
        exact h j hjmem hjpass harg (hjf ▸ hused)

/-- An argument that is often met brings its function in, which is never met itself. -/
theorem seldom_function_returned :
    let s : Setting := ⟨["plt.bar"], ⟨[("plt.bar", 50), ("plt.subplot@0", 20)]⟩, ["bar"]⟩
    (prune s [⟨"plt.subplot@0", .int 1⟩]).map Item.element = ["plt.subplot"] ∧ s.counts.get? "plt.subplot" = none ∧
      s.isFrequent "plt.subplot" = false := by
  decide

end PlotAdvisor.Advice
