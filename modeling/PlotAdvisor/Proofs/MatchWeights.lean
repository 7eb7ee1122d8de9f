import Mathlib.Analysis.SpecialFunctions.Pow.Real
import PlotAdvisor.Assistant.Requests
import PlotAdvisor.Proofs.Ancestry
import PlotAdvisor.Proofs.CoOccurrence
import PlotAdvisor.Proofs.ExactNumbers
import PlotAdvisor.Proofs.Sorting

/-! The weights of the uses that fit a query, in exact arithmetic. What is passed on to parents is the weight that a
suggested element has of its own, since the suggestions are gone through as they were; so the weight of a use is its
own and the sum of the own weights of all elements that pass theirs on to it. -/
set_option autoImplicit false

namespace PlotAdvisor

/-! ## Ranges of uses -/

namespace Program.Tree

/-- Calls, subscripts, attributes and literals have ranges, and so does what a call is given. -/
def Ranged (t : Tree) : Prop :=
  ∀ s ∈ t.preorder, (s.kind ∈ ["Call", "Subscript", "Attribute", "Constant"] → s.span.isSome = true) ∧
    (s.kind = "Call" → ∀ a ∈ s.fieldItems "args" ++ s.fieldItems "keywords", a.span.isSome = true)

instance (t : Tree) : Decidable t.Ranged := inferInstanceAs (Decidable (∀ s ∈ t.preorder, _))

/-- The values of keywords, and those in a display of a table, have ranges. -/
def Valued (t : Tree) : Prop :=
  ∀ s ∈ t.preorder, (s.kind = "Call" → ∀ kw ∈ s.fieldItems "keywords", (kw.field "value").span.isSome = true) ∧
    (s.kind = "Dict" → ∀ v ∈ s.fieldItems "values", v.span.isSome = true)

instance (t : Tree) : Decidable t.Valued := inferInstanceAs (Decidable (∀ s ∈ t.preorder, _))

theorem Gives.spans {t n v : Tree} (h : t.Gives n v) (hranged : t.Ranged) (hvalued : t.Valued) :
    n.span.isSome = true ∧ v.span.isSome = true := by
  cases h with
  | argument hs hkind ha =>
    have hspan := (hranged _ hs).2 hkind n (List.mem_append_left _ ha)
    exact ⟨hspan, hspan⟩
  | keyword hs hkind hkw =>
    exact ⟨(hranged _ hs).2 hkind n (List.mem_append_right _ hkw), (hvalued _ hs).1 hkind n hkw⟩
  | key hs hkind hk hconstant hv =>
    exact ⟨(hranged n hk).1 (by simp [hconstant]), (hvalued _ hs).2 hkind v hv⟩

end Program.Tree

namespace Elements

open Program

theorem Use.exists_span {u : Use} (hnode : u.node.span.isSome = true)
    (hvalue : ∀ v, u.value = some v → v.span.isSome = true) : ∃ s, u.span = .ok s := by
  obtain ⟨s, hs⟩ := Option.isSome_iff_exists.1 hnode
  unfold Use.span
  rw [hs]
  cases hv : u.value with
  | none => exact ⟨s, rfl⟩
  | some v =>
    obtain ⟨r, hr⟩ := Option.isSome_iff_exists.1 (hvalue v hv)
    refine ⟨⟨s.start, r.stop⟩, ?_⟩
    simp only [hr]
    rfl

theorem exists_span_of_mem_ofTree (n : Normalizer) (names : Names) {program : Tree} (hranged : program.Ranged)
    (hvalued : program.Valued) {u : Use} (hu : u ∈ (Context.ofTree n names program).1.uses) : ∃ s, u.span = .ok s := by
  obtain ⟨v, hv, rfl⟩ := List.mem_map.1 hu
  obtain ⟨id, call, hkind, hbelow, hv⟩ := exists_call_of_mem_extract hv
  have hranged : call.Ranged := fun s hs => hranged s (hbelow hs)
  rcases mem_usesOf_cases hv with ⟨hnode, hnone⟩ | ⟨-, w, hvalue, hgives⟩
  · have hmem := List.mem_append_left ["Constant"] (mem_of_isGeneralCall hkind)
    have hcall := (hranged call (mem_preorder_of_isGeneralCall hkind)).1 hmem
    exact Use.exists_span (hnode ▸ hcall) fun w hw => absurd (hnone.symm.trans hw) (by simp)
  · obtain ⟨hspan, hvalueSpan⟩ := hgives.spans hranged fun s hs => hvalued s (hbelow hs)
    refine Use.exists_span hspan fun w' hw' => ?_
    rwa [Option.some.inj (hw'.symm.trans hvalue)]

end Elements

namespace Assistant

open Program Elements Documentation Scalar Finset

section

variable {K : Type} {l : Library} {used : List String}

/-! ## Uses that fit -/

/-- Whether the first of two elements receives the weight of the second. -/
def receives (l : Library) (used : List String) (x c : String) : Bool := passesOn used c && (l.parents c).contains x

def isWeighted (l : Library) (used ids : List String) (x : String) : Bool :=
  ids.contains x || ids.any (receives l used x)

/-- Whether uses of an element are matches: it has a weight and an entry. -/
def fits (l : Library) (used ids : List String) (x : String) : Bool := isWeighted l used ids x && (l.find? x).isSome

structure Describes (l : Library) (weight : String → K) (u : Use) (m : Match K) : Prop where
  element : m.element = u.id
  type : (l.find? u.id).map Entry.type = some m.type
  weight : m.weight = weight u.id
  span : u.span = .ok m.span

theorem matchOf_describes {weights : Table String K} {weight : String → K} {u : Use} {s : Span} (hspan : u.span = .ok s)
    (hget : weights.get? u.id = some (weight u.id)) {e : Entry String} (hfind : l.find? u.id = some e) :
    ∃ m, matchOf l weights u = .ok (some m) ∧ Describes l weight u m := by
  refine ⟨⟨u.id, e.type, weight u.id, s⟩, ?_, ⟨rfl, by rw [hfind]; rfl, rfl, hspan⟩⟩
  rw [matchOf, hget, hfind, hspan]
  rfl

theorem matchOf_eq_none {weights : Table String K} {u : Use}
    (h : ((weights.get? u.id).isSome && (l.find? u.id).isSome) = false) : matchOf l weights u = .ok none := by
  rw [matchOf]
  cases hget : weights.get? u.id with
  | none => rfl
  | some w =>
    cases hfind : l.find? u.id with
    | none => rfl
    | some e => simp [hget, hfind] at h

theorem exists_matches {ids : List String} {weights : Table String K} {weight : String → K} {uses : List Use}
    (hspan : ∀ u ∈ uses, ∃ s, u.span = .ok s)
    (hget : ∀ u ∈ uses, weights.get? u.id = if isWeighted l used ids u.id then some (weight u.id) else none) :
    ∃ found, uses.mapM (matchOf l weights) = .ok found ∧
      List.Forall₂ (Describes l weight) (uses.filter fun u => fits l used ids u.id) (found.filterMap id) := by
  induction uses with
  | nil => exact ⟨[], rfl, List.Forall₂.nil⟩
  | cons u uses ih =>
    rw [List.forall_mem_cons] at hspan hget
    obtain ⟨found, hfound, hall⟩ := ih hspan.2 hget.2
    obtain ⟨s, hs⟩ := hspan.1
    by_cases hfits : fits l used ids u.id = true
    · have hparts := hfits
      rw [fits, Bool.and_eq_true] at hparts
      obtain ⟨e, hfind⟩ := Option.isSome_iff_exists.1 hparts.2
      obtain ⟨m, hm, hdescribes⟩ := matchOf_describes hs (hget.1.trans (if_pos hparts.1)) hfind
      refine ⟨some m :: found, ?_, ?_⟩
      · rw [List.mapM_cons, hm, hfound]
        rfl
      · rw [List.filter_cons_of_pos (p := fun u : Use => fits l used ids u.id) hfits]
        exact List.Forall₂.cons hdescribes hall
    · have hnone : matchOf l weights u = .ok none := by
        refine matchOf_eq_none ?_
        rw [hget.1]
        by_cases hweighted : isWeighted l used ids u.id = true
        · simpa [fits, hweighted] using hfits
        · simp [hweighted]
      refine ⟨none :: found, ?_, ?_⟩
      · rw [List.mapM_cons, hnone, hfound]
        rfl
      · rw [List.filter_cons_of_neg (p := fun u : Use => fits l used ids u.id) hfits]
        exact hall

end

section Spread

variable {K : Type} [Field K] [LinearOrder K] [Exact.Functions K] {l : Library} {used : List String}

/-! ## Passing weights on -/

def deposit (w : K) (ps : List String) (t : Table String K) : Table String K :=
  ps.foldl (fun t p => t.alter p (decimal 0 0) (· + w)) t

theorem getD_deposit (w : K) {ps : List String} (hps : ps.Nodup) (t : Table String K) (x : String) :
    (deposit w ps t).getD x 0 = t.getD x 0 + if x ∈ ps then w else 0 := by
  induction ps generalizing t with
  | nil => simp [deposit]
  | cons p ps ih =>
    obtain ⟨hp, hps⟩ := List.nodup_cons.1 hps
    have hstep : (t.alter p (decimal 0 0) (· + w)).getD x 0 = t.getD x 0 + if x = p then w else 0 := by
      rw [Table.getD, Table.get?_alter, Exact.decimal_zero]
      by_cases hx : x = p
      · simp [hx]
      · simp [hx, Table.getD]
    refine (ih hps _).trans ?_
    rw [hstep]
    by_cases hx : x = p
    · subst hx
      simp [hp]
    · simp [hx]

theorem isSome_deposit (w : K) (ps : List String) (t : Table String K) (x : String) :
    ((deposit w ps t).get? x).isSome = true ↔ (t.get? x).isSome = true ∨ x ∈ ps := by
  induction ps generalizing t with
  | nil => simp [deposit]
  | cons p ps ih =>
    refine (ih _).trans ?_
    rw [Table.get?_alter]
    by_cases hx : x = p
    · simp [hx]
    · simp [hx]

def passOne (l : Library) (used : List String) (t : Table String K) (e : String × K) : Table String K :=
  if passesOn used e.1 then deposit e.2 ((l.parents e.1).filter used.contains) t else t

theorem getD_passOne {e : String × K} (hends : passesOn used e.1 = true → l.Ends e.1) (t : Table String K) {x : String}
    (hx : x ∈ used) : (passOne l used t e).getD x 0 = t.getD x 0 + if receives l used x e.1 then e.2 else 0 := by
  rw [passOne]
  by_cases hpasses : passesOn used e.1 = true
  · have hnodup := (hends hpasses).nodup.filter used.contains
    rw [if_pos hpasses, getD_deposit e.2 hnodup]
    simp [receives, hpasses, hx]
  · simp [receives, hpasses]

theorem isSome_passOne (t : Table String K) (e : String × K) {x : String} (hx : x ∈ used) :
    ((passOne l used t e).get? x).isSome = true ↔ (t.get? x).isSome = true ∨ receives l used x e.1 = true := by
  rw [passOne]
  by_cases hpasses : passesOn used e.1 = true
  · rw [if_pos hpasses, isSome_deposit]
    simp [receives, hpasses, hx]
  · simp [receives, hpasses]

theorem getD_foldl_passOne {es : List (String × K)} (hends : ∀ e ∈ es, passesOn used e.1 = true → l.Ends e.1)
    (t : Table String K) {x : String} (hx : x ∈ used) :
    (es.foldl (passOne l used) t).getD x 0 =
      t.getD x 0 + (es.map fun e => if receives l used x e.1 then e.2 else 0).sum := by
  induction es generalizing t with
  | nil => simp
  | cons e es ih =>
    rw [List.forall_mem_cons] at hends
    rw [List.foldl_cons, ih hends.2, getD_passOne hends.1 t hx, List.map_cons, List.sum_cons, add_assoc]

theorem isSome_foldl_passOne (es : List (String × K)) (t : Table String K) {x : String} (hx : x ∈ used) :
    ((es.foldl (passOne l used) t).get? x).isSome = true ↔
      (t.get? x).isSome = true ∨ ∃ e ∈ es, receives l used x e.1 = true := by
  induction es generalizing t with
  | nil => simp
  | cons e es ih => rw [List.foldl_cons, ih, isSome_passOne t e hx, List.exists_mem_cons_iff, or_assoc]

theorem spread_eq (weights : Table String K) : spread l used weights = weights.entries.foldl (passOne l used) weights :=
  rfl

/-- The elements of a table that give their weights to an element. -/
def givers (l : Library) (used ids : List String) (x : String) : Finset String :=
  ids.toFinset.filter fun c => receives l used x c = true

theorem getD_spread {weights : Table String K} (hkeys : weights.keys.Nodup)
    (hends : ∀ c ∈ weights.keys, passesOn used c = true → l.Ends c) {x : String} (hx : x ∈ used) :
    (spread l used weights).getD x 0 =
      weights.getD x 0 + ∑ c ∈ givers l used weights.keys x, weights.getD c 0 := by
  have hentries : ∀ e ∈ weights.entries, passesOn used e.1 = true → l.Ends e.1 := fun e he =>
    hends e.1 (List.mem_map.2 ⟨e, he, rfl⟩)
  have hown : ∀ e ∈ weights.entries, weights.getD e.1 0 = e.2 := by
    intro e he
    rw [Table.getD, Table.get?_of_mem_entries hkeys he, Option.getD_some]
  have hsum : (weights.entries.map fun e => if receives l used x e.1 then e.2 else 0) =
      weights.keys.map fun c => if receives l used x c then weights.getD c 0 else 0 := by
    rw [Table.keys, List.map_map]
    refine List.map_congr_left fun e he => ?_
    simp only [Function.comp_apply, hown e he]
  rw [spread_eq, getD_foldl_passOne hentries weights hx, hsum, givers, sum_filter, List.sum_toFinset _ hkeys]

theorem isSome_spread (weights : Table String K) {x : String} (hx : x ∈ used) :
    ((spread l used weights).get? x).isSome = isWeighted l used weights.keys x := by
  rw [Bool.eq_iff_iff, spread_eq, isSome_foldl_passOne weights.entries weights hx, ← Table.mem_keys_iff]
  simp [isWeighted, Table.keys]

/-! ## Suggested elements -/

def ownWeight (items : List (String × K)) (x : String) : K := ((Advice.highlight items).lookup x).getD 0

def matchWeight (l : Library) (used : List String) (items : List (String × K)) (x : String) : K :=
  ownWeight items x + ∑ c ∈ givers l used (items.map Prod.fst) x, ownWeight items c

theorem exists_highlight_eq (items : List (String × K)) :
    ∃ f : String → K, Advice.highlight items = (items.map Prod.fst).map fun k => (k, f k) := by
  refine ⟨fun k => Advice.raised (Advice.topWeight (Advice.weights items).values)
    (Advice.topScore (items.map Prod.snd) - (Table.ofList items).getD k zero) ((Advice.weights items).getD k zero), ?_⟩
  rw [List.map_map]
  rfl

theorem get?_highlight (items : List (String × K)) (x : String) :
    (Table.ofList (Advice.highlight items)).get? x = (Advice.highlight items).lookup x := by
  obtain ⟨f, hf⟩ := exists_highlight_eq items
  rw [hf, Table.get?_ofList_map, Table.lookup_map]

theorem ownWeight_of_notMem {items : List (String × K)} {x : String} (hx : x ∉ items.map Prod.fst) :
    ownWeight items x = 0 := by
  obtain ⟨f, hf⟩ := exists_highlight_eq items
  rw [ownWeight, hf, Table.lookup_map, if_neg hx, Option.getD_none]

theorem mem_keys_highlight (items : List (String × K)) (x : String) :
    x ∈ (Table.ofList (Advice.highlight items)).keys ↔ x ∈ items.map Prod.fst := by
  obtain ⟨f, hf⟩ := exists_highlight_eq items
  rw [hf, Table.mem_keys_iff, Table.get?_ofList_map]
  by_cases hx : x ∈ items.map Prod.fst
  · simp [hx]
  · simp [hx]

theorem get?_spread_highlight {items : List (String × K)}
    (hends : ∀ i ∈ items, passesOn used i.1 = true → l.Ends i.1) {x : String} (hx : x ∈ used) :
    (spread l used (Table.ofList (Advice.highlight items))).get? x =
      if isWeighted l used (items.map Prod.fst) x then some (matchWeight l used items x) else none := by
  have hkeys := Table.nodup_keys_ofList (Advice.highlight items)
  have hchains : ∀ c ∈ (Table.ofList (Advice.highlight items)).keys, passesOn used c = true → l.Ends c := by
    intro c hc
    obtain ⟨i, hi, rfl⟩ := List.mem_map.1 ((mem_keys_highlight items c).1 hc)
    exact hends i hi
  have hids : givers l used (Table.ofList (Advice.highlight items)).keys x = givers l used (items.map Prod.fst) x := by
    simp only [givers, Finset.ext_iff, mem_filter, List.mem_toFinset, mem_keys_highlight, implies_true]
  have hweight : (spread l used (Table.ofList (Advice.highlight items))).getD x 0 = matchWeight l used items x := by
    rw [getD_spread hkeys hchains hx, hids]
    simp only [Table.getD, get?_highlight]
    rfl
  have hsome : ((spread l used (Table.ofList (Advice.highlight items))).get? x).isSome =
      isWeighted l used (items.map Prod.fst) x := by
    rw [isSome_spread _ hx, Bool.eq_iff_iff]
    simp only [isWeighted, Bool.or_eq_true, List.contains_iff_mem, List.any_eq_true, mem_keys_highlight]
  rw [← hsome, ← hweight, Table.getD]
  cases (spread l used (Table.ofList (Advice.highlight items))).get? x with
  | none => rfl
  | some w => rfl

/-! ## Matches -/

def suggestedFor (suggest : Context → String → List (String × K)) (c : Context) (query code : String) :
    List (String × K) :=
  if Text.trim query == "" || code == "" then [] else suggest c query

theorem matchesAmong_nil (l : Library) (c : Context) : matchesAmong l c ([] : List (String × K)) = .ok [] := by
  have hnone : ∀ u ∈ c.uses, matchOf l (spread l c.used (Table.ofList (Advice.highlight ([] : List (String × K))))) u =
      .ok none := fun _ _ => rfl
  have hempty : (c.uses.map fun _ => (none : Option (Match K))).filterMap id = [] := by simp [List.filterMap_map]
  rw [matchesAmong, mapM_eq_ok hnone]
  change Except.ok (Sorting.sortBy _ ((c.uses.map fun _ => none).filterMap id)) = _
  rw [hempty]
  rfl

theorem matchesFor_eq (l : Library) (suggest : Context → String → List (String × K)) (c : Context)
    (query code : String) :
    matchesFor l suggest (some c) query code = matchesAmong l c (suggestedFor suggest c query code) := by
  simp only [matchesFor, suggestedFor]
  split
  · rw [matchesAmong_nil]
  · rfl

/-- Every use of an element that has an entry, and is suggested or receives a weight, has one match. Its weight is its
own and those of the suggested elements below it that pass theirs on, each with what it has of its own. -/
theorem matches_inherit (l : Library) (suggest : Context → String → List (String × K)) (n : Normalizer) (names : Names)
    {program : Tree} (hranged : program.Ranged) (hvalued : program.Valued) (query code : String) :
    let c := (Context.ofTree n names program).1
    let items := suggestedFor suggest c query code
    (∀ i ∈ items, passesOn c.used i.1 = true → l.Ends i.1) →
      (∀ i ∈ items, passesOn c.used i.1 = true → ∀ p, p ∈ l.parents i.1 ↔ l.IsAbove p i.1) ∧
      ∃ ms found, matchesFor l suggest (some c) query code = .ok ms ∧ ms.Perm found ∧
        List.Forall₂ (Describes l (matchWeight l c.used items))
          (c.uses.filter fun u => fits l c.used (items.map Prod.fst) u.id) found := by
  intro c items hends
  have hspan : ∀ u ∈ c.uses, ∃ s, u.span = .ok s := fun u hu => exists_span_of_mem_ofTree n names hranged hvalued hu
  have hget : ∀ u ∈ c.uses, (spread l c.used (Table.ofList (Advice.highlight items))).get? u.id =
      if isWeighted l c.used (items.map Prod.fst) u.id then some (matchWeight l c.used items u.id) else none :=
    fun u hu => get?_spread_highlight hends (List.mem_map.2 ⟨u, hu, rfl⟩)
  obtain ⟨found, hfound, hall⟩ := exists_matches hspan hget
  refine ⟨fun i hi hpasses p => Library.mem_parents_iff (hends i hi hpasses), ?_⟩
  refine ⟨Sorting.sortBy (fun a b => decide (a.element.length < b.element.length)) (found.filterMap id),
    found.filterMap id, ?_, Sorting.sortBy_perm _ _, hall⟩
  rw [matchesFor_eq, matchesAmong, hfound]
  rfl

end Spread

theorem map_id_filter (c : Context) (p : String → Bool) :
    (c.uses.filter fun u => p u.id).map Use.id = c.used.filter p := by
  rw [Context.used, List.filter_map]
  rfl

/-- A library of a function and its arguments, one of which has an argument of its own. -/
def legendLibrary : Library :=
  let entry (id type parent : String) : String × Entry String := (id, ⟨id, "", "", type, parent, "", "", "", ""⟩)
  ⟨Table.ofList [entry "plt.legend" "func" "", entry "plt.legend@loc" "arg" "plt.legend",
    entry "plt.legend@prop" "arg" "plt.legend", entry "plt.legend@prop@size" "arg" "plt.legend@prop"]⟩

/-- Two elements that are not in use, one below the other. -/
noncomputable def fontItems : List (String × ℝ) := [("plt.legend@prop@size", 1), ("plt.legend@prop", 0.5)]

/-- What the lower of the two gives to the upper is not passed on to the function again. -/
theorem matches_inherit_legend :
    let _ := Exact.realFunctions
    let c := (Context.ofTree plottingShort sessionTable legendWithPlace).1
    legendWithPlace.Ranged ∧ legendWithPlace.Valued ∧
      (∀ i ∈ fontItems, passesOn c.used i.1 = true ∧ legendLibrary.Ends i.1) ∧
      ∃ m, matchesFor legendLibrary (fun _ _ => fontItems) (some c) "font" "plt.legend(loc=1)" = .ok [m] ∧
        m.element = "plt.legend" ∧
        m.weight = ownWeight fontItems "plt.legend@prop@size" + ownWeight fontItems "plt.legend@prop" := by
  intro _ c
  have hranged : legendWithPlace.Ranged := by decide
  have hvalued : legendWithPlace.Valued := by decide
  have hends : ∀ id, legendLibrary.Ends id := Library.ends_of_shorter (by decide)
  have hused : c.used = ["plt.legend", "plt.legend@loc"] := by decide +kernel
  have hpasses : ∀ i ∈ fontItems, passesOn c.used i.1 = true := by
    have hids : ∀ id ∈ ["plt.legend@prop@size", "plt.legend@prop"],
        passesOn ["plt.legend", "plt.legend@loc"] id = true := by decide +kernel
    rw [hused]
    exact fun i hi => hids i.1 (List.mem_map.2 ⟨i, hi, rfl⟩)
  have hitems : suggestedFor (fun _ _ => fontItems) c "font" "plt.legend(loc=1)" = fontItems := if_neg (by decide)
  obtain ⟨-, ms, found, hms, hperm, hall⟩ := matches_inherit legendLibrary (fun _ _ => fontItems) plottingShort
    sessionTable hranged hvalued "font" "plt.legend(loc=1)" fun i _ _ => hends i.1
  rw [hitems] at hall
  have hfits : (c.uses.filter fun u => fits legendLibrary c.used ["plt.legend@prop@size", "plt.legend@prop"] u.id).map
      Use.id = ["plt.legend"] := by
    rw [map_id_filter c (fits legendLibrary c.used ["plt.legend@prop@size", "plt.legend@prop"]), hused]
    decide +kernel
  obtain ⟨u, hu, hid⟩ := List.map_eq_singleton_iff.1 hfits
  obtain ⟨m, rest, hm, hrest, rfl⟩ := List.forall₂_cons_left_iff.1 (hu ▸ hall :)
  rw [List.forall₂_nil_left_iff.1 hrest, List.perm_singleton] at hperm
  have hgivers : givers legendLibrary c.used ["plt.legend@prop@size", "plt.legend@prop"] "plt.legend" =
      {"plt.legend@prop@size", "plt.legend@prop"} := by
    rw [hused]
    decide +kernel
  refine ⟨hranged, hvalued, fun i hi => ⟨hpasses i hi, hends i.1⟩, m, hperm ▸ hms, hm.element.trans hid, ?_⟩
  have hown : ownWeight fontItems "plt.legend" = 0 := ownWeight_of_notMem (by simp [fontItems])
  have hsum := sum_pair (f := ownWeight fontItems) (by decide : "plt.legend@prop@size" ≠ "plt.legend@prop")
  rw [hm.weight, hid, matchWeight, hown, zero_add, ← hsum, ← hgivers]
  rfl

end Assistant

end PlotAdvisor
