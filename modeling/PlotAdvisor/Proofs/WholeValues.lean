import Mathlib.Data.List.Forall2
import Mathlib.Logic.Relation
import PlotAdvisor.Mining.Calls

/-! Whether the text of a value that is counted is that of the whole value. A tuple or a list is written with those of
its elements that have a text, so that it is whole where every element has one, at every depth. -/
set_option autoImplicit false

namespace PlotAdvisor.Mining

open Program Elements

/-- How a tuple and a list begin and end. -/
def brackets? (v : Tree) : Option (String × String) :=
  if v.kind = "Tuple" then some ("(", ")") else if v.kind = "List" then some ("[", "]") else none

def elementsIn : List (String × Tree) → List Tree
  | [] => []
  | ("elts", .list ts) :: _ => ts
  | _ :: rest => elementsIn rest

/-- The elements of a tuple or a list; other values have none. -/
def elementsOf (v : Tree) : List Tree := if (brackets? v).isSome then elementsIn v.fields else []

/-- The second is the first, or an element of it at some depth. -/
def Holds : Tree → Tree → Prop := Relation.ReflTransGen fun v e => e ∈ elementsOf v

variable (names : Names) (n : Normalizer)

/-- A text that shows a value, with one item for each element of every tuple and list in it. -/
inductive Whole : Tree → String → Prop
  | single {v : Tree} {s : String} (plain : brackets? v = none) (text : countable names n v = some s) : Whole v s
  | sequence {v : Tree} {left right : String} {items : List String} (brackets : brackets? v = some (left, right))
      (some : items ≠ []) (shown : List.Forall₂ Whole (elementsOf v) items) :
      Whole v (left ++ Text.join ", " items ++ right)

/-! ## Texts -/

variable {names n} {v : Tree} {s left right : String}

theorem countableInItems_eq (ts : List Tree) : countableInItems names n ts = ts.filterMap (countable names n) := by
  induction ts with
  | nil => rw [countableInItems, List.filterMap_nil]
  | cons t ts ih =>
    rw [countableInItems, List.filterMap_cons, ih]
    cases countable names n t <;> rfl

theorem countableInFields_eq (fields : List (String × Tree)) :
    countableInFields names n fields = (elementsIn fields).filterMap (countable names n) := by
  fun_induction elementsIn fields with
  | case1 => rw [countableInFields, List.filterMap_nil]
  | case2 ts rest => rw [countableInFields, countableInItems_eq]
  | case3 f rest hf ih => rw [countableInFields, ih]; exact hf

/-- A tuple or a list is written with the texts of those of its elements that have one, and not without any. -/
theorem countable_sequence (h : brackets? v = some (left, right)) :
    countable names n v = some s ↔ (elementsOf v).filterMap (countable names n) ≠ [] ∧
      left ++ Text.join ", " ((elementsOf v).filterMap (countable names n)) ++ right = s := by
  have helements : elementsOf v = elementsIn v.fields := by rw [elementsOf, h, Option.isSome_some, if_pos rfl]
  rw [helements]
  cases v with
  | node kind span fields =>
    unfold brackets? at h
    rw [Tree.kind] at h
    split at h
    · next htuple =>
      obtain ⟨rfl, rfl⟩ := Prod.mk.inj (Option.some.inj h)
      rw [htuple, countable, countableInFields_eq, Tree.fields]
      split <;> simp_all
    · next htuple =>
      split at h
      · next hlist =>
        obtain ⟨rfl, rfl⟩ := Prod.mk.inj (Option.some.inj h)
        rw [hlist, countable, countableInFields_eq, Tree.fields]
        split <;> simp_all
      · simp at h
  | list ts => simp [brackets?, Tree.kind] at h
  | lit value => simp [brackets?, Tree.kind] at h

theorem sizeOf_lt_of_mem_elementsIn {fields : List (String × Tree)} {e : Tree} (h : e ∈ elementsIn fields) :
    sizeOf e < sizeOf fields := by
  fun_induction elementsIn fields with
  | case1 => simp at h
  | case2 ts rest =>
    have := List.sizeOf_lt_of_mem h
    simp
    omega
  | case3 f rest hf ih =>
    have := ih h
    simp
    omega

theorem sizeOf_lt_of_mem_elementsOf {e : Tree} (h : e ∈ elementsOf v) : sizeOf e < sizeOf v := by
  have hin : e ∈ elementsIn v.fields := by
    unfold elementsOf at h
    split at h
    · exact h
    · simp at h
  cases v with
  | node kind span fields =>
    have hlt := sizeOf_lt_of_mem_elementsIn hin
    simp only [Tree.fields, Tree.node.sizeOf_spec] at hlt ⊢
    omega
  | list ts => simp [Tree.fields, elementsIn] at hin
  | lit value => simp [Tree.fields, elementsIn] at hin

theorem forall₂_iff_filterMap {α β : Type} {f : α → Option β} {R : α → β → Prop} {P : α → Prop} {xs : List α}
    (hR : ∀ x ∈ xs, ∀ y, R x y ↔ f x = some y ∧ P x) {ys : List β} :
    List.Forall₂ R xs ys ↔ (∀ x ∈ xs, f x ≠ none ∧ P x) ∧ xs.filterMap f = ys := by
  induction xs generalizing ys with
  | nil => simp [eq_comm]
  | cons x xs ih =>
    rw [List.forall_mem_cons] at hR ⊢
    rw [List.forall₂_cons_left_iff, List.filterMap_cons]
    simp only [ih hR.2, hR.1]
    cases hx : f x with
    | none => simp
    | some y =>
      constructor
      · rintro ⟨z, zs, ⟨hz, hP⟩, ⟨hall, rfl⟩, rfl⟩
        obtain rfl := Option.some.inj hz
        exact ⟨⟨⟨by simp, hP⟩, hall⟩, rfl⟩
      · rintro ⟨⟨⟨-, hP⟩, hall⟩, rfl⟩
        exact ⟨y, _, ⟨rfl, hP⟩, ⟨hall, rfl⟩, rfl⟩

/-! ## Whole texts -/

theorem whole_single_iff (h : brackets? v = none) : Whole names n v s ↔ countable names n v = some s := by
  constructor
  · intro hwhole
    cases hwhole with
    | single _ text => exact text
    | sequence brackets => simp [h] at brackets
  · exact .single h

theorem whole_sequence_iff (h : brackets? v = some (left, right)) : Whole names n v s ↔
    ∃ items ≠ [], List.Forall₂ (Whole names n) (elementsOf v) items ∧ left ++ Text.join ", " items ++ right = s := by
  constructor
  · intro hwhole
    cases hwhole with
    | single plain => simp [h] at plain
    | sequence brackets some shown =>
      obtain ⟨rfl, rfl⟩ := Prod.mk.inj (Option.some.inj (h.symm.trans brackets))
      exact ⟨_, some, shown, rfl⟩
  · rintro ⟨items, hsome, hshown, rfl⟩
    exact .sequence h hsome hshown

theorem holds_iff {w : Tree} : Holds v w ↔ w = v ∨ ∃ e ∈ elementsOf v, Holds e w := by
  rw [Holds, Relation.ReflTransGen.cases_head_iff, eq_comm]

theorem whole_iff (v : Tree) (s : String) : Whole names n v s ↔
    countable names n v = some s ∧ ∀ w, Holds v w → countable names n w ≠ none := by
  have ih (e : Tree) (he : e ∈ elementsOf v) (t : String) := whole_iff e t
  cases hb : brackets? v with
  | none =>
    rw [whole_single_iff hb, iff_self_and]
    intro hs w hw
    rcases holds_iff.1 hw with rfl | ⟨e, he, -⟩
    · simp [hs]
    · simp [elementsOf, hb] at he
  | some ends =>
    obtain ⟨left, right⟩ := ends
    rw [whole_sequence_iff hb]
    simp only [forall₂_iff_filterMap ih]
    constructor
    · rintro ⟨items, hsome, ⟨hall, rfl⟩, hs⟩
      have htext := (countable_sequence hb).2 ⟨hsome, hs⟩
      refine ⟨htext, fun w hw => ?_⟩
      rcases holds_iff.1 hw with rfl | ⟨e, he, hw⟩
      · simp [htext]
      · exact (hall e he).2 w hw
    · rintro ⟨htext, hall⟩
      obtain ⟨hsome, hs⟩ := (countable_sequence hb).1 htext
      have hbelow (e : Tree) (he : e ∈ elementsOf v) (w : Tree) (hw : Holds e w) : countable names n w ≠ none :=
        hall w (holds_iff.2 (.inr ⟨e, he, hw⟩))
      exact ⟨_, hsome, ⟨fun e he => ⟨hbelow e he e .refl, hbelow e he⟩, rfl⟩, hs⟩
termination_by sizeOf v
decreasing_by exact sizeOf_lt_of_mem_elementsOf he

/-- A value that has a text is shown whole by it exactly when every element has a text, at every depth. -/
theorem countable_whole_iff (names : Names) (n : Normalizer) (v : Tree) :
    (∀ s, countable names n v = some s → Whole names n v s) ↔
      countable names n v = none ∨ ∀ w, Holds v w → countable names n w ≠ none := by
  cases hv : countable names n v with
  | none => simp
  | some s => simp [whole_iff, hv]

/-- A pair of numbers with a name between them that stands for nothing. -/
def gappedPair : Tree :=
  let number (i : Int) : Tree := .node "Constant" none [("value", .lit (.int i)), ("kind", .lit .none)]
  .node "Tuple" none [("elts", .list [number 1, .node "Name" none [("id", .lit (.text "x"))], number 2])]

theorem gappedPair_closed_up :
    countable .empty ⟨.empty, .empty, []⟩ gappedPair = some "(1, 2)" ∧
      ¬ Whole .empty ⟨.empty, .empty, []⟩ gappedPair "(1, 2)" := by
  refine ⟨by rfl, fun h => ?_⟩
  have hname := ((whole_iff _ _).1 h).2 (.node "Name" none [("id", .lit (.text "x"))]) (holds_iff.2 (.inr ⟨_, ?_, .refl⟩))
  · exact hname (by rfl)
  · simp [gappedPair, elementsOf, elementsIn, brackets?, Tree.kind, Tree.fields]

end PlotAdvisor.Mining
