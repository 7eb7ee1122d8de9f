import Mathlib.Data.List.Perm.Subperm
import PlotAdvisor.Documentation.Library
import PlotAdvisor.Proofs.Table

/-! Chains of parents. A chain that ends has no element twice, so it is no longer than the library, and the bound on the
search for parents cuts nothing off.

* `Ends.nodup` - an element has no parent twice.
* `parents_of_hasParent` - the parents of an element are its parent and the parents of that.
* `mem_parents_iff` - the parents are what lies above.
-/
set_option autoImplicit false

namespace PlotAdvisor.Documentation.Library

open Relation

variable {l : Library} {id p : String}

def HasParent (l : Library) (p id : String) : Prop := ∃ e, l.find? id = some e ∧ e.parent = p ∧ p ≠ ""

/-- One element is the parent of another, or the parent of its parent, and so on. -/
def IsAbove (l : Library) (p id : String) : Prop := TransGen l.HasParent p id

/-- The chain of parents of an element comes to an end. -/
def Ends (l : Library) (id : String) : Prop := Acc l.HasParent id

theorem parentsUpTo_of_hasParent (h : l.HasParent p id) (n : Nat) :
    l.parentsUpTo (n + 1) id = p :: l.parentsUpTo n p := by
  obtain ⟨e, hfind, rfl, hne⟩ := h
  simp [parentsUpTo, hfind, hne]

theorem parentsUpTo_of_root (h : ∀ p, ¬ l.HasParent p id) (n : Nat) : l.parentsUpTo n id = [] := by
  cases n with
  | zero => rfl
  | succ n =>
    rw [parentsUpTo]
    cases hfind : l.find? id with
    | none => rfl
    | some e =>
      have hroot : e.parent = "" := by
        by_contra hne
        exact h e.parent ⟨e, hfind, rfl, hne⟩
      simp [hroot]

theorem isAbove_of_mem_parentsUpTo {n : Nat} (h : p ∈ l.parentsUpTo n id) : l.IsAbove p id := by
  induction n generalizing id with
  | zero => exact absurd h (by simp [parentsUpTo])
  | succ n ih =>
    by_cases hparent : ∃ q, l.HasParent q id
    · obtain ⟨q, hq⟩ := hparent
      rw [parentsUpTo_of_hasParent hq] at h
      rcases List.mem_cons.1 h with rfl | h
      · exact TransGen.single hq
      · exact (ih h).tail hq
    · rw [parentsUpTo_of_root (not_exists.1 hparent)] at h
      exact absurd h (by simp)

/-- A shorter search finds a beginning of what a longer one finds. -/
theorem parentsUpTo_eq_take (n : Nat) (id : String) : l.parentsUpTo n id = (l.parentsUpTo (n + 1) id).take n := by
  induction n generalizing id with
  | zero => rfl
  | succ n ih =>
    by_cases hparent : ∃ q, l.HasParent q id
    · obtain ⟨q, hq⟩ := hparent
      rw [parentsUpTo_of_hasParent hq, parentsUpTo_of_hasParent hq, List.take_succ_cons, ← ih]
    · rw [parentsUpTo_of_root (not_exists.1 hparent), parentsUpTo_of_root (not_exists.1 hparent), List.take_nil]

theorem ends_of_shorter (h : ∀ e ∈ l.entries.entries, e.2.parent.length < e.1.length) (id : String) : l.Ends id := by
  refine Subrelation.accessible ?_ (InvImage.accessible String.length (Nat.lt_wfRel.wf.apply id.length))
  rintro p id ⟨e, hfind, rfl, -⟩
  exact h (id, e) (Table.mem_entries_of_get? hfind)

namespace Ends

theorem not_isAbove_self (h : l.Ends id) : ¬ l.IsAbove id id := by
  induction h with
  | intro id _ ih =>
    intro hloop
    rcases hloop with hself | ⟨habove, hparent⟩
    · exact ih id hself (TransGen.single hself)
    · exact ih _ hparent (habove.head hparent)

theorem parent (h : l.Ends id) (hp : l.HasParent p id) : l.Ends p := h.inv hp

theorem nodup_parentsUpTo (h : l.Ends id) (n : Nat) : (l.parentsUpTo n id).Nodup := by
  induction n generalizing id with
  | zero => exact List.nodup_nil
  | succ n ih =>
    by_cases hparent : ∃ q, l.HasParent q id
    · obtain ⟨q, hq⟩ := hparent
      rw [parentsUpTo_of_hasParent hq]
      have hnew : q ∉ l.parentsUpTo n q := fun hmem =>
        (h.parent hq).not_isAbove_self (isAbove_of_mem_parentsUpTo hmem)
      exact List.nodup_cons.2 ⟨hnew, ih (h.parent hq)⟩
    · rw [parentsUpTo_of_root (not_exists.1 hparent)]
      exact List.nodup_nil

theorem nodup (h : l.Ends id) : (l.parents id).Nodup := h.nodup_parentsUpTo _

theorem exists_holders (h : l.Ends id) (n : Nat) :
    ∃ holders : List String, holders.length = (l.parentsUpTo n id).length ∧ holders.Nodup ∧
      ∀ a ∈ holders, (a = id ∨ l.IsAbove a id) ∧ a ∈ l.entries.keys := by
  induction n generalizing id with
  | zero => exact ⟨[], rfl, List.nodup_nil, by simp⟩
  | succ n ih =>
    by_cases hparent : ∃ q, l.HasParent q id
    · obtain ⟨q, hq⟩ := hparent
      obtain ⟨holders, hlength, hnodup, hall⟩ := ih (h.parent hq)
      have habove : ∀ a ∈ holders, l.IsAbove a id := by
        intro a ha
        rcases (hall a ha).1 with rfl | hup
        · exact TransGen.single hq
        · exact hup.tail hq
      have hentry : id ∈ l.entries.keys := by
        obtain ⟨e, hfind, -⟩ := hq
        exact List.mem_map.2 ⟨(id, e), Table.mem_entries_of_get? hfind, rfl⟩
      refine ⟨id :: holders, ?_, ?_, ?_⟩
      · rw [parentsUpTo_of_hasParent hq, List.length_cons, List.length_cons, hlength]
      · exact List.nodup_cons.2 ⟨fun hid => h.not_isAbove_self (habove id hid), hnodup⟩
      · rintro a ha
        rcases List.mem_cons.1 ha with rfl | ha
        · exact ⟨Or.inl rfl, hentry⟩
        · exact ⟨Or.inr (habove a ha), (hall a ha).2⟩
    · exact ⟨[], by rw [parentsUpTo_of_root (not_exists.1 hparent)], List.nodup_nil, by simp⟩

theorem length_parentsUpTo_le (h : l.Ends id) (n : Nat) : (l.parentsUpTo n id).length ≤ l.entries.size := by
  obtain ⟨holders, hlength, hnodup, hall⟩ := h.exists_holders n
  have hsubset : holders ⊆ l.entries.keys := fun a ha => (hall a ha).2
  have hle := (List.subperm_of_subset hnodup hsubset).length_le
  rwa [hlength, Table.keys, List.length_map] at hle

/-- A search of one step more finds nothing more. -/
theorem parentsUpTo_succ (h : l.Ends id) : l.parentsUpTo (l.entries.size + 1) id = l.parents id := by
  rw [parents, parentsUpTo_eq_take l.entries.size, List.take_of_length_le (h.length_parentsUpTo_le _)]

end Ends

theorem parents_of_hasParent (h : l.Ends id) (hp : l.HasParent p id) : l.parents id = p :: l.parents p := by
  rw [← h.parentsUpTo_succ, parentsUpTo_of_hasParent hp]
  rfl

theorem mem_parents_iff (h : l.Ends id) : p ∈ l.parents id ↔ l.IsAbove p id := by
  refine ⟨isAbove_of_mem_parentsUpTo, fun habove => ?_⟩
  induction habove with
  | single hp =>
    rw [parents_of_hasParent h hp]
    exact List.mem_cons_self
  | tail _ hp ih =>
    rw [parents_of_hasParent h hp]
    exact List.mem_cons_of_mem _ (ih (h.parent hp))

end PlotAdvisor.Documentation.Library
