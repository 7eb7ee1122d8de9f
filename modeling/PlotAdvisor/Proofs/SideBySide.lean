import Mathlib.Data.List.Basic
import PlotAdvisor.Proofs.Heads

/-! Two programs followed side by side, statement by statement. Where every pair of statements keeps a relation between
the two tables of names and shows the same, the programs show the same. The relations wanted are of one kind: names that
correspond stand for related texts.

* `Corresponding`, `Corresponding.follow` - related tables of names, and what a pair of statements has to set.
* `followAll_related` - from one pair of statements to all of them.
* `moduleOf`, `importAs`, `extract_importing` - modules that begin with an import under another name.
-/
set_option autoImplicit false

namespace PlotAdvisor.Elements

open Program

/-! ## Statements -/

def targetNames (t : Tree) : List String :=
  if t.kind == "Assign" && !(generalCallNodes t).isEmpty then
    (t.fieldItems "targets").filterMap fun target => if target.kind = "Name" then target.fieldText? "id" else none
  else []

theorem bindingsWith_of_not_import (id : String) {t : Tree} (h : ¬ (t.kind = "Import" ∨ t.kind = "ImportFrom")) :
    bindingsWith id t = (targetNames t).map (·, id) := by
  rw [not_or] at h
  unfold bindingsWith targetNames
  simp only [h.1, h.2, beq_iff_eq, if_false]
  split
  · rw [List.map_filterMap]
    congr 1
    funext target
    split <;> rfl
  · rfl

theorem binds_of_not_import {t : Tree} (h : ¬ (t.kind = "Import" ∨ t.kind = "ImportFrom")) :
    binds t = targetNames t := by
  rw [binds, bindingsWith_of_not_import "" h, List.map_map]
  exact List.map_id' _

theorem exists_of_mem_targetNames {t : Tree} {x : String} (hx : x ∈ targetNames t) :
    ∃ target ∈ t.fieldItems "targets", target.kind = "Name" ∧ target.fieldText? "id" = some x := by
  unfold targetNames at hx
  split at hx
  · obtain ⟨target, htarget, hid⟩ := List.mem_filterMap.1 hx
    split at hid
    · next hname => exact ⟨target, htarget, hname, hid⟩
    · exact nomatch hid
  · exact absurd hx (by simp)

theorem bindingsWith_of_import (id other : String) {t : Tree} (h : t.kind = "Import" ∨ t.kind = "ImportFrom") :
    bindingsWith id t = bindingsWith other t := by
  rcases h with h | h <;> simp [bindingsWith, h]

def Corresponding (K : String → Prop) (σ : String → String) (R : String → String → String → Prop)
    (names others : Names) : Prop :=
  ∀ x, K x → R x (names.getD x x) (others.getD (σ x) (σ x))

theorem Corresponding.follow {K : String → Prop} {σ : String → String} {R : String → String → String → Prop}
    {names others : Names} (h : Corresponding K σ R names others) (hσ : ∀ a b, K a → K b → σ a = σ b → a = b)
    {ι : Type} (is : List ι) (key v w : ι → String) {t u : Tree}
    (ht : bindingsWith (firstHead names t) t = is.map fun i => (key i, v i))
    (hu : bindingsWith (firstHead others u) u = is.map fun i => (σ (key i), w i))
    (hset : ∀ i ∈ is, K (key i) ∧ R (key i) (v i) (w i)) :
    Corresponding K σ R (follow false names t).1 (follow false others u).1 := by
  rw [follow_names, follow_names, ht, hu]
  exact Table.get?_setAll_related (R := fun x a b => R x (a.getD x) (b.getD (σ x))) hσ is key v w names others h hset

theorem follow_uses_related {α : Type} (see : Use → α) (g : Tree → Tree) {names others : Names} {t : Tree}
    (hcalls : callsOf (g t) = (callsOf t).map g)
    (h : ∀ c ∈ callsOf t, (usesAt names c).map see = (usesAt others (g c)).map see) :
    (follow false names t).2.map see = (follow false others (g t)).2.map see := by
  rw [follow_uses, follow_uses, hcalls, List.flatMap_map, List.map_flatMap, List.map_flatMap]
  exact List.flatMap_congr h

theorem followAll_related {R : Names → Names → Prop} {α : Type} (see : Use → α) (g : Tree → Tree) (ts : List Tree)
    (hstep : ∀ t ∈ ts, ∀ names others, R names others →
      (follow false names t).2.map see = (follow false others (g t)).2.map see ∧
        R (follow false names t).1 (follow false others (g t)).1)
    {names others : Names} (h : R names others) :
    (followAll names ts).2.map see = (followAll others (ts.map g)).2.map see := by
  induction ts generalizing names others with
  | nil => rfl
  | cons t ts ih =>
    obtain ⟨hsee, hafter⟩ := hstep t (by simp) names others h
    have hrest := ih (fun u hu => hstep u (by simp [hu])) hafter
    simp only [followAll, List.map_cons, List.map_append]
    rw [hsee, hrest]

/-! ## Modules -/

def moduleOf (body ignores : List Tree) : Tree :=
  .node "Module" none [("body", .list body), ("type_ignores", .list ignores)]

def importAs (place itemPlace : Option Span) (m x : String) : Tree :=
  .node "Import" place
    [("names", .list [.node "alias" itemPlace [("name", .lit (.text m)), ("asname", .lit (.text x))]])]

def bindAs (names : Names) (m x : String) : Names := if x = "" then names else names.set x m

theorem follow_importAs (names : Names) (place itemPlace : Option Span) (m x : String) :
    follow false names (importAs place itemPlace m x) = (bindAs names m x, []) := by
  by_cases hx : x = ""
  · simp [follow, importAs, importNames, bindAs, hx, Tree.kind, Tree.fieldItems, Tree.field, Tree.field?, Tree.fields,
      Tree.items, Tree.fieldText?]
  · simp [follow, importAs, importNames, bindAs, hx, Tree.kind, Tree.fieldItems, Tree.field, Tree.field?, Tree.fields,
      Tree.items, Tree.fieldText?]

theorem outermost_moduleOf (t : Tree) (body ignores : List Tree) :
    outermost isFollowed (moduleOf (t :: body) ignores) =
      outermost isFollowed t ++ outermost isFollowed (moduleOf body ignores) := by
  have hmodule : isFollowed "Module" = false := by decide
  simp [moduleOf, outermost, hmodule, outermostInFields, outermostInItems]

theorem extract_importing (names : Names) (place itemPlace : Option Span) (m x : String) (body ignores : List Tree) :
    (extract false names (moduleOf (importAs place itemPlace m x :: body) ignores)).2 =
      (followAll (bindAs names m x) (outermost isFollowed (moduleOf body ignores))).2 := by
  have himport : outermost isFollowed (importAs place itemPlace m x) = [importAs place itemPlace m x] := by
    rw [importAs, outermost, if_pos (by decide)]
  rw [extract_eq_followAll, outermost_moduleOf, himport, List.singleton_append, followAll, follow_importAs]
  rfl

theorem getD_bindAs_self (names : Names) (m : String) {x : String} (hx : x ≠ "") :
    (bindAs names m x).getD x x = m := by
  rw [bindAs, if_neg hx, Table.getD, Table.get?_set, if_pos (by simp), Option.getD_some]

theorem getD_bindAs_of_ne (names : Names) (m : String) {x z : String} (hz : z ≠ x) :
    (bindAs names m x).getD z z = names.getD z z := by
  rw [bindAs]
  split
  · rfl
  · rw [Table.getD, Table.get?_set, if_neg (by simpa using hz), Table.getD]

end PlotAdvisor.Elements
