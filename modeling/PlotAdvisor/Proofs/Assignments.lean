import PlotAdvisor.Proofs.SideBySide

/-! What names stand for along a program, and how well assignments are tracked. An assignment binds all its plain names
to the first call of the statement, which is one of its targets if they have a call, and leaves the names alone where
the statement has no call at all.

* `bindings`, `followAll_names` - the entries that statements set, one after the other.
* `statements`, `namesAfter` - what names stand for after the first statements of a program.
* `getD_follow_target` - what a target stands for after an assignment.
-/
set_option autoImplicit false

namespace PlotAdvisor.Elements

open Program

/-! ## Entries set along a program -/

/-- The entries that statements set, one after the other. -/
def bindings (names : Names) : List Tree → List (String × String)
  | [] => []
  | t :: ts => bindingsWith (firstHead names t) t ++ bindings (follow false names t).1 ts

theorem followAll_names (names : Names) (ts : List Tree) : (followAll names ts).1 = names.setAll (bindings names ts) := by
  induction ts generalizing names with
  | nil => rfl
  | cons t ts ih =>
    rw [followAll, ih, bindings, Table.setAll, Table.setAll, List.foldl_append, follow_names]
    rfl

theorem bindings_keys (names : Names) (ts : List Tree) : (bindings names ts).map Prod.fst = boundIn ts := by
  induction ts generalizing names with
  | nil => rfl
  | cons t ts ih => rw [bindings, List.map_append, bindingsWith_keys, ih, boundIn, boundIn, List.flatMap_cons]

theorem followAll_concat (names : Names) (ts : List Tree) (t : Tree) :
    (followAll names (ts ++ [t])).1 = (follow false (followAll names ts).1 t).1 := by
  induction ts generalizing names with
  | nil => rfl
  | cons u ts ih => exact ih (follow false names u).1

theorem mem_bindings_getD (names : Names) {ts : List Tree} {x : String} (hx : x ∈ boundIn ts) :
    (x, (followAll names ts).1.getD x x) ∈ bindings names ts := by
  rw [← bindings_keys names] at hx
  obtain ⟨v, hv, hget⟩ := names.exists_get?_setAll hx
  rw [followAll_names, Table.getD, hget, Option.getD_some]
  exact hv

def statements (program : Tree) : List Tree := outermost isFollowed program

def namesAfter (names : Names) (program : Tree) (k : Nat) : Names :=
  (followAll names ((statements program).take k)).1

theorem namesAfter_succ (names : Names) {program t : Tree} {k : Nat} (hk : (statements program)[k]? = some t) :
    namesAfter names program (k + 1) = (follow false (namesAfter names program k) t).1 := by
  rw [namesAfter, List.take_add_one, hk]
  exact followAll_concat names _ t

/-! ## Assignments -/

theorem mem_targetNames {t target : Tree} {x : String} (ht : t.kind = "Assign") (hcalls : generalCallNodes t ≠ [])
    (htarget : target ∈ t.fieldItems "targets") (hkind : target.kind = "Name")
    (hid : target.fieldText? "id" = some x) : x ∈ targetNames t := by
  rw [targetNames, if_pos (by simp [ht, hcalls]), List.mem_filterMap]
  exact ⟨target, htarget, by simp [hkind, hid]⟩

theorem getD_follow_target (names : Names) {t target : Tree} {x : String} (ht : t.kind = "Assign")
    (htarget : target ∈ t.fieldItems "targets") (hkind : target.kind = "Name")
    (hid : target.fieldText? "id" = some x) :
    (follow false names t).1.getD x x = (generalCallNodes t).head?.elim (names.getD x x) (head names) := by
  rw [follow_names, bindingsWith_of_not_import _ (by simp [ht])]
  cases hcalls : generalCallNodes t with
  | nil =>
    have hnone : targetNames t = [] := by simp [targetNames, hcalls]
    rw [hnone]
    rfl
  | cons call calls =>
    have hx : x ∈ targetNames t := mem_targetNames ht (by simp [hcalls]) htarget hkind hid
    have hfirst : firstHead names t = head names call := by simp [firstHead, hcalls]
    have hkey : x ∈ ((targetNames t).map (·, head names call)).map Prod.fst := by simpa using hx
    -- all the entries that are set have the same element
    obtain ⟨v, hv, hget⟩ := names.exists_get?_setAll hkey
    obtain ⟨y, -, hentry⟩ := List.mem_map.1 hv
    obtain rfl : head names call = v := (Prod.mk.inj hentry).2
    rw [hfirst, Table.getD, hget]
    rfl

def assignment (place : Option Span) (targets : List Tree) (value : Tree) (comment : Literal) : Tree :=
  .node "Assign" place [("targets", .list targets), ("value", value), ("type_comment", .lit comment)]

theorem generalCallNodes_assignment (place : Option Span) (targets : List Tree) (value : Tree) (comment : Literal) :
    generalCallNodes (assignment place targets value comment) =
      generalCallNodes (.list targets) ++ generalCallNodes value := by
  have hassign : isGeneralCall "Assign" = false := by decide
  simp [generalCallNodes, assignment, outermost, hassign, outermostInFields]

theorem targets_assignment (place : Option Span) (targets : List Tree) (value : Tree) (comment : Literal) :
    (assignment place targets value comment).fieldItems "targets" = targets := by
  simp [assignment, Tree.fieldItems, Tree.field, Tree.field?, Tree.fields, Tree.items]

def reference (x : String) : Tree := .node "Name" none [("id", .lit (.text x)), ("ctx", .node "Load" none [])]

theorem head_reference (names : Names) (x : String) : head names (reference x) = names.getD x x := by
  simp [head, reference]

/-! ## Tracking -/

def Tracked (names : Names) (program : Tree) (k : Nat) (value : Tree) (x : String) : Prop :=
  match (generalCallNodes value).head? with
  | some call => head (namesAfter names program (k + 1)) (reference x) = head (namesAfter names program k) call
  | none => ∀ v, (x, v) ∈ bindings names ((statements program).take k) →
      head (namesAfter names program (k + 1)) (reference x) ≠ v

/-- An assignment is tracked exactly when, with calls standing for calls, subscripts and attributes,
* the value has a call and no target has one,
* the first call of the targets belongs to the same element as the first one of the value,
* neither has a call and no earlier statement binds the name, or
* only the targets have one, and no earlier statement has bound the name to the element of their first. -/
theorem tracked_iff (names : Names) {program : Tree} {k : Nat} {place : Option Span} {targets : List Tree} {value : Tree}
    {comment : Literal} (hk : (statements program)[k]? = some (assignment place targets value comment))
    {target : Tree} {x : String} (htarget : target ∈ targets) (hkind : target.kind = "Name")
    (hid : target.fieldText? "id" = some x) :
    Tracked names program k value x ↔
      match (generalCallNodes (.list targets)).head?, (generalCallNodes value).head? with
      | none, some _ => True
      | some first, some call => head (namesAfter names program k) first = head (namesAfter names program k) call
      | none, none => x ∉ boundIn ((statements program).take k)
      | some first, none =>
        (x, head (namesAfter names program k) first) ∉ bindings names ((statements program).take k) := by
  rw [← targets_assignment place targets value comment] at htarget
  have hafter := getD_follow_target (namesAfter names program k) rfl htarget hkind hid
  rw [← namesAfter_succ names hk, ← head_reference, generalCallNodes_assignment, List.head?_append] at hafter
  rw [Tracked, hafter]
  cases generalCallNodes value with
  | cons call calls => cases generalCallNodes (.list targets) <;> simp
  | nil =>
    cases generalCallNodes (.list targets) with
    | cons first firsts =>
      simp only [List.head?_nil, List.head?_cons, Option.or_none, Option.elim_some]
      exact ⟨fun h hmem => h _ hmem rfl, fun h v hv e => h (e ▸ hv)⟩
    | nil =>
      simp only [List.head?_nil, Option.or_none, Option.elim_none]
      constructor
      · intro h hbound
        exact h _ (mem_bindings_getD names hbound) rfl
      · intro h v hv
        have hmem : x ∈ (bindings names ((statements program).take k)).map Prod.fst := List.mem_map_of_mem hv
        rw [bindings_keys] at hmem
        exact absurd hmem h

/-! ## Assignments that are tracked and others -/

section
open Extractor

def callOf (f : String) (start stop : Int) : Tree :=
  .node "Call" (range start stop) [
    ("func", nameNode f "Load" start (stop - 2)), ("args", .list []), ("keywords", .list [])]

def digit (d start : Int) : Tree :=
  .node "Constant" (range start (start + 1)) [("value", .lit (.int d)), ("kind", .lit .none)]

def assigningN (value : Tree) (start stop : Int) : Tree :=
  assignment (range start stop) [nameNode "n" "Store" start (start + 1)] value .none

def memberCall : Tree :=
  let member : Tree := .node "Attribute" (range 13 16) [
    ("value", nameNode "n" "Load" 13 14), ("attr", .lit (.text "g")), ("ctx", .node "Load" none [])]
  .node "Call" (range 13 18) [("func", member), ("args", .list []), ("keywords", .list [])]

/-- In the program `n = f(); n = n.g()` the second assignment is tracked. -/
theorem tracked_iff_reassigned :
    let program := moduleOf [assigningN (callOf "f" 4 7) 0 7, assigningN memberCall 9 18] []
    (statements program)[1]? = some (assigningN memberCall 9 18) ∧ Tracked .empty program 1 memberCall "n" ∧
      (extract false .empty program).1.get? "n" = some "f.g" := by
  intro program
  have hk : (statements program)[1]? = some (assigningN memberCall 9 18) := rfl
  exact ⟨hk, (tracked_iff .empty hk List.mem_cons_self rfl rfl).2 trivial, by decide⟩

/-- The statement `a[0] = n = f()`. -/
def chained : Tree :=
  let item : Tree := .node "Subscript" (range 0 4) [
    ("value", nameNode "a" "Load" 0 1), ("slice", digit 0 2), ("ctx", .node "Store" none [])]
  assignment (range 0 14) [item, nameNode "n" "Store" 7 8] (callOf "f" 11 14) .none

/-- After `a[0] = n = f()` the name `n` stands for `a`, and after `n = f(); n = 3` it still stands for `f`. -/
theorem assignments_untracked :
    let one := moduleOf [chained] []
    let two := moduleOf [assigningN (callOf "f" 4 7) 0 7, assigningN (digit 3 13) 9 14] []
    (statements one)[0]? = some chained ∧ (extract false .empty one).1.get? "n" = some "a" ∧
      ¬ Tracked .empty one 0 (callOf "f" 11 14) "n" ∧
    (statements two)[1]? = some (assigningN (digit 3 13) 9 14) ∧ (extract false .empty two).1.get? "n" = some "f" ∧
      ¬ Tracked .empty two 1 (digit 3 13) "n" := by
  intro one two
  have hne : head (namesAfter .empty one 1) (reference "n") ≠ head (namesAfter .empty one 0) (callOf "f" 11 14) := by
    decide
  exact ⟨rfl, by decide, hne, rfl, by decide, fun h => h "f" (by decide) (by decide)⟩

end

end PlotAdvisor.Elements
