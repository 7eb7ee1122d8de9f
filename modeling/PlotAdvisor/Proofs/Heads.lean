import PlotAdvisor.Proofs.Isolation
import PlotAdvisor.Proofs.Parts

/-! The walk down a program, by the fields of its nodes. Everything that is looked at below a node is below the program
too, and the element of a node is found by going from field to field, so that what holds of elements is shown by
induction along the way.

* `Tree.field_mem_children`, `Tree.mem_preorder_of_field` - a field of a node and the nodes below it.
* `outermost_spec` - outermost nodes and the nodes below them.
* `head_of_call`, `head_of_subscript`, `head_of_attribute`, `head_of_name` - where the element of a node comes from.
* `headInduction` - induction along these fields.
-/
set_option autoImplicit false

namespace PlotAdvisor

/-! ## Fields -/

namespace Program.Tree

theorem lookup_eq_field? (kind : String) (span : Option Span) (fields : List (String × Tree)) (name : String) :
    fields.lookup name = (Tree.node kind span fields).field? name := by
  rw [field?, Tree.fields]
  induction fields with
  | nil => rfl
  | cons f fields ih =>
    obtain ⟨g, t⟩ := f
    by_cases hg : g = name
    · simp [hg]
    · have hne : (name == g) = false := by simpa using fun e : name = g => hg e.symm
      simp [List.lookup_cons, hne, hg, ih]

theorem field_cases (t : Tree) (name : String) : (name, t.field name) ∈ t.fields ∨ t.field name = .lit .none := by
  unfold field field?
  cases hf : t.fields.find? fun f => f.1 == name with
  | none => exact Or.inr rfl
  | some f =>
    have hname : f.1 = name := by simpa using List.find?_some hf
    refine Or.inl ?_
    rw [Option.map_some, Option.getD_some, ← hname]
    exact List.mem_of_find?_eq_some hf

theorem field_mem_children {t : Tree} {name : String} (h : (t.field name).isNode = true) :
    t.field name ∈ t.children := by
  rcases t.field_cases name with hmem | hnone
  · cases t with
    | node kind span fields => exact mem_children_of_field hmem h
    | list ts => simp [fields] at hmem
    | lit v => simp [fields] at hmem
  · simp [hnone, isNode] at h

theorem mem_preorder_of_field {t n : Tree} {name : String} (hn : n ∈ (t.field name).preorder) : n ∈ t.preorder := by
  rcases t.field_cases name with hmem | hnone
  · cases t with
    | node kind span fields => exact mem_preorder_node.2 (Or.inr ⟨_, hmem, hn⟩)
    | list ts => simp [fields] at hmem
    | lit v => simp [fields] at hmem
  · simp [hnone, preorder] at hn

theorem mem_preorder_of_fieldItem {t c n : Tree} {name : String} (hc : c ∈ t.fieldItems name)
    (hn : n ∈ c.preorder) : n ∈ t.preorder := by
  rw [fieldItems] at hc
  have hfield : n ∈ (t.field name).preorder := by
    cases hv : t.field name with
    | list ts =>
      rw [hv] at hc
      exact mem_preorder_list.2 ⟨c, hc, hn⟩
    | node kind span fields => simp [hv, items] at hc
    | lit v => simp [hv, items] at hc
  exact mem_preorder_of_field hfield

theorem isNode_of_kind {t : Tree} (h : t.kind ≠ "") : t.isNode = true := by
  cases t with
  | node kind span fields => rfl
  | list ts => exact absurd rfl h
  | lit v => exact absurd rfl h

theorem mem_preorder_self {t : Tree} (h : t.isNode = true) : t ∈ t.preorder := by
  cases t with
  | node kind span fields => exact mem_preorder_node.2 (Or.inl rfl)
  | list ts => simp [isNode] at h
  | lit v => simp [isNode] at h

end Program.Tree

namespace Elements

open Program

/-! ## Outermost nodes -/

mutual

theorem outermost_spec (isOne : String → Bool) {n : Tree} : ∀ t : Tree,
    n ∈ outermost isOne t → isOne n.kind = true ∧ ∀ m ∈ n.preorder, m ∈ t.preorder
  | .node kind span fields, hn => by
    rw [outermost] at hn
    split at hn
    · next hone =>
      obtain rfl := List.mem_singleton.1 hn
      exact ⟨hone, fun m hm => hm⟩
    · obtain ⟨hone, hbelow⟩ := outermostInFields_spec isOne fields hn
      rw [Tree.preorder]
      exact ⟨hone, fun m hm => List.mem_cons_of_mem _ (hbelow m hm)⟩
  | .list ts, hn => by
    rw [outermost] at hn
    rw [Tree.preorder]
    exact outermostInItems_spec isOne ts hn
  | .lit v, hn => by simp [outermost] at hn

theorem outermostInFields_spec (isOne : String → Bool) {n : Tree} : ∀ fields : List (String × Tree),
    n ∈ outermostInFields isOne fields → isOne n.kind = true ∧ ∀ m ∈ n.preorder, m ∈ Tree.preorderFields fields
  | [], hn => by simp [outermostInFields] at hn
  | (f, t) :: rest, hn => by
    rw [outermostInFields] at hn
    rw [Tree.preorderFields]
    rcases List.mem_append.1 hn with hn | hn
    · obtain ⟨hone, hbelow⟩ := outermost_spec isOne t hn
      exact ⟨hone, fun m hm => List.mem_append_left _ (hbelow m hm)⟩
    · obtain ⟨hone, hbelow⟩ := outermostInFields_spec isOne rest hn
      exact ⟨hone, fun m hm => List.mem_append_right _ (hbelow m hm)⟩

theorem outermostInItems_spec (isOne : String → Bool) {n : Tree} : ∀ ts : List Tree,
    n ∈ outermostInItems isOne ts → isOne n.kind = true ∧ ∀ m ∈ n.preorder, m ∈ Tree.preorderItems ts
  | [], hn => by simp [outermostInItems] at hn
  | t :: rest, hn => by
    rw [outermostInItems] at hn
    rw [Tree.preorderItems]
    rcases List.mem_append.1 hn with hn | hn
    · obtain ⟨hone, hbelow⟩ := outermost_spec isOne t hn
      exact ⟨hone, fun m hm => List.mem_append_left _ (hbelow m hm)⟩
    · obtain ⟨hone, hbelow⟩ := outermostInItems_spec isOne rest hn
      exact ⟨hone, fun m hm => List.mem_append_right _ (hbelow m hm)⟩

end

theorem mem_preorder_of_mem_outermost {isOne : String → Bool} {t n m : Tree} (hn : n ∈ outermost isOne t)
    (hm : m ∈ n.preorder) : m ∈ t.preorder :=
  (outermost_spec isOne t hn).2 m hm

theorem isOne_of_mem_outermost {isOne : String → Bool} {t n : Tree} (hn : n ∈ outermost isOne t) :
    isOne n.kind = true :=
  (outermost_spec isOne t hn).1

/-! ## Heads -/

theorem headOfField_eq (names : Names) (name kind : String) (span : Option Span) (fields : List (String × Tree)) :
    headOfField names name fields = head names ((.node kind span fields : Tree).field name) := by
  rw [Tree.field, ← Tree.lookup_eq_field?]
  induction fields with
  | nil => rfl
  | cons f fields ih =>
    obtain ⟨g, t⟩ := f
    rw [headOfField, List.lookup_cons]
    by_cases hg : g = name
    · simp [hg]
    · have hne : (name == g) = false := by simpa using fun e : name = g => hg e.symm
      simp [hne, hg, ih]

section
variable (names : Names) {t : Tree}

theorem head_of_call (h : t.kind = "Call") : head names t = head names (t.field "func") := by
  cases t with
  | node kind span fields =>
    obtain rfl : kind = "Call" := h
    rw [head, headOfField_eq names "func" "Call" span]
  | _ => exact absurd h (by simp [Tree.kind])

theorem head_of_subscript (h : t.kind = "Subscript") : head names t = head names (t.field "value") := by
  cases t with
  | node kind span fields =>
    obtain rfl : kind = "Subscript" := h
    rw [head, headOfField_eq names "value" "Subscript" span]
  | _ => exact absurd h (by simp [Tree.kind])

theorem head_of_attribute (h : t.kind = "Attribute") :
    head names t = head names (t.field "value") ++ "." ++ (t.fieldText? "attr").getD "" := by
  cases t with
  | node kind span fields =>
    obtain rfl : kind = "Attribute" := h
    rw [head, headOfField_eq names "value" "Attribute" span, Tree.lookup_eq_field? "Attribute" span]
    congr 1
    rw [Tree.fieldText?, Tree.field]
    cases (.node "Attribute" span fields : Tree).field? "attr" with
    | none => rfl
    | some a => cases a with
      | lit v => cases v <;> rfl
      | _ => rfl
  | _ => exact absurd h (by simp [Tree.kind])

theorem head_of_name (h : t.kind = "Name") : head names t = rootValue names (t.fieldText? "id") := by
  cases t with
  | node kind span fields =>
    obtain rfl : kind = "Name" := h
    rw [head, Tree.lookup_eq_field? "Name" span, Tree.fieldText?, Tree.field]
    cases (.node "Name" span fields : Tree).field? "id" with
    | none => rfl
    | some a => cases a with
      | lit v => cases v <;> rfl
      | _ => rfl
  | _ => exact absurd h (by simp [Tree.kind])

/-- The classes of nodes that go by another text than the class. -/
def headKinds : List String := ["Call", "Subscript", "Attribute", "Name"]

theorem head_of_other (hnode : t.isNode = true) (h : t.kind ∉ headKinds) : head names t = t.kind := by
  cases t with
  | node kind span fields =>
    simp only [headKinds, List.mem_cons, List.not_mem_nil, or_false, not_or] at h
    obtain ⟨hcall, hsub, hattr, hname⟩ := h
    rw [head] <;> simp_all [Tree.kind]
  | list ts => simp [Tree.isNode] at hnode
  | lit v => simp [Tree.isNode] at hnode

end

theorem headInduction {P : Tree → Prop}
    (call : ∀ t : Tree, t.kind = "Call" → P (t.field "func") → P t)
    (subscript : ∀ t : Tree, t.kind = "Subscript" → P (t.field "value") → P t)
    (access : ∀ t : Tree, t.kind = "Attribute" → P (t.field "value") → P t)
    (name : ∀ t : Tree, t.kind = "Name" → P t)
    (other : ∀ t : Tree, t.kind ∉ headKinds → P t) (t : Tree) : P t := by
  induction t using Tree.inductionOn with
  | h t ih =>
    have hfield (f : String) : P (t.field f) := by
      by_cases hnode : (t.field f).isNode = true
      · exact ih _ (Tree.field_mem_children hnode)
      · refine other _ fun hkind => hnode (Tree.isNode_of_kind fun hempty => ?_)
        rw [hempty] at hkind
        exact absurd hkind (by decide)
    by_cases hcall : t.kind = "Call"
    · exact call t hcall (hfield "func")
    by_cases hsub : t.kind = "Subscript"
    · exact subscript t hsub (hfield "value")
    by_cases hattr : t.kind = "Attribute"
    · exact access t hattr (hfield "value")
    by_cases hname : t.kind = "Name"
    · exact name t hname
    · exact other t (by simp [headKinds, hcall, hsub, hattr, hname])

end Elements

end PlotAdvisor
