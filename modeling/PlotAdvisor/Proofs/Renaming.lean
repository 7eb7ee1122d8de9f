import PlotAdvisor.Proofs.SideBySide

/-! Programs under other names. Renaming the name nodes of a program renames the nodes that are found in it, and leaves
its uses with the ids and lines that they had as long as each new name stands for what the old one stood for. A statement
keeps it so, since it binds old and new names alike. -/
set_option autoImplicit false

namespace PlotAdvisor

/-! ## Trees with other names -/

namespace Program.Tree

def mapText (σ : String → String) : Tree → Tree
  | .lit (.text s) => .lit (.text (σ s))
  | t => t

mutual

def renamed (σ : String → String) : Tree → Tree
  | .node kind span fields => .node kind span (renamedFields σ kind fields)
  | .list ts => .list (renamedItems σ ts)
  | .lit v => .lit v

def renamedFields (σ : String → String) (kind : String) : List (String × Tree) → List (String × Tree)
  | [] => []
  | (f, t) :: rest =>
    (f, if kind = "Name" ∧ f = "id" then (renamed σ t).mapText σ else renamed σ t) :: renamedFields σ kind rest

def renamedItems (σ : String → String) : List Tree → List Tree
  | [] => []
  | t :: rest => renamed σ t :: renamedItems σ rest

end

def namesIn (t : Tree) : List String := t.preorder.filterMap fun n => if n.kind = "Name" then n.fieldText? "id" else none

section
variable (σ : String → String)

theorem renamedItems_eq_map (ts : List Tree) : renamedItems σ ts = ts.map (renamed σ) := by
  induction ts with
  | nil => rfl
  | cons t ts ih => rw [renamedItems, ih, List.map_cons]

def fieldRenamed (kind : String) (f : String × Tree) : Tree :=
  if kind = "Name" ∧ f.1 = "id" then (f.2.renamed σ).mapText σ else f.2.renamed σ

theorem renamedFields_eq_map (kind : String) (fields : List (String × Tree)) :
    renamedFields σ kind fields = fields.map fun f => (f.1, fieldRenamed σ kind f) := by
  induction fields with
  | nil => rfl
  | cons f fields ih =>
    rw [renamedFields, ih, List.map_cons]
    rfl

@[simp] theorem kind_renamed (t : Tree) : (t.renamed σ).kind = t.kind := by
  cases t <;> rfl

theorem start?_renamed (t : Tree) : (t.renamed σ).start? = t.start? := by
  cases t <;> rfl

theorem field_renamed (t : Tree) (name : String) :
    (t.renamed σ).field name = fieldRenamed σ t.kind (name, t.field name) := by
  have hnone (kind : String) : fieldRenamed σ kind (name, .lit .none) = .lit .none := by
    rw [fieldRenamed]
    split <;> rfl
  cases t with
  | node kind span fields =>
    have hfind : (renamedFields σ kind fields).find? (fun f => f.1 == name) =
        (fields.find? fun f => f.1 == name).map fun f => (f.1, fieldRenamed σ kind f) := by
      rw [renamedFields_eq_map, List.find?_map]
      rfl
    unfold renamed field field? Tree.fields
    rw [hfind]
    cases hf : fields.find? fun f => f.1 == name with
    | none => exact (hnone kind).symm
    | some f =>
      have hname : f.1 = name := by simpa using List.find?_some hf
      simp [← hname, Tree.kind]
  | list ts => exact (hnone "").symm
  | lit v => exact (hnone "").symm

theorem field_renamed_of_ne {t : Tree} {name : String} (h : t.kind ≠ "Name" ∨ name ≠ "id") :
    (t.renamed σ).field name = (t.field name).renamed σ := by
  rw [field_renamed, fieldRenamed, if_neg fun hboth => h.elim (· hboth.1) (· hboth.2)]

theorem items_mapText (t : Tree) : (t.mapText σ).items = t.items := by
  unfold mapText
  split <;> rfl

theorem items_renamed (t : Tree) : (t.renamed σ).items = t.items.map (renamed σ) := by
  cases t with
  | list ts => exact renamedItems_eq_map σ ts
  | _ => rfl

theorem fieldItems_renamed (t : Tree) (name : String) :
    (t.renamed σ).fieldItems name = (t.fieldItems name).map (renamed σ) := by
  rw [fieldItems, fieldItems, field_renamed, fieldRenamed, ← items_renamed]
  split
  · exact items_mapText σ _
  · rfl

theorem fieldText?_renamed {t : Tree} {name : String} (h : t.kind ≠ "Name" ∨ name ≠ "id") :
    (t.renamed σ).fieldText? name = t.fieldText? name := by
  rw [fieldText?, fieldText?, field_renamed_of_ne σ h]
  cases t.field name <;> rfl

theorem fieldText?_id_renamed {t : Tree} (h : t.kind = "Name") :
    (t.renamed σ).fieldText? "id" = (t.fieldText? "id").map σ := by
  rw [fieldText?, fieldText?, field_renamed, fieldRenamed, if_pos ⟨h, rfl⟩]
  cases t.field "id" with
  | lit v => cases v <;> rfl
  | _ => rfl

theorem literal?_renamed (t : Tree) : (t.renamed σ).literal? = t.literal? := by
  cases t with
  | node kind span fields =>
    by_cases hkind : kind = "Constant"
    · subst hkind
      have hvalue : ((node "Constant" span fields).renamed σ).field "value" =
          ((node "Constant" span fields).field "value").renamed σ := field_renamed_of_ne σ (Or.inr (by decide))
      unfold renamed at hvalue ⊢
      unfold literal?
      simp only [hvalue]
      cases (node "Constant" span fields).field "value" <;> rfl
    · unfold renamed literal?
      split <;> simp_all
  | _ => rfl

end

end Program.Tree

namespace Elements

open Program

/-! ## What is found in a renamed tree -/

section
variable (σ : String → String)

theorem outermost_mapText (isOne : String → Bool) (t : Tree) : outermost isOne (t.mapText σ) = outermost isOne t := by
  unfold Tree.mapText
  split
  · rw [outermost, outermost]
  · rfl

mutual

theorem outermost_renamed (isOne : String → Bool) : ∀ t : Tree,
    outermost isOne (t.renamed σ) = (outermost isOne t).map (Tree.renamed σ)
  | .node kind span fields => by
    rw [Tree.renamed, outermost, outermost]
    split
    · rw [List.map_singleton, Tree.renamed]
    · exact outermostInFields_renamed isOne kind fields
  | .list ts => by
    rw [Tree.renamed, outermost, outermost]
    exact outermostInItems_renamed isOne ts
  | .lit v => by rw [Tree.renamed, outermost, List.map_nil]

theorem outermostInFields_renamed (isOne : String → Bool) (kind : String) : ∀ fields : List (String × Tree),
    outermostInFields isOne (Tree.renamedFields σ kind fields) =
      (outermostInFields isOne fields).map (Tree.renamed σ)
  | [] => by rw [Tree.renamedFields, outermostInFields, List.map_nil]
  | (f, t) :: rest => by
    have ht := outermost_renamed isOne t
    rw [Tree.renamedFields, outermostInFields, outermostInFields, List.map_append, ← ht,
      outermostInFields_renamed isOne kind rest]
    split
    · rw [outermost_mapText]
    · rfl

theorem outermostInItems_renamed (isOne : String → Bool) : ∀ ts : List Tree,
    outermostInItems isOne (Tree.renamedItems σ ts) = (outermostInItems isOne ts).map (Tree.renamed σ)
  | [] => by rw [Tree.renamedItems, outermostInItems, List.map_nil]
  | t :: rest => by
    rw [Tree.renamedItems, outermostInItems, outermostInItems, List.map_append, ← outermost_renamed isOne t,
      outermostInItems_renamed isOne rest]

end

theorem callsOf_renamed (t : Tree) : callsOf (t.renamed σ) = (callsOf t).map (Tree.renamed σ) := by
  rw [callsOf, callsOf, Tree.kind_renamed, generalCallNodes, generalCallNodes, outermost_renamed]
  split <;> rfl

variable {σ}

theorem mem_namesIn {t n : Tree} {x : String} (hn : n ∈ t.preorder) (hkind : n.kind = "Name")
    (hid : n.fieldText? "id" = some x) : x ∈ t.namesIn :=
  List.mem_filterMap.2 ⟨n, hn, by rw [if_pos hkind, hid]⟩

theorem namesIn_subset {t u : Tree} (h : ∀ n ∈ u.preorder, n ∈ t.preorder) {x : String} (hx : x ∈ u.namesIn) :
    x ∈ t.namesIn := by
  obtain ⟨n, hn, hid⟩ := List.mem_filterMap.1 hx
  exact List.mem_filterMap.2 ⟨n, h n hn, hid⟩

/-- Where new names stand for what the old ones stood for, nodes belong to the same elements. -/
theorem head_renamed {names others : Names} (t : Tree)
    (h : ∀ x ∈ t.namesIn, names.getD x x = others.getD (σ x) (σ x)) :
    head others (t.renamed σ) = head names t := by
  have hfield {t : Tree} (name : String) (h : ∀ x ∈ t.namesIn, names.getD x x = others.getD (σ x) (σ x)) :
      ∀ x ∈ (t.field name).namesIn, names.getD x x = others.getD (σ x) (σ x) :=
    fun x hx => h x (namesIn_subset (fun n hn => Tree.mem_preorder_of_field hn) hx)
  induction t using headInduction with
  | call t hkind ih =>
    rw [head_of_call others (by simpa using hkind), head_of_call names hkind,
      Tree.field_renamed_of_ne σ (by simp [hkind]), ih (hfield "func" h)]
  | subscript t hkind ih =>
    rw [head_of_subscript others (by simpa using hkind), head_of_subscript names hkind,
      Tree.field_renamed_of_ne σ (by simp [hkind]), ih (hfield "value" h)]
  | access t hkind ih =>
    rw [head_of_attribute others (by simpa using hkind), head_of_attribute names hkind,
      Tree.field_renamed_of_ne σ (by simp [hkind]), ih (hfield "value" h), Tree.fieldText?_renamed σ (by simp [hkind])]
  | name t hkind =>
    rw [head_of_name others (by simpa using hkind), head_of_name names hkind, Tree.fieldText?_id_renamed σ hkind]
    cases hid : t.fieldText? "id" with
    | none => rfl
    | some x =>
      have hself : t ∈ t.preorder := Tree.mem_preorder_self (Tree.isNode_of_kind (by simp [hkind]))
      exact (h x (mem_namesIn hself hkind hid)).symm
  | other t hkind =>
    cases t with
    | node kind span fields =>
      rw [head_of_other names rfl hkind, head_of_other others rfl (by simpa using hkind), Tree.kind_renamed]
    | list ts => rw [Tree.renamed, head, head]
    | lit v => rw [Tree.renamed, head, head]

/-! ## Uses and bindings -/

def Use.renamed (σ : String → String) (u : Use) : Use :=
  ⟨u.id, u.node.renamed σ, u.value.map (Tree.renamed σ), u.call.map (Tree.renamed σ)⟩

theorem Use.line_renamed (u : Use) : (u.renamed σ).line = u.line := by
  rw [Use.line, Use.line, Use.renamed, Tree.start?_renamed, Option.bind_map]
  simp only [Function.comp_def, Tree.start?_renamed]

theorem keywordName_renamed (kw : Tree) : keywordName (kw.renamed σ) = keywordName kw := by
  rw [keywordName, keywordName, Tree.fieldText?_renamed σ (by simp)]

theorem isDictCall_renamed (hσ : ∀ x, σ x = "dict" ↔ x = "dict") (f : Tree) :
    ((f.renamed σ).kind == "Name" && (f.renamed σ).fieldText? "id" == some "dict") =
      (f.kind == "Name" && f.fieldText? "id" == some "dict") := by
  rw [Tree.kind_renamed]
  by_cases hname : f.kind = "Name"
  · rw [Tree.fieldText?_id_renamed σ hname]
    cases f.fieldText? "id" with
    | none => rfl
    | some x =>
      rw [Bool.eq_iff_iff]
      simp [hname, hσ x]
  · have hfalse : (f.kind == "Name") = false := by simpa using hname
    rw [hfalse]
    rfl

theorem keyUses_renamed (hσ : ∀ x, σ x = "dict" ↔ x = "dict") (owner : String) (call t : Tree) :
    keyUses owner (call.renamed σ) (t.renamed σ) = (keyUses owner call t).map (Use.renamed σ) := by
  unfold keyUses
  rw [Tree.kind_renamed]
  by_cases hdict : t.kind = "Dict"
  · simp only [hdict, beq_self_eq_true, if_true]
    rw [Tree.fieldItems_renamed, Tree.fieldItems_renamed, List.zip_map, List.filterMap_map, List.map_filterMap]
    congr 1
    funext p
    obtain ⟨k, v⟩ := p
    simp only [Function.comp_apply, Prod.map_apply, Tree.literal?_renamed]
    cases k.literal? with
    | none => rfl
    | some l => cases l <;> rfl
  · by_cases hcall : t.kind = "Call"
    · have hfunc : (t.renamed σ).field "func" = (t.field "func").renamed σ :=
        Tree.field_renamed_of_ne σ (by simp [hcall])
      have hsame := isDictCall_renamed hσ (t.field "func")
      simp only [hcall, hfunc, beq_self_eq_true, Bool.true_and, hsame]
      split
      · contradiction
      · split
        · rw [Tree.fieldItems_renamed, List.map_map, List.map_map]
          refine List.map_congr_left fun kw _ => ?_
          simp [Use.renamed, keywordName_renamed, Tree.field_renamed_of_ne σ]
        · rfl
    · simp [hdict, hcall]

theorem usesOf_renamed (hσ : ∀ x, σ x = "dict" ↔ x = "dict") (id : String) (call : Tree) :
    usesOf id (call.renamed σ) = (usesOf id call).map (Use.renamed σ) := by
  unfold usesOf
  rw [Tree.kind_renamed]
  split
  · have hvalue (kw : Tree) : (kw.renamed σ).field "value" = (kw.field "value").renamed σ :=
      Tree.field_renamed_of_ne σ (by simp)
    simp only [Tree.fieldItems_renamed, List.map_cons, List.map_append, List.map_flatMap, List.flatMap_map,
      List.zipIdx_map, Prod.map_fst, Prod.map_snd, id_eq, keywordName_renamed, hvalue, keyUses_renamed hσ]
    rfl
  · rfl

theorem usesAt_renamed (hσ : ∀ x, σ x = "dict" ↔ x = "dict") {names others : Names} (call : Tree)
    (h : ∀ x ∈ call.namesIn, names.getD x x = others.getD (σ x) (σ x)) :
    usesAt others (call.renamed σ) = (usesAt names call).map (Use.renamed σ) := by
  rw [usesAt, usesAt, head_renamed call h, usesOf_renamed hσ]

theorem firstHead_renamed {names others : Names} (t : Tree)
    (h : ∀ x ∈ t.namesIn, names.getD x x = others.getD (σ x) (σ x)) :
    firstHead others (t.renamed σ) = firstHead names t := by
  unfold firstHead
  rw [generalCallNodes, outermost_renamed, List.head?_map, Option.map_map]
  cases hc : (generalCallNodes t).head? with
  | none =>
    rw [generalCallNodes] at hc
    rw [hc]
    rfl
  | some call =>
    have hcall : call ∈ outermost isGeneralCall t := List.mem_of_mem_head? hc
    rw [generalCallNodes] at hc
    rw [hc]
    refine head_renamed call fun x hx => h x (namesIn_subset (fun n hn => ?_) hx)
    exact mem_preorder_of_mem_outermost hcall hn

end

theorem targetNames_renamed (σ : String → String) (t : Tree) : targetNames (t.renamed σ) = (targetNames t).map σ := by
  have hcalls : (generalCallNodes (t.renamed σ)).isEmpty = (generalCallNodes t).isEmpty := by
    rw [generalCallNodes, generalCallNodes, outermost_renamed, List.isEmpty_map]
  unfold targetNames
  rw [Tree.kind_renamed, hcalls]
  split
  · rw [Tree.fieldItems_renamed, List.filterMap_map, List.map_filterMap]
    congr 1
    funext target
    rw [Function.comp_apply, Tree.kind_renamed]
    by_cases hname : target.kind = "Name"
    · rw [if_pos hname, if_pos hname, Tree.fieldText?_id_renamed σ hname]
    · rw [if_neg hname, if_neg hname]
      rfl
  · rfl

theorem bindingsWith_renamed {σ : String → String} (id : String) (t : Tree)
    (h : t.kind = "Import" ∨ t.kind = "ImportFrom" → ∀ x ∈ binds t, σ x = x) :
    bindingsWith id (t.renamed σ) = (bindingsWith id t).map fun e => (σ e.1, e.2) := by
  by_cases himp : t.kind = "Import" ∨ t.kind = "ImportFrom"
  · have htext (a : Tree) (name : String) (hname : name ≠ "id") : (a.renamed σ).fieldText? name = a.fieldText? name :=
      Tree.fieldText?_renamed σ (Or.inr hname)
    have hsame : bindingsWith id (t.renamed σ) = bindingsWith id t := by
      unfold bindingsWith
      simp only [Tree.kind_renamed, Tree.fieldItems_renamed, List.filterMap_map, List.map_map, Function.comp_def,
        htext _ "name" (by decide), htext _ "asname" (by decide), htext _ "module" (by decide)]
      rcases himp with himp | himp <;> simp [himp]
    have hfixed : (bindingsWith id t).map (fun e => (σ e.1, e.2)) = (bindingsWith id t).map fun e => e := by
      refine List.map_congr_left fun e he => ?_
      have hkey : e.1 ∈ binds t := bindingsWith_keys id t ▸ List.mem_map_of_mem he
      rw [h himp e.1 hkey]
    rw [hsame, hfixed, List.map_id']
  · have himp' : ¬ ((t.renamed σ).kind = "Import" ∨ (t.renamed σ).kind = "ImportFrom") := by
      rwa [Tree.kind_renamed]
    rw [bindingsWith_of_not_import id himp, bindingsWith_of_not_import id himp', targetNames_renamed, List.map_map,
      List.map_map]
    rfl

theorem binds_subset_namesIn {t : Tree} (h : ¬ (t.kind = "Import" ∨ t.kind = "ImportFrom")) {x : String}
    (hx : x ∈ binds t) : x ∈ t.namesIn := by
  rw [binds_of_not_import h] at hx
  obtain ⟨target, htarget, hname, hid⟩ := exists_of_mem_targetNames hx
  have hself : target ∈ target.preorder := Tree.mem_preorder_self (Tree.isNode_of_kind (by simp [hname]))
  exact mem_namesIn (Tree.mem_preorder_of_fieldItem htarget hself) hname hid

/-! ## Another name for an imported module -/

def importedIn (t : Tree) : List String :=
  (t.preorder.filter fun n => n.kind == "Import" || n.kind == "ImportFrom").flatMap binds

def replaced (x y z : String) : String := if z = x then y else z

theorem replaced_inj {x y a b : String} (ha : a ≠ y) (hb : b ≠ y) (h : replaced x y a = replaced x y b) : a = b := by
  unfold replaced at h
  split at h <;> split at h <;> simp_all

theorem replaced_eq_dict {x y : String} (hx : x ≠ "dict") (hy : y ≠ "dict") (z : String) :
    replaced x y z = "dict" ↔ z = "dict" := by
  unfold replaced
  split
  · simp_all
  · rfl

def Exchanged (x y : String) : Names → Names → Prop :=
  Corresponding (· ≠ y) (replaced x y) fun _ u v => u = v

theorem exchanged_bindAs (names : Names) (m : String) {x y : String} (hx : x ≠ "") (hy : y ≠ "") :
    Exchanged x y (bindAs names m x) (bindAs names m y) := by
  intro z hz
  unfold replaced
  split
  · next hzx => rw [hzx, getD_bindAs_self names m hx, getD_bindAs_self names m hy]
  · next hzx => rw [getD_bindAs_of_ne names m hzx, getD_bindAs_of_ne names m hz]

theorem follow_exchanged {x y : String} (hx : x ≠ "dict") (hy : y ≠ "dict") {t : Tree} (hname : y ∉ t.namesIn)
    (himp : t.kind = "Import" ∨ t.kind = "ImportFrom" → x ∉ binds t ∧ y ∉ binds t) {names others : Names}
    (h : Exchanged x y names others) :
    (follow false names t).2.map (fun u => (u.id, u.line)) =
        (follow false others (t.renamed (replaced x y))).2.map (fun u => (u.id, u.line)) ∧
      Exchanged x y (follow false names t).1 (follow false others (t.renamed (replaced x y))).1 := by
  have hnames : ∀ z ∈ t.namesIn, names.getD z z = others.getD (replaced x y z) (replaced x y z) :=
    fun z hz => h z fun hzy => hname (hzy ▸ hz)
  constructor
  · refine follow_uses_related _ _ (callsOf_renamed _ t) fun c hc => ?_
    have hcall : ∀ z ∈ c.namesIn, names.getD z z = others.getD (replaced x y z) (replaced x y z) := by
      refine fun z hz => hnames z (namesIn_subset (fun n hn => ?_) hz)
      exact mem_preorder_of_mem_outermost (mem_generalCallNodes hc) hn
    rw [usesAt_renamed (replaced_eq_dict hx hy) c hcall, List.map_map]
    refine List.map_congr_left fun u _ => ?_
    rw [Function.comp_apply, Use.line_renamed]
    rfl
  · have hfixed : t.kind = "Import" ∨ t.kind = "ImportFrom" → ∀ z ∈ binds t, replaced x y z = z := by
      intro hkind z hz
      exact if_neg fun hzx : z = x => (himp hkind).1 (hzx ▸ hz)
    have hybinds : y ∉ binds t := by
      by_cases hkind : t.kind = "Import" ∨ t.kind = "ImportFrom"
      · exact (himp hkind).2
      · exact fun hmem => hname (binds_subset_namesIn hkind hmem)
    refine Corresponding.follow h (fun a b ha hb => replaced_inj ha hb) (bindingsWith (firstHead names t) t) Prod.fst
      Prod.snd Prod.snd (by simp) ?_ fun e he => ⟨fun hkey => hybinds ?_, rfl⟩
    · rw [firstHead_renamed t hnames, bindingsWith_renamed _ t hfixed]
    · rw [← bindingsWith_keys (firstHead names t) t, ← hkey]
      exact List.mem_map_of_mem he

theorem renamed_moduleOf (σ : String → String) (body ignores : List Tree) :
    (moduleOf body ignores).renamed σ = moduleOf (body.map (Tree.renamed σ)) (ignores.map (Tree.renamed σ)) := by
  simp [moduleOf, Tree.renamed, Tree.renamedFields, Tree.renamedItems_eq_map]

/-- A module that begins with `import m as x` has the same uses, with the same ids on the same lines, when another name
is taken for `x`: one that is neither among its names nor bound by its other imports, which do not bind `x` either. -/
theorem alias_irrelevant (names : Names) (place itemPlace : Option Span) (m x y : String) (body ignores : List Tree)
    (hx : x ≠ "" ∧ x ≠ "dict") (hy : y ≠ "" ∧ y ≠ "dict")
    (hxi : x ∉ importedIn (moduleOf body ignores)) (hyi : y ∉ importedIn (moduleOf body ignores))
    (hyn : y ∉ (moduleOf body ignores).namesIn) :
    let other := Tree.renamed (replaced x y)
    (extract false names (moduleOf (importAs place itemPlace m x :: body) ignores)).2.map
        (fun u => (u.id, u.line)) =
      (extract false names (moduleOf (importAs place itemPlace m y :: body.map other) (ignores.map other))).2.map
        (fun u => (u.id, u.line)) := by
  intro other
  rw [extract_importing, extract_importing, ← renamed_moduleOf, outermost_renamed]
  refine followAll_related (R := Exchanged x y) _ other _ (fun t ht ns os h => ?_)
    (exchanged_bindAs names m hx.1 hy.1)
  have hbelow {n : Tree} (hn : n ∈ t.preorder) : n ∈ (moduleOf body ignores).preorder :=
    mem_preorder_of_mem_outermost ht hn
  refine follow_exchanged hx.2 hy.2 (fun hyt => hyn (namesIn_subset (fun n hn => hbelow hn) hyt)) (fun hkind => ?_) h
  -- what the imports among the statements bind is bound by the imports of the module
  have hself : t ∈ t.preorder := Tree.mem_preorder_self (Tree.isNode_of_kind (by rcases hkind with h | h <;> simp [h]))
  have himported (z : String) (hz : z ∈ binds t) : z ∈ importedIn (moduleOf body ignores) :=
    List.mem_flatMap.2 ⟨t, List.mem_filter.2 ⟨hbelow hself, by simpa using hkind⟩, hz⟩
  exact ⟨fun hz => hxi (himported x hz), fun hz => hyi (himported y hz)⟩

/-- The statements `p = p.gca()` and `p.plot(1)` behind `import matplotlib.pyplot as p`, on one line. -/
def rebound : List Tree :=
  let p (context : String) (start : Int) : Tree := Extractor.nameNode "p" context start (start + 1)
  let gca : Tree := .node "Attribute" (Extractor.range 35 40) [
    ("value", p "Load" 35), ("attr", .lit (.text "gca")), ("ctx", .node "Load" none [])]
  let plot : Tree := .node "Attribute" (Extractor.range 44 50) [
    ("value", p "Load" 44), ("attr", .lit (.text "plot")), ("ctx", .node "Load" none [])]
  let one : Tree := .node "Constant" (Extractor.range 51 52) [("value", .lit (.int 1)), ("kind", .lit .none)]
  [.node "Assign" (Extractor.range 31 42) [
    ("targets", .list [p "Store" 31]),
    ("value", .node "Call" (Extractor.range 35 42) [("func", gca), ("args", .list []), ("keywords", .list [])]),
    ("type_comment", .lit .none)],
   .node "Expr" (Extractor.range 44 53) [
    ("value", .node "Call" (Extractor.range 44 53) [("func", plot), ("args", .list [one]), ("keywords", .list [])])]]

theorem alias_irrelevant_rebound :
    let other := Tree.renamed (replaced "p" "q")
    "p" ∉ importedIn (moduleOf rebound []) ∧ "q" ∉ importedIn (moduleOf rebound []) ∧
    "q" ∉ (moduleOf rebound []).namesIn ∧
    (extract false .empty (moduleOf (importAs none none "matplotlib.pyplot" "q" :: rebound.map other) [])).2.map
      (fun u => (u.id, u.line)) =
    [("matplotlib.pyplot.gca", 1), ("matplotlib.pyplot.gca.plot", 1), ("matplotlib.pyplot.gca.plot@0", 1)] := by
  intro other
  have hp : "p" ∉ importedIn (moduleOf rebound []) := by decide
  have hq : "q" ∉ importedIn (moduleOf rebound []) := by decide
  have hname : "q" ∉ (moduleOf rebound []).namesIn := by decide
  have hsame := alias_irrelevant .empty none none "matplotlib.pyplot" "p" "q" rebound [] (by decide) (by decide) hp hq
    hname
  refine ⟨hp, hq, hname, hsame.symm.trans ?_⟩
  decide

end Elements

end PlotAdvisor
