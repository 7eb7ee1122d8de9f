import PlotAdvisor.Proofs.Replay

/-! Which syntax tree comes back when a program is grown again. A field below which nothing was grown is never set,
and a field that was never set is filled in by its name alone: with an empty list for the names of `listFields`,
with nothing for all others. -/
set_option autoImplicit false

namespace PlotAdvisor.Program

namespace Tree

def isEmpty : Tree → Bool
  | .list [] => true
  | .lit .none => true
  | _ => false

mutual

def rewritten (value : Literal → Literal) (empty : String → Tree → Tree) : Tree → Tree
  | .node kind _ fields => .node kind none (rewrittenFields value empty fields)
  | .list ts => .list (rewrittenItems value empty ts)
  | .lit v => .lit (value v)

def rewrittenFields (value : Literal → Literal) (empty : String → Tree → Tree) :
    List (String × Tree) → List (String × Tree)
  | [] => []
  | (name, t) :: rest =>
    (name, if t.isEmpty then empty name t else t.rewritten value empty) :: rewrittenFields value empty rest

def rewrittenItems (value : Literal → Literal) (empty : String → Tree → Tree) : List Tree → List Tree
  | [] => []
  | t :: ts => t.rewritten value empty :: rewrittenItems value empty ts

end

def unplaced (t : Tree) : Tree := t.rewritten id fun _ t => t

def restored (t : Tree) : Tree := t.rewritten Literal.simple fun name _ => Part.unsetField name

section Rewritten

variable (value : Literal → Literal) (empty : String → Tree → Tree)

def fieldRewritten (f : String × Tree) : Tree :=
  if f.2.isEmpty then empty f.1 f.2 else f.2.rewritten value empty

theorem rewrittenFields_eq_map (fs : List (String × Tree)) :
    rewrittenFields value empty fs = fs.map fun f => (f.1, fieldRewritten value empty f) := by
  induction fs with
  | nil => rfl
  | cons f fs ih =>
    rw [rewrittenFields, ih, List.map_cons]
    rfl

theorem rewrittenItems_eq_map (ts : List Tree) :
    rewrittenItems value empty ts = ts.map (rewritten value empty) := by
  induction ts with
  | nil => rfl
  | cons t ts ih => rw [rewrittenItems, ih, List.map_cons]

end Rewritten

def Complete (t : Tree) : Prop := ∀ n ∈ t.preorder, n.fields.map Prod.fst = fieldNames n.kind

instance (t : Tree) : Decidable t.Complete :=
  inferInstanceAs (Decidable (∀ n ∈ t.preorder, n.fields.map Prod.fst = fieldNames n.kind))

theorem Complete.children {t c : Tree} (h : t.Complete) (hc : c ∈ t.children) : c.Complete :=
  fun n hn => h n (mem_preorder_of_children hc hn)

end Tree

/-! ## Names of fields -/

theorem fieldTable_sound : ∀ e ∈ fieldTable, e.2.Nodup ∧ "" ∉ e.2 := by decide

theorem fieldNames_sound (kind : String) : (fieldNames kind).Nodup ∧ "" ∉ fieldNames kind := by
  rw [fieldNames]
  cases h : fieldTable.lookup kind with
  | none => simp
  | some names =>
    obtain ⟨before, after, he, -⟩ := List.lookup_eq_some_iff.1 h
    exact fieldTable_sound (kind, names) (by simp [he])

theorem Tree.Complete.named {t : Tree} (h : t.Complete) : t.Named := by
  intro n hn f hf hempty
  have hmem : f.1 ∈ fieldNames n.kind := h n hn ▸ List.mem_map_of_mem hf
  exact (fieldNames_sound n.kind).2 (hempty ▸ hmem)

/-! ## The tree that comes back -/

/-- Of fields that are set at most once each, a field has what it was set to. -/
theorem lookup_reverse_filterMap {fs : List (String × Tree)} (g : String × Tree → Option Tree)
    (hnd : (fs.map Prod.fst).Nodup) {f : String × Tree} (hf : f ∈ fs) :
    (fs.filterMap fun f => (g f).map (f.1, ·)).reverse.lookup f.1 = g f := by
  induction fs with
  | nil => simp at hf
  | cons e fs ih =>
    rw [List.map_cons, List.nodup_cons] at hnd
    have hcons : ((e :: fs).filterMap fun f => (g f).map (f.1, ·)).reverse =
        (fs.filterMap fun f => (g f).map (f.1, ·)).reverse ++ ((g e).map (e.1, ·)).toList := by
      cases he : g e <;> simp [he]
    rw [hcons, List.lookup_append]
    rcases List.mem_cons.1 hf with rfl | hf
    · have hnone : (fs.filterMap fun f => (g f).map (f.1, ·)).reverse.lookup f.1 = none := by
        refine List.lookup_eq_none_iff.2 fun b hb => ?_
        obtain ⟨d, hd, hb⟩ := List.mem_filterMap.1 (List.mem_reverse.1 hb)
        obtain ⟨v, -, rfl⟩ := Option.map_eq_some_iff.1 hb
        have hne : f.1 ≠ d.1 := fun h => hnd.1 (h ▸ List.mem_map_of_mem hd)
        simpa using hne
      rw [hnone]
      cases g f <;> simp
    · have hne : f.1 ≠ e.1 := fun h => hnd.1 (h ▸ List.mem_map_of_mem hf)
      have hbeq : (f.1 == e.1) = false := by simpa using hne
      rw [ih hnd.2 hf]
      cases g f with
      | some v => rfl
      | none => cases g e <;> simp [List.lookup_cons, hbeq]

namespace Part

/-- What a field is set to. -/
def kept (f : String × Tree) : Option Tree := if f.2.isEmpty then none else some f.2.restored

theorem settings_append (ps qs : List Part) : settings (ps ++ qs) = settings ps ++ settings qs := by
  induction ps with
  | nil => rfl
  | cons p ps ih => cases p <;> simp [settings, ih]

theorem toTrees_regrown {ts : List Tree} {ps : List Part} (h : ofItems ts = .ok ps)
    (hts : ∀ t ∈ ts, ∀ p, ofTree t = .ok p → p.regrown.toTree = t.restored) :
    toTrees (ps.map regrown) = ts.map Tree.restored := by
  induction ts generalizing ps with
  | nil =>
    obtain rfl := Except.ok.inj h
    rfl
  | cons t ts ih =>
    obtain ⟨p, others, hp, hothers, rfl⟩ := ofItems_cons h
    rw [List.map_cons, toTrees, List.map_cons, hts t List.mem_cons_self p hp,
      ih hothers fun u hu => hts u (List.mem_cons_of_mem t hu)]

theorem settings_of_field {name : String} {v : Tree} {own : List Part} (h : OfField name v own)
    (hone : ∀ p, ofTree v = .ok p → p.regrown.toTree = v.restored)
    (hlist : ∀ ts, v = .list ts → ∀ t ∈ ts, ∀ p, ofTree t = .ok p → p.regrown.toTree = t.restored) :
    settings (own.map regrown) = ((kept (name, v)).map (name, ·)).toList := by
  cases h with
  | none => rfl
  | value v hv =>
    cases v with
    | none => exact absurd rfl hv
    | _ => rfl
  | list ts items hitems =>
    have hall := toTrees_regrown hitems (hlist ts rfl)
    cases ts with
    | nil =>
      obtain rfl := Except.ok.inj hitems
      rfl
    | cons t ts =>
      obtain ⟨p, others, -, -, rfl⟩ := ofItems_cons hitems
      have hkept : kept (name, .list (t :: ts)) = some (.list ((t :: ts).map Tree.restored)) := by
        rw [kept, if_neg (by simp [Tree.isEmpty]), Tree.restored, Tree.rewritten, Tree.rewrittenItems_eq_map]
        rfl
      rw [hkept, ← hall, List.map_singleton, regrown, if_neg (by simp), regrownAll_eq_map]
      rfl
  | node v child hchild =>
    have hkept : kept (name, v) = some v.restored := by
      rw [kept, if_neg]
      obtain ⟨kind, span, fields, ps, rfl, -, -⟩ := ofTree_eq_ok hchild
      simp [Tree.isEmpty]
    rw [hkept, ← hone child hchild]
    rfl

theorem settings_regrown {fs : List (String × Tree)} {ps : List Part} (h : ofFields fs = .ok ps)
    (hown : ∀ f ∈ fs, ∀ own, OfField f.1 f.2 own →
      settings (own.map regrown) = ((kept f).map (f.1, ·)).toList) :
    settings (ps.map regrown) = fs.filterMap fun f => (kept f).map (f.1, ·) := by
  induction fs generalizing ps with
  | nil =>
    obtain rfl := Except.ok.inj h
    rfl
  | cons f fs ih =>
    obtain ⟨own, others, hf, hothers, rfl⟩ := ofFields_cons h
    have hself := hown f List.mem_cons_self own hf
    have hrest := ih hothers fun g hg => hown g (List.mem_cons_of_mem f hg)
    rw [List.map_append, settings_append, hself, hrest]
    cases hk : kept f <;> simp [hk]

theorem toTree_regrown {t : Tree} {p : Part} (hc : t.Complete) (h : ofTree t = .ok p) :
    p.regrown.toTree = t.restored := by
  induction t using Tree.inductionOn generalizing p with
  | h t ih =>
    obtain ⟨kind, span, fields, ps, rfl, hps, rfl⟩ := ofTree_eq_ok h
    have hnames : fields.map Prod.fst = fieldNames kind := hc _ List.mem_cons_self
    have hbelow (c : Tree) (hm : c ∈ (Tree.node kind span fields).children) (q : Part) (hq : ofTree c = .ok q) :
        q.regrown.toTree = c.restored := ih c hm (hc.children hm) hq
    have hset : settings (ps.map regrown) = fields.filterMap fun f => (kept f).map (f.1, ·) := by
      refine settings_regrown hps fun f hf own hown => settings_of_field hown ?_ ?_
      · intro q hq
        exact hbelow f.2 (Tree.mem_children_of_field hf (isNode_of_ofTree hq)) q hq
      · intro ts hts t ht q hq
        have hf : (f.1, Tree.list ts) ∈ fields := hts ▸ hf
        exact hbelow t (Tree.mem_children_of_item hf ht (isNode_of_ofTree hq)) q hq
    rw [regrown, regrownAll_eq_map, toTree, assemble, hset, ← hnames, Tree.restored, Tree.rewritten,
      Tree.rewrittenFields_eq_map, List.map_map]
    congr 1
    refine List.map_congr_left fun f hf => ?_
    rw [Function.comp_apply, lookup_reverse_filterMap kept (hnames ▸ (fieldNames_sound kind).1) hf, kept,
      Tree.fieldRewritten]
    split <;> rfl

end Part

/-! ## When nothing is lost -/

def comesBack (f : String × Tree) : Bool :=
  match f.2 with
  | .list [] => Part.listFields.contains f.1
  | .lit .none => !Part.listFields.contains f.1
  | .lit v => v.simple == v
  | _ => true

theorem unsetField_eq_list_iff (name : String) :
    Part.unsetField name = .list [] ↔ comesBack (name, .list []) = true := by
  rw [Part.unsetField]
  by_cases h : Part.listFields.contains name = true
  · simp only [h, if_true, comesBack]
  · simp only [h, comesBack]
    simp

theorem unsetField_eq_none_iff (name : String) :
    Part.unsetField name = .lit .none ↔ comesBack (name, .lit .none) = true := by
  rw [Part.unsetField]
  by_cases h : Part.listFields.contains name = true
  · simp only [h, if_true, comesBack]
    simp
  · simp only [h, comesBack]
    simp

namespace Tree

theorem map_restored_eq_iff (ts : List Tree) :
    (Tree.list ts).restored = (Tree.list ts).unplaced ↔ ∀ t ∈ ts, t.restored = t.unplaced := by
  rw [restored, unplaced, rewritten, rewritten, rewrittenItems_eq_map, rewrittenItems_eq_map, list.injEq]
  exact List.map_inj_left

theorem node_restored_eq_iff (kind : String) (span : Option Span) (fields : List (String × Tree)) :
    (Tree.node kind span fields).restored = (Tree.node kind span fields).unplaced ↔
      ∀ f ∈ fields, fieldRewritten Literal.simple (fun name _ => Part.unsetField name) f =
        fieldRewritten id (fun _ t => t) f := by
  rw [restored, unplaced, rewritten, rewritten, rewrittenFields_eq_map, rewrittenFields_eq_map, node.injEq]
  simp only [true_and]
  rw [List.map_inj_left]
  simp only [Prod.mk.injEq, true_and]

/-- Every field of every node comes back. -/
def Recoverable (t : Tree) : Prop := ∀ n ∈ t.preorder, ∀ f ∈ n.fields, comesBack f = true

theorem recoverable_list (ts : List Tree) : (Tree.list ts).Recoverable ↔ ∀ t ∈ ts, t.Recoverable := by
  simp only [Recoverable, mem_preorder_list]
  constructor
  · intro hall t ht n hn
    exact hall n ⟨t, ht, hn⟩
  · rintro hall n ⟨t, ht, hn⟩
    exact hall t ht n hn

theorem recoverable_node (kind : String) (span : Option Span) (fields : List (String × Tree)) :
    (Tree.node kind span fields).Recoverable ↔ ∀ f ∈ fields, comesBack f = true ∧ f.2.Recoverable := by
  simp only [Recoverable, mem_preorder_node]
  constructor
  · intro hall f hf
    exact ⟨hall _ (Or.inl rfl) f hf, fun n hn => hall n (Or.inr ⟨f, hf, hn⟩)⟩
  · rintro hall n (rfl | ⟨f, hf, hn⟩) g hg
    · exact (hall g hg).1
    · exact (hall f hf).2 n hn g hg

theorem recoverable_lit (v : Literal) : (Tree.lit v).Recoverable := by
  simp [Recoverable, preorder]

theorem field_restored_iff {name : String} {v : Tree} {own : List Part} (h : Part.OfField name v own)
    (hone : ∀ p, Part.ofTree v = .ok p → (v.restored = v.unplaced ↔ v.Recoverable))
    (hlist : ∀ ts, v = .list ts → ∀ t ∈ ts, ∀ p, Part.ofTree t = .ok p →
      (t.restored = t.unplaced ↔ t.Recoverable)) :
    fieldRewritten Literal.simple (fun name _ => Part.unsetField name) (name, v) =
        fieldRewritten id (fun _ t => t) (name, v) ↔
      comesBack (name, v) = true ∧ v.Recoverable := by
  cases h with
  | none => exact (unsetField_eq_none_iff name).trans (and_iff_left (recoverable_lit _)).symm
  | value v hv =>
    have hfull : (Tree.lit v).isEmpty = false := by cases v <;> simp_all [isEmpty]
    have hback : comesBack (name, .lit v) = (v.simple == v) := by cases v <;> simp_all [comesBack]
    simp [fieldRewritten, hfull, hback, rewritten, recoverable_lit]
  | list ts items hitems =>
    cases ts with
    | nil =>
      refine (unsetField_eq_list_iff name).trans (and_iff_left ?_).symm
      simp [recoverable_list]
    | cons t ts =>
      have hitem (u : Tree) (hu : u ∈ t :: ts) : u.restored = u.unplaced ↔ u.Recoverable := by
        obtain ⟨q, hq⟩ := Part.ofTree_of_mem_items hitems hu
        exact hlist (t :: ts) rfl u hu q hq
      refine (map_restored_eq_iff (t :: ts)).trans ((forall₂_congr hitem).trans ?_)
      rw [← recoverable_list]
      exact (and_iff_right rfl).symm
  | node v child hchild =>
    have hself := hone child hchild
    obtain ⟨k, s, fs, qs, rfl, -, -⟩ := Part.ofTree_eq_ok hchild
    exact hself.trans (and_iff_right rfl).symm

theorem restored_eq_unplaced_iff {t : Tree} {p : Part} (h : Part.ofTree t = .ok p) :
    t.restored = t.unplaced ↔ t.Recoverable := by
  induction t using Tree.inductionOn generalizing p with
  | h t ih =>
    obtain ⟨kind, span, fields, ps, rfl, hps, rfl⟩ := Part.ofTree_eq_ok h
    rw [node_restored_eq_iff, recoverable_node]
    refine forall₂_congr fun f hf => ?_
    obtain ⟨own, hown⟩ := Part.ofField_of_mem hps hf
    refine field_restored_iff hown (fun q hq => ?_) fun ts hts u hu q hq => ?_
    · exact ih f.2 (mem_children_of_field hf (Part.isNode_of_ofTree hq)) hq
    · have hf : (f.1, Tree.list ts) ∈ fields := hts ▸ hf
      exact ih u (mem_children_of_item hf hu (Part.isNode_of_ofTree hq)) hq

end Tree

/-- A program that is grown again from the answers of its partial trees comes back with its places gone, its texts
outside ASCII replaced, and its empty fields filled in by name. So it comes back as it was exactly when each field
that holds an empty list is one of `listFields`, each field that holds nothing is not, and all texts are ASCII. -/
theorem recovered_iff {span : Option Span} {fields : List (String × Tree)} {p : Part} (m : Memory) (limit : Nat)
    (hc : (Tree.node "Module" span fields).Complete) (hp : Part.ofTree (.node "Module" span fields) = .ok p)
    (hd : p.depth ≤ limit) :
    let t := Tree.node "Module" span fields
    ∃ grown values, growWithin limit m scripted (answersOf (p.partialTrees m)) = (.ok grown, values, []) ∧
      grown.toTree = t.restored ∧
      (grown.toTree = t.unplaced ↔ ∀ n ∈ t.preorder, ∀ f ∈ n.fields, comesBack f = true) := by
  intro t
  obtain ⟨values, h⟩ := growWithin_scripted m hc.named hp hd
  obtain ⟨asked, hnoted⟩ := growWithin_noted limit m scripted (answersOf (p.partialTrees m))
  have hback : p.regrown.toTree = t.restored := Part.toTree_regrown hc hp
  refine ⟨p.regrown, values, ?_, hback, ?_⟩
  · rw [h] at hnoted
    simp only [Prod.mk.injEq] at hnoted
    obtain ⟨hgrown, hvalues, -, hrest⟩ := hnoted
    exact Prod.ext hgrown.symm (Prod.ext hvalues.symm hrest.symm)
  · rw [hback]
    exact Tree.restored_eq_unplaced_iff hp

/-- The program `f()` with a remark that types are to be ignored. -/
def ignoring : Tree :=
  let call : Tree := .node "Call" none [
    ("func", .node "Name" none [("id", .lit (.text "f")), ("ctx", .node "Load" none [])]),
    ("args", .list []), ("keywords", .list [])]
  .node "Module" none [
    ("body", .list [.node "Expr" none [("value", call)]]),
    ("type_ignores", .list [.node "TypeIgnore" none [("lineno", .lit (.int 1)), ("tag", .lit (.text ""))]])]

theorem recovered_iff_ignoring :
    ignoring.Complete ∧ ∃ p, Part.ofTree ignoring = .ok p ∧ p.depth ≤ depthLimit ∧
      ∃ grown values,
        growWithin depthLimit ⟨1, 2⟩ scripted (answersOf (p.partialTrees ⟨1, 2⟩)) = (.ok grown, values, []) ∧
        grown.toTree = ignoring.unplaced := by
  have hc : ignoring.Complete := by decide
  obtain ⟨grown, values, h, -, hback⟩ := recovered_iff ⟨1, 2⟩ depthLimit hc rfl (by decide)
  exact ⟨hc, _, rfl, by decide, grown, values, h, hback.2 (by decide)⟩

/-- The lists that `if a: b` leaves empty come back as nothing. -/
theorem empty_lists_lost :
    branch.Complete ∧ ∃ p grown values, Part.ofTree branch = .ok p ∧
      growWithin depthLimit ⟨1, 2⟩ scripted (answersOf (p.partialTrees ⟨1, 2⟩)) = (.ok grown, values, []) ∧
      branch.field "type_ignores" = .list [] ∧ grown.toTree.field "type_ignores" = .lit .none ∧
      (branch.fieldItems "body").map (·.field "orelse") = [.list []] ∧
      (grown.toTree.fieldItems "body").map (·.field "orelse") = [.lit .none] ∧
      grown.toTree ≠ branch.unplaced := by
  refine ⟨by decide, _, _, _, rfl, rfl, rfl, rfl, rfl, rfl, fun hback => ?_⟩
  have hfield : Tree.lit .none = .list [] := congrArg (fun t => t.field "type_ignores") hback
  exact Tree.noConfusion hfield

end PlotAdvisor.Program
