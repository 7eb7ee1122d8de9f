import Mathlib.Data.Multiset.OrderedMonoid
import Mathlib.Data.String.Basic
import PlotAdvisor.Proofs.Heads
import PlotAdvisor.Proofs.Markable

/-! The names of the keywords of a call. Marking goes down a tree and keeps for every node some of the tokens that are kept
for the node that it is in. A keyword has the range of a name among those kept for its call: the last that starts before
its value.

Nodes and ranges are brought together by number. The nodes of a visit have the numbers that they have in preorder, no
two of them the same, and so have the ranges that marking finds; putting these in does not change the numbers. -/
set_option autoImplicit false

namespace PlotAdvisor.Program

namespace Visit

/-! ## Numbers -/

mutual

/-- The numbers of the nodes of a visit and of the keywords of its calls. -/
def numbers : Visit → Multiset Nat
  | .missing => 0
  | .node site children => site.number ::ₘ (↑(site.keywords.map KeywordSite.number) + numbersIn children)

def numbersIn : List Visit → Multiset Nat
  | [] => 0
  | v :: vs => numbers v + numbersIn vs

end

@[simp] theorem numbersIn_append (vs ws : List Visit) : numbersIn (vs ++ ws) = numbersIn vs + numbersIn ws := by
  induction vs with
  | nil => rw [List.nil_append, numbersIn, zero_add]
  | cons v vs ih => rw [List.cons_append, numbersIn, numbersIn, ih, add_assoc]

theorem numbersIn_perm {vs ws : List Visit} (h : vs.Perm ws) : numbersIn vs = numbersIn ws := by
  induction h with
  | nil => rfl
  | cons v _ ih => rw [numbersIn, numbersIn, ih]
  | swap v w vs => rw [numbersIn, numbersIn, numbersIn, numbersIn, add_left_comm]
  | trans _ _ ih₁ ih₂ => exact ih₁.trans ih₂

theorem numbersIn_mapM_settle {lines : List (List Char)} {vs ws : List Visit} {strings rest : List Token}
    (hvs : ∀ v ∈ vs, ∀ w strings rest, (v.settle lines).run strings = .ok (w, rest) → w.numbers = v.numbers)
    (h : (vs.mapM (settle lines)).run strings = .ok (ws, rest)) : numbersIn ws = numbersIn vs := by
  induction vs generalizing ws strings rest with
  | nil =>
    obtain ⟨rfl, -⟩ := Prod.mk.inj (Except.ok.inj h)
    rfl
  | cons v vs ih =>
    rw [List.forall_mem_cons] at hvs
    rw [List.mapM_cons, StateT.run_bind] at h
    obtain ⟨⟨u, middle⟩, hu, h⟩ := bind_eq_ok h
    rw [StateT.run_bind] at h
    obtain ⟨⟨us, last⟩, hus, h⟩ := bind_eq_ok h
    obtain ⟨rfl, -⟩ := Prod.mk.inj (Except.ok.inj h)
    rw [numbersIn, numbersIn, hvs.1 u _ _ hu, ih hvs.2 hus]

theorem numbers_settle {lines : List (List Char)} {v w : Visit} {strings rest : List Token}
    (h : (v.settle lines).run strings = .ok (w, rest)) : w.numbers = v.numbers := by
  induction v using induction generalizing w strings rest with
  | missing => simp [settle, throw, throwThe, MonadExceptOf.throw, StateT.lift, StateT.run] at h
  | node site children ih =>
    obtain ⟨start, settled, done, middle, rfl, hperm, hdone⟩ := settle_node_run h
    have horder := inOrder_perm site.kind start? children
    have hsettled := numbersIn_mapM_settle (fun v hv w _ _ hw => ih v (horder.mem_iff.1 hv) hw) hdone
    rw [numbers, numbers, numbersIn_perm hperm, hsettled, numbersIn_perm horder]

end Visit

/-! ## Places in the tree -/

/-- A keyword of a call has the name of its node, and its value is the first node below it. -/
structure KeywordSite.Of (kw : KeywordSite) (k : Tree) : Prop where
  name : kw.name = k.fieldText? "arg"
  value : ∀ j ∈ kw.valueNumber, j = kw.number + 1 ∧ ∃ v, k.preorder[1]? = some v ∧ v.isNode = true

/-- A visited node stands at its number among the nodes of a tree. If it is a call, every keyword that it has when ranges
are put in is one of its keywords, with the ranges put in from its number on. -/
def Site.In (site : Site) (nodes : List (Tree × Nat)) : Prop :=
  ∃ t, (t, site.number) ∈ nodes ∧ (t.kind = "Call" → ∀ ranges, ∀ k ∈ (respan ranges site.number t).1.fieldItems "keywords",
    k.kind = "keyword" → ∃ kw ∈ site.keywords, ∃ u, kw.Of u ∧ k = (respan ranges kw.number u).1)

theorem Site.In.mono {site : Site} {nodes more : List (Tree × Nat)} (h : site.In nodes) (hmore : nodes ⊆ more) :
    site.In more := by
  obtain ⟨t, ht, hcall⟩ := h
  exact ⟨t, hmore ht, hcall⟩

/-- Nodes with their visits, as they are numbered from `n` on in preorder. -/
structure NumberedFrom (n : Nat) (nodes : List Tree) (ps : List (Tree × Visit)) (next : Nat) : Prop where
  next_eq : next = n + nodes.length
  numbers_le : Visit.numbersIn (ps.map Prod.snd) ≤ ↑(List.range' n nodes.length)
  placed : ∀ p ∈ ps, p.1.isNode = true ∧ p.2 ≠ .missing ∧ (p.1, p.2.number) ∈ nodes.zipIdx n
  first : ∀ p ∈ ps, p.1.kind = "keyword" → ∀ u ∈ p.2.children.head?,
    u.number = p.2.number + 1 ∧ ∃ v, p.1.preorder[1]? = some v ∧ v.isNode = true
  sites : ∀ p ∈ ps, ∀ m ∈ p.2.nodes, m.1.In (nodes.zipIdx n)
  head : ∀ p ∈ ps.head?, p.2.number = n
  none : ps = [] → nodes = []

namespace NumberedFrom

theorem nil (n : Nat) : NumberedFrom n [] [] n := by
  refine ⟨rfl, ?_, ?_, ?_, ?_, ?_, fun _ => rfl⟩ <;> simp [Visit.numbersIn]

theorem append {n m next : Nat} {us ws : List Tree} {ps qs : List (Tree × Visit)} (hps : NumberedFrom n us ps m)
    (hqs : NumberedFrom m ws qs next) : NumberedFrom n (us ++ ws) (ps ++ qs) next := by
  obtain rfl := hps.next_eq
  have hzip : (us ++ ws).zipIdx n = us.zipIdx n ++ ws.zipIdx (n + us.length) := List.zipIdx_append
  have hrange : List.range' n (us ++ ws).length = List.range' n us.length ++ List.range' (n + us.length) ws.length := by
    rw [List.length_append, ← List.range'_append_1]
  refine ⟨?_, ?_, ?_, ?_, ?_, ?_, ?_⟩
  · rw [hqs.next_eq, List.length_append, Nat.add_assoc]
  · rw [List.map_append, Visit.numbersIn_append, hrange, ← Multiset.coe_add]
    exact add_le_add hps.numbers_le hqs.numbers_le
  · intro p hp
    rw [hzip, List.mem_append]
    rcases List.mem_append.1 hp with hp | hp
    · exact (hps.placed p hp).imp_right (.imp_right .inl)
    · exact (hqs.placed p hp).imp_right (.imp_right .inr)
  · intro p hp
    exact (List.mem_append.1 hp).elim (hps.first p) (hqs.first p)
  · intro p hp node hnode
    rw [hzip]
    rcases List.mem_append.1 hp with hp | hp
    · exact (hps.sites p hp node hnode).mono (List.subset_append_left _ _)
    · exact (hqs.sites p hp node hnode).mono (List.subset_append_right _ _)
  · intro p hp
    cases ps with
    | nil =>
      rw [hps.none rfl] at hqs
      exact hqs.head p hp
    | cons q ps => exact hps.head p hp
  · intro hnone
    rw [List.append_eq_nil_iff] at hnone
    rw [hps.none hnone.1, hqs.none hnone.2, List.append_nil]

end NumberedFrom

/-! ## Visits of a tree -/

theorem Visit.number_children_le {v : Visit} (h : v ≠ .missing) : v.number ::ₘ numbersIn v.children ≤ v.numbers := by
  cases v with
  | missing => exact absurd rfl h
  | node site children =>
    rw [number, Visit.children, numbers]
    exact (Multiset.cons_le_cons_iff _).2 (Multiset.le_add_left _ _)

theorem Visit.mem_nodes_of_child {u v : Visit} {m : Site × List Visit} (hu : u ∈ v.children) (hm : m ∈ u.nodes) :
    m ∈ v.nodes := by
  cases v with
  | missing => simp [Visit.children] at hu
  | node site children =>
    rw [nodes]
    exact List.mem_cons_of_mem _ (mem_nodesIn.2 ⟨u, hu, hm⟩)

theorem visitsOfFields_cons (n : Nat) (name : String) (t : Tree) (rest : List (String × Tree)) :
    visitsOfFields n ((name, t) :: rest) = ((name, (visitsOf n t).1) :: (visitsOfFields (visitsOf n t).2 rest).1,
      (visitsOfFields (visitsOf n t).2 rest).2) := by
  rw [visitsOfFields]

theorem visitsOfItems_cons (n : Nat) (t : Tree) (rest : List Tree) :
    visitsOfItems n (t :: rest) = ((visitsOf n t).1 ++ (visitsOfItems (visitsOf n t).2 rest).1,
      (visitsOfItems (visitsOf n t).2 rest).2) := by
  rw [visitsOfItems]

theorem visitsOf_node (n : Nat) (kind : String) (span : Option Span) (fields : List (String × Tree)) :
    visitsOf n (.node kind span fields) =
      let below := (visitsOfFields (n + 1) fields).1
      let t := Tree.node kind span fields
      ([(t, .node (below.site n t) (below.children t))], (visitsOfFields (n + 1) fields).2) := by
  rw [visitsOf]

theorem FieldVisits.named_cons (f : String × List (Tree × Visit)) (below : FieldVisits) (name : String) :
    FieldVisits.named (f :: below) name = (if f.1 = name then f.2 else []) ++ below.named name := by
  by_cases h : f.1 = name <;> simp [FieldVisits.named, h]

theorem respan_node (ranges : List (Nat × Span)) (n : Nat) (kind : String) (span : Option Span)
    (fields : List (String × Tree)) : respan ranges n (.node kind span fields) =
      (.node kind ((ranges.lookup n).or span) (respanFields ranges (n + 1) fields).1,
        (respanFields ranges (n + 1) fields).2) := by
  rw [respan]

theorem respanFields_cons (ranges : List (Nat × Span)) (n : Nat) (name : String) (t : Tree)
    (rest : List (String × Tree)) : respanFields ranges n ((name, t) :: rest) =
      ((name, (respan ranges n t).1) :: (respanFields ranges (respan ranges n t).2 rest).1,
        (respanFields ranges (respan ranges n t).2 rest).2) := by
  rw [respanFields]

theorem respanItems_cons (ranges : List (Nat × Span)) (n : Nat) (t : Tree) (rest : List Tree) :
    respanItems ranges n (t :: rest) =
      ((respan ranges n t).1 :: (respanItems ranges (respan ranges n t).2 rest).1,
        (respanItems ranges (respan ranges n t).2 rest).2) := by
  rw [respanItems]

theorem kind_respan (ranges : List (Nat × Span)) (n : Nat) (t : Tree) : (respan ranges n t).1.kind = t.kind := by
  cases t with
  | node kind span fields => rw [respan_node, Tree.kind, Tree.kind]
  | list ts => simp [respan, Tree.kind]
  | lit value => rw [respan]

theorem fieldText?_respan (ranges : List (Nat × Span)) (n : Nat) (t : Tree) (name : String) :
    (respan ranges n t).1.fieldText? name = t.fieldText? name := by
  cases t with
  | node kind span fields =>
    rw [respan_node]
    simp only [Tree.fieldText?, Tree.field, Tree.field?, Tree.fields]
    generalize n + 1 = m
    induction fields generalizing m with
    | nil => rw [respanFields]
    | cons f fields ih =>
      obtain ⟨own, t⟩ := f
      rw [respanFields_cons]
      by_cases hname : own = name
      · cases t with
        | node kind span fields => simp [hname, respan_node]
        | list ts => simp [hname, respan]
        | lit value => simp [hname, respan]
      · simpa [List.find?_cons, hname] using ih (respan ranges m t).2
  | list ts => simp [respan, Tree.fieldText?, Tree.field, Tree.field?, Tree.fields]
  | lit value => rw [respan]

mutual

/-- Putting in ranges counts the nodes as they are visited. -/
theorem respan_next (ranges : List (Nat × Span)) (n : Nat) : ∀ t : Tree, (respan ranges n t).2 = (visitsOf n t).2
  | .node kind span fields => by rw [respan_node, visitsOf_node, respanFields_next ranges (n + 1) fields]
  | .list ts => by rw [respan, visitsOf, respanItems_next ranges n ts]
  | .lit value => by rw [respan, visitsOf]

theorem respanFields_next (ranges : List (Nat × Span)) (n : Nat) :
    ∀ fields : List (String × Tree), (respanFields ranges n fields).2 = (visitsOfFields n fields).2
  | [] => by rw [respanFields, visitsOfFields]
  | (name, t) :: rest => by
    rw [respanFields_cons, visitsOfFields_cons, respan_next ranges n t, respanFields_next ranges _ rest]

theorem respanItems_next (ranges : List (Nat × Span)) (n : Nat) :
    ∀ ts : List Tree, (respanItems ranges n ts).2 = (visitsOfItems n ts).2
  | [] => by rw [respanItems, visitsOfItems]
  | t :: rest => by
    rw [respanItems_cons, visitsOfItems_cons, respan_next ranges n t, respanItems_next ranges _ rest]

end

theorem exists_mem_visitsOfItems {ranges : List (Nat × Span)} {ts : List Tree} {k : Tree} {n : Nat}
    (hk : k ∈ (respanItems ranges n ts).1) (hnode : k.isNode = true) :
    ∃ p ∈ (visitsOfItems n ts).1, k = (respan ranges p.2.number p.1).1 := by
  induction ts generalizing n with
  | nil => simp [respanItems] at hk
  | cons t ts ih =>
    rw [respanItems_cons, respan_next] at hk
    rw [visitsOfItems_cons]
    rcases List.mem_cons.1 hk with rfl | hk
    · cases t with
      | node kind span fields =>
        refine ⟨_, List.mem_append_left _ (by rw [visitsOf_node]; exact List.mem_singleton_self _), rfl⟩
      | list ts => simp [respan, Tree.isNode] at hnode
      | lit value => simp [respan, Tree.isNode] at hnode
    · obtain ⟨p, hp, hsame⟩ := ih hk
      exact ⟨p, List.mem_append_right _ hp, hsame⟩

/-- A node in a list that a field holds when ranges are put in is visited. -/
theorem exists_mem_named {ranges : List (Nat × Span)} {kind name : String} {span : Option Span}
    {fields : List (String × Tree)} {k : Tree} {n : Nat}
    (hk : k ∈ (Tree.node kind span (respanFields ranges n fields).1).fieldItems name) (hnode : k.isNode = true) :
    ∃ p ∈ (visitsOfFields n fields).1.named name, k = (respan ranges p.2.number p.1).1 := by
  induction fields generalizing n with
  | nil => simp [Tree.fieldItems, Tree.field, Tree.field?, Tree.fields, Tree.items, respanFields] at hk
  | cons f fields ih =>
    obtain ⟨own, t⟩ := f
    rw [respanFields_cons, respan_next] at hk
    rw [visitsOfFields_cons, FieldVisits.named_cons]
    by_cases hname : own = name
    · rw [if_pos hname]
      cases t with
      | node kind span fields => simp [Tree.fieldItems, Tree.field, Tree.field?, Tree.fields, hname, respan, Tree.items] at hk
      | list ts =>
        have hk : k ∈ (respanItems ranges n ts).1 := by
          simpa [Tree.fieldItems, Tree.field, Tree.field?, Tree.fields, hname, respan, Tree.items] using hk
        obtain ⟨p, hp, hsame⟩ := exists_mem_visitsOfItems hk hnode
        exact ⟨p, List.mem_append_left _ (by rw [visitsOf]; exact hp), hsame⟩
      | lit value => simp [Tree.fieldItems, Tree.field, Tree.field?, Tree.fields, hname, respan, Tree.items] at hk
    · rw [if_neg hname, List.nil_append]
      refine ih (n := (visitsOf n t).2) ?_
      simpa [Tree.fieldItems, Tree.field, Tree.field?, Tree.fields, hname, List.find?_cons] using hk

namespace FieldVisits

open Visit (numbersIn)

/-- All nodes directly below a node, with their visits. -/
def all (below : FieldVisits) : List (Tree × Visit) := below.flatMap Prod.snd

theorem mem_all_of_mem_named {below : FieldVisits} {name : String} {p : Tree × Visit} (h : p ∈ below.named name) :
    p ∈ below.all := by
  obtain ⟨f, hf, hp⟩ := List.mem_flatMap.1 h
  exact List.mem_flatMap.2 ⟨f, (List.mem_filter.1 hf).1, hp⟩

/-- Fields of different names hold different nodes. -/
theorem numbersIn_named_le (below : FieldVisits) {a b c : String} (hab : a ≠ b) (hac : a ≠ c) (hbc : b ≠ c) :
    numbersIn ((below.named a).map Prod.snd) + numbersIn ((below.named b).map Prod.snd) +
      numbersIn ((below.named c).map Prod.snd) ≤ numbersIn (below.all.map Prod.snd) := by
  induction below with
  | nil => simp [named, all, numbersIn]
  | cons f below ih =>
    rw [Multiset.le_iff_count] at ih ⊢
    intro k
    have ih := ih k
    simp only [named_cons, all, List.flatMap_cons, List.map_append, Visit.numbersIn_append, Multiset.count_add] at ih ⊢
    by_cases ha : f.1 = a
    · simp [ha, hab, hac, numbersIn]
      omega
    · by_cases hb : f.1 = b
      · simp [hb, hab.symm, hbc, numbersIn]
        omega
      · by_cases hc : f.1 = c
        · simp [hc, hac.symm, hbc.symm, numbersIn]
          omega
        · simp [ha, hb, hc, numbersIn]
          omega

theorem numbersIn_pairKeys_le (ts : List Tree) (vs : List Visit) : numbersIn (pairKeys ts vs) ≤ numbersIn vs := by
  fun_induction pairKeys ts vs with
  | case1 => simp [numbersIn]
  | case2 kind span fields ts v vs ih =>
    rw [numbersIn, numbersIn]
    exact (Multiset.add_le_add_iff_left).2 ih
  | case3 kind span fields ts ih => simpa [numbersIn, Visit.numbers] using ih
  | case4 t ts vs _ _ ih => simpa [numbersIn, Visit.numbers] using ih

theorem mem_of_mem_pairKeys {ts : List Tree} {vs : List Visit} {u : Visit} (h : u ∈ pairKeys ts vs) :
    u = .missing ∨ u ∈ vs := by
  fun_induction pairKeys ts vs with
  | case1 => simp at h
  | case2 kind span fields ts v vs ih =>
    rcases List.mem_cons.1 h with rfl | h
    · exact .inr List.mem_cons_self
    · exact (ih h).imp_right (List.mem_cons_of_mem v)
  | case3 kind span fields ts ih => exact (List.mem_cons.1 h).elim .inl ih
  | case4 t ts vs _ _ ih => exact (List.mem_cons.1 h).elim .inl ih

theorem numbersIn_zip_le (vs ws : List Visit) :
    numbersIn ((vs.zip ws).flatMap fun p => [p.1, p.2]) ≤ numbersIn vs + numbersIn ws := by
  induction vs generalizing ws with
  | nil => simp [numbersIn]
  | cons v vs ih =>
    cases ws with
    | nil => simp [numbersIn]
    | cons w ws =>
      have ih := Multiset.le_iff_count.1 (ih ws)
      rw [Multiset.le_iff_count]
      intro k
      have ih := ih k
      simp [numbersIn] at ih ⊢
      omega

theorem numbersIn_values_le {kws : List (Tree × Visit)} (h : ∀ kw ∈ kws, kw.2 ≠ .missing) :
    (↑(kws.map fun kw => kw.2.number) : Multiset Nat) + numbersIn (kws.flatMap fun kw => kw.2.children) ≤
      numbersIn (kws.map Prod.snd) := by
  induction kws with
  | nil => simp [numbersIn]
  | cons kw kws ih =>
    rw [List.forall_mem_cons] at h
    have hhead := Multiset.le_iff_count.1 (Visit.number_children_le h.1)
    have ih := Multiset.le_iff_count.1 (ih h.2)
    rw [Multiset.le_iff_count]
    intro k
    have hhead := hhead k
    have ih := ih k
    rw [List.map_cons, ← Multiset.cons_coe, List.flatMap_cons, List.map_cons, numbersIn, Visit.numbersIn_append]
    rw [Multiset.count_cons] at hhead
    simp only [Multiset.count_add, Multiset.count_cons] at ih ⊢
    omega

/-- The keywords and the children of a node have no more numbers than the nodes directly below it. -/
theorem numbers_site_le {below : FieldVisits} (h : ∀ p ∈ below.all, p.2 ≠ .missing) (n : Nat) (t : Tree) :
    (↑((below.site n t).keywords.map KeywordSite.number) : Multiset Nat) + numbersIn (below.children t) ≤
      numbersIn (below.all.map Prod.snd) := by
  by_cases hdict : t.kind = "Dict"
  · have hnamed := below.numbersIn_named_le (a := "keys") (b := "values") (c := "") (by decide) (by decide) (by decide)
    have hpairs := numbersIn_zip_le (pairKeys (t.fieldItems "keys") ((below.named "keys").map Prod.snd))
      ((below.named "values").map Prod.snd)
    have hkeys := numbersIn_pairKeys_le (t.fieldItems "keys") ((below.named "keys").map Prod.snd)
    simp [site, children, hdict]
    refine hpairs.trans (le_trans ?_ hnamed)
    exact (add_le_add_left hkeys _).trans (Multiset.le_add_right _ _)
  · by_cases hcall : t.kind = "Call"
    · have hnamed := below.numbersIn_named_le (a := "func") (b := "args") (c := "keywords") (by decide) (by decide) (by decide)
      have hvalues := numbersIn_values_le fun kw (hkw : kw ∈ below.named "keywords") => h kw (mem_all_of_mem_named hkw)
      refine le_trans ?_ hnamed
      simp only [site, children, hcall, beq_self_eq_true, if_true, List.map_map, List.map_append, Visit.numbersIn_append,
        Bool.false_eq_true, if_false, show ("Call" == "Dict") = false from rfl]
      rw [add_left_comm]
      exact add_le_add_right hvalues _
    · simp [site, children, hdict, hcall, all]

/-- The visits below a node are visits of nodes directly below it, or below a keyword. -/
theorem mem_children_cases {below : FieldVisits} {t : Tree} {u : Visit} (h : u ∈ below.children t) :
    u = .missing ∨ ∃ p ∈ below.all, u = p.2 ∨ u ∈ p.2.children := by
  have hnamed {name : String} (hu : u ∈ (below.named name).map Prod.snd) : ∃ p ∈ below.all, u = p.2 ∨ u ∈ p.2.children := by
    obtain ⟨p, hp, rfl⟩ := List.mem_map.1 hu
    exact ⟨p, mem_all_of_mem_named hp, .inl rfl⟩
  unfold children at h
  split at h
  · obtain ⟨p, hp, hu⟩ := List.mem_flatMap.1 h
    obtain ⟨hkey, hvalue⟩ := List.of_mem_zip hp
    simp only [List.mem_cons, List.not_mem_nil, or_false] at hu
    rcases hu with rfl | rfl
    · exact (mem_of_mem_pairKeys hkey).imp_right hnamed
    · exact .inr (hnamed hvalue)
  · split at h
    · rw [List.map_append, List.mem_append, List.mem_append] at h
      rcases h with (h | h) | h
      · exact .inr (hnamed h)
      · exact .inr (hnamed h)
      · obtain ⟨kw, hkw, hu⟩ := List.mem_flatMap.1 h
        exact .inr ⟨kw, mem_all_of_mem_named hkw, .inr hu⟩
    · obtain ⟨p, hp, rfl⟩ := List.mem_map.1 h
      exact .inr ⟨p, hp, .inl rfl⟩

end FieldVisits

theorem NumberedFrom.node {n next : Nat} {kind : String} {span : Option Span} {fields : List (String × Tree)}
    {below : FieldVisits} (h : NumberedFrom (n + 1) (Tree.preorderFields fields) below.all next)
    (hkeywords : ∀ ranges, ∀ k ∈ (respan ranges n (.node kind span fields)).1.fieldItems "keywords", k.isNode = true →
      ∃ p ∈ below.named "keywords", k = (respan ranges p.2.number p.1).1) :
    NumberedFrom n (Tree.node kind span fields).preorder
      [(.node kind span fields, .node (below.site n (.node kind span fields)) (below.children (.node kind span fields)))]
      next := by
  have hpreorder : (Tree.node kind span fields).preorder = .node kind span fields :: Tree.preorderFields fields := by
    rw [Tree.preorder]
  have hzip : (Tree.node kind span fields).preorder.zipIdx n =
      (.node kind span fields, n) :: (Tree.preorderFields fields).zipIdx (n + 1) := by
    rw [hpreorder, List.zipIdx_cons]
  have hbelow : (Tree.preorderFields fields).zipIdx (n + 1) ⊆ (Tree.node kind span fields).preorder.zipIdx n :=
    hzip ▸ List.subset_cons_self _ _
  refine ⟨?_, ?_, ?_, ?_, ?_, ?_, ?_⟩
  · rw [h.next_eq, hpreorder, List.length_cons]
    omega
  · have hle := (below.numbers_site_le (fun p hp => (h.placed p hp).2.1) n (.node kind span fields)).trans h.numbers_le
    rw [hpreorder, List.length_cons, List.range'_succ, ← Multiset.cons_coe]
    simp only [List.map_cons, List.map_nil, Visit.numbersIn, add_zero, Visit.numbers]
    exact (Multiset.cons_le_cons_iff n).2 hle
  · intro p hp
    obtain rfl := List.mem_singleton.1 hp
    exact ⟨rfl, by simp, by rw [hzip]; exact List.mem_cons_self⟩
  · intro p hp hkind u hu
    obtain rfl := List.mem_singleton.1 hp
    have hall : below.children (.node kind span fields) = below.all.map Prod.snd := by
      simp [FieldVisits.children, FieldVisits.all, show Tree.kind (.node kind span fields) = "keyword" from hkind]
    rw [Visit.children, hall, List.head?_map] at hu
    obtain ⟨q, hq, rfl⟩ := Option.map_eq_some_iff.1 hu
    obtain ⟨hnode, -, hplaced⟩ := h.placed q (List.mem_of_mem_head? hq)
    rw [h.head q hq, List.mk_mem_zipIdx_iff_le_and_getElem?_sub, Nat.sub_self] at hplaced
    exact ⟨h.head q hq, q.1, by rw [hpreorder, List.getElem?_cons_succ, hplaced.2], hnode⟩
  · intro p hp m hm
    obtain rfl := List.mem_singleton.1 hp
    rw [Visit.nodes] at hm
    rcases List.mem_cons.1 hm with rfl | hm
    · refine ⟨.node kind span fields, by rw [hzip]; exact List.mem_cons_self, fun hcall ranges k hk hkind => ?_⟩
      obtain ⟨p, hp, rfl⟩ := hkeywords ranges k hk (Tree.isNode_of_kind (by rw [hkind]; decide))
      have hfirst := h.first p (FieldVisits.mem_all_of_mem_named hp) (by rwa [kind_respan] at hkind)
      refine ⟨⟨p.2.number, p.1.fieldText? "arg", p.2.children.head?.map Visit.number⟩, ?_, p.1, ⟨rfl, ?_⟩, rfl⟩
      · simp only [FieldVisits.site, hcall, beq_self_eq_true, if_true]
        exact List.mem_map.2 ⟨p, hp, rfl⟩
      · intro j hj
        obtain ⟨w, hw, rfl⟩ := Option.map_eq_some_iff.1 hj
        exact hfirst w hw
    · obtain ⟨u, hu, hm⟩ := Visit.mem_nodesIn.1 hm
      rcases FieldVisits.mem_children_cases hu with rfl | ⟨p, hp, rfl | hchild⟩
      · simp [Visit.nodes] at hm
      · exact (h.sites p hp m hm).mono hbelow
      · exact (h.sites p hp m (Visit.mem_nodes_of_child hchild hm)).mono hbelow
  · simp [Visit.number, FieldVisits.site]
  · simp

mutual

theorem numbered_visitsOf (n : Nat) : ∀ t : Tree, NumberedFrom n t.preorder (visitsOf n t).1 (visitsOf n t).2
  | .node kind span fields => by
    rw [visitsOf_node]
    refine (numbered_visitsOfFields (n + 1) fields).node fun ranges k hk hnode => ?_
    rw [respan_node] at hk
    exact exists_mem_named hk hnode
  | .list ts => by
    rw [visitsOf, Tree.preorder]
    exact numbered_visitsOfItems n ts
  | .lit value => by
    rw [visitsOf, Tree.preorder]
    exact NumberedFrom.nil n

theorem numbered_visitsOfFields (n : Nat) : ∀ fields : List (String × Tree),
    NumberedFrom n (Tree.preorderFields fields) (visitsOfFields n fields).1.all (visitsOfFields n fields).2
  | [] => by
    rw [visitsOfFields, Tree.preorderFields]
    exact NumberedFrom.nil n
  | (name, t) :: rest => by
    rw [visitsOfFields_cons, Tree.preorderFields]
    exact (numbered_visitsOf n t).append (numbered_visitsOfFields _ rest)

theorem numbered_visitsOfItems (n : Nat) : ∀ ts : List Tree,
    NumberedFrom n (Tree.preorderItems ts) (visitsOfItems n ts).1 (visitsOfItems n ts).2
  | [] => by
    rw [visitsOfItems, Tree.preorderItems]
    exact NumberedFrom.nil n
  | t :: rest => by
    rw [visitsOfItems_cons, Tree.preorderItems]
    exact (numbered_visitsOf n t).append (numbered_visitsOfItems _ rest)

end

/-! ## Tokens kept -/

/-- The tokens that are kept for the node with a number when visits are marked among tokens, up to a place: those of the
node up to where the visit behind it begins, among those kept for the nodes that it is in. -/
inductive KeptFor : List Token → List Visit → Place → Nat → List Token → Prop
  | here {ts own : List Token} {site : Site} {children vs : List Visit} {stop next : Place}
      (behind : Aligned ts vs stop next) (keeps : site.Keeps ts next own) :
      KeptFor ts (.node site children :: vs) stop site.number own
  | inside {ts own kept : List Token} {site : Site} {children vs : List Visit} {stop next : Place} {n : Nat}
      (behind : Aligned ts vs stop next) (keeps : site.Keeps ts next own)
      (lower : KeptFor own (Visit.inOrder site.kind Visit.start? children) next n kept) :
      KeptFor ts (.node site children :: vs) stop n kept
  | behind {ts kept : List Token} {v : Visit} {vs : List Visit} {stop : Place} {n : Nat}
      (later : KeptFor ts vs stop n kept) : KeptFor ts (v :: vs) stop n kept

/-- What marking finds for a node: its range from its start on, and that of each of its keywords, among the tokens kept
for it. -/
def Found (ts : List Token) (vs : List Visit) (stop : Place) (found : List (Nat × Span)) (m : Site × List Visit) : Prop :=
  (∀ p, m.1.start = some p → ∃ last, (m.1.number, ⟨p, last⟩) ∈ found) ∧
    ∃ kept, KeptFor ts vs stop m.1.number kept ∧
      ∀ kw ∈ m.1.keywords, ∃ r ∈ found, keywordSpan kept m.2 kw = .ok r

section
variable {ts kept other : List Token} {v : Visit} {vs : List Visit} {stop next : Place} {n : Nat}

theorem Found.mono {found more : List (Nat × Span)} {m : Site × List Visit} (h : Found ts vs stop found m)
    (hmore : found ⊆ more) : Found ts vs stop more m := by
  obtain ⟨hown, kept, hkept, hkeywords⟩ := h
  refine ⟨fun p hp => (hown p hp).imp fun last hlast => hmore hlast, kept, hkept, fun kw hkw => ?_⟩
  obtain ⟨r, hr, hspan⟩ := hkeywords kw hkw
  exact ⟨r, hmore hr, hspan⟩

theorem KeptFor.cons (h : KeptFor ts [v] next n kept) (behind : Aligned ts vs stop next) :
    KeptFor ts (v :: vs) stop n kept := by
  cases h with
  | here nothing keeps =>
    cases nothing
    exact .here behind keeps
  | inside nothing keeps lower =>
    cases nothing
    exact .inside behind keeps lower
  | behind later => cases later

theorem Aligned.unique {p q : Place} (hp : Aligned ts vs stop p) (hq : Aligned ts vs stop q) : p = q := by
  have hmark (front : Place) := Visit.markBackward_ok_iff (fun v (_ : v ∈ vs) => v.alignedAlone) ts stop front []
  obtain ⟨found, hfound⟩ := (hmark p).2 hp
  obtain ⟨other, hother⟩ := (hmark q).2 hq
  exact (Prod.mk.inj (Except.ok.inj (hfound.symm.trans hother))).1

theorem Site.Keeps.unique {site : Site} (h : site.Keeps ts stop kept) (hother : site.Keeps ts stop other) :
    kept = other := by
  unfold Site.Keeps at h hother
  cases hstart : site.start with
  | none =>
    rw [hstart] at h hother
    rw [h, hother]
  | some start =>
    rw [hstart] at h hother
    obtain ⟨p, h⟩ := h
    obtain ⟨q, hother⟩ := hother
    exact (Prod.mk.inj (Except.ok.inj (h.symm.trans hother))).2

namespace KeptFor

open Visit (numbersIn numbersIn_perm)

/-- A node, its children and what is behind it have different numbers. -/
theorem apart {site : Site} {children : List Visit} (h : (numbersIn (.node site children :: vs)).Nodup) :
    (numbersIn (Visit.inOrder site.kind Visit.start? children)).Nodup ∧
      site.number ∉ numbersIn (Visit.inOrder site.kind Visit.start? children) ∧ site.number ∉ numbersIn vs ∧
      ∀ n ∈ numbersIn (Visit.inOrder site.kind Visit.start? children), n ∉ numbersIn vs := by
  rw [numbersIn_perm (Visit.inOrder_perm _ _ _)]
  simp only [numbersIn, Visit.numbers, Multiset.cons_add, Multiset.nodup_cons, Multiset.nodup_add, Multiset.mem_add,
    Multiset.disjoint_left, not_or] at h
  obtain ⟨⟨⟨-, hbelow⟩, hbehind⟩, ⟨-, hchildren, -⟩, -, hapart⟩ := h
  exact ⟨hchildren, hbelow, hbehind, fun n hn => hapart (.inr hn)⟩

theorem mem_numbersIn (h : KeptFor ts vs stop n kept) : n ∈ numbersIn vs := by
  induction h with
  | here => simp [numbersIn, Visit.numbers]
  | inside _ _ _ ih =>
    rw [numbersIn_perm (Visit.inOrder_perm _ _ _)] at ih
    simp [numbersIn, Visit.numbers, ih]
  | behind _ ih => simp [numbersIn, ih]

/-- Where no two nodes have one number, the tokens kept for a number are determined. -/
theorem unique (h : KeptFor ts vs stop n kept) (hother : KeptFor ts vs stop n other) (hnodup : (numbersIn vs).Nodup) :
    kept = other := by
  induction h generalizing other with
  | @here ts own site children vs stop next behind keeps =>
    obtain ⟨-, hbelow, hbehind, -⟩ := apart hnodup
    cases hother with
    | here behind' keeps' =>
      obtain rfl := behind.unique behind'
      exact keeps.unique keeps'
    | inside _ _ lower => exact absurd lower.mem_numbersIn hbelow
    | behind later => exact absurd later.mem_numbersIn hbehind
  | @inside ts own kept site children vs stop next n behind keeps lower ih =>
    obtain ⟨hchildren, hbelow, -, hapart⟩ := apart hnodup
    cases hother with
    | here => exact absurd lower.mem_numbersIn hbelow
    | inside behind' keeps' lower' =>
      obtain rfl := behind.unique behind'
      obtain rfl := keeps.unique keeps'
      exact ih lower' hchildren
    | behind later => exact absurd later.mem_numbersIn (hapart n lower.mem_numbersIn)
  | @behind ts kept v vs stop n later ih =>
    cases hother with
    | here => exact absurd later.mem_numbersIn (apart hnodup).2.2.1
    | inside _ _ lower => exact absurd later.mem_numbersIn ((apart hnodup).2.2.2 n lower.mem_numbersIn)
    | behind later' =>
      rw [numbersIn, Multiset.nodup_add] at hnodup
      exact ih later' hnodup.2.1

end KeptFor

end

theorem Site.ownRange_found {site : Site} {ts kept : List Token} {stop : Place} {own : List (Nat × Span)}
    (h : site.ownRange ts stop = .ok (own, kept)) : (↑(own.map Prod.fst) : Multiset Nat) ≤ {site.number} ∧
      ∀ p, site.start = some p → ∃ last, (site.number, ⟨p, last⟩) ∈ own := by
  unfold Site.ownRange at h
  cases hstart : site.start with
  | none =>
    rw [hstart] at h
    obtain ⟨rfl, -⟩ := Prod.mk.inj (Except.ok.inj h)
    exact ⟨by simp, by simp⟩
  | some start =>
    rw [hstart] at h
    obtain ⟨r, -, h⟩ := bind_eq_ok h
    obtain ⟨rfl, -⟩ := Prod.mk.inj (Except.ok.inj h)
    refine ⟨by simp, fun p hp => ⟨r.1, ?_⟩⟩
    obtain rfl := Option.some.inj hp
    exact List.mem_singleton_self _

/-- A keyword is named by the last name before its value, and its range is that of the name. -/
theorem keywordSpan_eq_ok {kept : List Token} {children : List Visit} {kw : KeywordSite} {r : Nat × Span}
    (h : keywordSpan kept children kw = .ok r) : ∃ j p before name after, kw.valueNumber = some j ∧
      startOf? children j = some p ∧ kept = before ++ name :: after ∧ name.kind = .name ∧ name.start.before p = true ∧
      (∀ u ∈ after, u.kind = .name → u.start.before p = false) ∧ kw.name = some name.string ∧
      r = (kw.number, ⟨name.start, name.stop⟩) := by
  obtain ⟨p, hp, h⟩ := bind_eq_ok h
  obtain ⟨name, hname, h⟩ := bind_eq_ok h
  obtain ⟨⟨⟩, hsame, h⟩ := bind_eq_ok h
  obtain ⟨j, hj, hstart⟩ := Option.bind_eq_some_iff.1 (orFault_eq_ok hp)
  obtain ⟨hfits, after, before, hreverse, hafter⟩ := List.find?_eq_some_iff_append.1 (orFault_eq_ok hname)
  simp only [Bool.and_eq_true, beq_iff_eq] at hfits
  refine ⟨j, p, before.reverse, name, after.reverse, hj, hstart, ?_, hfits.1, hfits.2, fun u hu hkind => ?_, ?_,
    (Except.ok.inj h).symm⟩
  · rw [← List.reverse_inj, hreverse]
    simp
  · simpa [hkind] using hafter u (List.mem_reverse.1 hu)
  · exact (beq_iff_eq.1 (ensure_eq_ok hsame)).symm

namespace Visit

/-- The numbers of what marking a visit finds are its own, and every node in it is found. -/
def Marks (v : Visit) : Prop :=
  ∀ ts stop front found, v.mark ts stop = .ok (front, found) →
    (↑(found.map Prod.fst) : Multiset Nat) ≤ v.numbers ∧ ∀ m ∈ v.nodes, Found ts [v] stop found m

theorem markBackward_found {vs : List Visit} (h : ∀ v ∈ vs, v.Marks) {ts : List Token} {stop front : Place}
    {known found : List (Nat × Span)}
    (hfound : markBackward ts (vs.map mark).reverse (stop, known) = .ok (front, found)) :
    ∃ new, found = new ++ known ∧ (↑(new.map Prod.fst) : Multiset Nat) ≤ numbersIn vs ∧
      ∀ m ∈ nodesIn vs, Found ts vs stop new m := by
  induction vs generalizing front found with
  | nil =>
    obtain ⟨-, rfl⟩ := Prod.mk.inj (Except.ok.inj hfound)
    exact ⟨[], rfl, by simp [numbersIn], by simp [nodesIn]⟩
  | cons v vs ih =>
    rw [List.forall_mem_cons] at h
    rw [List.map_cons, List.reverse_cons, markBackward_append] at hfound
    obtain ⟨⟨next, later⟩, hbehind, hstep⟩ := bind_eq_ok hfound
    obtain ⟨⟨q, own⟩, hmark, hrest⟩ := bind_eq_ok hstep
    obtain ⟨rfl, rfl⟩ := Prod.mk.inj (Except.ok.inj hrest)
    obtain ⟨new, rfl, hnumbers, hnew⟩ := ih h.2 hbehind
    have haligned : Aligned ts vs stop next := (markBackward_ok_iff (fun w _ => w.alignedAlone) ts stop next known).1 ⟨_, hbehind⟩
    obtain ⟨hown, hmarked⟩ := h.1 ts next q own hmark
    refine ⟨own ++ new, (List.append_assoc _ _ _).symm, ?_, fun m hm => ?_⟩
    · rw [List.map_append, ← Multiset.coe_add, numbersIn]
      exact add_le_add hown hnumbers
    · rw [nodesIn] at hm
      rcases List.mem_append.1 hm with hm | hm
      · obtain ⟨hrange, kept, hkept, hkeywords⟩ := (hmarked m hm).mono (List.subset_append_left own new)
        exact ⟨hrange, kept, hkept.cons haligned, hkeywords⟩
      · obtain ⟨hrange, kept, hkept, hkeywords⟩ := (hnew m hm).mono (List.subset_append_right own new)
        exact ⟨hrange, kept, .behind hkept, hkeywords⟩

theorem marks (v : Visit) : v.Marks := by
  induction v using induction with
  | missing =>
    intro ts stop front found h
    simp [mark] at h
  | node site children ih =>
    intro ts stop front found h
    have horder := inOrder_perm site.kind start? children
    rw [mark_node] at h
    obtain ⟨⟨own, kept⟩, hown, h⟩ := bind_eq_ok h
    obtain ⟨⟨q, more⟩, hmore, h⟩ := bind_eq_ok h
    obtain ⟨keywords, hkeywords, h⟩ := bind_eq_ok h
    obtain ⟨-, rfl⟩ := Prod.mk.inj (Except.ok.inj h)
    obtain ⟨new, rfl, hnumbers, hnew⟩ := markBackward_found (fun v hv => ih v (horder.mem_iff.1 hv)) hmore
    have hkeeps : site.Keeps ts stop kept := Site.ownRange_ok_iff.1 ⟨own, hown⟩
    have hspans : keywords.map Except.ok = site.keywords.map (keywordSpan kept children) :=
      map_eq_of_mapM (fun kw r hr => hr.symm) hkeywords
    have hnames : keywords.map Prod.fst = site.keywords.map KeywordSite.number := by
      refine map_eq_of_mapM (fun kw r hr => ?_) hkeywords
      obtain ⟨-, -, -, -, -, -, -, -, -, -, -, -, rfl⟩ := keywordSpan_eq_ok hr
      rfl
    obtain ⟨hfew, hrange⟩ := Site.ownRange_found hown
    refine ⟨?_, fun m hm => ?_⟩
    · have hall : (↑((keywords ++ (new ++ own)).map Prod.fst) : Multiset Nat) =
          ↑(own.map Prod.fst) + (↑(site.keywords.map KeywordSite.number) + ↑(new.map Prod.fst)) := by
        rw [List.map_append, List.map_append, hnames, ← Multiset.coe_add, ← Multiset.coe_add, ← add_assoc, add_comm]
      rw [hall, numbers, ← Multiset.singleton_add, ← numbersIn_perm horder]
      exact add_le_add hfew (add_le_add_right hnumbers _)
    · rw [nodes] at hm
      rcases List.mem_cons.1 hm with rfl | hm
      · refine ⟨fun p hp => ?_, kept, .here (.nil ts stop) hkeeps, fun kw hkw => ?_⟩
        · obtain ⟨last, hlast⟩ := hrange p hp
          exact ⟨last, by simp [hlast]⟩
        · have hspan := List.mem_map_of_mem (f := keywordSpan kept children) hkw
          rw [← hspans] at hspan
          obtain ⟨r, hr, hrkw⟩ := List.mem_map.1 hspan
          exact ⟨r, List.mem_append_left _ hr, hrkw.symm⟩
      · have hm : m ∈ nodesIn (inOrder site.kind start? children) := by
          obtain ⟨v, hv, hm⟩ := mem_nodesIn.1 hm
          exact mem_nodesIn.2 ⟨v, horder.mem_iff.2 hv, hm⟩
        obtain ⟨hstart, inner, hinner, hkws⟩ := (hnew m hm).mono (show new ⊆ keywords ++ (new ++ own) by simp)
        exact ⟨hstart, inner, .inside (.nil ts stop) hkeeps hinner, hkws⟩

end Visit

/-! ## The marked tree -/

mutual

/-- The nodes of a tree with ranges put in are its nodes, each with the ranges put in from its number on. -/
theorem preorder_respan (ranges : List (Nat × Span)) (n : Nat) : ∀ t : Tree,
    (respan ranges n t).1.preorder = (t.preorder.zipIdx n).map fun e => (respan ranges e.2 e.1).1
  | .node kind span fields => by
    have hbelow := preorder_respanFields ranges (n + 1) fields
    rw [Tree.preorder, List.zipIdx_cons, List.map_cons, respan_node, Tree.preorder, hbelow]
  | .list ts => by
    rw [respan, Tree.preorder, Tree.preorder]
    exact preorder_respanItems ranges n ts
  | .lit value => by
    rw [respan, Tree.preorder]
    rfl

theorem preorder_respanFields (ranges : List (Nat × Span)) (n : Nat) : ∀ fields : List (String × Tree),
    Tree.preorderFields (respanFields ranges n fields).1 =
      ((Tree.preorderFields fields).zipIdx n).map fun e => (respan ranges e.2 e.1).1
  | [] => by
    rw [respanFields, Tree.preorderFields]
    rfl
  | (name, t) :: rest => by
    rw [respanFields_cons, Tree.preorderFields, Tree.preorderFields, List.zipIdx_append, List.map_append,
      preorder_respan ranges n t, preorder_respanFields ranges _ rest, respan_next, (numbered_visitsOf n t).next_eq]

theorem preorder_respanItems (ranges : List (Nat × Span)) (n : Nat) : ∀ ts : List Tree,
    Tree.preorderItems (respanItems ranges n ts).1 =
      ((Tree.preorderItems ts).zipIdx n).map fun e => (respan ranges e.2 e.1).1
  | [] => by
    rw [respanItems, Tree.preorderItems]
    rfl
  | t :: rest => by
    rw [respanItems_cons, Tree.preorderItems, Tree.preorderItems, List.zipIdx_append, List.map_append,
      preorder_respan ranges n t, preorder_respanItems ranges _ rest, respan_next, (numbered_visitsOf n t).next_eq]

end

theorem preorder_respan_getElem? (ranges : List (Nat × Span)) (n : Nat) (t : Tree) (i : Nat) :
    (respan ranges n t).1.preorder[i]? = t.preorder[i]?.map fun u => (respan ranges (n + i) u).1 := by
  rw [preorder_respan, List.getElem?_map, List.getElem?_zipIdx, Option.map_map]
  rfl

/-! ## Keywords -/

/-- Marking visits the node of a tree that has a number. -/
def Visited (t : Tree) (i : Nat) : Prop := ∃ v ∈ t.visit?, ∃ m ∈ v.nodes, m.1.number = i

/-- The tokens that marking a tree keeps for the node with a number. -/
def KeptIn (text : String) (ts : List Token) (t : Tree) (i : Nat) (kept : List Token) : Prop :=
  ∃ v ∈ t.visit?, ∃ settled rest, (v.settle (textLines text)).run (stringsOf ts) = .ok (settled, rest) ∧
    KeptFor ts [settled] (lastPlace text) i kept

/-- A keyword has the range of a name among tokens, of which it has the text. The name starts before the value of the
keyword, which is the first node below it, and no name behind it does. -/
def NamedAmong (kept : List Token) (k : Tree) : Prop :=
  ∃ before name after value p, kept = before ++ name :: after ∧ name.kind = .name ∧
    k.fieldText? "arg" = some name.string ∧ k.span = some ⟨name.start, name.stop⟩ ∧
    k.preorder[1]? = some value ∧ value.start? = some p ∧ name.start.before p = true ∧
    ∀ u ∈ after, u.kind = .name → u.start.before p = false

theorem Visit.mem_nodes_trans {v w : Visit} {m x : Site × List Visit} (hm : m ∈ v.nodes) (hw : w ∈ m.2)
    (hx : x ∈ w.nodes) : x ∈ v.nodes := by
  induction v using induction with
  | missing => simp [nodes] at hm
  | node site children ih =>
    rw [nodes] at hm ⊢
    refine List.mem_cons_of_mem _ (mem_nodesIn.2 ?_)
    rcases List.mem_cons.1 hm with rfl | hm
    · exact ⟨w, hw, hx⟩
    · obtain ⟨u, hu, hm⟩ := mem_nodesIn.1 hm
      exact ⟨u, hu, ih u hu hm⟩

theorem exists_mem_nodes_of_startOf? {vs : List Visit} {j : Nat} {p : Place} (h : startOf? vs j = some p) :
    ∃ w ∈ vs, ∃ m ∈ w.nodes, m.1.number = j ∧ m.1.start = some p := by
  obtain ⟨w, hw, hstart⟩ := Option.bind_eq_some_iff.1 h
  have hnumber := List.find?_some hw
  cases w with
  | missing => simp [Visit.start?] at hstart
  | node site children =>
    refine ⟨_, List.mem_of_find?_eq_some hw, (site, children), ?_, by simpa [Visit.number] using hnumber, hstart⟩
    simp [Visit.nodes]

theorem Tree.visit?_numbered {t : Tree} {v : Visit} (h : t.visit? = some v) :
    v.numbers ≤ ↑(List.range t.preorder.length) ∧ ∀ m ∈ v.nodes, m.1.In t.preorder.zipIdx := by
  have hnumbered := numbered_visitsOf 0 t
  obtain ⟨p, hp, rfl⟩ := Option.map_eq_some_iff.1 h
  obtain ⟨ps, hps⟩ := List.head?_eq_some_iff.1 hp
  refine ⟨?_, hnumbered.sites p (by simp [hps])⟩
  rw [List.range_eq_range']
  refine le_trans ?_ hnumbered.numbers_le
  rw [hps, List.map_cons, Visit.numbersIn]
  exact Multiset.le_add_right _ _

/-- What marking finds for the visited nodes, each with a number of its own. -/
theorem rangesOf_found {text : String} {ts : List Token} {t : Tree} {ranges : List (Nat × Span)}
    (h : rangesOf text ts t = .ok ranges) {v : Visit} (hv : t.visit? = some v) :
    (∀ e ∈ ranges, ranges.lookup e.1 = some e.2) ∧
      ∃ settled rest, (v.settle (textLines text)).run (stringsOf ts) = .ok (settled, rest) ∧ settled.numbers.Nodup ∧
        ∀ m ∈ settled.nodes, Found ts [settled] (lastPlace text) ranges m := by
  rw [rangesOf_eq, hv] at h
  obtain ⟨⟨settled, rest⟩, hsettled, h⟩ := bind_eq_ok h
  obtain ⟨⟨front, found⟩, hmark, h⟩ := bind_eq_ok h
  obtain rfl := Except.ok.inj h
  obtain ⟨hnumbers, hfound⟩ := settled.marks _ _ _ _ hmark
  have hnodup : settled.numbers.Nodup := by
    rw [Visit.numbers_settle hsettled]
    exact Multiset.nodup_of_le (Tree.visit?_numbered hv).1 (Multiset.coe_nodup.2 List.nodup_range)
  have hkeys : (found.map Prod.fst).Nodup := Multiset.coe_nodup.1 (Multiset.nodup_of_le hnumbers hnodup)
  exact ⟨fun e he => Table.get?_of_mem_entries (t := ⟨found⟩) hkeys he, settled, rest, hsettled, hnodup, hfound⟩

theorem span_respan {ranges : List (Nat × Span)} {n : Nat} {range : Span} (h : ranges.lookup n = some range) {t : Tree}
    (ht : t.isNode = true) : (respan ranges n t).1.span = some range := by
  cases t with
  | node kind span fields => rw [respan_node, Tree.span, h, Option.some_or]
  | list ts => simp [Tree.isNode] at ht
  | lit value => simp [Tree.isNode] at ht

/-- In a marked tree every keyword of a visited call has the range of a name among the tokens kept for the call, which are
determined: of the names that start before the value of the keyword it is the last, and it has the text of the keyword. -/
theorem keywords_marked {text : String} {ts : List Token} {t marked : Tree} (h : mark text (.ok ts) t = .ok marked)
    {i : Nat} (hvisited : Visited t i) {call : Tree} (hcall : marked.preorder[i]? = some call)
    (hkind : call.kind = "Call") :
    ∃ kept, (∀ own, KeptIn text ts t i own ↔ own = kept) ∧
      ∀ k ∈ call.fieldItems "keywords", k.kind = "keyword" → NamedAmong kept k := by
  obtain ⟨-, -, h⟩ := bind_eq_ok h
  obtain ⟨_, hts, h⟩ := bind_eq_ok h
  obtain rfl := Except.ok.inj hts
  obtain ⟨ranges, hranges, h⟩ := bind_eq_ok h
  obtain rfl := Except.ok.inj h
  obtain ⟨v, hv, m, hm, rfl⟩ := hvisited
  obtain ⟨hlookup, settled, rest, hsettled, hnodup, hfound⟩ := rangesOf_found hranges hv
  obtain ⟨n, hn, hnumber, hkeywords⟩ := Visit.exists_mem_nodes_settle hsettled m hm
  obtain ⟨-, kept, hkept, hspans⟩ := hfound n hn
  refine ⟨kept, fun own => ?_, fun k hk hkeyword => ?_⟩
  · constructor
    · rintro ⟨w, hw, other, left, hother, hown⟩
      obtain rfl := Option.some.inj (hw.symm.trans hv)
      obtain ⟨rfl, -⟩ := Prod.mk.inj (Except.ok.inj (hother.symm.trans hsettled))
      exact hown.unique (hnumber ▸ hkept) (by rwa [Visit.numbersIn, Visit.numbersIn, add_zero])
    · rintro rfl
      exact ⟨v, hv, settled, rest, hsettled, hnumber ▸ hkept⟩
  · rw [preorder_respan_getElem?, Nat.zero_add] at hcall
    obtain ⟨c, hc, rfl⟩ := Option.map_eq_some_iff.1 hcall
    obtain ⟨d, hd, hof⟩ := (Tree.visit?_numbered hv).2 m hm
    obtain rfl : d = c := Option.some.inj ((List.mem_zipIdx_iff_getElem?.1 hd).symm.trans hc)
    rw [kind_respan] at hkind
    obtain ⟨kw, hkw, u, hu, rfl⟩ := hof hkind ranges k hk hkeyword
    rw [kind_respan] at hkeyword
    obtain ⟨r, hr, hspan⟩ := hspans kw (hkeywords ▸ hkw)
    obtain ⟨j, p, before, name, after, hj, hstart, hsplit, hname, hbefore, hafter, htext, rfl⟩ := keywordSpan_eq_ok hspan
    -- the value is visited below the call, so that its start is the one marked
    obtain ⟨w, hw, l, hl, hvalue, hp⟩ := exists_mem_nodes_of_startOf? hstart
    obtain ⟨last, hlast⟩ := (hfound l (Visit.mem_nodes_trans hn hw hl)).1 p hp
    rw [hvalue] at hlast
    obtain ⟨rfl, value, hvalue, hnode⟩ := hu.value j hj
    refine ⟨before, name, after, (respan ranges (kw.number + 1) value).1, p, hsplit, hname, ?_, ?_, ?_, ?_, hbefore, hafter⟩
    · rw [fieldText?_respan, ← hu.name, htext]
    · exact span_respan (hlookup _ hr) (Tree.isNode_of_kind (by rw [hkeyword]; decide))
    · rw [preorder_respan_getElem?, hvalue, Option.map_some]
    · rw [Tree.start?, span_respan (hlookup _ hlast) hnode, Option.map_some]

/-! ## A call -/

open Elements.Extractor (range)

/-- The call `x(y=z)`, whose keyword has a range. -/
def keywordCall (keyword : Option Span) : Tree :=
  .node "Call" (range 0 6) [
    ("func", .node "Name" (range 0 1) [("id", .lit (.text "x"))]), ("args", .list []),
    ("keywords", .list [.node "keyword" keyword [("arg", .lit (.text "y")),
      ("value", .node "Name" (range 4 5) [("id", .lit (.text "z"))])]])]

def keywordTokens : List Token :=
  [⟨.name, "x", ⟨1, 0⟩, ⟨1, 1⟩⟩, ⟨.other, "(", ⟨1, 1⟩, ⟨1, 2⟩⟩, ⟨.name, "y", ⟨1, 2⟩, ⟨1, 3⟩⟩, ⟨.other, "=", ⟨1, 3⟩, ⟨1, 4⟩⟩,
    ⟨.name, "z", ⟨1, 4⟩, ⟨1, 5⟩⟩, ⟨.other, ")", ⟨1, 5⟩, ⟨1, 6⟩⟩, ⟨.newline, "", ⟨1, 6⟩, ⟨1, 7⟩⟩]

def nameVisit (number : Nat) (start : Int) : Visit := .node ⟨number, "Name", some ⟨1, start⟩, false, none, [], false⟩ []

def operands : List Visit := [nameVisit 1 0, nameVisit 3 4]

def keywordCallSite : Site := ⟨0, "Call", some ⟨1, 0⟩, false, some (1, false), [⟨2, some "y", some 3⟩], false⟩

theorem visit?_keywordCall (keyword : Option Span) :
    (keywordCall keyword).visit? = some (.node keywordCallSite operands) := rfl

-- the operands stand in order, so that sorting them, which does not compute, changes nothing
theorem inOrder_operands : Visit.inOrder keywordCallSite.kind Visit.start? operands = operands :=
  List.mergeSort_of_pairwise (by decide)

theorem mergeSort_operands : (operands.mergeSort fun a b => decide (a.number ≤ b.number)) = operands :=
  List.mergeSort_of_pairwise (by decide)

theorem settle_keywordCall : ((Visit.node keywordCallSite operands).settle (textLines "x(y=z)")).run
    (stringsOf keywordTokens) = .ok (.node keywordCallSite operands, []) := by
  rw [Visit.settle, Visit.settleInOrder_eq, inOrder_operands]
  change StateT.run (m := Except Fault) (do
    let start ← settledStart (textLines "x(y=z)") keywordCallSite (operands.mergeSort fun a b => decide (a.number ≤ b.number))
    return Visit.node { keywordCallSite with start } (operands.mergeSort fun a b => decide (a.number ≤ b.number))) [] = _
  rw [mergeSort_operands]
  rfl

theorem mark_keywordCall : mark "x(y=z)" (.ok keywordTokens) (keywordCall (range 2 5)) = .ok (keywordCall (range 2 3)) := by
  change rangesOf "x(y=z)" keywordTokens (keywordCall (range 2 5)) >>= _ = _
  rw [rangesOf_eq, visit?_keywordCall]
  dsimp only
  rw [settle_keywordCall]
  change (Visit.node keywordCallSite operands).mark keywordTokens (lastPlace "x(y=z)") >>= _ >>= _ = _
  rw [Visit.mark_node, inOrder_operands]
  rfl

theorem keywords_marked_keywordCall :
    mark "x(y=z)" (.ok keywordTokens) (keywordCall (range 2 5)) = .ok (keywordCall (range 2 3)) ∧
      Visited (keywordCall (range 2 5)) 0 ∧
      ∃ kept, (∀ own, KeptIn "x(y=z)" keywordTokens (keywordCall (range 2 5)) 0 own ↔ own = kept) ∧
        ∀ k ∈ (keywordCall (range 2 3)).fieldItems "keywords", k.kind = "keyword" → NamedAmong kept k := by
  have hvisited : Visited (keywordCall (range 2 5)) 0 := ⟨_, visit?_keywordCall _, _, List.mem_cons_self, rfl⟩
  exact ⟨mark_keywordCall, hvisited, keywords_marked mark_keywordCall hvisited rfl rfl⟩

end PlotAdvisor.Program
