import PlotAdvisor.Proofs.Parts

/-! What the partial trees of a program show together. Below each of them stands what fits. A node or a field that
stands below one of them is the parent of another. A value that stands below one of them is among the values before
another, since a list field ends every program and comes after all values. -/
set_option autoImplicit false

namespace PlotAdvisor.Program

def Symbol.isInner : Symbol → Bool
  | .content _ => false
  | _ => true

structure Covering (ts : List PartialTree) : Prop where
  fits : ∀ t ∈ ts, Fits t.parent t.children
  parents : ∀ t ∈ ts, ∀ s ∈ t.children.symbols, s.isInner = true → ∃ u ∈ ts, u.parent = s
  values : ∀ t ∈ ts, ∀ v, .content v ∈ t.children.symbols → ∃ u ∈ ts, .content v ∈ u.terminals

theorem Covering.flatMap {β : Type} {xs : List β} {f : β → List PartialTree} (h : ∀ x ∈ xs, Covering (f x)) :
    Covering (xs.flatMap f) := by
  refine ⟨fun t ht => ?_, fun t ht s hs hi => ?_, fun t ht v hv => ?_⟩
  all_goals obtain ⟨x, hx, ht⟩ := List.mem_flatMap.1 ht
  · exact (h x hx).fits t ht
  · obtain ⟨u, hu, hs⟩ := (h x hx).parents t ht s hs hi
    exact ⟨u, List.mem_flatMap.2 ⟨x, hx, hu⟩, hs⟩
  · obtain ⟨u, hu, hv⟩ := (h x hx).values t ht v hv
    exact ⟨u, List.mem_flatMap.2 ⟨x, hx, hu⟩, hv⟩

theorem Fits.eq_of_content_mem {s : Symbol} {b : Below} {v : Literal} (h : Fits s b)
    (hv : .content v ∈ b.symbols) : b = .one (.content v) := by
  cases h with
  | value name w =>
    obtain rfl : v = w := by simpa [Below.symbols] using hv
    rfl
  | _ => simp [Below.symbols] at hv

theorem Memory.content_mem_lastTerminals {m : Memory} (hk : 1 ≤ m.terminals) {before : List Literal} {v : Literal}
    (h : before.head? = some v) : .content v ∈ m.lastTerminals before := by
  obtain ⟨rest, rfl⟩ := List.head?_eq_some_iff.1 h
  obtain ⟨k, hk⟩ : ∃ k, m.terminals.toNat = k + 1 := ⟨m.terminals.toNat - 1, by omega⟩
  simp [lastTerminals, hk]

/-- A partial tree as it is seen with a memory: there are few enough values, and few enough ancestors unless the
memory shows all of them. -/
structure PartialTree.SeenWith (m : Memory) (t : PartialTree) : Prop where
  inner : t.parent.isInner = true
  terminals : t.terminals.length ≤ m.terminals.toNat
  ancestors : t.ancestors.length ≤ m.ancestors.toNat ↔ (m.ancestors < 1 → t.ancestors = [])

namespace Part

variable {m : Memory} {above : List Symbol} {before : List Literal} {t : PartialTree} {p : Part} {ps : List Part}
  {v : Literal}

/-! ## Partial trees of the parts below -/

theorem partialsFrom_subset (m : Memory) (above : List Symbol) (before : List Literal) {q : Part} (hq : q ∈ ps) :
    ∃ b, (q.partialsFrom m above b).1 ⊆ (partialsFromAll m above before ps).1 := by
  induction ps generalizing before with
  | nil => simp at hq
  | cons p ps ih =>
    rw [partialsFromAll]
    rcases List.mem_cons.1 hq with rfl | hq
    · exact ⟨before, List.subset_append_left _ _⟩
    · obtain ⟨b, hb⟩ := ih (p.partialsFrom m above before).2 hq
      exact ⟨b, List.Subset.trans hb (List.subset_append_right _ _)⟩

theorem mem_partialsFromAll (h : t ∈ (partialsFromAll m above before ps).1) :
    ∃ q ∈ ps, ∃ b, t ∈ (q.partialsFrom m above b).1 ∧
      (q.partialsFrom m above b).1 ⊆ (partialsFromAll m above before ps).1 := by
  induction ps generalizing before with
  | nil => simp [partialsFromAll] at h
  | cons p ps ih =>
    rw [partialsFromAll] at h ⊢
    rcases List.mem_append.1 h with h | h
    · exact ⟨p, List.mem_cons_self, before, h, List.subset_append_left _ _⟩
    · obtain ⟨q, hq, b, ht, hb⟩ := ih h
      exact ⟨q, List.mem_cons_of_mem p hq, b, ht, List.Subset.trans hb (List.subset_append_right _ _)⟩

theorem exists_here (ht : t ∈ (p.partialsFrom m above before).1) :
    ∃ (q : Part) (a : List Symbol) (b : List Literal), q.isInner = true ∧ t = q.here m a b := by
  induction p using inductionOn generalizing above before with
  | h p ih =>
    cases hp : p.isInner with
    | true =>
      rw [partialsFrom_eq m above before hp] at ht
      rcases List.mem_cons.1 ht with rfl | ht
      · exact ⟨p, above, before, hp, rfl⟩
      · obtain ⟨q, hq, b, ht, -⟩ := mem_partialsFromAll ht
        exact ih q hq ht
    | false =>
      cases p with
      | bare name => simp [partialsFrom] at ht
      | leaf v => simp [partialsFrom] at ht
      | _ => simp [isInner] at hp

theorem seenWith_of_mem (ht : t ∈ p.partialTrees m) : t.SeenWith m := by
  obtain ⟨q, a, b, hq, rfl⟩ := exists_here ht
  refine ⟨?_, ?_, ?_⟩
  · cases q with
    | bare name => simp [isInner] at hq
    | leaf v => simp [isInner] at hq
    | _ => rfl
  · simp only [here, Memory.lastTerminals, List.length_map, List.length_reverse, List.length_take]
    omega
  · by_cases hm : m.ancestors < 1
    · have hzero : m.ancestors.toNat = 0 := by omega
      rw [hzero, Nat.le_zero, List.length_eq_zero_iff]
      exact ⟨fun h _ => h, fun h => h hm⟩
    · have hfew : (q.here m a b).ancestors.length ≤ m.ancestors.toNat := by
        rw [here, Memory.nearest, if_neg (by omega)]
        exact List.length_take_le _ _
      exact ⟨fun _ h => absurd h hm, fun _ => hfew⟩

theorem Regular.here_mem (hr : p.Regular) (m : Memory) (above : List Symbol) (before : List Literal) :
    p.here m above before ∈ (p.partialsFrom m above before).1 := by
  rw [partialsFrom_eq m above before hr.isInner]
  exact List.mem_cons_self

theorem Regular.mem_cases (hr : p.Regular) (ht : t ∈ (p.partialsFrom m above before).1) :
    t = p.here m above before ∨ ∃ q ∈ p.parts, q.Regular ∧ ∃ b,
      t ∈ (q.partialsFrom m (p.symbol :: above) b).1 ∧
        (q.partialsFrom m (p.symbol :: above) b).1 ⊆ (p.partialsFrom m above before).1 := by
  rw [partialsFrom_eq m above before hr.isInner] at ht ⊢
  rcases List.mem_cons.1 ht with rfl | ht
  · exact Or.inl rfl
  · obtain ⟨q, hq, b, ht, hsub⟩ := mem_partialsFromAll ht
    have hl : q.isLeaf = false := by
      cases q with
      | leaf v => simp [partialsFrom] at ht
      | _ => rfl
    exact Or.inr ⟨q, hq, hr.parts hq hl, b, ht, List.Subset.trans hsub (List.subset_cons_self _ _)⟩

theorem Regular.fits_of_mem (hr : p.Regular) (ht : t ∈ (p.partialsFrom m above before).1) :
    Fits t.parent t.children := by
  induction p using inductionOn generalizing above before with
  | h p ih =>
    obtain rfl | ⟨q, hq, hqr, b, ht, -⟩ := hr.mem_cases ht
    · exact hr.fits
    · exact ih q hq hqr ht

theorem Regular.parent_of_mem (hr : p.Regular) (ht : t ∈ (p.partialsFrom m above before).1) {s : Symbol}
    (hs : s ∈ t.children.symbols) (hi : s.isInner = true) :
    ∃ u ∈ (p.partialsFrom m above before).1, u.parent = s := by
  induction p using inductionOn generalizing above before with
  | h p ih =>
    obtain rfl | ⟨q, hq, hqr, b, ht, hsub⟩ := hr.mem_cases ht
    · obtain ⟨q, hq, rfl⟩ := List.mem_map.1 (p.symbols_children ▸ hs)
      have hl : q.isLeaf = false := by
        cases q with
        | leaf v => simp [symbol, Symbol.isInner] at hi
        | _ => rfl
      obtain ⟨b, hb⟩ := partialsFrom_subset m (p.symbol :: above) before hq
      refine ⟨q.here m (p.symbol :: above) b, ?_, rfl⟩
      rw [partialsFrom_eq m above before hr.isInner]
      exact List.mem_cons_of_mem _ (hb ((hr.parts hq hl).here_mem m _ b))
    · obtain ⟨u, hu, hs⟩ := ih q hq hqr ht
      exact ⟨u, hsub hu, hs⟩

/-! ## Values that are shown -/

def Shown (v : Literal) (r : List PartialTree × List Literal) : Prop :=
  (∃ u ∈ r.1, .content v ∈ u.terminals) ∨ r.2.head? = some v

theorem Regular.shows_last (hr : p.Regular) (hk : 1 ≤ m.terminals) (above : List Symbol)
    (h : before.head? = some v) : ∃ u ∈ (p.partialsFrom m above before).1, .content v ∈ u.terminals :=
  ⟨_, hr.here_mem m above before, m.content_mem_lastTerminals hk h⟩

theorem shown_of_last (hk : 1 ≤ m.terminals) (above : List Symbol) (hr : ∀ q ∈ ps, q.Regular)
    (h : before.head? = some v) : Shown v (partialsFromAll m above before ps) := by
  cases ps with
  | nil => exact Or.inr h
  | cons q qs =>
    obtain ⟨u, hu, hv⟩ := (hr q List.mem_cons_self).shows_last hk above h
    rw [partialsFromAll]
    exact Or.inl ⟨u, List.mem_append_left _ hu, hv⟩

theorem shown_of_mem_all (hk : 1 ≤ m.terminals) (hr : ∀ q ∈ ps, q.Regular)
    (ih : ∀ q ∈ ps, ∀ b, t ∈ (q.partialsFrom m above b).1 → Shown v (q.partialsFrom m above b))
    (ht : t ∈ (partialsFromAll m above before ps).1) : Shown v (partialsFromAll m above before ps) := by
  induction ps generalizing before with
  | nil => simp [partialsFromAll] at ht
  | cons p ps ihp =>
    have hrest : ∀ q ∈ ps, q.Regular := fun q hq => hr q (List.mem_cons_of_mem p hq)
    -- what the later parts show, the whole list shows
    have hlater (h : Shown v (partialsFromAll m above (p.partialsFrom m above before).2 ps)) :
        Shown v (partialsFromAll m above before (p :: ps)) := by
      rw [partialsFromAll]
      rcases h with ⟨u, hu, hv⟩ | hlast
      · exact Or.inl ⟨u, List.mem_append_right _ hu, hv⟩
      · exact Or.inr hlast
    rw [partialsFromAll] at ht
    rcases List.mem_append.1 ht with ht | ht
    · obtain ⟨u, hu, hv⟩ | hlast := ih p List.mem_cons_self before ht
      · rw [partialsFromAll]
        exact Or.inl ⟨u, List.mem_append_left _ hu, hv⟩
      · exact hlater (shown_of_last hk above hrest hlast)
    · exact hlater (ihp hrest (fun q hq => ih q (List.mem_cons_of_mem p hq)) ht)

theorem eq_of_children_eq_content (h : p.children = .one (.content v)) : ∃ name, p = .one name (.leaf v) := by
  cases p with
  | one name child =>
    have hs : child.symbol = .content v := Below.one.inj h
    cases child with
    | leaf w =>
      obtain rfl : w = v := Symbol.content.inj hs
      exact ⟨name, rfl⟩
    | _ => exact nomatch hs
  | _ => exact nomatch h

theorem Regular.shown_of_mem (hr : p.Regular) (hk : 1 ≤ m.terminals) (ht : t ∈ (p.partialsFrom m above before).1)
    (hv : .content v ∈ t.children.symbols) : Shown v (p.partialsFrom m above before) := by
  induction p using inductionOn generalizing above before with
  | h p ih =>
    by_cases hvalue : ∃ w, p.children = .one (.content w)
    · obtain ⟨w, hw⟩ := hvalue
      obtain ⟨name, rfl⟩ := eq_of_children_eq_content hw
      obtain rfl : t = (Part.one name (.leaf w)).here m above before := by
        simpa [partialsFrom, here, symbol, children] using ht
      obtain rfl : v = w := by simpa [here, children, Below.symbols, symbol] using hv
      exact Or.inr rfl
    · have hparts : ∀ q ∈ p.parts, q.Regular := by
        intro q hq
        refine hr.parts hq ?_
        cases q with
        | leaf w =>
          have hw : .content w ∈ p.children.symbols := p.symbols_children ▸ List.mem_map_of_mem hq
          exact absurd ⟨w, hr.fits.eq_of_content_mem hw⟩ hvalue
        | _ => rfl
      rw [partialsFrom_eq m above before hr.isInner] at ht ⊢
      rcases List.mem_cons.1 ht with rfl | ht
      · exact absurd ⟨v, hr.fits.eq_of_content_mem hv⟩ hvalue
      · obtain ⟨u, hu, hv⟩ | hlast := shown_of_mem_all hk hparts (fun q hq b htq => ih q hq (hparts q hq) htq) ht
        · exact Or.inl ⟨u, List.mem_cons_of_mem _ hu, hv⟩
        · exact Or.inr hlast

end Part

/-! ## Programs -/

/-- A program as it is read from its text: a module with statements, and without remarks on types. -/
def Tree.IsProgram (t : Tree) : Prop :=
  t.Named ∧ ∃ span body, t = .node "Module" span [("body", .list body), ("type_ignores", .list [])]

theorem Tree.IsProgram.parts {t : Tree} {p : Part} (ht : t.IsProgram) (hp : Part.ofTree t = .ok p) :
    ∃ items, p = .node "Module" [.many "body" items, .many "type_ignores" []] := by
  obtain ⟨-, span, body, rfl⟩ := ht
  obtain ⟨kind, span', fields, ps, he, hps, rfl⟩ := Part.ofTree_eq_ok hp
  obtain ⟨rfl, -, rfl⟩ := Tree.node.inj he
  obtain ⟨own, others, hown, hothers, rfl⟩ := Part.ofFields_cons hps
  cases hown with
  | list ts items hitems =>
    obtain rfl := Except.ok.inj hothers
    exact ⟨items, rfl⟩
  | node _ child hchild => cases body <;> simp [Part.ofTree] at hchild

theorem covering_partialTrees {t : Tree} {p : Part} {m : Memory} (ht : t.IsProgram) (hp : Part.ofTree t = .ok p)
    (hk : 1 ≤ m.terminals) : Covering (p.partialTrees m) := by
  have hr := Part.regular_of_ofTree ht.1 hp
  refine ⟨fun u hu => hr.fits_of_mem hu, fun u hu s hs hi => hr.parent_of_mem hu hs hi, fun u hu v hv => ?_⟩
  obtain hshown | hlast := hr.shown_of_mem hk hu hv
  · exact hshown
  · -- the last value is before the field that ends the program
    obtain ⟨items, rfl⟩ := ht.parts hp
    let above := [Symbol.node "Module"]
    let after := ((Part.many "body" items).partialsFrom m above []).2
    have hlast : after.head? = some v := hlast
    refine ⟨(Part.many "type_ignores" []).here m above after, ?_, m.content_mem_lastTerminals hk hlast⟩
    rw [Part.partialTrees, Part.partialsFrom_eq m [] [] hr.isInner]
    refine List.mem_cons_of_mem _ (List.mem_append_right _ ?_)
    exact List.mem_cons_self

end PlotAdvisor.Program
