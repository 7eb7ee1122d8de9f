import PlotAdvisor.Models.Productions.Vocabulary
import PlotAdvisor.Proofs.PartialTrees
import PlotAdvisor.Proofs.Sorting

/-! The vocabulary of programs is closed: what stands below an entry of a production can be looked up again. The
production entries are the sightings of a corpus, counted and sorted; each comes from a partial tree, and each
partial tree is found among them.

* `mem_productionsOf`, `exists_productionsOf` - sightings and productions.
* `Vocabulary.OfCorpus`, `Vocabulary.ofCorpus_ofPairs` - a vocabulary of a corpus, whatever order is drawn for its partial
  trees.
* `Vocabulary.Closed`, `Vocabulary.OfCorpus.closed` - the closed vocabulary of covering partial trees.
-/
set_option autoImplicit false

namespace PlotAdvisor

namespace Program

/-! ## Sameness -/

theorem Literal.same_self (v : Literal) : v.same v = true := by
  rw [same]
  generalize (if v == .imaginary "0j" then Literal.int 0 else v) = w
  cases hw : w.size? with
  | none => simp
  | some x => cases x <;> simp [Size.same]

theorem Symbol.same_self (s : Symbol) : s.same s = true := by
  cases s with
  | content v => exact v.same_self
  | _ => simp [same]

theorem Symbol.eq_of_same {s t : Symbol} (ht : t.isInner = true) (h : s.same t = true) : s = t := by
  cases t with
  | content v => simp [isInner] at ht
  | _ => simpa [same] using h

theorem Symbol.simple_of_isInner {s : Symbol} (h : s.isInner = true) : s.simple = s := by
  cases s with
  | content v => simp [isInner] at h
  | _ => rfl

theorem Symbol.exists_distinct {ss : List Symbol} {s : Symbol} (h : s ∈ ss) : ∃ d ∈ distinct ss, d.same s = true := by
  -- whatever is there stays there, so that a symbol needs to be looked at only when its turn comes
  suffices key : ∀ done : List Symbol, (s ∈ ss ∨ ∃ d ∈ done, d.same s = true) →
      ∃ d ∈ ss.foldl (fun done s => if done.any fun d => d.same s then done else done ++ [s]) done,
        d.same s = true from key [] (Or.inl h)
  clear h
  induction ss with
  | nil => exact fun done h => h.resolve_left List.not_mem_nil
  | cons x xs ih =>
    intro done h
    refine ih _ ?_
    rcases h with h | ⟨d, hd, hs⟩
    · rcases List.mem_cons.1 h with rfl | h
      · refine Or.inr ?_
        dsimp only
        split
        · next hany => exact List.any_eq_true.1 hany
        · exact ⟨s, by simp, s.same_self⟩
      · exact Or.inl h
    · refine Or.inr ⟨d, ?_, hs⟩
      dsimp only
      split
      · exact hd
      · exact List.mem_append_left _ hd

end Program

namespace Models.Productions

open Program

theorem numberIn?_isSome {ss : List Symbol} {s : Symbol} (h : ∃ d ∈ ss, d.same s = true) :
    (Vocabulary.numberIn? ss s).isSome = true := by
  rw [Vocabulary.numberIn?, Option.isSome_map, List.findIdx?_isSome, List.any_eq_true]
  exact h

theorem numberIn?_sortedSymbols {ss : List Symbol} {s : Symbol} (h : s ∈ ss) :
    (Vocabulary.numberIn? (sortedSymbols ss) s.simple).isSome = true := by
  obtain ⟨d, hd, hs⟩ := Symbol.exists_distinct (List.mem_map_of_mem (f := Symbol.simple) h)
  exact numberIn?_isSome ⟨d, (Sorting.mem_sortBy _).2 hd, hs⟩

/-! ## Counting -/

theorem countBelow_ne_nil (b : Below) (cs : List (Below × Nat)) : countBelow b cs ≠ [] := by
  cases cs with
  | nil => simp [countBelow]
  | cons c cs =>
    rw [countBelow]
    split <;> simp

theorem mem_countBelow {b : Below} {cs : List (Below × Nat)} {c : Below × Nat} (h : c ∈ countBelow b cs) :
    c.1 = b ∨ ∃ d ∈ cs, d.1 = c.1 := by
  induction cs with
  | nil =>
    obtain rfl := List.mem_singleton.1 h
    exact Or.inl rfl
  | cons d cs ih =>
    rw [countBelow] at h
    split at h
    · rcases List.mem_cons.1 h with rfl | h
      · exact Or.inr ⟨d, List.mem_cons_self, rfl⟩
      · exact Or.inr ⟨c, List.mem_cons_of_mem d h, rfl⟩
    · rcases List.mem_cons.1 h with rfl | h
      · exact Or.inr ⟨d, List.mem_cons_self, rfl⟩
      · exact (ih h).imp_right fun ⟨e, he, hc⟩ => ⟨e, List.mem_cons_of_mem d he, hc⟩

def Counted (ts : List PartialTree) (met : List (Symbol × List (Below × Nat))) : Prop :=
  ∀ e ∈ met, e.2 ≠ [] ∧ ∀ c ∈ e.2, ∃ t ∈ ts, e.1.same t.parent.simple = true ∧ c.1 = t.children.simple

theorem Counted.countUnder {ts : List PartialTree} {met : List (Symbol × List (Below × Nat))} {t : PartialTree}
    (h : Counted ts met) (ht : t ∈ ts) : Counted ts (countUnder t.parent.simple t.children.simple met) := by
  induction met with
  | nil =>
    intro e he
    obtain rfl := List.mem_singleton.1 he
    refine ⟨by simp, fun c hc => ⟨t, ht, Symbol.same_self _, ?_⟩⟩
    obtain rfl := List.mem_singleton.1 hc
    rfl
  | cons e met ih =>
    have hrest : Counted ts met := fun d hd => h d (List.mem_cons_of_mem e hd)
    obtain ⟨hne, he⟩ := h e List.mem_cons_self
    rw [Productions.countUnder]
    split
    · next hsame =>
      intro d hd
      rcases List.mem_cons.1 hd with rfl | hd
      · refine ⟨countBelow_ne_nil _ _, fun c hc => ?_⟩
        obtain hc | ⟨c', hc', hcc⟩ := mem_countBelow hc
        · exact ⟨t, ht, hsame, hc⟩
        · rw [← hcc]
          exact he c' hc'
      · exact hrest d hd
    · intro d hd
      rcases List.mem_cons.1 hd with rfl | hd
      · exact ⟨hne, he⟩
      · exact ih hrest d hd

theorem counted_foldl {all ts : List PartialTree} {met : List (Symbol × List (Below × Nat))} (h : Counted all met)
    (hts : ts ⊆ all) :
    Counted all (ts.foldl (fun met t => countUnder t.parent.simple t.children.simple met) met) := by
  induction ts generalizing met with
  | nil => exact h
  | cons t ts ih =>
    have hsub := List.cons_subset.1 hts
    exact ih (h.countUnder hsub.1) hsub.2

theorem exists_countUnder (s : Symbol) (b : Below) (met : List (Symbol × List (Below × Nat))) :
    ∃ e ∈ countUnder s b met, e.1.same s = true := by
  induction met with
  | nil => exact ⟨_, List.mem_cons_self, s.same_self⟩
  | cons e met ih =>
    rw [countUnder]
    split
    · next hsame => exact ⟨_, List.mem_cons_self, hsame⟩
    · obtain ⟨d, hd, hs⟩ := ih
      exact ⟨d, List.mem_cons_of_mem _ hd, hs⟩

theorem countUnder_keeps {s : Symbol} (p : Symbol) (b : Below) {met : List (Symbol × List (Below × Nat))}
    (h : ∃ e ∈ met, e.1.same s = true) : ∃ e ∈ countUnder p b met, e.1.same s = true := by
  obtain ⟨e, he, hs⟩ := h
  induction met with
  | nil => simp at he
  | cons d met ih =>
    rw [countUnder]
    split
    · rcases List.mem_cons.1 he with rfl | he
      · exact ⟨_, List.mem_cons_self, hs⟩
      · exact ⟨e, List.mem_cons_of_mem _ he, hs⟩
    · rcases List.mem_cons.1 he with rfl | he
      · exact ⟨_, List.mem_cons_self, hs⟩
      · obtain ⟨c, hc, hs⟩ := ih he
        exact ⟨c, List.mem_cons_of_mem _ hc, hs⟩

theorem exists_foldl_countUnder {ts : List PartialTree} {s : Symbol} (met : List (Symbol × List (Below × Nat)))
    (h : (∃ t ∈ ts, t.parent.simple = s) ∨ ∃ e ∈ met, e.1.same s = true) :
    ∃ e ∈ ts.foldl (fun met t => countUnder t.parent.simple t.children.simple met) met, e.1.same s = true := by
  induction ts generalizing met with
  | nil => exact h.resolve_left fun ⟨t, ht, _⟩ => List.not_mem_nil ht
  | cons t ts ih =>
    refine ih _ ?_
    rcases h with ⟨u, hu, rfl⟩ | h
    · rcases List.mem_cons.1 hu with rfl | hu
      · exact Or.inr (exists_countUnder _ _ _)
      · exact Or.inl ⟨u, hu, rfl⟩
    · exact Or.inr (countUnder_keeps _ _ h)

/-! ## Productions -/

theorem mem_sortedChildren {cs : List (Below × Nat)} {c : Below × Nat} : c ∈ sortedChildren cs ↔ c ∈ cs := by
  rw [sortedChildren, List.mem_append, Sorting.mem_sortBy, Sorting.mem_sortBy, List.mem_filter, List.mem_filter]
  rcases c with ⟨b | bs, n⟩ <;> simp

theorem mem_numbered {offset : Nat} {es : List (Symbol × List (Below × Nat))} {p : Production}
    (h : p ∈ numbered offset es) : (p.parent, p.children) ∈ es := by
  induction es generalizing offset with
  | nil => simp [numbered] at h
  | cons e es ih =>
    rw [numbered] at h
    rcases List.mem_cons.1 h with rfl | h
    · exact List.mem_cons_self
    · exact List.mem_cons_of_mem e (ih h)

theorem exists_numbered (offset : Nat) {es : List (Symbol × List (Below × Nat))} {e : Symbol × List (Below × Nat)}
    (h : e ∈ es) : ∃ p ∈ numbered offset es, p.parent = e.1 := by
  induction es generalizing offset with
  | nil => simp at h
  | cons d es ih =>
    rw [numbered]
    rcases List.mem_cons.1 h with rfl | h
    · exact ⟨_, List.mem_cons_self, rfl⟩
    · obtain ⟨p, hp, he⟩ := ih (offset + d.2.length) h
      exact ⟨p, List.mem_cons_of_mem _ hp, he⟩

theorem mem_productionsOf {ts : List PartialTree} {p : Production} (h : p ∈ productionsOf ts) :
    p.children ≠ [] ∧ ∀ c ∈ p.children, ∃ t ∈ ts,
      p.parent.same t.parent.simple = true ∧ c.1 = t.children.simple := by
  obtain ⟨e, he, hp⟩ := List.mem_map.1 (mem_numbered h)
  obtain ⟨hparent, hchildren⟩ := Prod.mk.inj hp
  have hnone : Counted ts [] := fun e he => absurd he List.not_mem_nil
  obtain ⟨hne, hc⟩ := counted_foldl hnone (List.Subset.refl ts) e ((Sorting.mem_sortBy _).1 he)
  rw [← hparent, ← hchildren]
  refine ⟨?_, fun c h => hc c (mem_sortedChildren.1 h)⟩
  obtain ⟨c, hc⟩ := List.exists_mem_of_ne_nil _ hne
  exact List.ne_nil_of_mem (mem_sortedChildren.2 hc)

theorem exists_productionsOf {ts : List PartialTree} {t : PartialTree} (h : t ∈ ts) :
    ∃ p ∈ productionsOf ts, p.parent.same t.parent.simple = true := by
  obtain ⟨e, he, hs⟩ := exists_foldl_countUnder [] (Or.inl ⟨t, h, rfl⟩)
  obtain ⟨p, hp, hpe⟩ := exists_numbered 0 (List.mem_map_of_mem ((Sorting.mem_sortBy _).2 he))
  exact ⟨p, hp, hpe ▸ hs⟩

/-! ## Closed vocabularies -/

namespace Vocabulary

/-- The symbol has a number, and something was met below it. -/
def Knows (v : Vocabulary) (s : Symbol) : Prop := (v.innerNumber? s).isSome ∧ (v.production? s).isSome

structure Closed (v : Vocabulary) : Prop where
  fits : ∀ p ∈ v.productions, ∀ c ∈ p.children, Fits p.parent c.1
  parents : ∀ p ∈ v.productions, ∀ c ∈ p.children, ∀ s ∈ c.1.symbols, s.isInner = true → v.Knows s
  values : ∀ p ∈ v.productions, ∀ c ∈ p.children, ∀ x, .content x ∈ c.1.symbols →
    (v.terminalNumber? (Symbol.content x).simple).isSome
  entries : ∀ p ∈ v.productions, p.children ≠ []

variable {α : Type} [Scalar α] {rules : WordRules α} {m : Memory} {pairs : List Pair} {v : Vocabulary}

def corpusTrees (m : Memory) (pairs : List Pair) : List PartialTree := pairs.flatMap fun p => p.tree.partialTrees m

theorem drawTrees_perm {σ : Type} [Draws σ] (m : Memory) (pairs : List Pair) (g : σ) :
    (drawTrees m pairs g).1.Perm (corpusTrees m pairs) := by
  induction pairs generalizing g with
  | nil => exact .refl _
  | cons p ps ih => exact (Draws.arrange_perm (p.tree.partialTrees m) g).append (ih _)

/-- A vocabulary of the partial trees of a corpus, in some order. -/
def OfCorpus (rules : WordRules α) (m : Memory) (pairs : List Pair) (v : Vocabulary) : Prop :=
  ∃ ts : List PartialTree, ts.Perm (corpusTrees m pairs) ∧ v = ofTrees rules (pairs.map (·.utterance)) ts

theorem ofCorpus_ofPairs {σ : Type} [Draws σ] (rules : WordRules α) (m : Memory) (pairs : List Pair) (g : σ) :
    OfCorpus rules m pairs (ofPairs rules m pairs g).1 := ⟨_, drawTrees_perm m pairs g, rfl⟩

theorem OfCorpus.knows (hv : OfCorpus rules m pairs v) {t : PartialTree} (h : t ∈ corpusTrees m pairs)
    (hi : t.parent.isInner = true) : v.Knows t.parent := by
  obtain ⟨ts, hts, rfl⟩ := hv
  rw [← hts.mem_iff] at h
  constructor
  · have hnumber := numberIn?_sortedSymbols (List.mem_map_of_mem (f := fun t : PartialTree => t.parent) h)
    rwa [Symbol.simple_of_isInner hi] at hnumber
  · obtain ⟨p, hp, hs⟩ := exists_productionsOf h
    rw [Symbol.simple_of_isInner hi] at hs
    exact List.find?_isSome.2 ⟨p, hp, hs⟩

theorem OfCorpus.terminalNumber (hv : OfCorpus rules m pairs v) {t : PartialTree} (h : t ∈ corpusTrees m pairs)
    {s : Symbol} (hs : s ∈ t.terminals) : (v.terminalNumber? s.simple).isSome = true := by
  obtain ⟨ts, hts, rfl⟩ := hv
  exact numberIn?_sortedSymbols (List.mem_flatMap.2 ⟨t, hts.mem_iff.2 h, hs⟩)

theorem OfCorpus.children_ne_nil (hv : OfCorpus rules m pairs v) {p : Production} (hp : p ∈ v.productions) :
    p.children ≠ [] := by
  obtain ⟨ts, -, rfl⟩ := hv
  exact (mem_productionsOf hp).1

theorem isInner_of_corpusTrees {t : PartialTree} (h : t ∈ corpusTrees m pairs) : t.parent.isInner = true := by
  obtain ⟨p, -, ht⟩ := List.mem_flatMap.1 h
  exact (Part.seenWith_of_mem ht).inner

theorem OfCorpus.exists_tree (hv : OfCorpus rules m pairs v) {p : Production} (hp : p ∈ v.productions)
    {c : Below × Nat} (hc : c ∈ p.children) :
    ∃ u ∈ corpusTrees m pairs, u.parent = p.parent ∧ u.children.simple = c.1 := by
  obtain ⟨ts, hts, rfl⟩ := hv
  obtain ⟨u, hu, hs, hb⟩ := (mem_productionsOf hp).2 c hc
  rw [hts.mem_iff] at hu
  have hi := isInner_of_corpusTrees hu
  rw [Symbol.simple_of_isInner hi] at hs
  exact ⟨u, hu, (Symbol.eq_of_same hi hs).symm, hb.symm⟩

theorem OfCorpus.closed (hv : OfCorpus rules m pairs v) (h : Covering (corpusTrees m pairs)) : v.Closed := by
  refine ⟨fun p hp c hc => ?_, fun p hp c hc s hs hi => ?_, fun p hp c hc x hx => ?_, fun p => hv.children_ne_nil⟩
  all_goals obtain ⟨t, ht, hparent, hb⟩ := hv.exists_tree hp hc
  · rw [← hparent, ← hb]
    exact (h.fits t ht).simple
  · rw [← hb, Below.symbols_simple] at hs
    obtain ⟨s', hs', rfl⟩ := List.mem_map.1 hs
    have hi' : s'.isInner = true := by
      cases s' with
      | content v =>
        rw [Symbol.simple_content] at hi
        exact hi
      | _ => rfl
    rw [Symbol.simple_of_isInner hi']
    obtain ⟨u, hu, rfl⟩ := h.parents t ht s' hs' hi'
    exact hv.knows hu hi'
  · rw [← hb, Below.symbols_simple] at hx
    obtain ⟨s, hs, hsx⟩ := List.mem_map.1 hx
    cases s with
    | content y =>
      obtain ⟨u, hu, hy⟩ := h.values t ht y hs
      rw [← hsx, Symbol.simple_simple]
      exact hv.terminalNumber hu hy
    | _ => exact nomatch hsx

end Vocabulary

end Models.Productions

end PlotAdvisor
