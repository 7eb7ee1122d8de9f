import PlotAdvisor.Models.Productions.Scoring
import PlotAdvisor.Proofs.Vocabulary

/-! Writing programs from a closed vocabulary. As long as the answers of a chooser are production entries, growth
asks only about symbols that the vocabulary knows and meets only values that it knows, so that it fails only as
the chooser does, or for want of depth. The productions model is such a chooser, whatever it has learned. -/
set_option autoImplicit false

namespace PlotAdvisor

namespace Program

variable {σ α β : Type}

def Keeps (I : List Literal × σ → Prop) (F : Fault → Prop) (x : Growing σ α) : Prop :=
  ∀ st, I st → I (x.run st).2 ∧ ∀ f, (x.run st).1 = .error f → F f

namespace Keeps

variable {I : List Literal × σ → Prop} {F : Fault → Prop}

theorem pure (a : α) : Keeps I F (Pure.pure a : Growing σ α) :=
  fun _ hst => ⟨hst, nofun⟩

theorem throw {f : Fault} (hf : F f) : Keeps I F (throwThe Fault f : Growing σ α) :=
  fun _ hst => ⟨hst, fun _ h => Except.error.inj h ▸ hf⟩

theorem bind {x : Growing σ α} {k : α → Growing σ β} (hx : Keeps I F x) (hk : ∀ a, Keeps I F (k a)) :
    Keeps I F (x >>= k) := by
  intro st hst
  obtain ⟨hI, hF⟩ := hx st hst
  rw [Stateful.run_bind]
  rcases hr : x.run st with ⟨r, st'⟩
  rw [hr] at hI hF
  cases r with
  | error f => exact ⟨hI, fun g hg => hF g (congrArg Except.error (Except.error.inj hg))⟩
  | ok a => exact hk a st' hI

theorem mapM {f : β → Growing σ α} {bs : List β} (h : ∀ b ∈ bs, Keeps I F (f b)) : Keeps I F (bs.mapM f) := by
  induction bs with
  | nil => exact pure []
  | cons b bs ih =>
    rw [List.mapM_cons]
    exact (h b List.mem_cons_self).bind fun a =>
      (ih fun c hc => h c (List.mem_cons_of_mem b hc)).bind fun as => pure (a :: as)

end Keeps

end Program

namespace Models.Productions

open Program Scalar

/-! ## Growth within a vocabulary -/

namespace Vocabulary

structure Recognizes (v : Vocabulary) (m : Memory) (around : Surroundings) : Prop where
  inner : around.parent.isInner = true
  parent : v.Knows around.parent
  terminals : ∀ s ∈ around.terminals, (v.terminalNumber? s).isSome
  ancestors : ∀ s ∈ around.ancestors, (v.innerNumber? s).isSome
  fewTerminals : around.terminals.length ≤ m.terminals.toNat
  fewAncestors : around.ancestors.length ≤ m.ancestors.toNat

def Allows (v : Vocabulary) (s : Symbol) (b : Below) : Prop :=
  b = .many [] ∨ ∃ p ∈ v.productions, p.parent = s ∧ ∃ c ∈ p.children, c.1 = b

def Guides {σ : Type} (v : Vocabulary) (m : Memory) (F : Fault → Prop) (c : Chooser σ) : Prop :=
  ∀ around, v.Recognizes m around → ∀ s,
    (∀ b, ((c around).run s).1 = .ok b → v.Allows around.parent b) ∧
      ∀ f, ((c around).run s).1 = .error f → F f

/-- The values so far are known, and what was asked was recognized. -/
def Familiar {σ : Type} (v : Vocabulary) (m : Memory) (st : List Literal × (List Surroundings × σ)) : Prop :=
  (∀ x ∈ st.1, (v.terminalNumber? (Symbol.content x).simple).isSome) ∧ ∀ a ∈ st.2.1, v.Recognizes m a

variable {v : Vocabulary} {m : Memory} {σ : Type} {F : Fault → Prop} {c : Chooser σ}

theorem Closed.fits_of_allows (hv : v.Closed) {s : Symbol} {b : Below} (hs : s.isInner = true)
    (h : v.Allows s b) : Fits s b := by
  rcases h with rfl | ⟨p, hp, rfl, c, hc, rfl⟩
  · cases s with
    | node kind => exact .noField kind
    | field name => exact .noPart name
    | content v => simp [Symbol.isInner] at hs
  · exact hv.fits p hp c hc

theorem Closed.knows_of_allows (hv : v.Closed) {s t : Symbol} {b : Below} (h : v.Allows s b) (ht : t ∈ b.symbols)
    (hi : t.isInner = true) : v.Knows t := by
  rcases h with rfl | ⟨p, hp, -, c, hc, rfl⟩
  · simp [Below.symbols] at ht
  · exact hv.parents p hp c hc t ht hi

theorem Closed.value_of_allows (hv : v.Closed) {s : Symbol} {b : Below} {x : Literal} (h : v.Allows s b)
    (hx : .content x ∈ b.symbols) : (v.terminalNumber? (Symbol.content x).simple).isSome := by
  rcases h with rfl | ⟨p, hp, -, c, hc, rfl⟩
  · simp [Below.symbols] at hx
  · exact hv.values p hp c hc x hx

theorem recognizes_shown (hm : 1 ≤ m.ancestors) {above : List Symbol} {self : Symbol} {before : List Literal}
    (hi : self.isInner = true) (hself : v.Knows self) (habove : ∀ s ∈ above, (v.innerNumber? s.simple).isSome)
    (hbefore : ∀ x ∈ before, (v.terminalNumber? (Symbol.content x).simple).isSome) :
    v.Recognizes m (shownAt m above self before) := by
  have hnear : m.nearest above = above.take m.ancestors.toNat := by
    rw [Memory.nearest, if_neg (by omega)]
  refine ⟨hi, hself, ?_, ?_, ?_, ?_⟩
  · intro s hs
    obtain ⟨t, ht, rfl⟩ := List.mem_map.1 hs
    obtain ⟨x, hx, rfl⟩ := List.mem_map.1 ht
    exact hbefore x (List.mem_of_mem_take (List.mem_reverse.1 hx))
  · intro s hs
    obtain ⟨t, ht, rfl⟩ := List.mem_map.1 hs
    rw [hnear] at ht
    exact habove t (List.mem_of_mem_take ht)
  · simp only [shownAt, Memory.lastTerminals, List.length_map, List.length_reverse, List.length_take]
    omega
  · simp only [shownAt, hnear, List.length_map, List.length_take]
    omega

theorem keeps_growNext {fuel : Nat} {above : List Symbol} {s : Symbol}
    (hvalue : ∀ x, s = .content x → (v.terminalNumber? (Symbol.content x).simple).isSome)
    (hgrow : s.isInner = true → Keeps (v.Familiar m) F (grow m c.noted fuel above s)) :
    Keeps (v.Familiar m) F (growNext m c.noted fuel above s) := by
  cases s with
  | content x =>
    intro st hst
    refine ⟨⟨fun y hy => ?_, hst.2⟩, nofun⟩
    rcases List.mem_cons.1 hy with rfl | hy
    · exact hvalue y rfl
    · exact hst.1 y hy
  | node kind => exact hgrow rfl
  | field name => exact hgrow rfl

theorem keeps_grow (hv : v.Closed) (hm : 1 ≤ m.ancestors) (hc : v.Guides m F c) (hend : F .endless) (fuel : Nat)
    {above : List Symbol} {self : Symbol} (hi : self.isInner = true) (hself : v.Knows self)
    (habove : ∀ s ∈ above, (v.innerNumber? s.simple).isSome) :
    Keeps (v.Familiar m) F (grow m c.noted fuel above self) := by
  induction fuel generalizing above self with
  | zero => exact Keeps.throw hend
  | succ fuel ih =>
    intro (before, (asked, s)) ⟨hbefore, hasked⟩
    have hshown := recognizes_shown hm hi hself habove hbefore
    obtain ⟨hok, hfault⟩ := hc (shownAt m above self before) hshown s
    have hchoose := choose_noted m c above self before asked s
    generalize ((c (shownAt m above self before)).run s) = answer at hok hfault hchoose
    rcases answer with ⟨r, s'⟩
    -- the question is recognized, so that the state after it is familiar
    have hnext : v.Familiar m (before, (asked ++ [shownAt m above self before], s')) := by
      refine ⟨hbefore, fun a ha => ?_⟩
      rcases List.mem_append.1 ha with ha | ha
      · exact hasked a ha
      · rw [List.mem_singleton.1 ha]
        exact hshown
    cases r with
    | error f =>
      rw [grow_of_fault m c.noted hchoose]
      exact ⟨hnext, fun g hg => hfault g (congrArg Except.error (Except.error.inj hg))⟩
    | ok b =>
      have hb := hok b rfl
      rw [grow_of_fits m c.noted (hv.fits_of_allows hi hb) hchoose]
      have hbelow : ∀ t ∈ b.symbols, Keeps (v.Familiar m) F (growNext m c.noted fuel (self :: above) t) := by
        intro t ht
        refine keeps_growNext (fun x hx => hv.value_of_allows hb (hx ▸ ht)) fun hti => ?_
        refine ih hti (hv.knows_of_allows hb ht hti) fun u hu => ?_
        rcases List.mem_cons.1 hu with rfl | hu
        · rw [Symbol.simple_of_isInner hi]
          exact hself.1
        · exact habove u hu
      exact ((Keeps.mapM hbelow).bind fun ps => Keeps.pure _) _ hnext

theorem growWithin_recognized (hv : v.Closed) (hm : 1 ≤ m.ancestors) (hc : v.Guides m F c) (hend : F .endless)
    (hroot : v.Knows (.node "Module")) {limit : Nat} {s s' : σ} {r : Except Fault Part} {values : List Literal}
    {asked : List Surroundings} (h : growWithin limit m c.noted ([], s) = (r, values, (asked, s'))) :
    (∀ a ∈ asked, v.Recognizes m a) ∧ ∀ f, r = .error f → F f := by
  have hkeeps := keeps_grow hv hm hc hend limit rfl hroot (fun _ hs => absurd hs List.not_mem_nil) ([], ([], s))
    ⟨fun _ hx => absurd hx List.not_mem_nil, fun _ ha => absurd ha List.not_mem_nil⟩
  rw [growWithin] at h
  generalize (grow m c.noted limit [] (.node "Module")).run ([], ([], s)) = run at h hkeeps
  rcases run with ⟨r', before, asked', s''⟩
  obtain ⟨rfl, -, rfl, -⟩ : r' = r ∧ before.reverse = values ∧ asked' = asked ∧ s'' = s' := by simpa using h
  exact ⟨hkeeps.1.2, hkeeps.2⟩

end Vocabulary

/-! ## Models of a corpus -/

variable {α : Type} [Scalar α]

/-- A model made from a corpus, which may have been trained on any pairs since. -/
inductive Model.Built (st : Settings α) (pairs : List Pair) : Model α → Prop
  | start {σ : Type} [Draws σ] {m : Model α} {g g' : σ} : Model.start st pairs g = .ok (m, g') → Model.Built st pairs m
  | train {σ : Type} [Draws σ] {m m' : Model α} {more : List Pair} {g g' : σ} : Model.Built st pairs m →
      m.train more g = .ok (m', g') → Model.Built st pairs m'

def Weights.Marked (w : Weights α) (m : Memory) : Prop :=
  w.innerMarks.length = m.ancestors.toNat ∧ w.terminalMarks.length = m.terminals.toNat

structure Model.Frame (st : Settings α) (v : Vocabulary) (m : Model α) : Prop where
  settings : m.settings = st
  vocabulary : m.vocabulary = v
  marked : m.weights.Marked st.memory

theorem length_startOfMarks {size : Nat} {count : Int} {marks : Matrix α} (h : startOfMarks size count = .ok marks) :
    marks.length = count.toNat := by
  rw [startOfMarks] at h
  split at h
  · exact nomatch h
  · rw [← Except.ok.inj h, List.length_replicate]

theorem Model.frame_of_start {σ : Type} [Draws σ] {st : Settings α} {pairs : List Pair} {m : Model α} {g g' : σ}
    (h : Model.start st pairs g = .ok (m, g')) : m.Frame st (Vocabulary.ofPairs st.words st.memory pairs g).1 := by
  rw [Model.start] at h
  obtain ⟨-, -, h⟩ := bind_eq_ok h
  obtain ⟨w, hw, h⟩ := bind_eq_ok h
  obtain ⟨rfl, -⟩ := Prod.mk.inj (Except.ok.inj h)
  rw [Weights.start] at hw
  obtain ⟨inner, hinner, hw⟩ := bind_eq_ok hw
  obtain ⟨terminals, hterminals, hw⟩ := bind_eq_ok hw
  obtain rfl := Except.ok.inj hw
  exact ⟨rfl, rfl, length_startOfMarks hinner, length_startOfMarks hterminals⟩

omit [Scalar α] in
theorem check_eq_ok {c : Context} {w : Weights α} {u : Unit} (h : c.check w = .ok u) :
    c.inner.length = w.innerMarks.length ∧ c.terminals.length = w.terminalMarks.length := by
  rw [Context.check, ensure] at h
  split at h
  · next hlen => simpa using hlen
  · exact nomatch h

theorem Model.Frame.learn {σ : Type} [Draws σ] {st : Settings α} {v : Vocabulary} {m m' : Model α}
    {words : List Nat} {alpha : α} {t : PartialTree} {g g' : σ} (hm : m.Frame st v)
    (h : m.learn words alpha t g = .ok (m', g')) : m'.Frame st v := by
  rw [Model.learn] at h
  obtain ⟨c, -, h⟩ := bind_eq_ok h
  obtain ⟨p, -, h⟩ := bind_eq_ok h
  obtain ⟨right, -, h⟩ := bind_eq_ok h
  obtain ⟨drawn, -, h⟩ := bind_eq_ok h
  dsimp only at h
  split at h
  · obtain ⟨rfl, -⟩ := Prod.mk.inj (Except.ok.inj h)
    exact hm
  · obtain ⟨_, hcheck, h⟩ := bind_eq_ok h
    obtain ⟨_, -, h⟩ := bind_eq_ok h
    obtain ⟨_, -, h⟩ := bind_eq_ok h
    obtain ⟨_, -, h⟩ := bind_eq_ok h
    obtain ⟨rfl, -⟩ := Prod.mk.inj (Except.ok.inj h)
    obtain ⟨hinner, hterminals⟩ := check_eq_ok hcheck
    obtain ⟨hi, ht⟩ := hm.marked
    refine ⟨hm.settings, hm.vocabulary, ?_, ?_⟩
    · simp only [Weights.learn, List.length_zipWith, List.length_map, rowsAt]
      omega
    · simp only [Weights.learn, List.length_zipWith, List.length_map, rowsAt]
      omega

theorem Model.Frame.learnPair {σ : Type} [Draws σ] {st : Settings α} {v : Vocabulary} {s s' : Model α × σ}
    {alpha : α} {p : Pair} (hm : s.1.Frame st v) (h : Model.learnPair alpha s p = .ok s') : s'.1.Frame st v := by
  rw [Model.learnPair] at h
  dsimp only at h
  split at h
  · rw [← Except.ok.inj h]
    exact hm
  · refine foldlM_keeps (P := fun b : Model α × σ => b.1.Frame st v) ?_ ?_ h
    · exact fun b t b' hb hlearn => hb.learn hlearn
    · exact hm

theorem Model.Frame.train {σ : Type} [Draws σ] {st : Settings α} {v : Vocabulary} {m m' : Model α}
    {more : List Pair} {g g' : σ} (hm : m.Frame st v) (h : m.train more g = .ok (m', g')) : m'.Frame st v := by
  rw [Model.train] at h
  obtain ⟨_, -, h⟩ := bind_eq_ok h
  split at h
  · exact nomatch h
  · refine foldlM_keeps (P := fun b : Model α × σ => b.1.Frame st v) ?_ hm h
    intro b j b' hb hwork
    refine foldlM_keeps (P := fun b : Model α × σ => b.1.Frame st v) ?_ hb hwork
    intro c p c' hc hlearn
    exact hc.learnPair hlearn

theorem Model.Built.frame {st : Settings α} {pairs : List Pair} {m : Model α} (h : m.Built st pairs) :
    ∃ v, Vocabulary.OfCorpus st.words st.memory pairs v ∧ m.Frame st v := by
  induction h with
  | start h => exact ⟨_, Vocabulary.ofCorpus_ofPairs _ _ _ _, Model.frame_of_start h⟩
  | train _ h ih =>
    obtain ⟨v, hv, hframe⟩ := ih
    exact ⟨v, hv, hframe.train h⟩

/-! ## Writing -/

theorem length_padded_iff {count : Int} {ns : List Nat} :
    (padded count ns).length = count.toNat ↔ ns.length ≤ count.toNat := by
  rw [padded, List.length_append, List.length_replicate]
  omega

theorem Model.draw_of_check {σ : Type} [Draws σ] {m : Model α} {c : Context} (h : c.check m.weights = .ok ())
    (entries : List Nat) (g : σ) : ∃ i g', m.draw c entries g = (.ok i, g') := by
  rw [Model.draw, h]
  dsimp only
  split
  · exact ⟨_, _, rfl⟩
  · exact ⟨_, _, rfl⟩

omit [Scalar α] in
theorem Model.Frame.check {st : Settings α} {v : Vocabulary} {m : Model α} (hm : m.Frame st v)
    {around : Surroundings} (hr : v.Recognizes st.memory around) (words : List Nat) :
    Context.check ⟨padded st.memory.ancestors (around.ancestors.filterMap v.innerNumber?),
      padded st.memory.terminals (around.terminals.reverse.filterMap v.terminalNumber?), words⟩ m.weights = .ok () := by
  have hinner : (around.ancestors.filterMap v.innerNumber?).length ≤ st.memory.ancestors.toNat :=
    Nat.le_trans (List.length_filterMap_le _ _) hr.fewAncestors
  have hterminals : (around.terminals.reverse.filterMap v.terminalNumber?).length ≤ st.memory.terminals.toNat :=
    Nat.le_trans (List.length_filterMap_le _ _) (by rw [List.length_reverse]; exact hr.fewTerminals)
  rw [Context.check, length_padded_iff.2 hinner, length_padded_iff.2 hterminals, hm.marked.1, hm.marked.2]
  simp [ensure]

theorem Model.Frame.chooser_run {σ : Type} [Draws σ] {st : Settings α} {v : Vocabulary} {m : Model α}
    (hm : m.Frame st v) {around : Surroundings} (hr : v.Recognizes st.memory around) {words : List Nat}
    (hw : words.isEmpty = false) (g : σ) :
    ∃ (p : Production) (i : Nat) (g' : σ), v.production? around.parent = some p ∧
      (m.chooser words around).run g = (orFault (p.children[i]?.map Prod.fst) .outOfRange, g') := by
  have hcheck := hm.check hr words
  obtain ⟨rfl, rfl, -⟩ := hm
  obtain ⟨p, hp⟩ := Option.isSome_iff_exists.1 hr.parent.2
  obtain ⟨i, g', hdraw⟩ := m.draw_of_check hcheck p.entries g
  refine ⟨p, i, g', hp, ?_⟩
  have hknown : (ExceptT.mk (pure (known around.parent.simple (m.vocabulary.production? around.parent.simple))) :
      ExceptT Fault (StateM σ) Production).run g = (.ok p, g) := by
    rw [Symbol.simple_of_isInner hr.inner, hp]
    rfl
  rw [Model.chooser, hw]
  refine (Stateful.run_bind_ok hknown).trans ?_
  exact Stateful.run_bind_ok hdraw

theorem Model.Frame.guides {σ : Type} [Draws σ] {st : Settings α} {v : Vocabulary} {m : Model α}
    (hm : m.Frame st v) (words : List Nat) :
    v.Guides st.memory (fun f => f = .endless ∨ f = .outOfRange) (m.chooser words : Chooser σ) := by
  intro around hr g
  cases hw : words.isEmpty with
  | true =>
    have hrun : (m.chooser words around).run g = (.ok (.many []), g) := by
      rw [Model.chooser, hw]
      rfl
    rw [hrun]
    exact ⟨fun b hb => Or.inl (Except.ok.inj hb).symm, fun f hf => nomatch hf⟩
  | false =>
    obtain ⟨p, i, g', hp, hrun⟩ := hm.chooser_run hr hw g
    rw [hrun]
    cases hi : p.children[i]? with
    | none => exact ⟨fun b hb => (nomatch hb), fun f hf => Or.inr (Except.error.inj hf).symm⟩
    | some c =>
      refine ⟨fun b hb => Or.inr ⟨p, List.mem_of_find?_eq_some hp, ?_, c, List.mem_of_getElem? hi, ?_⟩,
        fun f hf => nomatch hf⟩
      · have hsame := List.find?_some hp
        exact Symbol.eq_of_same hr.inner hsame
      · exact Except.ok.inj hb

/-! ## Programs from a corpus of programs -/

def ofPrograms (pairs : List Pair) : Prop := ∀ p ∈ pairs, ∃ t : Tree, t.IsProgram ∧ Part.ofTree t = .ok p.tree

theorem covering_corpusTrees {m : Memory} {pairs : List Pair} (hp : ofPrograms pairs) (hk : 1 ≤ m.terminals) :
    Covering (Vocabulary.corpusTrees m pairs) := by
  refine Covering.flatMap fun p h => ?_
  obtain ⟨t, ht, hpt⟩ := hp p h
  exact covering_partialTrees ht hpt hk

theorem knows_module {rules : WordRules α} {m : Memory} {pairs : List Pair} {v : Vocabulary}
    (hv : Vocabulary.OfCorpus rules m pairs v) (hp : ofPrograms pairs) (hne : pairs ≠ []) : v.Knows (.node "Module") := by
  obtain ⟨p, h⟩ := List.exists_mem_of_ne_nil _ hne
  obtain ⟨t, ht, hpt⟩ := hp p h
  have hr := Part.regular_of_ofTree ht.1 hpt
  obtain ⟨items, hparts⟩ := ht.parts hpt
  have hroot : p.tree.symbol = .node "Module" := by rw [hparts]; rfl
  have hmem : p.tree.here m [] [] ∈ Vocabulary.corpusTrees m pairs :=
    List.mem_flatMap.2 ⟨p, h, hr.here_mem m [] []⟩
  rw [← hroot]
  exact hv.knows hmem (by rw [Part.here, hroot]; rfl)

theorem Model.write_eq {σ : Type} [Draws σ] (m : Model α) (utterance : String) (g : σ) {words : List Nat} {g' : σ}
    (h : m.vocabulary.wordsOf α m.settings.words.nullWord utterance g = (words, g')) :
    m.write utterance g = ((growModule m.settings.memory (m.chooser words) g').1,
      (growModule m.settings.memory (m.chooser words) g').2.2) := by
  rw [Model.write, h]

/-- A model made from programs writes within its vocabulary, whatever is drawn: at every question the part has a
production with entries, and the values and parts that are shown have numbers. Nothing but the depth and a draw
beyond the entries can end the writing. -/
theorem Model.write_asks_known {σ : Type} [Draws σ] {st : Settings α} {pairs : List Pair} {m : Model α}
    (hm : m.Built st pairs) (hk : 1 ≤ st.memory.terminals) (hi : 1 ≤ st.memory.ancestors) (hne : pairs ≠ [])
    (hp : ofPrograms pairs) (utterance : String) (g : σ) (limit : Nat) :
    ∃ r values asked g',
      growWithin limit m.settings.memory
          (m.chooser (m.vocabulary.wordsOf α m.settings.words.nullWord utterance g).1).noted
          ([], (m.vocabulary.wordsOf α m.settings.words.nullWord utterance g).2) = (r, values, (asked, g')) ∧
      (limit = depthLimit → m.write utterance g = (r, g')) ∧
      (∀ a ∈ asked,
        (∃ p, m.vocabulary.production? a.parent = some p ∧ p.children ≠ []) ∧
        (∀ s ∈ a.terminals, (m.vocabulary.terminalNumber? s).isSome) ∧
        ∀ s ∈ a.ancestors, (m.vocabulary.innerNumber? s).isSome) ∧
      ∀ f, r = .error f → f = .endless ∨ f = .outOfRange := by
  obtain ⟨v, hv, hframe⟩ := hm.frame
  obtain rfl := hframe.vocabulary
  have hclosed : m.vocabulary.Closed := hv.closed (covering_corpusTrees hp hk)
  have hroot : m.vocabulary.Knows (.node "Module") := knows_module hv hp hne
  rcases hwords : m.vocabulary.wordsOf α m.settings.words.nullWord utterance g with ⟨words, start⟩
  have hguides : m.vocabulary.Guides m.settings.memory (fun f => f = .endless ∨ f = .outOfRange)
      (m.chooser words : Chooser σ) := by
    rw [hframe.settings]
    exact hframe.guides words
  obtain ⟨asked, hrun⟩ := growWithin_noted limit m.settings.memory (m.chooser words) start
  obtain ⟨hasked, hfault⟩ := Vocabulary.growWithin_recognized hclosed (by rw [hframe.settings]; exact hi) hguides
    (Or.inl rfl) hroot hrun
  refine ⟨_, _, asked, _, hrun, ?_, fun a ha => ?_, hfault⟩
  · rintro rfl
    exact m.write_eq utterance g hwords
  · obtain ⟨p, hp⟩ := Option.isSome_iff_exists.1 (hasked a ha).parent.2
    have hentries := hclosed.entries p (List.mem_of_find?_eq_some hp)
    exact ⟨⟨p, hp, hentries⟩, (hasked a ha).terminals, (hasked a ha).ancestors⟩

def nameTree (name : String) : Tree :=
  .node "Module" none [
    ("body", .list [.node "Expr" none [
      ("value", .node "Name" none [("id", .lit (.text name)), ("ctx", .node "Load" none [])])]]),
    ("type_ignores", .list [])]

def namePart (name : String) : Part :=
  .node "Module" [
    .many "body" [.node "Expr" [
      .one "value" (.node "Name" [.one "id" (.leaf (.text name)), .one "ctx" (.node "Load" [])])]],
    .many "type_ignores" []]

def twoNames : List Pair := [⟨"first", namePart "a"⟩, ⟨"second", namePart "b"⟩]

def shortMemory : Settings Float where
  size := 1
  alpha := one
  leastAlpha := one
  words := ⟨none, none, none, false, true⟩
  seed := 1
  negative := 5
  rounds := 1
  batch := 100
  additive := true
  memory := ⟨1, 2⟩
  rows := default

theorem Model.write_asks_known_twoNames :
    ofPrograms twoNames ∧ ∃ m : Model Float, m.Built shortMemory twoNames ∧
      ∃ r values asked g',
        growWithin depthLimit m.settings.memory
            (m.chooser (m.vocabulary.wordsOf Float m.settings.words.nullWord "first" (Generator.ofSeed 1)).1).noted
            ([], (m.vocabulary.wordsOf Float m.settings.words.nullWord "first" (Generator.ofSeed 1)).2) =
          (r, values, (asked, g')) ∧
        m.write "first" (Generator.ofSeed 1) = (r, g') ∧
        (∀ a ∈ asked,
          (∃ p, m.vocabulary.production? a.parent = some p ∧ p.children ≠ []) ∧
          (∀ s ∈ a.terminals, (m.vocabulary.terminalNumber? s).isSome) ∧
          ∀ s ∈ a.ancestors, (m.vocabulary.innerNumber? s).isSome) ∧
        ∀ f, r = .error f → f = .endless ∨ f = .outOfRange := by
  have hprograms : ofPrograms twoNames := by
    intro p hp
    rcases List.mem_cons.1 hp with rfl | hp
    · exact ⟨nameTree "a", ⟨by decide, none, _, rfl⟩, rfl⟩
    · obtain rfl := List.mem_singleton.1 hp
      exact ⟨nameTree "b", ⟨by decide, none, _, rfl⟩, rfl⟩
  have hstart : ∃ r, Model.start shortMemory twoNames (Generator.ofSeed 1) = .ok r := ⟨_, rfl⟩
  obtain ⟨⟨m, rest⟩, hm⟩ := hstart
  obtain ⟨r, values, asked, g', hrun, hwrite, hasked, hfault⟩ := Model.write_asks_known (.start hm) (by decide)
    (by decide) (List.cons_ne_nil _ _) hprograms "first" (Generator.ofSeed 1) depthLimit
  exact ⟨hprograms, m, .start hm, r, values, asked, g', hrun, hwrite rfl, hasked, hfault⟩

end Models.Productions

end PlotAdvisor
