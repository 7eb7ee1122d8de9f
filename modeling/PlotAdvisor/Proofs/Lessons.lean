import PlotAdvisor.Proofs.Drawn
import PlotAdvisor.Proofs.Floats
import PlotAdvisor.Proofs.Writing

/-! Lessons from the corpus of a model. Whatever has been learned from the corpus so far, and whatever is drawn, every
partial tree of the corpus can be learned from: its surroundings and what is below it have numbers, all numbers have
rows, and there are as many labels as entries. Only the draws of wrong entries may never end. -/
set_option autoImplicit false

namespace PlotAdvisor

namespace Program

theorem Memory.nearest_subset (m : Memory) (above : List Symbol) : m.nearest above ⊆ above := by
  rw [Memory.nearest]
  split
  · exact List.Subset.refl above
  · exact List.take_subset _ _

theorem Part.exists_parent_of_ancestor {m : Memory} {above : List Symbol} {before : List Literal} {p : Part}
    {t : PartialTree} (ht : t ∈ (p.partialsFrom m above before).1) {s : Symbol} (hs : s ∈ t.ancestors) :
    s ∈ above ∨ ∃ u ∈ (p.partialsFrom m above before).1, u.parent = s := by
  induction p using inductionOn generalizing above before with
  | h p ih =>
    cases hp : p.isInner with
    | true =>
      rw [partialsFrom_eq m above before hp] at ht ⊢
      rcases List.mem_cons.1 ht with rfl | ht
      · exact Or.inl (m.nearest_subset above hs)
      · obtain ⟨q, hq, b, ht, hsub⟩ := mem_partialsFromAll ht
        rcases ih q hq ht with habove | ⟨u, hu, hus⟩
        · rcases List.mem_cons.1 habove with rfl | habove
          · exact Or.inr ⟨p.here m above before, List.mem_cons_self, rfl⟩
          · exact Or.inl habove
        · exact Or.inr ⟨u, List.mem_cons_of_mem _ (hsub hu), hus⟩
    | false =>
      cases p with
      | bare name => simp [partialsFrom] at ht
      | leaf v => simp [partialsFrom] at ht
      | _ => simp [isInner] at hp

end Program

namespace Models.Productions

open Program Scalar

variable {α : Type} [Scalar α]

/-! ## Surroundings -/

theorem numberIn?_lt {ss : List Symbol} {s : Symbol} : (Vocabulary.numberIn? ss s).getD 0 < ss.length + 1 := by
  cases h : Vocabulary.numberIn? ss s with
  | none => exact Nat.succ_pos _
  | some n =>
    obtain ⟨i, hi, rfl⟩ := Option.map_eq_some_iff.1 h
    obtain ⟨hlt, -⟩ := List.findIdx?_eq_some_iff_getElem.1 hi
    exact Nat.succ_lt_succ hlt

theorem known_of_isSome {s : Symbol} {x : Option Nat} (h : x.isSome = true) : known s x = .ok (x.getD 0) := by
  obtain ⟨n, rfl⟩ := Option.isSome_iff_exists.1 h
  rfl

theorem lt_of_mem_padded {count : Int} {ns : List Nat} {bound : Nat} (h : ∀ n ∈ ns, n < bound) (hb : 0 < bound) :
    ∀ n ∈ padded count ns, n < bound := by
  intro n hn
  rcases List.mem_append.1 hn with hn | hn
  · exact h n hn
  · rw [List.eq_of_mem_replicate hn]
    exact hb

variable {st : Settings α} {pairs : List Pair} {v : Vocabulary} {t : PartialTree}

theorem Vocabulary.OfCorpus.innerNumber_of_ancestor (hv : OfCorpus st.words st.memory pairs v)
    (ht : t ∈ corpusTrees st.memory pairs) {s : Symbol} (hs : s ∈ t.ancestors) :
    (v.innerNumber? s.simple).isSome = true := by
  obtain ⟨p, hp, ht⟩ := List.mem_flatMap.1 ht
  obtain ⟨u, hu, rfl⟩ := (Part.exists_parent_of_ancestor ht hs).resolve_left List.not_mem_nil
  have hu : u ∈ corpusTrees st.memory pairs := List.mem_flatMap.2 ⟨p, hp, hu⟩
  have hi := isInner_of_corpusTrees hu
  rw [Symbol.simple_of_isInner hi]
  exact (hv.knows hu hi).1

theorem Vocabulary.OfCorpus.exists_context (hv : OfCorpus st.words st.memory pairs v) (hi : 1 ≤ st.memory.ancestors)
    (ht : t ∈ corpusTrees st.memory pairs) {words : List Nat} (hw : ∀ n ∈ words, n < v.wordCount) :
    ∃ c, v.context st.memory words t = .ok c ∧ c.words = words ∧ c.Within st v := by
  obtain ⟨p, -, hseen⟩ := List.mem_flatMap.1 ht
  have hseen := Part.seenWith_of_mem hseen
  have hterminals : t.terminals.reverse.mapM (fun s => known s.simple (v.terminalNumber? s.simple)) =
      .ok (t.terminals.reverse.map fun s => (v.terminalNumber? s.simple).getD 0) :=
    mapM_eq_ok fun s hs => known_of_isSome (hv.terminalNumber ht (List.mem_reverse.1 hs))
  have hinner : t.ancestors.mapM (fun s => known s.simple (v.innerNumber? s.simple)) =
      .ok (t.ancestors.map fun s => (v.innerNumber? s.simple).getD 0) :=
    mapM_eq_ok fun s hs => known_of_isSome (hv.innerNumber_of_ancestor ht hs)
  refine ⟨⟨_, _, words⟩, by rw [context, hterminals, hinner]; rfl, rfl, ?_⟩
  refine ⟨length_padded_iff.2 ?_, lt_of_mem_padded ?_ (Nat.succ_pos _), length_padded_iff.2 ?_,
    lt_of_mem_padded ?_ (Nat.succ_pos _), hw⟩
  · rw [List.length_map]
    exact hseen.ancestors.2 fun h => by omega
  · intro n hn
    obtain ⟨s, -, rfl⟩ := List.mem_map.1 hn
    exact numberIn?_lt
  · rw [List.length_map, List.length_reverse]
    exact hseen.terminals
  · intro n hn
    obtain ⟨s, -, rfl⟩ := List.mem_map.1 hn
    exact numberIn?_lt

theorem Production.holds_of_entry? {p : Production} {b : Below} {n : Nat} (h : p.entry? b = some n) : p.Holds n := by
  obtain ⟨i, hi, rfl⟩ := Option.map_eq_some_iff.1 h
  obtain ⟨hlt, -⟩ := List.findIdx?_eq_some_iff_getElem.1 hi
  exact ⟨by omega, by omega⟩

theorem Vocabulary.OfCorpus.exists_entry (hv : OfCorpus st.words st.memory pairs v)
    (ht : t ∈ corpusTrees st.memory pairs) :
    ∃ p ∈ v.productions, v.production? t.parent.simple = some p ∧ ∃ right, p.entry? t.children.simple = some right := by
  obtain ⟨ts, hts, rfl⟩ := hv
  obtain ⟨right, hright⟩ : ∃ n, (Vocabulary.ofTrees st.words (pairs.map (·.utterance)) ts).entryNumber?
      t.parent.simple t.children.simple = some n :=
    exists_entryNumber?_iff.2 ⟨t, hts.mem_iff.2 ht, Symbol.same_self _, Below.same_iff.2 rfl⟩
  obtain ⟨p, hp, hentry⟩ := Option.bind_eq_some_iff.1 hright
  exact ⟨p, List.mem_of_find?_eq_some hp, hp, right, hentry⟩

theorem Vocabulary.OfCorpus.block_le (hv : OfCorpus st.words st.memory pairs v) {p : Production}
    (hp : p ∈ v.productions) {n : Nat} (hn : p.Holds n) : p.offset + p.children.length ≤ v.entryCount := by
  obtain ⟨ts, -, rfl⟩ := hv
  have hlast : p.Holds (p.offset + p.children.length - 1) := by
    have := hn.1
    have := hn.2
    exact ⟨by omega, by omega⟩
  have hlt := exists_holds_productions_iff.1 ⟨p, hp, hlast⟩
  omega

/-- The words that are kept of an utterance have rows. -/
theorem Vocabulary.OfCorpus.wordsOf_lt (hα : NeverBelowZero α) (hv : OfCorpus st.words st.memory pairs v) {σ : Type}
    [Draws σ] (utterance : String) (g : σ) : ∀ n ∈ (v.wordsOf α st.words.nullWord utterance g).1, n < v.wordCount := by
  obtain ⟨ws, hws, hwords⟩ := exists_wordsOfCorpus st.words (pairs.map fun p => p.utterance)
  obtain ⟨ts, -, rfl⟩ := hv
  exact Productions.wordsOf_lt hα hws hwords utterance g

/-! ## Labels -/

omit [Scalar α] in
theorem firstLabels_eq {labels : List α} {count : Nat} (htwo : 2 ≤ count) (h : (labels.take count).length = count) :
    firstLabels labels count = .ok (labels.take count) := by
  unfold firstLabels
  split
  · next label hone =>
    rw [hone, List.length_singleton] at h
    omega
  · rw [if_pos h]

/-! ## Draws that are not below zero -/

theorem neverBelowZero_float : NeverBelowZero Float := by
  intro n
  have hdraw := Decimal.unsigned_div (Decimal.unsigned_ofNat n) (Decimal.unsigned_ofNat Generator.period)
  exact decide_eq_false (Decimal.not_lt_zero (Decimal.unsigned_mul hdraw (Decimal.unsigned_ofNat keepAlways)))

/-! ## Models that learn from their corpus -/

inductive Model.Taught (st : Settings α) (pairs : List Pair) : Model α → Prop
  | start {σ : Type} [Draws σ] {m : Model α} {g g' : σ} : Model.start st pairs g = .ok (m, g') → Model.Taught st pairs m
  | learn {σ : Type} [Draws σ] {m m' : Model α} {utterance : String} {t : PartialTree} {alpha : α} {g₀ g g' : σ} :
      Model.Taught st pairs m → t ∈ Vocabulary.corpusTrees st.memory pairs →
      m.learn (m.vocabulary.wordsOf α m.settings.words.nullWord utterance g₀).1 alpha t g = .ok (m', g') →
      Model.Taught st pairs m'

/-- What the start gives and every lesson keeps: settings, vocabulary and shape, and tables that are complete. -/
structure Model.Ready (st : Settings α) (pairs : List Pair) (m : Model α) : Prop where
  settings : m.settings = st
  vocabulary : Vocabulary.OfCorpus st.words st.memory pairs m.vocabulary
  shaped : m.weights.Shaped st m.vocabulary
  complete : ∀ p ∈ m.vocabulary.productions, p.Complete α st.negative

/-- A loop that goes through has gone through at every item. -/
theorem forIn_eq_ok {ps : List Production} {f : Production → Except Fault (ForInStep Unit)} {u : Unit}
    (h : forIn ps () (fun p _ => f p) = .ok u) (hf : ∀ p r, f p = .ok r → r = .yield ()) :
    ∀ p ∈ ps, ∃ r, f p = .ok r := by
  induction ps with
  | nil => exact fun p hp => absurd hp List.not_mem_nil
  | cons p ps ih =>
    rw [List.forIn_cons] at h
    obtain ⟨r, hr, h⟩ := bind_eq_ok h
    rw [List.forall_mem_cons]
    refine ⟨⟨r, hr⟩, ih ?_⟩
    rw [hf p r hr] at h
    exact h

theorem getLast?_of_ensure {table : List Int} (hne : table ≠ []) {whole : Int} {u : Unit}
    (h : ensure (table.getLast?.all (· == whole)) "" = .ok u) : table.getLast? = some whole := by
  rw [ensure] at h
  split at h
  · next hall =>
    rw [List.getLast?_eq_some_getLast hne] at hall ⊢
    simpa using hall
  · cases h

theorem complete_of_ensure {p : Production} {negative : Int} {u : Unit} (hne : p.children ≠ [])
    (h : ensure ((p.shares α).getLast?.all (· == (shareDomain : Int))) "" = .ok u) : p.Complete α negative := by
  intro _
  refine getLast?_of_ensure ?_ h
  rw [← List.length_pos_iff, length_shares]
  exact List.length_pos_of_ne_nil hne

theorem Model.ready_of_start {σ : Type} [Draws σ] {m : Model α} {g g' : σ} (h : Model.start st pairs g = .ok (m, g')) :
    m.Ready st pairs := by
  have hv := Vocabulary.ofCorpus_ofPairs st.words st.memory pairs g
  rw [Model.start] at h
  obtain ⟨u, htables, h⟩ := bind_eq_ok h
  obtain ⟨w, hw, h⟩ := bind_eq_ok h
  obtain ⟨rfl, -⟩ := Prod.mk.inj (Except.ok.inj h)
  refine ⟨rfl, hv, Weights.shaped_of_start hw, fun p hp hdrawn => ?_⟩
  have hpassed := forIn_eq_ok htables (fun p r hr => by
    split at hr
    · obtain ⟨_, -, hr⟩ := bind_eq_ok hr
      exact (Except.ok.inj hr).symm
    · exact (Except.ok.inj hr).symm) p hp
  obtain ⟨r, hr⟩ := hpassed
  rw [if_pos hdrawn] at hr
  obtain ⟨_, hensure, -⟩ := bind_eq_ok hr
  exact complete_of_ensure (hv.children_ne_nil hp) hensure hdrawn

/-! ## Lessons -/

/-- The numbers that a lesson looks up: those of the surroundings, as many as the memory holds, each with a row; and that
of the right entry, in the block of the parent's production, whose entries all have rows. -/
structure Lesson (m : Model α) (words : List Nat) (t : PartialTree) (c : Context) (p : Production) (right : Nat) :
    Prop where
  context : m.vocabulary.context m.settings.memory words t = .ok c
  production : m.vocabulary.production? t.parent.simple = some p
  entry : p.entry? t.children.simple = some right
  ancestors : c.inner.length = m.settings.memory.ancestors.toNat ∧ c.inner.length = m.weights.innerMarks.length ∧
    ∀ n ∈ c.inner, n < m.weights.inner.length
  terminals : c.terminals.length = m.settings.memory.terminals.toNat ∧
    c.terminals.length = m.weights.terminalMarks.length ∧ ∀ n ∈ c.terminals, n < m.weights.terminals.length
  words : c.words = words ∧ ∀ n ∈ words, n < m.weights.words.length
  block : p.offset ≤ right ∧ right < p.offset + p.children.length
  rows : p.offset + p.children.length ≤ m.weights.entries.length ∧
    p.offset + p.children.length ≤ m.weights.biases.length

section Run

variable {σ : Type} [Draws σ] {m : Model α}

namespace Lesson

variable {words : List Nat} {c : Context} {p : Production} {right : Nat}

theorem learn_eq (h : Lesson m words t c p right) (alpha : α) (g : σ) :
    m.learn words alpha t g = (wrongEntries α p m.settings.negative right g >>= fun drawn =>
      if drawn.1.isEmpty then .ok (m, drawn.2) else do
        c.check m.weights
        m.weights.reach c (right :: drawn.1)
        let labels ← firstLabels (← labelsFor m.settings.negative) (drawn.1.length + 1)
        return ({ m with weights := m.weights.learn m.settings c right drawn.1 labels alpha }, drawn.2)) := by
  have hproduction : known t.parent.simple (m.vocabulary.production? t.parent.simple) = .ok p := by
    rw [h.production]
    rfl
  have hentry : known t.parent.simple (p.entry? t.children.simple) = .ok right := by
    rw [h.entry]
    rfl
  rw [Model.learn, h.context]
  simp only [Bind.bind, Except.bind, hproduction, hentry]
  rfl

/-- With wrong entries a lesson goes through. -/
theorem learn_of_contrast (h : Lesson m words t c p right) {wrong : List Nat} {g g' : σ}
    (hwrong : wrongEntries α p m.settings.negative right g = .ok (wrong, g'))
    (hcontrast : Contrast α p m.settings.negative right wrong) (alpha : α) :
    ∃ w, m.learn words alpha t g = .ok ({ m with weights := w }, g') ∧
      (w = m.weights ∨ ∃ labels, w = m.weights.learn m.settings c right wrong labels alpha) := by
  rw [h.learn_eq alpha g, hwrong]
  cases wrong with
  | nil => exact ⟨m.weights, rfl, Or.inl rfl⟩
  | cons n ns =>
    obtain ⟨labels, hlabels, hlength⟩ := hcontrast.labels (List.cons_ne_nil n ns)
    have hcheck : c.check m.weights = .ok () := by
      rw [Context.check, h.ancestors.2.1, h.terminals.2.1]
      simp [ensure]
    have hreach : m.weights.reach c (right :: n :: ns) = .ok () := by
      have hentries : ∀ k ∈ right :: n :: ns, k < m.weights.entries.length ∧ k < m.weights.biases.length := by
        have hrows := h.rows
        rw [List.forall_mem_cons]
        refine ⟨?_, fun k hk => ?_⟩
        · have := h.block.2
          omega
        · have := (hcontrast.block k hk).2
          omega
      rw [Weights.reach, if_pos]
      simp only [Bool.and_eq_true, List.all_eq_true, decide_eq_true_eq, h.words.1]
      exact ⟨⟨⟨⟨h.ancestors.2.2, h.terminals.2.2⟩, h.words.2⟩, fun k hk => (hentries k hk).1⟩,
        fun k hk => (hentries k hk).2⟩
    have hfirst := firstLabels_eq (by simp) hlength
    refine ⟨_, ?_, Or.inr ⟨labels.take (right :: n :: ns).length, rfl⟩⟩
    exact bind_ok_iff.2 ⟨_, rfl, bind_ok_iff.2 ⟨(), hcheck, bind_ok_iff.2 ⟨(), hreach, bind_ok_iff.2 ⟨labels, hlabels,
      bind_ok_iff.2 ⟨_, hfirst, rfl⟩⟩⟩⟩⟩

theorem learn_of_unending (h : Lesson m words t c p right) {g : σ}
    (hwrong : wrongEntries α p m.settings.negative right g = .error .unending) (alpha : α) :
    m.learn words alpha t g = .error .unending := by
  rw [h.learn_eq alpha g, hwrong]
  rfl

end Lesson

namespace Model.Ready

theorem exists_lesson (hα : NeverBelowZero α) (hm : m.Ready st pairs) (hi : 1 ≤ st.memory.ancestors)
    (ht : t ∈ Vocabulary.corpusTrees st.memory pairs) (utterance : String) (g₀ : σ) :
    ∃ c p right, Lesson m (m.vocabulary.wordsOf α m.settings.words.nullWord utterance g₀).1 t c p right ∧
      p ∈ m.vocabulary.productions ∧ c.Within st m.vocabulary := by
  obtain ⟨rfl, hv, hshaped, -⟩ := hm
  have hrows := hv.wordsOf_lt hα utterance g₀
  obtain ⟨c, hc, hcw, hwithin⟩ := hv.exists_context hi ht hrows
  obtain ⟨p, hp, hproduction, right, hright⟩ := hv.exists_entry ht
  have hholds := Production.holds_of_entry? hright
  have hblock := hv.block_le hp hholds
  refine ⟨c, p, right, ⟨hc, hproduction, hright, ?_, ?_, ?_, hholds, ?_⟩, hp, hwithin⟩
  · rw [hshaped.innerMarks.1, hshaped.inner.1]
    exact ⟨hwithin.inner, hwithin.inner, hwithin.innerRows⟩
  · rw [hshaped.terminalMarks.1, hshaped.terminals.1]
    exact ⟨hwithin.terminals, hwithin.terminals, hwithin.terminalRows⟩
  · rw [hshaped.words.1]
    exact ⟨hcw, hrows⟩
  · rw [hshaped.entries.1, hshaped.biases]
    exact ⟨hblock, hblock⟩

/-- A lesson changes the weights only, and they keep their shape. -/
theorem of_learn (hm : m.Ready st pairs) {words : List Nat} {c : Context} {p : Production} {right : Nat}
    (h : Lesson m words t c p right) (hp : p ∈ m.vocabulary.productions) (hwithin : c.Within st m.vocabulary)
    {wrong : List Nat} (hcontrast : Contrast α p st.negative right wrong) {w : Weights α} {alpha : α}
    (hw : w = m.weights ∨ ∃ labels, w = m.weights.learn m.settings c right wrong labels alpha) :
    Model.Ready st pairs { m with weights := w } := by
  refine ⟨hm.settings, hm.vocabulary, ?_, hm.complete⟩
  rcases hw with rfl | ⟨labels, rfl⟩
  · exact hm.shaped
  · have hblock := hm.vocabulary.block_le hp h.block
    have hentries : ∀ n ∈ right :: wrong, n < m.vocabulary.entryCount := by
      rw [List.forall_mem_cons]
      exact ⟨Nat.lt_of_lt_of_le h.block.2 hblock, fun n hn => Nat.lt_of_lt_of_le (hcontrast.block n hn).2 hblock⟩
    rw [hm.settings]
    exact hm.shaped.learn hwithin hentries labels alpha

/-- A lesson from the corpus: all that it looks up is there, and it goes through, or the draws never end. -/
theorem learn (hα : NeverBelowZero α) (hm : m.Ready st pairs) (hi : 1 ≤ st.memory.ancestors)
    (ht : t ∈ Vocabulary.corpusTrees st.memory pairs) (utterance : String) (alpha : α) (g₀ g : σ) :
    let words := (m.vocabulary.wordsOf α m.settings.words.nullWord utterance g₀).1
    ∃ c p right, Lesson m words t c p right ∧ p ∈ m.vocabulary.productions ∧
      ((∃ wrong g' w, wrongEntries α p st.negative right g = .ok (wrong, g') ∧ Contrast α p st.negative right wrong ∧
          m.learn words alpha t g = .ok ({ m with weights := w }, g') ∧ Model.Ready st pairs { m with weights := w }) ∨
        (p.isDrawn st.negative = true ∧
          (∀ j ∈ drawnPlaces (p.shares α) Generator.period g, j < p.children.length) ∧
          ((drawnPlaces (p.shares α) Generator.period g).filter (· != right - p.offset)).length < st.negative ∧
          m.learn words alpha t g = .error .unending)) := by
  intro words
  obtain ⟨c, p, right, hlesson, hp, hwithin⟩ := hm.exists_lesson hα hi ht utterance g₀
  refine ⟨c, p, right, hlesson, hp, ?_⟩
  rcases wrongEntries_cases (hm.complete p hp) hlesson.block g with
    ⟨wrong, g', hwrong, hcontrast⟩ | ⟨hwrong, hdrawn, hplaces, hfew⟩
  · obtain ⟨w, hlearn, hw⟩ := hlesson.learn_of_contrast (by rwa [hm.settings]) (by rwa [hm.settings]) alpha
    exact Or.inl ⟨wrong, g', w, hwrong, hcontrast, hlearn, hm.of_learn hlesson hp hwithin hcontrast hw⟩
  · exact Or.inr ⟨hdrawn, hplaces, hfew, hlesson.learn_of_unending (by rwa [hm.settings]) alpha⟩

end Model.Ready

namespace Model.Taught

theorem ready (hα : NeverBelowZero α) (hi : 1 ≤ st.memory.ancestors) (hm : m.Taught st pairs) : m.Ready st pairs := by
  induction hm with
  | start h => exact Model.ready_of_start h
  | @learn σ _ m m' utterance t alpha g₀ g g' _ ht h ih =>
    obtain ⟨c, p, right, -, -, ⟨wrong, g₁, w, -, -, hlearn, hready⟩ | ⟨-, -, -, hlearn⟩⟩ :=
      ih.learn hα hi ht utterance alpha g₀ g
    · obtain ⟨rfl, -⟩ := Prod.mk.inj (Except.ok.inj (h.symm.trans hlearn))
      exact hready
    · cases h.symm.trans hlearn

/-- Whether draws can go on for ever is told by the vocabulary. -/
def Endless (st : Settings α) (v : Vocabulary) (f : Fault) : Prop :=
  f = .unending ∧ ∃ p ∈ v.productions, p.isDrawn st.negative = true

theorem learnPair (hα : NeverBelowZero α) (hi : 1 ≤ st.memory.ancestors) (hm : m.Taught st pairs) {p : Pair}
    (hp : p ∈ pairs) (alpha : α) (g : σ) :
    Yields (fun r : Model α × σ => r.1.Taught st pairs ∧ r.1.vocabulary = m.vocabulary) (Endless st m.vocabulary)
      (Model.learnPair alpha (m, g) p) := by
  rw [Model.learnPair]
  dsimp only
  split
  · exact ⟨hm, rfl⟩
  · refine Yields.foldlM ?_ ⟨hm, rfl⟩
    rintro ⟨m', g'⟩ ⟨hm', hv⟩ t ht
    -- settings and vocabulary stay, so that the words of the pair are those that the model has now
    have hready := hm'.ready hα hi
    have hsettings : m.settings = m'.settings := (hm.ready hα hi).settings.trans hready.settings.symm
    have ht : t ∈ Vocabulary.corpusTrees st.memory pairs := by
      refine List.mem_flatMap.2 ⟨p, hp, ?_⟩
      rw [← (hm.ready hα hi).settings]
      exact (Draws.arrange_perm _ _).mem_iff.1 ht
    dsimp only at hv ⊢
    rw [← hv, hsettings]
    obtain ⟨c, q, right, -, hq, ⟨wrong, g₁, w, -, -, hlearn, -⟩ | ⟨hdrawn, -, -, hlearn⟩⟩ :=
      hready.learn hα hi ht p.utterance alpha g g'
    · rw [hlearn]
      exact ⟨.learn hm' ht hlearn, rfl⟩
    · rw [hlearn]
      exact ⟨rfl, q, hq, hdrawn⟩

theorem work (hα : NeverBelowZero α) (hi : 1 ≤ st.memory.ancestors) (hm : m.Taught st pairs) {j : Job α}
    (hj : j.pairs ⊆ pairs) (g : σ) :
    Yields (fun r : Model α × σ => r.1.Taught st pairs ∧ r.1.vocabulary = m.vocabulary) (Endless st m.vocabulary)
      (Model.work (m, g) j) := by
  refine Yields.foldlM ?_ ⟨hm, rfl⟩
  rintro ⟨m', g'⟩ ⟨hm', hv⟩ p hp
  dsimp only at hv ⊢
  rw [← hv]
  exact hm'.learnPair hα hi (hj hp) j.alpha g'

end Model.Taught

end Run

/-- Lessons from the corpus, for every model that has learned from its corpus so far, and whatever is drawn. All weights
have their shape. Every partial tree of the corpus makes a lesson with any utterance. The lesson goes through; or its
wrong entries are drawn, and of as many draws as a generator has states, all of them in the block, fewer than asked for
are others than the right one: then the draws count as unending. A job with pairs of the corpus goes through likewise,
or its draws are unending, and this only where some production is drawn from. -/
theorem Model.lessons_in_range {σ : Type} [Draws σ] {st : Settings Float} {pairs : List Pair} {m : Model Float}
    (hm : m.Taught st pairs) (hi : 1 ≤ st.memory.ancestors) :
    m.weights.Shaped st m.vocabulary ∧
    (∀ t ∈ Vocabulary.corpusTrees st.memory pairs, ∀ (utterance : String) (alpha : Float) (g₀ g : σ),
      let words := (m.vocabulary.wordsOf Float st.words.nullWord utterance g₀).1
      ∃ c p right, Lesson m words t c p right ∧
        ((∃ wrong g' m', wrongEntries Float p st.negative right g = .ok (wrong, g') ∧
            Contrast Float p st.negative right wrong ∧ m.learn words alpha t g = .ok (m', g') ∧ m'.Taught st pairs) ∨
          (p.isDrawn st.negative = true ∧
            (∀ j ∈ drawnPlaces (p.shares Float) Generator.period g, j < p.children.length) ∧
            ((drawnPlaces (p.shares Float) Generator.period g).filter (· != right - p.offset)).length < st.negative ∧
            m.learn words alpha t g = .error .unending))) ∧
    ∀ (j : Job Float) (g : σ), j.pairs ⊆ pairs →
      (∃ r, Model.work (m, g) j = .ok r ∧ r.1.Taught st pairs) ∨
        (Model.work (m, g) j = .error .unending ∧ ∃ p ∈ m.vocabulary.productions, p.isDrawn st.negative = true) := by
  have hready := hm.ready neverBelowZero_float hi
  obtain rfl := hready.settings
  refine ⟨hready.shaped, fun t ht utterance alpha g₀ g => ?_, fun j g hj => ?_⟩
  · obtain ⟨c, p, right, hlesson, -, hlearn⟩ := hready.learn neverBelowZero_float hi ht utterance alpha g₀ g
    refine ⟨c, p, right, hlesson, hlearn.imp_left ?_⟩
    rintro ⟨wrong, g', w, hwrong, hcontrast, hlearn, -⟩
    exact ⟨wrong, g', _, hwrong, hcontrast, hlearn, .learn hm ht hlearn⟩
  · have hwork := hm.work neverBelowZero_float hi hj g
    cases hrun : Model.work (m, g) j with
    | ok r =>
      rw [hrun] at hwork
      exact Or.inl ⟨r, rfl, hwork.1⟩
    | error f =>
      rw [hrun] at hwork
      obtain ⟨rfl, hdrawn⟩ := hwork
      exact Or.inr ⟨rfl, hdrawn⟩

/-- A corpus that has the word for none among its words. -/
def namesWithNull : List Pair := [⟨"first \x00", namePart "a"⟩, ⟨"second", namePart "b"⟩]

theorem Model.lessons_in_range_null :
    1 ≤ shortMemory.memory.ancestors ∧ ∃ m : Model Float, m.Taught shortMemory namesWithNull ∧
      m.vocabulary.wordCount = 3 ∧ m.vocabulary.words.length = 4 ∧
        ∃ r, Model.work (m, Generator.ofSeed 1) ⟨namesWithNull, 1⟩ = .ok r ∧ r.1.Taught shortMemory namesWithNull := by
  have hstart : ∃ r, Model.start shortMemory namesWithNull (Generator.ofSeed 1) = .ok r := ⟨_, rfl⟩
  obtain ⟨⟨m, rest⟩, hm⟩ := hstart
  obtain ⟨-, -, hwork⟩ := Model.lessons_in_range (σ := Generator) (.start hm) (by decide)
  have hvocabulary := (Model.frame_of_start hm).vocabulary
  refine ⟨by decide, m, .start hm, ?_, ?_, ?_⟩
  · rw [hvocabulary]
    decide
  · rw [hvocabulary]
    decide
  · refine (hwork ⟨namesWithNull, 1⟩ (Generator.ofSeed 1) (List.Subset.refl _)).resolve_right ?_
    rintro ⟨-, p, hp, hdrawn⟩
    rw [hvocabulary] at hp
    exact absurd hdrawn ((by decide : ∀ p ∈ (Vocabulary.ofPairs shortMemory.words shortMemory.memory namesWithNull
      (Generator.ofSeed 1)).1.productions, ¬ p.isDrawn shortMemory.negative = true) p hp)

end Models.Productions

end PlotAdvisor
