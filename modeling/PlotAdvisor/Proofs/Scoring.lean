import PlotAdvisor.Proofs.ExactNumbers
import PlotAdvisor.Proofs.Writing

/-! How well any tree fits an utterance, in exact arithmetic. A part of the tree is judged where its symbol was met in
the corpus with several things below it, one of them what is below the part. A part with a symbol of the corpus that
is not judged is passed over. A part with any other symbol ends the scoring, since its production is looked up before
anything is passed over. A memory without ancestors shows all ancestors, for which there are no marks, so that with
such a memory nothing below the top of a tree can be judged. -/
set_option autoImplicit false

namespace PlotAdvisor.Models.Productions

open Program Scalar

/-! ## Symbols of the corpus -/

def SeenIn (m : Memory) (pairs : List Pair) (t : PartialTree) : Prop :=
  ∃ u ∈ Vocabulary.corpusTrees m pairs, u.parent = t.parent

def Vocabulary.judges (v : Vocabulary) (t : PartialTree) : Bool :=
  (v.production? t.parent.simple).any fun p =>
    p.children.length != 1 && p.children.any fun c => c.1.same t.children.simple

theorem Vocabulary.judges_iff {v : Vocabulary} {t : PartialTree} :
    v.judges t = true ↔ ∃ p, v.production? t.parent.simple = some p ∧ p.children.length ≠ 1 ∧
      ∃ c ∈ p.children, c.1.same t.children.simple = true := by
  rw [judges]
  cases v.production? t.parent.simple with
  | none => simp
  | some p => simp

section Corpus

variable {α : Type} [Scalar α] {rules : WordRules α} {m : Memory} {pairs : List Pair} {v : Vocabulary} {t : PartialTree}

theorem eq_parent_of_production? {p : Production} (hi : t.parent.isInner = true)
    (h : v.production? t.parent.simple = some p) : p ∈ v.productions ∧ p.parent = t.parent := by
  rw [Symbol.simple_of_isInner hi] at h
  have hsame := List.find?_some h
  exact ⟨List.mem_of_find?_eq_some h, Symbol.eq_of_same hi hsame⟩

theorem isSome_production?_iff (hv : Vocabulary.OfCorpus rules m pairs v) (hi : t.parent.isInner = true) :
    (v.production? t.parent.simple).isSome = true ↔ SeenIn m pairs t := by
  constructor
  · intro h
    obtain ⟨p, hp⟩ := Option.isSome_iff_exists.1 h
    obtain ⟨hmem, hparent⟩ := eq_parent_of_production? hi hp
    obtain ⟨c, hc⟩ := List.exists_mem_of_ne_nil _ (hv.children_ne_nil hmem)
    obtain ⟨u, hu, hup, -⟩ := hv.exists_tree hmem hc
    exact ⟨u, hu, hup.trans hparent⟩
  · rintro ⟨u, hu, hut⟩
    rw [Symbol.simple_of_isInner hi, ← hut]
    exact (hv.knows hu (Vocabulary.isInner_of_corpusTrees hu)).2

theorem exists_of_judges (hv : Vocabulary.OfCorpus rules m pairs v) (hi : t.parent.isInner = true)
    (h : v.judges t = true) :
    ∃ u ∈ Vocabulary.corpusTrees m pairs, u.parent = t.parent ∧ u.children.simple.same t.children.simple = true := by
  obtain ⟨p, hp, -, c, hc, hsame⟩ := Vocabulary.judges_iff.1 h
  obtain ⟨hmem, hparent⟩ := eq_parent_of_production? hi hp
  obtain ⟨u, hu, hup, huc⟩ := hv.exists_tree hmem hc
  exact ⟨u, hu, hup.trans hparent, huc ▸ hsame⟩

end Corpus

/-! ## What judging can give -/

section Verdicts

variable {K : Type} [Field K] [LinearOrder K]

inductive Verdict (m : Memory) (pairs : List Pair) (v : Vocabulary) (t : PartialTree) :
    Except Fault (Option K) → Prop
  | unseen : ¬ SeenIn m pairs t → Verdict m pairs v t (.error (.noKey t.parent.render))
  | passed : SeenIn m pairs t → v.judges t = false → Verdict m pairs v t (.ok none)
  | judged {x : K} : SeenIn m pairs t → v.judges t = true → (m.ancestors < 1 → t.ancestors = []) → x ≤ 0 →
      Verdict m pairs v t (.ok (some x))
  | crowded : v.judges t = true → m.ancestors < 1 → t.ancestors ≠ [] → Verdict m pairs v t (.error (.broken ""))

def Admissible (m : Memory) (pairs : List Pair) (v : Vocabulary) (t : PartialTree) : Prop :=
  SeenIn m pairs t ∧ (m.ancestors < 1 → v.judges t = true → t.ancestors = [])

namespace Verdict

variable {m : Memory} {pairs : List Pair} {v : Vocabulary} {t : PartialTree} {r : Except Fault (Option K)}

theorem ok_iff (h : Verdict m pairs v t r) : (∃ y, r = .ok y) ↔ Admissible m pairs v t := by
  cases h with
  | unseen hmet => exact ⟨fun ⟨y, hy⟩ => (nomatch hy), fun hj => absurd hj.1 hmet⟩
  | passed hmet hjudges => exact ⟨fun _ => ⟨hmet, fun _ hj => by simp [hjudges] at hj⟩, fun _ => ⟨_, rfl⟩⟩
  | judged hmet hjudges hfits _ => exact ⟨fun _ => ⟨hmet, fun hm _ => hfits hm⟩, fun _ => ⟨_, rfl⟩⟩
  | crowded hjudges hm hmore => exact ⟨fun ⟨y, hy⟩ => (nomatch hy), fun hj => absurd (hj.2 hm hjudges) hmore⟩

theorem fault (h : Verdict m pairs v t r) {f : Fault} (hr : r = .error f) :
    (¬ SeenIn m pairs t ∧ f = .noKey t.parent.render) ∨ (m.ancestors < 1 ∧ f = .broken "") := by
  cases h with
  | unseen hmet => exact Or.inl ⟨hmet, (Except.error.inj hr).symm⟩
  | passed hmet hjudges => exact nomatch hr
  | judged hmet hjudges hfits _ => exact nomatch hr
  | crowded hjudges hm hmore => exact Or.inr ⟨hm, (Except.error.inj hr).symm⟩

theorem mapM_filter {judge : PartialTree → Except Fault (Option K)} {ts : List PartialTree}
    (h : ∀ t ∈ ts, Verdict m pairs v t (judge t)) {ys : List (Option K)} (hys : ts.mapM judge = .ok ys) :
    (ts.filter v.judges).mapM judge = .ok ((ys.filterMap id).map some) ∧ ∀ x ∈ ys.filterMap id, x ≤ 0 := by
  induction ts generalizing ys with
  | nil =>
    obtain rfl := Except.ok.inj hys
    exact ⟨rfl, fun x hx => absurd hx List.not_mem_nil⟩
  | cons t ts ih =>
    rw [List.forall_mem_cons] at h
    rw [List.mapM_cons] at hys
    obtain ⟨y, hy, hys⟩ := bind_eq_ok hys
    obtain ⟨zs, hzs, hys⟩ := bind_eq_ok hys
    obtain rfl := Except.ok.inj hys
    obtain ⟨hlogs, hle⟩ := ih h.2 hzs
    have hverdict := h.1
    rw [hy] at hverdict
    cases hverdict with
    | passed hmet hjudges =>
      rw [List.filter_cons_of_neg (by simp [hjudges])]
      exact ⟨hlogs, hle⟩
    | judged hmet hjudges hfits hx =>
      rw [List.filter_cons_of_pos hjudges, List.mapM_cons, hy, hlogs]
      exact ⟨rfl, List.forall_mem_cons.2 ⟨hx, hle⟩⟩

end Verdict

end Verdicts

/-! ## Judging one part -/

section Known

variable {α : Type} [Scalar α] {m : Model α} {t : PartialTree}

omit [Scalar α] in
theorem Model.Frame.check_looseContext {st : Settings α} {v : Vocabulary} (hm : m.Frame st v)
    (ht : t.SeenWith st.memory) (words : List Nat) :
    (v.looseContext st.memory words t).check m.weights =
      ensure (decide (st.memory.ancestors < 1 → t.ancestors = [])) "" := by
  have hterminals : (v.looseContext st.memory words t).terminals.length = st.memory.terminals.toNat := by
    refine length_padded_iff.2 ?_
    rw [List.length_map, List.length_reverse]
    exact ht.terminals
  have hinner : (v.looseContext st.memory words t).inner.length = st.memory.ancestors.toNat ↔
      (st.memory.ancestors < 1 → t.ancestors = []) := by
    rw [← ht.ancestors, Vocabulary.looseContext, length_padded_iff, List.length_map]
  rw [Context.check, hm.marked.1, hm.marked.2, hterminals, beq_self_eq_true, Bool.and_true]
  exact congrArg (ensure · "") (Bool.eq_iff_iff.2 (by rw [beq_iff_eq, hinner, decide_eq_true_iff]))

theorem entry?_mem {p : Production} {b : Below} {chosen : Nat} (h : p.entry? b = some chosen) :
    chosen ∈ p.entries := by
  obtain ⟨i, hi, rfl⟩ := Option.map_eq_some_iff.1 h
  obtain ⟨hlt, -⟩ := List.findIdx?_eq_some_iff_getElem.1 hi
  exact List.mem_map.2 ⟨i, List.mem_range.2 hlt, rfl⟩

theorem Model.judge_eq {p : Production} (hp : m.vocabulary.production? t.parent.simple = some p) (words : List Nat) :
    m.judge words t =
      if p.children.length = 1 then .ok none
      else
        match p.entry? t.children.simple with
        | none => .ok none
        | some chosen =>
          m.share (m.vocabulary.looseContext m.settings.memory words t) p.entries chosen >>= fun x =>
            .ok (some (log x)) := by
  rw [Model.judge, hp]
  rfl

theorem Model.judge_of_judges (h : m.vocabulary.judges t = true) (words : List Nat) :
    ∃ entries chosen, chosen ∈ entries ∧ m.judge words t =
      (m.share (m.vocabulary.looseContext m.settings.memory words t) entries chosen >>= fun x =>
        .ok (some (log x))) := by
  obtain ⟨p, hp, hlength, c, hc, hsame⟩ := Vocabulary.judges_iff.1 h
  have hfound : (p.entry? t.children.simple).isSome = true := by
    rw [Production.entry?, Option.isSome_map, List.findIdx?_isSome, List.any_eq_true]
    exact ⟨c, hc, hsame⟩
  obtain ⟨chosen, hchosen⟩ := Option.isSome_iff_exists.1 hfound
  refine ⟨p.entries, chosen, entry?_mem hchosen, ?_⟩
  rw [Model.judge_eq hp, if_neg hlength, hchosen]

theorem Model.judge_of_not_judges (h : m.vocabulary.judges t = false)
    (hseen : (m.vocabulary.production? t.parent.simple).isSome = true) (words : List Nat) :
    m.judge words t = .ok none := by
  obtain ⟨p, hp⟩ := Option.isSome_iff_exists.1 hseen
  rw [Model.judge_eq hp]
  by_cases hlength : p.children.length = 1
  · rw [if_pos hlength]
  · have hnone : p.entry? t.children.simple = none := by
      rw [Production.entry?, Option.map_eq_none_iff, List.findIdx?_eq_none_iff]
      intro c hc
      refine Bool.eq_false_iff.2 fun hsame => ?_
      rw [Vocabulary.judges_iff.2 ⟨p, hp, hlength, c, hc, hsame⟩] at h
      exact nomatch h
    rw [if_neg hlength, hnone]

theorem wordsOf_isEmpty {σ : Type} [Draws σ] (v : Vocabulary) (utterance : String) (g : σ) :
    (v.wordsOf α true utterance g).1.isEmpty = false := by
  rw [Vocabulary.wordsOf]
  generalize ((Text.words utterance).filterMap v.wordNumber?).foldl _ _ = drawn
  rcases drawn with ⟨kept, g'⟩
  cases kept with
  | nil => rfl
  | cons i kept => simp

theorem Model.score_eq {σ : Type} [Draws σ] (hnull : m.settings.words.nullWord = true)
    (utterance : String) (tree : Part) (g : σ) :
    (m.score utterance tree g).1 =
      ((tree.partialTrees m.settings.memory).mapM (m.judge (m.vocabulary.wordsOf α true utterance g).1) >>=
        fun judged => .ok (fit (judged.filterMap id))) := by
  have hwords := wordsOf_isEmpty (α := α) m.vocabulary utterance g
  rw [Model.score, hnull]
  generalize m.vocabulary.wordsOf α true utterance g = drawn at hwords
  rcases drawn with ⟨words, g'⟩
  dsimp only at hwords ⊢
  rw [hwords]
  rfl

end Known

section Judging

variable {K : Type} [Field K] [LinearOrder K] [IsStrictOrderedRing K] [Exact.Functions K]

theorem Model.share_of_check (hpos : ∀ x : K, 0 < exp x) {m : Model K} {c : Context}
    (hc : c.check m.weights = .ok ()) {entries : List Nat} {chosen : Nat} (h : chosen ∈ entries) :
    ∃ x, m.share c entries chosen = .ok x ∧ 0 < x ∧ x ≤ 1 := by
  set weights := (m.outputs c entries).map exp with hweights
  have hlength : weights.length = entries.length := by
    rw [hweights, List.length_map, Model.outputs, List.length_map]
  have hall : ∀ w ∈ weights, 0 < w := by
    intro w hw
    obtain ⟨x, -, rfl⟩ := List.mem_map.1 hw
    exact hpos x
  have hmem : itemAt weights (entries.idxOf chosen) ∈ weights := by
    have hlt : entries.idxOf chosen < weights.length := by
      rw [hlength]
      exact List.idxOf_lt_length_of_mem h
    rw [itemAt, List.getD_eq_getElem?_getD, List.getElem?_eq_getElem hlt, Option.getD_some]
    exact List.getElem_mem hlt
  have hone : 0 < itemAt weights (entries.idxOf chosen) := hall _ hmem
  have hle : itemAt weights (entries.idxOf chosen) ≤ sum weights := by
    rw [Exact.sum_eq]
    exact List.single_le_sum (fun w hw => (hall w hw).le) _ hmem
  have hsum : 0 < sum weights := hone.trans_le hle
  have hshare := div_pos hone hsum
  have hmost := (div_le_one hsum).2 hle
  refine ⟨_, ?_, hshare, hmost⟩
  rw [Model.share, hc]
  have hguard : (atMost zero (itemAt weights (entries.idxOf chosen) / sum weights) &&
      atMost (itemAt weights (entries.idxOf chosen) / sum weights) one) = true := by
    rw [Bool.and_eq_true, Exact.atMost_iff, Exact.atMost_iff, Exact.zero_eq, Exact.one_eq]
    exact ⟨hshare.le, hmost⟩
  show (ensure _ "" >>= fun _ => _) = _
  rw [hguard]
  rfl

omit [IsStrictOrderedRing K] in
theorem log_nonpos (hmono : StrictMono (exp : K → K)) (hzero : exp (0 : K) = 1)
    (hlog : ∀ x : K, 0 < x → exp (log x) = x) {x : K} (hx : 0 < x) (hone : x ≤ 1) : log x ≤ 0 := by
  rw [← hmono.le_iff_le, hlog x hx, hzero]
  exact hone

theorem Model.Frame.verdict (hpos : ∀ x : K, 0 < exp x) (hmono : StrictMono (exp : K → K))
    (hzero : exp (0 : K) = 1) (hlog : ∀ x : K, 0 < x → exp (log x) = x) {st : Settings K} {pairs : List Pair}
    {v : Vocabulary} (hv : Vocabulary.OfCorpus st.words st.memory pairs v) {m : Model K} (hm : m.Frame st v)
    {t : PartialTree} (ht : t.SeenWith st.memory) (words : List Nat) :
    Verdict st.memory pairs m.vocabulary t (m.judge words t) := by
  have hseen : (m.vocabulary.production? t.parent.simple).isSome = true ↔ SeenIn st.memory pairs t := by
    rw [hm.vocabulary]
    exact isSome_production?_iff hv ht.inner
  cases hjudges : m.vocabulary.judges t with
  | true =>
    obtain ⟨p, hp, -⟩ := Vocabulary.judges_iff.1 hjudges
    have hmet := hseen.1 (Option.isSome_iff_exists.2 ⟨p, hp⟩)
    obtain ⟨entries, chosen, hchosen, hjudge⟩ := Model.judge_of_judges hjudges words
    rw [hm.settings] at hjudge
    have hcheck := hm.check_looseContext ht words
    rw [← hm.vocabulary] at hcheck
    rw [hjudge]
    -- the check of the context comes before the share is taken, so that it alone decides
    by_cases hfits : st.memory.ancestors < 1 → t.ancestors = []
    · rw [decide_eq_true hfits] at hcheck
      obtain ⟨x, hx, hxpos, hxone⟩ := Model.share_of_check hpos hcheck hchosen
      rw [hx]
      exact .judged hmet hjudges hfits (log_nonpos hmono hzero hlog hxpos hxone)
    · rw [decide_eq_false hfits] at hcheck
      obtain ⟨hnone, hmore⟩ := Classical.not_imp.1 hfits
      rw [Model.share, hcheck]
      exact .crowded hjudges hnone hmore
  | false =>
    by_cases hmet : SeenIn st.memory pairs t
    · rw [Model.judge_of_not_judges hjudges (hseen.2 hmet) words]
      exact .passed hmet hjudges
    · have hnone : m.vocabulary.production? t.parent.simple = none :=
        Option.not_isSome_iff_eq_none.1 fun h => hmet (hseen.1 h)
      rw [Model.judge, hnone, Symbol.simple_of_isInner ht.inner]
      exact .unseen hmet

end Judging

/-! ## Judging a whole tree -/

section Scores

variable {K : Type} [Field K] [LinearOrder K] [IsStrictOrderedRing K] [Exact.Functions K]

theorem fit_mem_unit (hmono : StrictMono (exp : K → K)) (hzero : exp (0 : K) = 1) {logs : List K}
    (h : ∀ x ∈ logs, x ≤ 0) : 0 ≤ scoreOf (fit logs) ∧ scoreOf (fit logs) ≤ 1 := by
  cases logs with
  | nil =>
    rw [fit, scoreOf, List.isEmpty_nil, if_pos rfl, Option.getD_none, Exact.zero_eq]
    exact ⟨le_rfl, zero_le_one⟩
  | cons x xs =>
    have hsum : (x :: xs).sum ≤ 0 := (List.sum_le_card_nsmul _ 0 h).trans_eq (nsmul_zero _)
    have hmean : 0 ≤ -(x :: xs).sum / ((x :: xs).length : Int) := by
      refine div_nonneg (neg_nonneg.2 hsum) ?_
      exact_mod_cast Nat.zero_le _
    have hexp : 1 ≤ exp (-(x :: xs).sum / ((x :: xs).length : Int)) := by
      rw [← hzero]
      exact hmono.monotone hmean
    rw [fit, scoreOf, List.isEmpty_cons, if_neg Bool.false_ne_true, Option.getD_some, Exact.sum_eq, Exact.ofInt_eq,
      Exact.ofInt_eq, Exact.one_eq, Int.cast_ofNat]
    have hdenominator : 0 < 1 + exp (-(x :: xs).sum / ((x :: xs).length : Int)) := by linarith
    exact ⟨(div_pos two_pos hdenominator).le, (div_le_one hdenominator).2 (by linarith)⟩

/-- The score of any tree for any utterance, by a model with a word for none. There is one just when every symbol of
the tree was met in the corpus and, if the memory is without ancestors, nothing below the top is judged. It lies
between zero and one and comes from the judged parts alone, each of which was met in the corpus with the same below
it. Without one the fault names the symbol that was not met, or the memory is without ancestors. -/
theorem Model.score_ok_iff {σ : Type} [Draws σ] (hpos : ∀ x : K, 0 < exp x) (hmono : StrictMono (exp : K → K))
    (hzero : exp (0 : K) = 1) (hlog : ∀ x : K, 0 < x → exp (log x) = x) {st : Settings K} {pairs : List Pair}
    {m : Model K} (hm : m.Built st pairs) (hnull : st.words.nullWord = true) (utterance : String) (tree : Part)
    (g : σ) :
    ((∃ s, (m.score utterance tree g).1 = .ok s) ↔
      ∀ t ∈ tree.partialTrees st.memory, Admissible st.memory pairs m.vocabulary t) ∧
    (∀ s, (m.score utterance tree g).1 = .ok s →
      0 ≤ scoreOf s ∧ scoreOf s ≤ 1 ∧ ∃ logs, s = fit logs ∧
        ((tree.partialTrees st.memory).filter m.vocabulary.judges).mapM
          (m.judge (m.vocabulary.wordsOf K true utterance g).1) = .ok (logs.map some)) ∧
    (∀ f, (m.score utterance tree g).1 = .error f →
      (∃ t ∈ tree.partialTrees st.memory, ¬ SeenIn st.memory pairs t ∧ f = .noKey t.parent.render) ∨
        (st.memory.ancestors < 1 ∧ f = .broken "")) ∧
    ∀ t ∈ tree.partialTrees st.memory, m.vocabulary.judges t = true →
      ∃ u ∈ Vocabulary.corpusTrees st.memory pairs,
        u.parent = t.parent ∧ u.children.simple.same t.children.simple = true := by
  obtain ⟨v, hv, hframe⟩ := hm.frame
  rw [Model.score_eq (by rw [hframe.settings, hnull]), hframe.settings]
  set words := (m.vocabulary.wordsOf K true utterance g).1
  have hverdicts : ∀ t ∈ tree.partialTrees st.memory, Verdict st.memory pairs m.vocabulary t (m.judge words t) :=
    fun t ht => hframe.verdict hpos hmono hzero hlog hv (Part.seenWith_of_mem ht) words
  refine ⟨?_, ?_, ?_, ?_⟩
  · have hjudged : (∃ ys, (tree.partialTrees st.memory).mapM (m.judge words) = .ok ys) ↔
        ∀ t ∈ tree.partialTrees st.memory, Admissible st.memory pairs m.vocabulary t := by
      rw [mapM_ok_iff]
      exact forall₂_congr fun t ht => (hverdicts t ht).ok_iff
    rw [← hjudged]
    constructor
    · rintro ⟨s, hs⟩
      obtain ⟨ys, hys, -⟩ := bind_eq_ok hs
      exact ⟨ys, hys⟩
    · rintro ⟨ys, hys⟩
      exact ⟨_, by rw [hys]; rfl⟩
  · intro s hs
    obtain ⟨ys, hys, hs⟩ := bind_eq_ok hs
    obtain rfl := Except.ok.inj hs
    obtain ⟨hlogs, hle⟩ := Verdict.mapM_filter hverdicts hys
    obtain ⟨hnonneg, hone⟩ := fit_mem_unit hmono hzero hle
    exact ⟨hnonneg, hone, _, rfl, hlogs⟩
  · have hfaults : FaultsIn (fun f => (∃ t ∈ tree.partialTrees st.memory, ¬ SeenIn st.memory pairs t ∧
        f = .noKey t.parent.render) ∨ (st.memory.ancestors < 1 ∧ f = .broken ""))
        ((tree.partialTrees st.memory).mapM (m.judge words)) :=
      FaultsIn.mapM fun t ht f hf => ((hverdicts t ht).fault hf).imp_left fun h => ⟨t, ht, h⟩
    exact hfaults.bind fun ys => FaultsIn.pure _
  · intro t ht hjudges
    rw [hframe.vocabulary] at hjudges
    exact exists_of_judges hv (Part.seenWith_of_mem ht).inner hjudges

end Scores

/-! ## A corpus of two names -/

noncomputable def realSettings : Settings ℝ where
  size := 1
  alpha := 1
  leastAlpha := 1
  words := ⟨none, none, none, false, true⟩
  seed := 1
  negative := 5
  rounds := 1
  batch := 100
  additive := true
  memory := ⟨1, 2⟩
  rows := ⟨fun _ size => List.replicate size 0, fun _ _ => List.length_replicate⟩

def callPart (name : String) : Part :=
  .node "Module" [
    .many "body" [.node "Expr" [
      .one "value" (.node "Call" [
        .one "func" (.node "Name" [.one "id" (.leaf (.text name)), .one "ctx" (.node "Load" [])]),
        .many "args" [], .many "keywords" []])]],
    .many "type_ignores" []]

theorem Model.score_ok_iff_name :
    let _ := Exact.realFunctions
    ∃ m : Model ℝ, m.Built realSettings twoNames ∧
      ((namePart "a").partialTrees realSettings.memory).any m.vocabulary.judges = true ∧ ∃ s,
        (m.score "first" (namePart "a") (Generator.ofSeed 1)).1 = .ok s ∧ 0 ≤ scoreOf s ∧ scoreOf s ≤ 1 := by
  intro _
  have hstart : ∃ r, Model.start realSettings twoNames (Generator.ofSeed 1) = .ok r := ⟨_, rfl⟩
  obtain ⟨⟨m, rest⟩, hm⟩ := hstart
  obtain ⟨hok, hbounds, -, -⟩ := Model.score_ok_iff Real.exp_pos Real.exp_strictMono Real.exp_zero
    (fun x hx => Real.exp_log hx) (.start hm) rfl "first" (namePart "a") (Generator.ofSeed 1)
  have hmet : ∀ t ∈ (namePart "a").partialTrees realSettings.memory,
      Admissible realSettings.memory twoNames m.vocabulary t := by
    intro t ht
    have hmem : t ∈ Vocabulary.corpusTrees realSettings.memory twoNames :=
      List.mem_flatMap.2 ⟨⟨"first", namePart "a"⟩, List.mem_cons_self, ht⟩
    exact ⟨⟨t, hmem, rfl⟩, fun h => absurd h (by decide)⟩
  obtain ⟨s, hs⟩ := hok.2 hmet
  obtain ⟨hnonneg, hone, -⟩ := hbounds s hs
  refine ⟨m, .start hm, ?_, s, hs, hnonneg, hone⟩
  rw [(Model.frame_of_start hm).vocabulary]
  rfl

/-- A call is not passed over by a model that has met none. -/
theorem Model.score_of_call :
    let _ := Exact.realFunctions
    ∃ m : Model ℝ, m.Built realSettings twoNames ∧
      (m.score "first" (callPart "f") (Generator.ofSeed 1)).1 = .error (.noKey "NODE_Call") := by
  intro _
  have hstart : ∃ r, Model.start realSettings twoNames (Generator.ofSeed 1) = .ok r := ⟨_, rfl⟩
  obtain ⟨⟨m, rest⟩, hm⟩ := hstart
  obtain ⟨hsettings, hvocabulary, -⟩ := Model.frame_of_start hm
  refine ⟨m, .start hm, ?_⟩
  rw [Model.score_eq (by rw [hsettings]; rfl)]
  rcases m with ⟨settings, vocabulary, weights⟩
  obtain rfl : settings = realSettings := hsettings
  obtain rfl : vocabulary = _ := hvocabulary
  rfl

end PlotAdvisor.Models.Productions
