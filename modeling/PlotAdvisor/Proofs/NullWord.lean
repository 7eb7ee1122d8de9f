import PlotAdvisor.Proofs.Drawn
import PlotAdvisor.Proofs.Writing

/-! The word for none. It comes last in a vocabulary, behind all words of the corpus. An utterance of which no word is
kept is taken as the first word of the vocabulary, which is therefore the word for none only in a vocabulary that has no
other word. -/
set_option autoImplicit false

namespace PlotAdvisor.Models.Productions

open Program Scalar

inductive NoneKept (α : Type) [Scalar α] {σ : Type} [Draws σ] (v : Vocabulary) : List String → σ → Prop
  | nil (g : σ) : NoneKept α v [] g
  | unknown {w : String} {ws : List String} {g : σ} : v.wordNumber? w = none → NoneKept α v ws g →
      NoneKept α v (w :: ws) g
  | leftOut {w : String} {ws : List String} {g : σ} {i : Nat} {x : Word} : v.wordNumber? w = some (i, x) →
      less ((Draws.unit g : α × σ).1 * ofInt keepAlways) (ofInt x.keep) = false →
      NoneKept α v ws (Draws.unit g : α × σ).2 → NoneKept α v (w :: ws) g

/-- One more known word, with what was kept before it in reverse. -/
def keepWord (α : Type) [Scalar α] {σ : Type} [Draws σ] (s : List Nat × σ) (e : Nat × Word) : List Nat × σ :=
  let drawn : α × σ := Draws.unit s.2
  (if less (drawn.1 * ofInt keepAlways) (ofInt e.2.keep) then e.1 :: s.1 else s.1, drawn.2)

variable {α : Type} [Scalar α] {σ : Type} [Draws σ] {v : Vocabulary}

theorem wordsOf_eq (v : Vocabulary) (null : Bool) (utterance : String) (g : σ) :
    (v.wordsOf α null utterance g).1 =
      let kept := (((Text.words utterance).filterMap v.wordNumber?).foldl (keepWord α) ([], g)).1
      if kept.isEmpty && null then [0] else kept.reverse := rfl

theorem keepWord_ne_nil {s : List Nat × σ} (h : s.1 ≠ []) (e : Nat × Word) : (keepWord α s e).1 ≠ [] := by
  unfold keepWord
  dsimp only
  split
  · exact List.cons_ne_nil _ _
  · exact h

theorem foldl_keepWord_ne_nil {s : List Nat × σ} (h : s.1 ≠ []) (es : List (Nat × Word)) :
    (es.foldl (keepWord α) s).1 ≠ [] := by
  induction es generalizing s with
  | nil => exact h
  | cons e es ih => exact ih (keepWord_ne_nil h e)

theorem foldl_keepWord_eq_nil_iff {words : List String} {g : σ} :
    ((words.filterMap v.wordNumber?).foldl (keepWord α) ([], g)).1 = [] ↔ NoneKept α v words g := by
  induction words generalizing g with
  | nil => exact iff_of_true rfl (.nil g)
  | cons w ws ih =>
    cases hw : v.wordNumber? w with
    | none =>
      rw [List.filterMap_cons_none hw, ih]
      refine ⟨.unknown hw, fun h => ?_⟩
      cases h with
      | unknown _ h => exact h
      | leftOut hsome _ _ => simp [hw] at hsome
    | some e =>
      obtain ⟨i, x⟩ := e
      rw [List.filterMap_cons_some hw, List.foldl_cons]
      cases hdraw : less ((Draws.unit g : α × σ).1 * ofInt keepAlways) (ofInt x.keep) with
      | true =>
        have hkept : (keepWord α ([], g) (i, x)).1 = [i] := if_pos hdraw
        refine iff_of_false (foldl_keepWord_ne_nil (by simp [hkept]) _) fun h => ?_
        cases h with
        | unknown hnone _ => simp [hw] at hnone
        | leftOut hsome hout _ =>
          obtain ⟨rfl, rfl⟩ := Prod.mk.inj (Option.some.inj (hw.symm.trans hsome))
          simp [hdraw] at hout
      | false =>
        have hkept : keepWord α ([], g) (i, x) = ([], (Draws.unit g : α × σ).2) := by
          rw [keepWord, hdraw, if_neg Bool.false_ne_true]
        rw [hkept, ih]
        refine ⟨.leftOut hw hdraw, fun h => ?_⟩
        cases h with
        | unknown hnone _ => simp [hw] at hnone
        | leftOut _ _ h => exact h

theorem noneKept_iff {utterance : String} {g : σ} :
    NoneKept α v (Text.words utterance) g ↔ (v.wordsOf α false utterance g).1 = [] := by
  rw [wordsOf_eq, ← foldl_keepWord_eq_nil_iff]
  simp

theorem NoneKept.wordsOf_eq_zero {utterance : String} {g : σ} (h : NoneKept α v (Text.words utterance) g) :
    (v.wordsOf α true utterance g).1 = [0] := by
  rw [wordsOf_eq, foldl_keepWord_eq_nil_iff.2 h]
  rfl

theorem wordNumber?_last {ws : List Word} {w : Word} (hv : v.words = ws ++ [w]) :
    v.wordNumber? w.text = some (ws.length, w) := by
  rw [Vocabulary.wordNumber?, hv, List.zipIdx_append, List.reverse_append]
  simp

/-- The word for none has the last number of the vocabulary. An utterance of which no word is kept is given the number
zero, whatever is drawn, and this is the number of the word for none just when there is no other word. -/
theorem Model.wordsOf_null_iff {st : Settings α} {pairs : List Pair} {m : Model α} (hm : m.Built st pairs)
    (hnull : st.words.nullWord = true) :
    ∃ n, m.vocabulary.wordNumber? nullWord.text = some (n, nullWord) ∧ m.vocabulary.words.length = n + 1 ∧
      ∀ (utterance : String) (g : σ),
        (NoneKept α m.vocabulary (Text.words utterance) g ↔ (m.vocabulary.wordsOf α false utterance g).1 = []) ∧
        (NoneKept α m.vocabulary (Text.words utterance) g →
          (m.vocabulary.wordsOf α m.settings.words.nullWord utterance g).1 = [0] ∧
          ((m.vocabulary.wordsOf α m.settings.words.nullWord utterance g).1 = [n] ↔
            m.vocabulary.words = [nullWord])) := by
  obtain ⟨v, ⟨ts, -, hv⟩, hsettings, hvocabulary, -⟩ := hm.frame
  obtain ⟨ws, -, hws⟩ := exists_wordsOfCorpus st.words (pairs.map (·.utterance))
  have hv : m.vocabulary.words = ws ++ [nullWord] := by
    rw [hvocabulary, hv]
    rwa [hnull, if_pos rfl] at hws
  refine ⟨ws.length, wordNumber?_last hv, by simp [hv], fun utterance g => ⟨noneKept_iff, fun h => ?_⟩⟩
  rw [hsettings, hnull, h.wordsOf_eq_zero, hv]
  refine ⟨rfl, ?_⟩
  cases ws with
  | nil => simp
  | cons w ws => simp

def frequentWords : Settings Float := { shortMemory with words := ⟨some 5, none, none, false, true⟩ }

theorem Model.wordsOf_null_iff_frequent :
    ∃ m : Model Float, m.Built frequentWords twoNames ∧ frequentWords.words.nullWord = true ∧
      m.vocabulary.wordNumber? nullWord.text = some (0, nullWord) ∧
      NoneKept Float m.vocabulary (Text.words "first") (Generator.ofSeed 1) ∧
      (m.vocabulary.wordsOf Float m.settings.words.nullWord "first" (Generator.ofSeed 1)).1 = [0] := by
  have hstart : ∃ r, Model.start frequentWords twoNames (Generator.ofSeed 1) = .ok r := ⟨_, rfl⟩
  obtain ⟨⟨m, rest⟩, hm⟩ := hstart
  obtain ⟨n, hn, hlength, hall⟩ := Model.wordsOf_null_iff (σ := Generator) (.start hm) rfl
  obtain ⟨-, hzero⟩ := hall "first" (Generator.ofSeed 1)
  have hvocabulary := (Model.frame_of_start hm).vocabulary
  have hnone : NoneKept Float m.vocabulary (Text.words "first") (Generator.ofSeed 1) := by
    rw [hvocabulary]
    exact .unknown rfl (.nil _)
  have hwords : m.vocabulary.words.length = 1 := by rw [hvocabulary]; rfl
  obtain rfl : n = 0 := by omega
  exact ⟨m, .start hm, rfl, hn, hnone, (hzero hnone).1⟩

/-- The word for none comes third in this vocabulary, and an unknown word is taken as the first. -/
theorem Model.wordsOf_unknown :
    ∃ m : Model Float, m.Built shortMemory twoNames ∧ shortMemory.words.nullWord = true ∧
      NoneKept Float m.vocabulary (Text.words "third") (Generator.ofSeed 1) ∧
      m.vocabulary.wordNumber? nullWord.text = some (2, nullWord) ∧
      (m.vocabulary.wordsOf Float m.settings.words.nullWord "third" (Generator.ofSeed 1)).1 = [0] := by
  have hstart : ∃ r, Model.start shortMemory twoNames (Generator.ofSeed 1) = .ok r := ⟨_, rfl⟩
  obtain ⟨⟨m, rest⟩, hm⟩ := hstart
  obtain ⟨hsettings, hvocabulary, -⟩ := Model.frame_of_start hm
  have hnone : NoneKept Float m.vocabulary (Text.words "third") (Generator.ofSeed 1) := by
    rw [hvocabulary]
    exact .unknown rfl (.nil _)
  refine ⟨m, .start hm, rfl, hnone, ?_, ?_⟩
  · rw [hvocabulary]
    rfl
  · rw [hsettings]
    exact hnone.wordsOf_eq_zero

end PlotAdvisor.Models.Productions
