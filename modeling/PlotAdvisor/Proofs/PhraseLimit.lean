import PlotAdvisor.Models.Vectors.Centroid
import PlotAdvisor.Proofs.Phrases

/-! How long the phrases are that a query is looked up by. Phrases are looked for where more than one word is asked for,
but they are cut with a limit of their own, five words, whatever the limit is that was asked for.

* `Within` - the tokens of a query, and its phrases of so many words.
* `ShortRuns` - the phrases that are taken are short enough, or stand in the query once more with fewer words.
* `respectsLimit_iff` - the numbers of a query respect the limit that was asked for if its runs do.
-/
set_option autoImplicit false

namespace PlotAdvisor.Models.Vectors

open Wording

/-- The words of a query again, as they are cut from its tokens joined. -/
def sentence (ts : List String) : List String := Text.words (Text.join " " ts)

def Within (m : Int) (ts : List String) (w : String) : Prop :=
  w ∈ ts ∨ ∃ run : Run, 0 < run.size ∧ run.size ≤ m ∧ run.stop ≤ (sentence ts).length ∧ run.phrase (sentence ts) = w

def ShortRuns (known kept : String → Bool) (m : Int) (ts : List String) : Prop :=
  ∀ runs, Greedy known phraseLimit (sentence ts) 0 runs → ∀ run ∈ runs, m < run.size →
    kept (run.phrase (sentence ts)) = true → Within m ts (run.phrase (sentence ts))

theorem mem_withPhrases {known : String → Bool} {m : Int} (hm : 1 < m) {ts : List String} {runs : List Run}
    (hruns : Greedy known phraseLimit (sentence ts) 0 runs) {w : String} :
    w ∈ withPhrases known m ts ↔ w ∈ ts ∨ ∃ run ∈ runs, run.phrase (sentence ts) = w := by
  have hphrases : phrases known .empty [] phraseLimit (Text.join " " ts) = runs.map (Run.phrase (sentence ts)) :=
    hruns.phrases_eq
  rw [withPhrases, if_pos hm, List.mem_eraseDups, List.mem_append, hphrases, List.mem_map]

theorem shortRuns_of_le {known kept : String → Bool} {m : Int} (hm : phraseLimit ≤ m) (ts : List String) :
    ShortRuns known kept m ts := by
  intro runs hruns run hrun hlong
  have hsize := (hruns.taken run hrun).2.size_le
  omega

variable {α : Type}

namespace WordVectors

variable {v : WordVectors α} {w : String}

theorem getElem?_of_number? {n : Nat} (h : v.number? w = some n) : v.words[n]? = some w := by
  obtain ⟨⟨u, k⟩, hfind, rfl⟩ := Option.map_eq_some_iff.1 h
  have hmem : (u, k) ∈ v.words.zipIdx := List.mem_reverse.1 (List.mem_of_find?_eq_some hfind)
  have hsame : u = w := by simpa using List.find?_some hfind
  rw [← hsame]
  exact List.mem_zipIdx_iff_getElem?.1 hmem

theorem exists_number? (h : v.words.contains w = true) : ∃ n, v.number? w = some n := by
  obtain ⟨n, hn, hw⟩ := List.mem_iff_getElem.1 (List.contains_iff_mem.1 h)
  have hmem : (w, n) ∈ v.words.zipIdx.reverse := by
    rw [List.mem_reverse, List.mem_zipIdx_iff_getElem?, List.getElem?_eq_getElem hn, hw]
  have hsome : (v.words.zipIdx.reverse.find? fun e => e.1 == w).isSome := by
    rw [List.find?_isSome]
    exact ⟨(w, n), hmem, by simp⟩
  obtain ⟨e, he⟩ := Option.isSome_iff_exists.1 hsome
  exact ⟨e.2, by rw [number?, he]; rfl⟩

end WordVectors

/-! ## The limit that is asked for -/

def RespectsLimit (v : WordVectors α) (m : Int) (ts found : List String) (numbers : List Nat) : Prop :=
  ∀ n ∈ numbers, (∃ w, Within m ts w ∧ v.number? w = some n) ∨ (∀ w ∈ found, v.number? w = none) ∧ n = 0

def Reading.RespectsLimit [Scalar α] (r : Reading) (v : WordVectors α) (query : String) : Prop :=
  Vectors.RespectsLimit v r.longest (r.tokens v query) (r.words v query) (r.numbers v query)

def Lookup.RespectsLimit (l : Lookup) (v : WordVectors α) (text : String) : Prop :=
  Vectors.RespectsLimit v l.longest (l.tokens text) (l.words v text) (l.numbers v text)

theorem respectsLimit_iff (v : WordVectors α) (kept : String → Bool) {m : Int} (hm : 1 < m) (ts : List String)
    {found : List String} (hfound : found = (withPhrases v.words.contains m ts).filter kept) {numbers : List Nat}
    (hnumbers : numbers = found.filterMap v.number? ∨ found.filterMap v.number? = [] ∧ numbers = [0]) :
    RespectsLimit v m ts found numbers ↔ ShortRuns v.words.contains kept m ts := by
  obtain ⟨runs, hruns⟩ := exists_greedy v.words.contains phraseLimit (sentence ts)
  constructor
  · intro hrespects others hothers run hrun hlong hkept
    obtain rfl := hothers.unique hruns
    -- the phrase is found, so that its number has to be that of a word within the limit
    have hmem : run.phrase (sentence ts) ∈ found := by
      rw [hfound]
      exact List.mem_filter.2 ⟨(mem_withPhrases hm hruns).2 (Or.inr ⟨run, hrun, rfl⟩), hkept⟩
    obtain ⟨n, hn⟩ := WordVectors.exists_number? (hruns.taken run hrun).2.phrase_known
    have hn' : n ∈ found.filterMap v.number? := List.mem_filterMap.2 ⟨_, hmem, hn⟩
    have hin : n ∈ numbers := by
      rcases hnumbers with rfl | ⟨hnone, -⟩
      · exact hn'
      · rw [hnone] at hn'
        exact absurd hn' List.not_mem_nil
    rcases hrespects n hin with ⟨w, hw, hwn⟩ | ⟨hnone, -⟩
    · have hsame := (WordVectors.getElem?_of_number? hn).symm.trans (WordVectors.getElem?_of_number? hwn)
      rw [Option.some.inj hsame]
      exact hw
    · rw [hnone _ hmem] at hn
      exact nomatch hn
  · intro hshort n hn
    rcases hnumbers with rfl | ⟨hnone, rfl⟩
    · obtain ⟨w, hw, hwn⟩ := List.mem_filterMap.1 hn
      refine Or.inl ⟨w, ?_, hwn⟩
      rw [hfound] at hw
      obtain ⟨hw, hkept⟩ := List.mem_filter.1 hw
      rcases (mem_withPhrases hm hruns).1 hw with hw | ⟨run, hrun, rfl⟩
      · exact Or.inl hw
      · rcases Int.lt_or_le m run.size with hlong | hle
        · exact hshort runs hruns run hrun hlong hkept
        · have hknown := (hruns.taken run hrun).2
          exact Or.inr ⟨run, hknown.pos, hle, hknown.stop_le, rfl⟩
    · refine Or.inr ⟨fun w hw => ?_, List.mem_singleton.1 hn⟩
      cases hwn : v.number? w with
      | none => rfl
      | some k =>
        have hk : k ∈ found.filterMap v.number? := List.mem_filterMap.2 ⟨w, hw, hwn⟩
        rw [hnone] at hk
        exact absurd hk List.not_mem_nil

theorem Reading.respectsLimit_iff [Scalar α] (r : Reading) (v : WordVectors α) (query : String) (hm : 1 < r.longest) :
    r.RespectsLimit v query ↔
      ShortRuns v.words.contains (fun w => !r.emptyWords.contains w) r.longest (r.tokens v query) := by
  refine Vectors.respectsLimit_iff v _ hm _ rfl ?_
  rw [numbers]
  split
  · next hnone =>
    rw [Bool.and_eq_true, List.isEmpty_iff] at hnone
    exact Or.inr ⟨hnone.1, rfl⟩
  · exact Or.inl rfl

theorem Lookup.respectsLimit_iff (l : Lookup) (v : WordVectors α) (text : String) (hm : 1 < l.longest) :
    l.RespectsLimit v text ↔ ShortRuns v.words.contains (fun _ => true) l.longest (l.tokens text) := by
  refine Vectors.respectsLimit_iff v _ hm _ (List.filter_eq_self.2 fun _ _ => rfl).symm ?_
  rw [numbers]
  split
  · next hnone => exact Or.inr ⟨hnone, rfl⟩
  · exact Or.inl rfl

/-! ## A phrase of five words -/

def errorBars : String := "bar chart with error bars"

def errorBarTokens : List String := ["bar", "chart", "with", "error", "bars"]

def errorBarWords : List String := ["plot", "bar_chart_with_error_bars"]

def errorBarVectors (α : Type) : WordVectors α := ⟨errorBarWords, [], 0, false⟩

def plainReading (t : Tokenizer) (m : Int) : Reading := ⟨[], t, default, false, m⟩

def plainLookup (t : Tokenizer) (m : Int) : Lookup := ⟨.written, m, t, default⟩

/-- The text as one sentence. -/
def wholeText : Tokenizer := ⟨fun _ text => [text]⟩

theorem sentence_errorBarTokens : sentence errorBarTokens = errorBarTokens := by rfl

theorem greedy_errorBars :
    Greedy errorBarWords.contains phraseLimit errorBarTokens 0 [⟨0, 5⟩] := by
  have hknown : IsKnown errorBarWords.contains phraseLimit errorBarTokens ⟨0, 5⟩ :=
    ⟨by decide, by decide, by decide, by decide⟩
  exact Greedy.cons hknown (fun q hq _ => Int.ofNat_le.1 hq.size_le) (Greedy.nil (by decide))

theorem not_within_errorBars {m : Int} (hm : m < 5) : ¬ Within m errorBarTokens "bar_chart_with_error_bars" := by
  rintro (hmem | ⟨⟨start, size⟩, -, hsize, hstop, hphrase⟩)
  · exact absurd hmem (by decide)
  · rw [sentence_errorBarTokens] at hstop hphrase
    have hstart : start < 6 := by
      simp only [Run.stop] at hstop
      have hlength : errorBarTokens.length = 5 := rfl
      omega
    have hfew : size < 5 := by
      dsimp only at hsize
      omega
    have hnone : ∀ start < 6, ∀ size < 5, Run.phrase errorBarTokens ⟨start, size⟩ ≠ "bar_chart_with_error_bars" := by
      decide
    exact hnone start hstart size hfew hphrase

theorem not_shortRuns_errorBars {kept : String → Bool} (hkept : kept "bar_chart_with_error_bars" = true) {m : Int}
    (hm : m < 5) : ¬ ShortRuns errorBarWords.contains kept m errorBarTokens := by
  intro hshort
  have hphrase : Run.phrase errorBarTokens ⟨0, 5⟩ = "bar_chart_with_error_bars" := by rfl
  have hwithin := hshort [⟨0, 5⟩] (by rw [sentence_errorBarTokens]; exact greedy_errorBars) ⟨0, 5⟩
    List.mem_cons_self hm
  rw [sentence_errorBarTokens, hphrase] at hwithin
  exact not_within_errorBars hm (hwithin hkept)

theorem Reading.not_respectsLimit_errorBars [Scalar α] {t : Tokenizer}
    (ht : t.tokens [("-", " ")] errorBars = errorBarTokens) {m : Int} (hm : 1 < m) (hlt : m < 5) :
    ¬ (plainReading t m).RespectsLimit (errorBarVectors α) errorBars := by
  have htokens : (plainReading t m).tokens (errorBarVectors α) errorBars = errorBarTokens := ht
  rw [Reading.respectsLimit_iff _ _ _ hm, htokens]
  exact not_shortRuns_errorBars rfl hlt

theorem Lookup.not_respectsLimit_errorBars [Scalar α] {t : Tokenizer} (ht : t.tokens [] errorBars = errorBarTokens)
    {m : Int} (hm : 1 < m) (hlt : m < 5) : ¬ (plainLookup t m).RespectsLimit (errorBarVectors α) errorBars := by
  have htokens : (plainLookup t m).tokens errorBars = errorBarTokens := by
    change (t.tokens [] errorBars).map (WordForm.written.apply default) = _
    rw [ht]
    rfl
  rw [Lookup.respectsLimit_iff _ _ _ hm, htokens]
  exact not_shortRuns_errorBars rfl hlt

/-- The limit that is asked for is respected for all tokenizers, queries and vocabularies exactly if it is five or more;
for a query it is exactly if the runs that are taken are short. A smaller limit is not respected with any tokenizer that
cuts a certain query at its blanks. -/
theorem limit_respected_iff [Scalar α] {m : Int} (hm : 1 < m) :
    ((∀ (r : Reading) (v : WordVectors α) (query : String), r.longest = m → r.RespectsLimit v query) ↔ 5 ≤ m) ∧
    ((∀ (l : Lookup) (v : WordVectors α) (text : String), l.longest = m → l.RespectsLimit v text) ↔ 5 ≤ m) ∧
    (∀ (r : Reading) (v : WordVectors α) (query : String), r.longest = m → (r.RespectsLimit v query ↔
      ShortRuns v.words.contains (fun w => !r.emptyWords.contains w) m (r.tokens v query))) ∧
    (∀ (l : Lookup) (v : WordVectors α) (text : String), l.longest = m → (l.RespectsLimit v text ↔
      ShortRuns v.words.contains (fun _ => true) m (l.tokens text))) ∧
    ∀ t : Tokenizer, m < 5 →
      (t.tokens [("-", " ")] errorBars = errorBarTokens →
        ¬ (plainReading t m).RespectsLimit (errorBarVectors α) errorBars) ∧
      (t.tokens [] errorBars = errorBarTokens → ¬ (plainLookup t m).RespectsLimit (errorBarVectors α) errorBars) := by
  refine ⟨⟨fun h => ?_, fun h r v query hr => ?_⟩, ⟨fun h => ?_, fun h l v text hl => ?_⟩, ?_, ?_, fun t hlt => ?_⟩
  · refine Int.not_lt.1 fun hlt => ?_
    exact Reading.not_respectsLimit_errorBars (t := wholeText) rfl hm hlt (h _ (errorBarVectors α) errorBars rfl)
  · rw [Reading.respectsLimit_iff r v query (hr ▸ hm), hr]
    exact shortRuns_of_le h _
  · refine Int.not_lt.1 fun hlt => ?_
    exact Lookup.not_respectsLimit_errorBars (t := wholeText) rfl hm hlt (h _ (errorBarVectors α) errorBars rfl)
  · rw [Lookup.respectsLimit_iff l v text (hl ▸ hm), hl]
    exact shortRuns_of_le h _
  · rintro r v query rfl
    exact r.respectsLimit_iff v query hm
  · rintro l v text rfl
    exact l.respectsLimit_iff v text hm
  · exact ⟨fun ht => Reading.not_respectsLimit_errorBars ht hm hlt,
      fun ht => Lookup.not_respectsLimit_errorBars ht hm hlt⟩

theorem limit_respected_iff_five :
    (1 : Int) < 5 ∧ (plainReading wholeText 5).numbers (errorBarVectors Float) errorBars = [1] ∧
      (plainReading wholeText 5).RespectsLimit (errorBarVectors Float) errorBars ∧
      (plainLookup wholeText 5).RespectsLimit (errorBarVectors Float) errorBars := by
  have hlimit : (1 : Int) < 5 := by decide
  obtain ⟨hreading, hlookup, -⟩ := limit_respected_iff (α := Float) hlimit
  exact ⟨hlimit, by rfl, hreading.2 (Int.le_refl 5) _ _ _ rfl, hlookup.2 (Int.le_refl 5) _ _ _ rfl⟩

/-- Phrases of at most three words are asked for, and one of five is found. -/
theorem five_words_found :
    (plainReading wholeText 3).numbers (errorBarVectors Float) errorBars = [1] ∧
      ¬ (plainReading wholeText 3).RespectsLimit (errorBarVectors Float) errorBars ∧
      (plainLookup wholeText 3).numbers (errorBarVectors Float) errorBars = [1] ∧
      ¬ (plainLookup wholeText 3).RespectsLimit (errorBarVectors Float) errorBars :=
  ⟨by rfl, Reading.not_respectsLimit_errorBars rfl (by decide) (by decide), by rfl,
    Lookup.not_respectsLimit_errorBars rfl (by decide) (by decide)⟩

end PlotAdvisor.Models.Vectors
