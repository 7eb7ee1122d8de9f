import Mathlib.Analysis.SpecialFunctions.Pow.Real
import PlotAdvisor.Proofs.Gradients
import PlotAdvisor.Proofs.Passes
import PlotAdvisor.Proofs.PhraseLimit
import PlotAdvisor.Proofs.Shares

/-! What the scores of elements are made from. All elements are scored by all rows, and candidates by the rows of their
own. The context enters as the mean over the elements in use, each of which counts once. -/
set_option autoImplicit false

namespace PlotAdvisor.Models

open Scalar Vectors

/-! ## The numbers of elements -/

/-- A text stands at a place and nowhere behind it. -/
def LastPlace (xs : List String) (x : String) (i : Nat) : Prop := xs[i]? = some x ∧ x ∉ xs.drop (i + 1)

theorem exists_lastPlace {xs : List String} {x : String} (h : x ∈ xs) : ∃ i, LastPlace xs x i := by
  induction xs with
  | nil => exact absurd h (by simp)
  | cons y xs ih =>
    by_cases hx : x ∈ xs
    · obtain ⟨i, hi, hlast⟩ := ih hx
      exact ⟨i + 1, hi, hlast⟩
    · obtain rfl : x = y := by simpa [hx] using h
      exact ⟨0, rfl, hx⟩

namespace Elements

section Places
variable {α : Type} {m : Model α} {e : String} {i : Nat}

theorem Model.number?_of_lastPlace (h : LastPlace m.elements e i) : m.number? e = some i := by
  obtain ⟨hi, hlast⟩ := h
  obtain ⟨hlt, heq⟩ := List.getElem?_eq_some_iff.1 hi
  have hsplit : m.elements = m.elements.take i ++ e :: m.elements.drop (i + 1) := by
    rw [← heq, List.getElem_cons_drop, List.take_append_drop]
  have hlength : (m.elements.take i).length = i := by
    rw [List.length_take]
    omega
  have hbehind : (((m.elements.drop (i + 1)).zipIdx (i + 1)).reverse.find? fun p => p.1 == e) = none := by
    rw [List.find?_eq_none]
    rintro ⟨x, k⟩ hp hx
    obtain rfl : x = e := by simpa using hx
    exact hlast (List.fst_mem_of_mem_zipIdx (List.mem_reverse.1 hp))
  rw [Model.number?, hsplit, List.zipIdx_append, List.zipIdx_cons, hlength, Nat.zero_add, List.reverse_append,
    List.reverse_cons, List.append_assoc, List.find?_append, hbehind]
  simp

theorem Model.number?_eq_some_iff : m.number? e = some i ↔ LastPlace m.elements e i := by
  refine ⟨fun h => ?_, Model.number?_of_lastPlace⟩
  obtain ⟨p, hfind, -⟩ := Option.map_eq_some_iff.1 h
  have hmem : p.1 ∈ m.elements :=
    List.fst_mem_of_mem_zipIdx (List.mem_reverse.1 (List.mem_of_find?_eq_some hfind))
  obtain rfl : p.1 = e := by simpa using List.find?_some hfind
  obtain ⟨k, hk⟩ := exists_lastPlace hmem
  obtain rfl : k = i := Option.some.inj ((Model.number?_of_lastPlace hk).symm.trans h)
  exact hk

theorem Model.isSome_number?_iff : (m.number? e).isSome = true ↔ e ∈ m.elements := by
  rw [Option.isSome_iff_exists]
  constructor
  · rintro ⟨i, hi⟩
    exact List.mem_of_getElem? (Model.number?_eq_some_iff.1 hi).1
  · intro he
    obtain ⟨i, hi⟩ := exists_lastPlace he
    exact ⟨i, Model.number?_of_lastPlace hi⟩

theorem Model.number?_lt (h : m.number? e = some i) : i < m.elements.length :=
  (List.getElem?_eq_some_iff.1 (Model.number?_eq_some_iff.1 h).1).1

theorem Model.mem_numbers_iff {used : List String} : i ∈ m.numbers used ↔ ∃ e ∈ used, m.number? e = some i := by
  rw [Model.numbers, List.mem_eraseDups, List.mem_filterMap]

end Places

/-! ## The shape of a trained model -/

section Training
variable {α : Type} [Scalar α]

theorem lt_of_mem_numbers {r : Reading} {v : WordVectors α} (hnull : v.nullWord = true → v.words ≠ []) {text : String} :
    ∀ i ∈ r.numbers v text, i < v.words.length := by
  intro i hi
  unfold Reading.numbers at hi
  dsimp only at hi
  split at hi
  · next hnone =>
    obtain rfl := List.mem_singleton.1 hi
    exact List.length_pos_iff.2 (hnull (Bool.and_eq_true_iff.1 hnone).2)
  · obtain ⟨w, -, hw⟩ := List.mem_filterMap.1 hi
    exact (List.getElem?_eq_some_iff.1 (WordVectors.getElem?_of_number? hw)).1

theorem lt_of_mem_drawWrong {σ : Type} [Draws σ] {table : List Int} {whole : Nat}
    (hlast : table.getLast? = some (whole : Int)) (hpos : 0 < whole) {accepts : Nat → Bool} {fuel count : Nat}
    {done wrong : List Nat} {g g' : σ} (hdone : ∀ w ∈ done, w < table.length)
    (h : drawWrong table accepts fuel count done g = .ok (wrong, g')) : ∀ w ∈ wrong, w < table.length := by
  fun_induction drawWrong table accepts fuel count done g with
  | case1 fuel done g =>
    obtain ⟨rfl, -⟩ := Prod.mk.inj (Except.ok.inj h)
    exact fun w hw => hdone w (List.mem_reverse.1 hw)
  | case2 => exact absurd h (by simp)
  | case3 fuel count done g n g₁ hdraw w hacc ih =>
    have hn : (Draws.next g).1 % whole = n := by simpa [Draws.below, hlast] using congrArg Prod.fst hdraw
    have hlt : n < whole := hn ▸ Nat.mod_lt _ hpos
    refine ih (List.forall_mem_cons.2 ⟨?_, hdone⟩) h
    exact drawnPlace_lt hlast hlt
  | case4 fuel count done g n g₁ hdraw w hacc ih => exact ih hdone h

theorem lt_of_mem_drawContext {σ : Type} [Draws σ] (m : Model α) (window : Int) (lines : List (List String))
    (line : Nat) (g : σ) : ∀ i ∈ (drawContext m window lines line g).1, i < m.elements.length := by
  -- what both folds keep: every number found so far has an element
  let Within (acc : List Nat × σ) : Prop := ∀ i ∈ acc.1, i < m.elements.length
  intro i hi
  unfold drawContext at hi
  rw [List.mem_eraseDups, List.mem_reverse] at hi
  refine List.foldlRecOn (motive := Within) _ _ (by simp [Within]) ?_ i hi
  rintro ⟨found, g₁⟩ hfound elements -
  dsimp only
  split
  · exact hfound
  · refine List.foldlRecOn (motive := Within) _ _ hfound ?_
    rintro ⟨found, g₂⟩ hfound e -
    dsimp only
    split
    · exact hfound
    · split
      · next k hk => exact List.forall_mem_cons.2 ⟨Model.number?_lt hk, hfound⟩
      · exact hfound

variable {m : Model α} {context words wrong : List Nat} {right : Nat} {alpha : α}

theorem Model.Shaped.learn (hm : m.Shaped) (hcontext : ∀ i ∈ context, i < m.elements.length)
    (hwords : ∀ i ∈ words, i < m.vectors.words.length) (hplaces : ∀ i ∈ right :: wrong, i < m.elements.length)
    {w : Weights α} (h : m.learn context words right wrong alpha = .ok w) :
    Model.Shaped { m with weights := w } := by
  have hview := hm.length_view hcontext hwords
  have hrows := hm.outputs.rowsAt hplaces
  rw [Model.learn] at h
  obtain ⟨-, -, h⟩ := bind_eq_ok h
  obtain rfl := Except.ok.inj h
  rw [Model.view] at hview
  generalize m.mode.join (m.contextMean context) (m.vectors.mean words) = hid at hview
  generalize List.zipWith (fun label r => (label - logistic (m.output hid r)) * alpha) (one :: wrong.map fun _ => zero)
    (right :: wrong) = g
  have hscaled : ∀ r ∈ List.zipWith scaleRow g (rowsAt m.weights.outputs (right :: wrong)),
      r.length = m.mode.width m.vectors.size := by
    intro r hr
    rw [← List.map_uncurry_zip_eq_zipWith] at hr
    obtain ⟨p, hp, rfl⟩ := List.mem_map.1 hr
    rw [← hrows.2 _ (List.of_mem_zip hp).2]
    exact List.length_map _
  have hback := length_sumRows hscaled
  rw [← hview] at hback
  refine ⟨hm.contexts.addAt hcontext (hasShape_map (fun _ => ?_) context), ?_, ?_, hm.words⟩
  · -- what goes back to the context is as long as a vector, whether it is split or not
    rw [List.length_map]
    cases hmode : m.mode with
    | additive => simpa [hmode, Mode.width] using hback.trans hview
    | multiply =>
      refine length_mulRows ?_ (length_wordMean hm.words hwords)
      simpa [hmode, Mode.width] using hback.trans hview
    | concat =>
      rw [List.length_take, hback, hview, hmode, Mode.width]
      omega
  · exact hm.outputs.addAt hplaces (hasShape_map (fun c => by rw [scaleRow, List.length_map, hview]) g)
  · rw [length_addItemsAt]
    exact hm.biases

theorem last_of_sharesOf {counts : Table String Int} {es : List String} {shares : List Int}
    (h : sharesOf α counts es = .ok shares) :
    shares.length = es.length ∧ (shares ≠ [] → shares.getLast? = some (shareDomain : Int)) := by
  rw [sharesOf] at h
  obtain ⟨_, hlast, h⟩ := bind_eq_ok h
  obtain rfl := Except.ok.inj h
  refine ⟨?_, fun hne => Productions.getLast?_of_ensure hne hlast⟩
  simp [Productions.length_runningSums]

theorem shaped_of_start {st : Settings α} {b : Background α} {r : Reading} {counts : Table String Int}
    {es : List String} {w : Weights α} (hv : HasShape b.vectors.rows b.vectors.words.length b.vectors.size)
    (hnull : b.vectors.nullWord = true → b.vectors.words ≠ []) (h : Weights.start st b r counts es = .ok w) :
    (⟨es, st.mode, r, b.vectors, w⟩ : Model α).Shaped := by
  have htext (e : String) : (textVector b r e).length = b.vectors.size :=
    length_wordMean hv (lt_of_mem_numbers hnull)
  rw [Weights.start] at h
  dsimp only at h
  split at h
  · exact nomatch h
  obtain rfl := Except.ok.inj h
  refine ⟨hasShape_map (fun e => ?_) es, hasShape_map (fun e => ?_) es, List.length_map _, hv⟩
  · split
    · exact htext e
    · exact st.rows.length_row _ _
  · cases st.mode <;> split <;> simp [htext, st.rows.length_row, Mode.width, Nat.two_mul]

structure Learning.Sound (v : WordVectors α) (es : List String) (l : Learning α) : Prop where
  elements : l.model.elements = es
  vectors : l.model.vectors = v
  model : l.model.Shaped
  null : v.nullWord = true → v.words ≠ []
  shares : l.shares.length = es.length
  last : l.shares ≠ [] → l.shares.getLast? = some (shareDomain : Int)

namespace Learning

variable {v : WordVectors α} {es : List String} {l l' : Learning α}

theorem Sound.use {σ : Type} [Draws σ] (hl : l.Sound v es) {used : List Nat} (hcontext : ∀ i ∈ context, i < es.length)
    {e : String} {g g' : σ} (h : l.use context used alpha e g = .ok (l', g')) : l'.Sound v es := by
  rcases use_cases h with rfl | ⟨text, right, wrong, weights, g₁, g₂, hright, hwrong, hlearn, rfl⟩
  · exact hl
  · have hlt : right < es.length := hl.elements ▸ Model.number?_lt hright
    have hne : l.shares ≠ [] := by
      rw [← List.length_pos_iff, hl.shares]
      omega
    have hdrawn := lt_of_mem_drawWrong (hl.last hne) (by decide) (by simp) hwrong
    have hmodel : Model.Shaped { l.model with weights := weights } := by
      refine hl.model.learn ?_ (lt_of_mem_numbers ?_) ?_ hlearn
      · rwa [hl.elements]
      · rw [hl.vectors]
        exact hl.null
      · rw [hl.elements, List.forall_mem_cons]
        exact ⟨hlt, fun w hw => hl.shares ▸ hdrawn w hw⟩
    exact ⟨hl.elements, hl.vectors, hmodel, hl.null, hl.shares, hl.last⟩

theorem Sound.follow {σ : Type} [Draws σ] (hl : l.Sound v es) {parse : String → Except Fault Program.Tree}
    {source : Nat → σ} {code : String} (h : l.follow parse source code = .ok l') : l'.Sound v es := by
  obtain ⟨reports, names, hcases⟩ := follow_cases h
  have hnext : Sound v es { l with count := l.count + 1, reports := reports, names := names } :=
    ⟨hl.elements, hl.vectors, hl.model, hl.null, hl.shares, hl.last⟩
  rcases hcases with rfl | ⟨lines, alpha, hlines⟩
  · exact hnext
  · refine lines_keeps (fun l₁ l₂ l₃ i used e g₁ g₂ g₃ hl₁ hl₂ huse => hl₂.use ?_ huse) hnext hlines
    rw [← hl₁.elements]
    exact lt_of_mem_drawContext l₁.model _ _ _ _

theorem sound_start {st : Settings α} {b : Background α} {counts : Table String Int} {examples : Nat}
    (hv : HasShape b.vectors.rows b.vectors.words.length b.vectors.size)
    (hnull : b.vectors.nullWord = true → b.vectors.words ≠ [])
    (h : Learning.start st b counts es examples = .ok l) : l.Sound b.vectors es := by
  rw [Learning.start] at h
  obtain ⟨weights, hweights, h⟩ := bind_eq_ok h
  obtain ⟨shares, hshares, h⟩ := bind_eq_ok h
  obtain rfl := Except.ok.inj h
  obtain ⟨hlength, hlast⟩ := last_of_sharesOf hshares
  exact ⟨rfl, rfl, shaped_of_start hv hnull hweights, hnull, hlength, hlast⟩

end Learning

theorem sound_of_train {σ : Type} [Draws σ] {parse : String → Except Fault Program.Tree} {source : Nat → σ}
    {st : Settings α} {b : Background α} {counts : Table String Int} {es examples : List String} {l : Learning α}
    (hv : HasShape b.vectors.rows b.vectors.words.length b.vectors.size)
    (hnull : b.vectors.nullWord = true → b.vectors.words ≠ [])
    (h : train parse source st b counts es examples = .ok l) : l.Sound b.vectors es := by
  rw [train] at h
  obtain ⟨start, hstart, h⟩ := bind_eq_ok h
  refine foldlM_keeps (fun l₁ _ l₂ hl₁ hpass => ?_) (Learning.sound_start hv hnull hstart) h
  exact foldlM_keeps (fun l₃ _ l₄ hl₃ hfollow => hl₃.follow hfollow) hl₁ hpass

end Training

/-! ## Scores of candidates -/

section Selection
variable {α : Type} [Scalar α] {m : Model α}

theorem Model.outputsOf_places (m : Model α) (h : Row α) (places : List Nat) :
    outputsOf h (rowsAt m.weights.outputs places) (itemsAt m.weights.biases places) = places.map (m.output h) := by
  unfold outputsOf addRows rowsAt itemsAt
  rw [List.map_map, List.zipWith_map, List.zipWith_self]
  rfl

theorem Model.Shaped.length_scoreAll (hm : m.Shaped) (query : String) (used : List String) :
    (m.scoreAll query used).length = m.elements.length := by
  rw [Model.scoreAll, outputsOf, addRows, List.length_zipWith, List.length_map, hm.outputs.1, hm.biases, Nat.min_self]

theorem Model.Shaped.getElem?_scoreAll (hm : m.Shaped) (query : String) (used : List String) {i : Nat}
    (hi : i < m.elements.length) :
    (m.scoreAll query used)[i]? = some (m.output (m.hidden (Text.lower query) used) i) := by
  have hrow : i < m.weights.outputs.length := hm.outputs.1 ▸ hi
  have hbias : i < m.weights.biases.length := hm.biases ▸ hi
  simp [Model.scoreAll, outputsOf, addRows, Model.output, rowAt, itemAt, hrow, hbias]

theorem Model.Shaped.length_hidden (hm : m.Shaped) (hnull : m.vectors.nullWord = true → m.vectors.words ≠ [])
    (query : String) (used : List String) : (m.hidden query used).length = m.mode.width m.vectors.size := by
  refine hm.length_view (fun i hi => ?_) (lt_of_mem_numbers hnull)
  obtain ⟨e, -, he⟩ := Model.mem_numbers_iff.1 hi
  exact Model.number?_lt he

theorem Model.score_eq (m : Model α) (query : String) (used candidates : List String) :
    m.score query used candidates = candidates.filterMap fun c =>
      (m.number? c).map fun i => (c, m.output (m.hidden (Text.lower query) used) i) := by
  unfold Model.score
  simp only [Model.outputsOf_places]
  induction candidates with
  | nil => rfl
  | cons c candidates ih =>
    cases hc : m.number? c with
    | none => simpa [hc] using ih
    | some i => simpa [hc] using ih

/-- Every row is as long as what is said to it, and there is a score for each element. The candidates that are scored
are the known ones, in order and as often as they are given, and the score of each is that of its last place among
all. -/
theorem Model.score_selects (hm : m.Shaped) (hnull : m.vectors.nullWord = true → m.vectors.words ≠ []) (query : String)
    (used candidates : List String) :
    (∀ r ∈ m.weights.outputs, r.length = (m.hidden (Text.lower query) used).length) ∧
    (m.scoreAll query used).length = m.elements.length ∧
    (m.score query used candidates).map Prod.fst = candidates.filter (m.elements.contains ·) ∧
    ∀ c x, (c, x) ∈ m.score query used candidates →
      ∃ i, LastPlace m.elements c i ∧ (m.scoreAll query used)[i]? = some x := by
  refine ⟨fun r hr => ?_, hm.length_scoreAll query used, ?_, fun c x hc => ?_⟩
  · rw [hm.length_hidden hnull, hm.outputs.2 r hr]
  · rw [Model.score_eq, List.map_filterMap, ← List.filterMap_eq_filter]
    refine List.filterMap_congr fun c _ => ?_
    have hknown : (m.number? c).isSome = m.elements.contains c := by
      rw [Bool.eq_iff_iff, Model.isSome_number?_iff, List.contains_iff_mem]
    rw [Option.guard, ← hknown]
    cases m.number? c <;> rfl
  · rw [Model.score_eq] at hc
    obtain ⟨d, -, hd⟩ := List.mem_filterMap.1 hc
    obtain ⟨i, hi, hx⟩ := Option.map_eq_some_iff.1 hd
    obtain ⟨rfl, rfl⟩ := Prod.mk.inj hx
    exact ⟨i, Model.number?_eq_some_iff.1 hi, hm.getElem?_scoreAll query used (Model.number?_lt hi)⟩

end Selection

/-- Both vectors of an element come from its text, and as an answer it has two of them in a row. -/
def fromTexts : Settings ℚ where
  mode := .concat
  negative := 1
  epochs := 1
  seed := 1
  alpha := 1
  window := 2
  lemmas := false
  phraseLimit := 1
  threads := some 1
  drawParents := false
  contextsFromTexts := true
  outputsFromTexts := true
  drawUsed := false
  rows := ⟨fun _ size => List.replicate size 0, fun _ _ => List.length_replicate⟩

def nullWordOnly : Background ℚ := ⟨default, default, ⟨["\x00"], [[1]], 1, true⟩, [], default, default⟩

def metOnce : Table String Int := .ofList [("plt.bar", 1), ("plt.pie", 1)]

theorem Model.score_selects_pie :
    let _ := Exact.unchanging
    ∃ l, train commentsOnly seeded fromTexts nullWordOnly metOnce ["plt.bar", "plt.pie"] [] = .ok l ∧ l.model.Shaped ∧
      (l.model.score "" ["plt.bar"] ["plt.pie", "plt.hist", "plt.pie"]).map Prod.fst = ["plt.pie", "plt.pie"] ∧
      ∀ c x, (c, x) ∈ l.model.score "" ["plt.bar"] ["plt.pie", "plt.hist", "plt.pie"] →
        (l.model.scoreAll "" ["plt.bar"])[1]? = some x := by
  intro _
  have hshares : sharesOf ℚ metOnce ["plt.bar", "plt.pie"] = .ok [1073741823, 2147483647] := by
    decide +kernel
  obtain ⟨l, hl⟩ : ∃ l, train commentsOnly seeded fromTexts nullWordOnly metOnce ["plt.bar", "plt.pie"] [] = .ok l := by
    rw [train, Learning.start, hshares]
    exact ⟨_, rfl⟩
  have hsound : l.Sound nullWordOnly.vectors ["plt.bar", "plt.pie"] :=
    sound_of_train ⟨rfl, by simp [nullWordOnly]⟩ (by simp [nullWordOnly]) hl
  have hnull : l.model.vectors.nullWord = true → l.model.vectors.words ≠ [] := hsound.vectors ▸ hsound.null
  obtain ⟨-, -, hnames, hscores⟩ :=
    Model.score_selects hsound.model hnull "" ["plt.bar"] ["plt.pie", "plt.hist", "plt.pie"]
  rw [hsound.elements] at hnames hscores
  refine ⟨l, hl, hsound.model, hnames, fun c x hc => ?_⟩
  have hpie : c = "plt.pie" := by
    have hmem := List.mem_map_of_mem (f := Prod.fst) hc
    rw [hnames] at hmem
    simpa using hmem
  obtain ⟨i, ⟨hi, -⟩, hx⟩ := hscores c x hc
  rw [hpie] at hi
  obtain _ | _ | i := i
  · exact absurd hi (by decide)
  · exact hx
  · exact absurd hi (by simp)

/-! ## Scores and the elements in use -/

theorem nodup_eraseDups (ns : List Nat) : ns.eraseDups.Nodup := by
  cases ns with
  | nil => simp
  | cons n ns =>
    rw [List.eraseDups_cons, List.nodup_cons, List.mem_eraseDups]
    exact ⟨by simp, nodup_eraseDups _⟩
termination_by ns.length
decreasing_by
  have hle := List.length_filter_le (fun k => !k == n) ns
  rw [List.length_cons]
  omega

theorem Model.numbers_perm {α : Type} {m : Model α} {used others : List String}
    (h : ∀ e ∈ m.elements, e ∈ used ↔ e ∈ others) : (m.numbers used).Perm (m.numbers others) := by
  have hknown (e : String) (i : Nat) (hi : m.number? e = some i) : e ∈ m.elements :=
    Model.isSome_number?_iff.1 (by simp [hi])
  rw [Model.numbers, Model.numbers, List.perm_ext_iff_of_nodup (nodup_eraseDups _) (nodup_eraseDups _)]
  intro i
  rw [← Model.numbers, ← Model.numbers, Model.mem_numbers_iff, Model.mem_numbers_iff]
  constructor
  · rintro ⟨e, he, hi⟩
    exact ⟨e, (h e (hknown e i hi)).1 he, hi⟩
  · rintro ⟨e, he, hi⟩
    exact ⟨e, (h e (hknown e i hi)).2 he, hi⟩

section Sets
variable {K : Type} [Field K] [LinearOrder K] [Exact.Functions K]

theorem addRows_right_comm (a b c : Row K) : addRows (addRows a b) c = addRows (addRows a c) b := by
  unfold addRows
  induction a generalizing b c with
  | nil => simp
  | cons x a ih =>
    cases b with
    | nil => cases c <;> simp
    | cons y b =>
      cases c with
      | nil => simp
      | cons z c =>
        simp only [List.zipWith_cons_cons, ih, add_right_comm x y z]

theorem sumRows_perm (size : Nat) {rows others : Matrix K} (h : rows.Perm others) :
    sumRows size rows = sumRows size others :=
  h.foldl_eq' (fun x _ y _ z => addRows_right_comm z x y) _

theorem Model.contextMean_perm (m : Model K) {ns ks : List Nat} (h : ns.Perm ks) :
    m.contextMean ns = m.contextMean ks := by
  unfold Model.contextMean meanRows rowsAt
  rw [h.isEmpty_eq, sumRows_perm m.vectors.size (h.map _), List.length_map, List.length_map, h.length_eq]

/-! A model that tells whether one element is in use: the vector of that element as context is one and the others are
zero, and every answer passes on what the context says. -/

def oneWord (K : Type) [Field K] : WordVectors K := ⟨["\x00"], [[1]], 1, true⟩

def telling (K : Type) [Field K] (mode : Mode) (reading : Reading) (elements : List String) (place : Nat) :
    Model K where
  elements := elements
  mode := mode
  reading := reading
  vectors := oneWord K
  weights :=
    { contexts := (List.range elements.length).map fun i => [if i = place then 1 else 0]
      outputs := elements.map fun _ => if mode = .concat then [1, 0] else [1]
      biases := elements.map fun _ => 0 }

def Model.partOf (m : Model K) (place : Nat) (used : List String) : K :=
  ((m.numbers used).count place : K) / (m.numbers used).length

theorem sumRows_singletons (xs : List K) : sumRows 1 (xs.map fun x => [x]) = [xs.sum] := by
  suffices hall : ∀ c : K, (xs.map fun x => [x]).foldl addRows [c] = [c + xs.sum] by
    simpa [sumRows, zeros, Exact.zero_eq] using hall 0
  induction xs with
  | nil => simp
  | cons x xs ih =>
    intro c
    rw [List.map_cons, List.foldl_cons, List.sum_cons, ← add_assoc]
    exact ih (c + x)

theorem sum_indicator (place : Nat) (ns : List Nat) :
    (ns.map fun i => if i = place then (1 : K) else 0).sum = ns.count place := by
  induction ns with
  | nil => simp
  | cons n ns ih =>
    rw [List.map_cons, List.sum_cons, ih, List.count_cons]
    by_cases hn : n = place <;> simp [hn, add_comm]

theorem contextMean_telling {mode : Mode} {reading : Reading} {elements : List String} {place : Nat} {ns : List Nat}
    (hns : ∀ i ∈ ns, i < elements.length) :
    (telling K mode reading elements place).contextMean ns = [(ns.count place : K) / ns.length] := by
  have hrows : rowsAt (telling K mode reading elements place).weights.contexts ns =
      (ns.map fun i => if i = place then (1 : K) else 0).map fun x => [x] := by
    rw [rowsAt, List.map_map]
    refine List.map_congr_left fun i hi => ?_
    simp [telling, rowAt, hns i hi]
  unfold Model.contextMean
  split
  · next hempty =>
    obtain rfl := List.isEmpty_iff.1 hempty
    simp [telling, oneWord, zeros, Exact.zero_eq]
  · have hsize : (telling K mode reading elements place).vectors.size = 1 := rfl
    rw [hrows, meanRows, hsize, sumRows_singletons, sum_indicator]
    simp [Exact.ofInt_eq]

theorem numbers_oneWord_ne_nil (r : Reading) (query : String) : r.numbers (oneWord K) query ≠ [] := by
  unfold Reading.numbers
  dsimp only
  split
  · simp
  · next hfound => simpa [oneWord] using hfound

theorem mean_oneWord [CharZero K] {ns : List Nat} (hne : ns ≠ []) (hns : ∀ i ∈ ns, i < 1) :
    (oneWord K).mean ns = [1] := by
  have hrows : rowsAt (oneWord K).rows ns = (ns.map fun _ => (1 : K)).map fun x => [x] := by
    rw [rowsAt, List.map_map]
    refine List.map_congr_left fun i hi => ?_
    obtain rfl : i = 0 := Nat.lt_one_iff.1 (hns i hi)
    rfl
  have hsize : (oneWord K).size = 1 := rfl
  have hlength : (ns.length : K) ≠ 0 := Nat.cast_ne_zero.2 (mt List.length_eq_zero_iff.1 hne)
  rw [WordVectors.mean, if_neg (by simpa using hne), hrows, meanRows, hsize, sumRows_singletons]
  simp [Exact.ofInt_eq, hlength]

theorem scoreAll_telling [CharZero K] (mode : Mode) (reading : Reading) (elements : List String) (place : Nat)
    (used : List String) :
    (telling K mode reading elements place).scoreAll "" used = elements.map fun _ =>
      (telling K mode reading elements place).partOf place used + if mode = .additive then 1 else 0 := by
  have hns : ∀ i ∈ (telling K mode reading elements place).numbers used, i < elements.length := by
    intro i hi
    obtain ⟨e, -, he⟩ := Model.mem_numbers_iff.1 hi
    exact Model.number?_lt he
  -- whatever words the query has, all of them have the one vector that there is
  have hmean : (oneWord K).mean (reading.numbers (oneWord K) (Text.lower "")) = [1] :=
    mean_oneWord (numbers_oneWord_ne_nil reading _) (lt_of_mem_numbers (by simp [oneWord]))
  have hword : (telling K mode reading elements place).vectors = oneWord K := rfl
  have hreading : (telling K mode reading elements place).reading = reading := rfl
  rw [Model.scoreAll, Model.hidden, hword, hreading, hmean, contextMean_telling hns, ← Model.partOf]
  cases mode <;>
    simp [telling, outputsOf, addRows, mulRows, dot, Mode.join, Exact.sum_eq, List.zipWith_self]

theorem partOf_ne_zero_iff [IsStrictOrderedRing K] {mode : Mode} {reading : Reading} {elements used : List String}
    {e : String} {place : Nat} (hplace : LastPlace elements e place) :
    (telling K mode reading elements place).partOf place used ≠ 0 ↔ e ∈ used := by
  unfold Model.partOf
  generalize hns : (telling K mode reading elements place).numbers used = ns
  have hmem : place ∈ ns ↔ e ∈ used := by
    rw [← hns, Model.mem_numbers_iff]
    constructor
    · rintro ⟨d, hd, hplaced⟩
      obtain ⟨hat, -⟩ := Model.number?_eq_some_iff.1 hplaced
      obtain rfl : d = e := Option.some.inj (hat.symm.trans hplace.1)
      exact hd
    · exact fun he => ⟨e, he, Model.number?_of_lastPlace hplace⟩
  rw [← hmem, ← List.count_pos_iff, Nat.pos_iff_ne_zero]
  constructor
  · intro hne hzero
    exact hne (by simp [hzero])
  · intro hcount
    have hlength : ns.length ≠ 0 := fun hnil => hcount (by simp [List.length_eq_zero_iff.1 hnil])
    exact div_ne_zero (Nat.cast_ne_zero.2 hcount) (Nat.cast_ne_zero.2 hlength)

/-- Two lists of elements in use give the same scores with every model of a vocabulary just when they have the same of
its elements, in whatever order and however often. This is so however queries are read: no reading hides an element. -/
theorem Model.scores_by_set_iff [IsStrictOrderedRing K] (mode : Mode) (reading : Reading)
    (elements used others : List String) :
    (∀ m : Model K, m.mode = mode → m.reading = reading → m.elements = elements → ∀ query,
      m.scoreAll query used = m.scoreAll query others) ↔
    ∀ e ∈ elements, e ∈ used ↔ e ∈ others := by
  constructor
  · intro h e he
    obtain ⟨i, hi⟩ := exists_lastPlace he
    have hsame := h (telling K mode reading elements i) rfl rfl rfl ""
    rw [scoreAll_telling, scoreAll_telling] at hsame
    have hpart := add_right_cancel (List.map_inj_left.1 hsame e he)
    have htells (xs : List String) : (telling K mode reading elements i).partOf i xs ≠ 0 ↔ e ∈ xs :=
      partOf_ne_zero_iff hi
    rw [← htells used, ← htells others, hpart]
  · rintro h m rfl rfl rfl query
    unfold Model.scoreAll Model.hidden
    rw [m.contextMean_perm (m.numbers_perm h)]

end Sets

theorem Model.scores_by_set_iff_bar_and_pie :
    let _ := Exact.unchanging
    (∀ m : Model ℚ, m.mode = .concat → m.reading = default → m.elements = ["plt.bar", "plt.pie"] → ∀ query,
      m.scoreAll query ["plt.pie", "plt.bar", "plt.pie", "plt.hist"] = m.scoreAll query ["plt.bar", "plt.pie"]) ∧
    ∃ m : Model ℚ, m.mode = .concat ∧ m.reading = default ∧ m.elements = ["plt.bar", "plt.pie"] ∧ ∃ query,
      m.scoreAll query ["plt.pie", "plt.bar"] ≠ m.scoreAll query ["plt.bar"] := by
  intro _
  refine ⟨(Model.scores_by_set_iff _ _ _ _ _).2 (by decide), ?_⟩
  have hdiffer := (not_congr (Model.scores_by_set_iff (K := ℚ) .concat default ["plt.bar", "plt.pie"]
    ["plt.pie", "plt.bar"] ["plt.bar"])).2 (by decide)
  simpa using hdiffer

end Elements
end PlotAdvisor.Models
