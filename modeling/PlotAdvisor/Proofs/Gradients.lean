import Mathlib.Analysis.SpecialFunctions.Pow.Real
import PlotAdvisor.Models.Elements.Training
import PlotAdvisor.Proofs.ExactNumbers
import PlotAdvisor.Proofs.Shapes

/-! What a lesson adds to the weights of the elements in it. The right element and each wrong one pull at their own rows,
and a wrong element that was drawn twice pulls twice. All rows are read before any is written, so that of several pulls
at one row only the last stays. -/
set_option autoImplicit false

namespace PlotAdvisor.Models

open Scalar Vectors

/-! ## Several writes to one place -/

section Writes

variable {β γ : Type}

/-- What is given for a place, in order. -/
def pullsAt (r : Nat) (ps : List (Nat × γ)) : List γ := (ps.filter fun p => p.1 == r).map Prod.snd

theorem pullsAt_concat (r : Nat) (ps : List (Nat × γ)) (p : Nat × γ) :
    pullsAt r (ps ++ [p]) = pullsAt r ps ++ if p.1 = r then [p.2] else [] := by
  simp only [pullsAt, List.filter_append, List.map_append, List.filter_cons, List.filter_nil, beq_iff_eq]
  split <;> rfl

theorem pullsAt_map (g : γ → β) (r : Nat) (ps : List (Nat × γ)) :
    pullsAt r (ps.map fun p => (p.1, g p.2)) = (pullsAt r ps).map g := by
  simp [pullsAt, List.filter_map, Function.comp_def]

theorem getElem?_foldl_set (f : Nat → γ → β) (ps : List (Nat × γ)) (out : List β) {r : Nat} (hr : r < out.length) :
    (ps.foldl (fun out p => out.set p.1 (f p.1 p.2)) out)[r]? =
      match (pullsAt r ps).getLast? with
      | none => out[r]?
      | some x => some (f r x) := by
  -- the writes are taken from the end, where the last one is at hand
  induction ps using List.reverseRecOn with
  | nil => rfl
  | append_singleton ps p ih =>
    rw [List.foldl_append, List.foldl_cons, List.foldl_nil, pullsAt_concat]
    by_cases hp : p.1 = r
    · rw [if_pos hp, List.getLast?_concat, hp, List.getElem?_set_self]
      rwa [length_foldl_set]
    · rw [if_neg hp, List.append_nil, List.getElem?_set_ne hp, ih]

end Writes

/-! ## Rows -/

section Rows

variable {K : Type} [Field K] [LinearOrder K] [Exact.Functions K]

def lastOf (xs : List K) : K := xs.getLast?.getD 0

theorem addRows_scaleRow (c x : K) (h : Row K) : addRows (scaleRow c h) (scaleRow x h) = scaleRow (c + x) h := by
  simp [addRows, scaleRow, List.zipWith_map, List.zipWith_self, add_mul]

theorem addRows_scaleRow_zero {a h : Row K} (hlength : a.length = h.length) : addRows a (scaleRow 0 h) = a := by
  refine List.ext_getElem (by simp [addRows, scaleRow, hlength]) fun i _ _ => ?_
  simp [addRows, scaleRow]

theorem sumRows_scaleRow (xs : List K) (h : Row K) :
    sumRows h.length (xs.map (scaleRow · h)) = scaleRow xs.sum h := by
  have hzeros : (zeros h.length : Row K) = scaleRow 0 h := by
    simp [zeros, scaleRow, Exact.zero_eq]
  suffices hall : ∀ c : K, (xs.map (scaleRow · h)).foldl addRows (scaleRow c h) = scaleRow (c + xs.sum) h by
    rw [sumRows, hzeros, hall, zero_add]
  induction xs with
  | nil => simp
  | cons x xs ih =>
    intro c
    rw [List.map_cons, List.foldl_cons, addRows_scaleRow, ih, List.sum_cons, add_assoc]

theorem itemAt_addItemsAt (row : Row K) (ps : List (Nat × K)) {r : Nat} (hr : r < row.length) :
    itemAt (addItemsAt row (ps.map Prod.fst) (ps.map Prod.snd)) r = itemAt row r + lastOf (pullsAt r ps) := by
  rw [itemAt, addItemsAt, List.zip_map', List.map_id', List.getD_eq_getElem?_getD,
    getElem?_foldl_set (fun i x => itemAt row i + x) ps row hr, lastOf]
  cases (pullsAt r ps).getLast? with
  | none => simp [itemAt]
  | some x => rfl

theorem rowAt_addAt {m : Matrix K} {rows : Nat} {h : Row K} (hm : HasShape m rows h.length) (ps : List (Nat × K)) {r : Nat}
    (hr : r < rows) :
    rowAt (addAt m (ps.map Prod.fst) (ps.map fun p => scaleRow p.2 h)) r =
      addRows (rowAt m r) (scaleRow (lastOf (pullsAt r ps)) h) := by
  have hlt : r < m.length := hm.1 ▸ hr
  rw [rowAt, addAt, List.zip_map', List.getD_eq_getElem?_getD,
    getElem?_foldl_set (fun i x => addRows (rowAt m i) x) _ m hlt, pullsAt_map (scaleRow · h), List.getLast?_map, lastOf]
  cases (pullsAt r ps).getLast? with
  | none =>
    rw [Option.map_none, Option.getD_none, addRows_scaleRow_zero (hm.length_rowAt hr), rowAt, List.getD_eq_getElem?_getD]
  | some x => rfl

end Rows

namespace Elements

/-! ## The pulls of a lesson -/

section Lessons

variable {α : Type} [Scalar α]

def Mode.width : Mode → Nat → Nat
  | .concat, size => size + size
  | _, size => size

structure Model.Shaped (m : Model α) : Prop where
  contexts : HasShape m.weights.contexts m.elements.length m.vectors.size
  outputs : HasShape m.weights.outputs m.elements.length (m.mode.width m.vectors.size)
  biases : m.weights.biases.length = m.elements.length
  words : HasShape m.vectors.rows m.vectors.words.length m.vectors.size

def Model.view (m : Model α) (context words : List Nat) : Row α :=
  m.mode.join (m.contextMean context) (m.vectors.mean words)

/-- How strongly an element is pulled: the difference between what it should get and what it gets, times the rate. -/
def Model.pull (m : Model α) (h : Row α) (alpha label : α) (r : Nat) : α := (label - logistic (m.output h r)) * alpha

def Model.pulls (m : Model α) (h : Row α) (alpha : α) (right : Nat) (wrong : List Nat) : List (Nat × α) :=
  (right, m.pull h alpha one right) :: wrong.map fun r => (r, m.pull h alpha zero r)

variable {m : Model α} {context words wrong : List Nat} {right : Nat}

theorem length_meanRows {rows : Matrix α} {size : Nat} (h : ∀ r ∈ rows, r.length = size) :
    (meanRows size rows).length = size := by
  rw [meanRows, List.length_map, length_sumRows h]

theorem Mode.length_join (mode : Mode) {size : Nat} {p l : Row α} (hp : p.length = size) (hl : l.length = size) :
    (mode.join p l).length = mode.width size := by
  cases mode with
  | additive => exact length_addRows hp hl
  | multiply => exact length_mulRows hp hl
  | concat => rw [join, List.length_append, hp, hl, width]

theorem length_wordMean {v : WordVectors α} (hv : HasShape v.rows v.words.length v.size)
    (hwords : ∀ i ∈ words, i < v.words.length) : (v.mean words).length = v.size := by
  rw [WordVectors.mean]
  split
  · exact List.length_replicate
  · exact length_meanRows (hv.rowsAt hwords).2

theorem Model.Shaped.length_contextMean (hm : m.Shaped) (hcontext : ∀ i ∈ context, i < m.elements.length) :
    (m.contextMean context).length = m.vectors.size := by
  rw [contextMean]
  split
  · exact List.length_replicate
  · exact length_meanRows (hm.contexts.rowsAt hcontext).2

theorem Model.Shaped.length_view (hm : m.Shaped) (hcontext : ∀ i ∈ context, i < m.elements.length)
    (hwords : ∀ i ∈ words, i < m.vectors.words.length) : (m.view context words).length = m.mode.width m.vectors.size :=
  m.mode.length_join (hm.length_contextMean hcontext) (length_wordMean hm.words hwords)

/-- A lesson adds to the rows and biases of its elements what they are pulled by. -/
theorem Model.exists_learn (m : Model α) (context words : List Nat) (right : Nat) (hwrong : wrong ≠ []) (alpha : α) :
    let h := m.view context words
    let ps := m.pulls h alpha right wrong
    ∃ w, m.learn context words right wrong alpha = .ok w ∧
      w.outputs = addAt m.weights.outputs (ps.map Prod.fst) (ps.map fun p => scaleRow p.2 h) ∧
      w.biases = addItemsAt m.weights.biases (ps.map Prod.fst) (ps.map Prod.snd) := by
  intro h ps
  have hempty : wrong.isEmpty = false := by simpa using hwrong
  have hplaces : ps.map Prod.fst = right :: wrong := by simp [ps, pulls, Function.comp_def]
  have hpulls : List.zipWith (fun label r => m.pull h alpha label r) (one :: wrong.map fun _ => zero) (right :: wrong) =
      ps.map Prod.snd := by
    rw [List.zipWith_cons_cons, List.zipWith_map_left, List.zipWith_self]
    simp [ps, pulls, Function.comp_def]
  have hrows : (ps.map Prod.snd).map (scaleRow · h) = ps.map fun p => scaleRow p.2 h := List.map_map
  rw [learn, hempty]
  refine ⟨_, rfl, ?_, ?_⟩
  · rw [hplaces, ← hrows, ← hpulls]
    rfl
  · rw [hplaces, ← hpulls]
    rfl

end Lessons

/-! ## Pulls that are lost -/

section Losses

variable {K : Type} [Field K] [LinearOrder K] [IsStrictOrderedRing K]

theorem lastOf_eq_sum_replicate (n : Nat) (x : K) :
    lastOf (List.replicate n x) = (List.replicate n x).sum ↔ n ≤ 1 ∨ x = 0 := by
  rw [List.sum_replicate, nsmul_eq_mul]
  cases n with
  | zero => simp [lastOf]
  | succ n =>
    have hlast : lastOf (List.replicate (n + 1) x) = x := by simp [lastOf, List.getLast?_replicate]
    have hsub : x = ((n + 1 : Nat) : K) * x ↔ (n : K) * x = 0 := by
      push_cast
      constructor <;> intro h <;> linarith
    rw [hlast, hsub, mul_eq_zero, Nat.cast_eq_zero]
    exact or_congr_left (by omega)

theorem lastOf_eq_sum_cons (c x : K) (n : Nat) :
    lastOf (c :: List.replicate (n + 1) x) = (c :: List.replicate (n + 1) x).sum ↔ c + n * x = 0 := by
  have hlast : lastOf (c :: List.replicate (n + 1) x) = x := by
    rw [lastOf, List.replicate_succ', ← List.cons_append, List.getLast?_concat, Option.getD_some]
  rw [hlast, List.sum_cons, List.sum_replicate, nsmul_eq_mul]
  push_cast
  constructor <;> intro h <;> linarith

variable [Exact.Functions K] {m : Model K} {h : Row K} {alpha : K} {right : Nat} {wrong : List Nat}

/-- No pull is lost: every row moves by all multiples of the view that it is pulled by, and every bias by all pulls. -/
def Model.Keeps (m : Model K) (h : Row K) (ps : List (Nat × K)) (w : Weights K) : Prop :=
  ∀ r < m.elements.length,
    rowAt w.outputs r = addRows (rowAt m.weights.outputs r) (sumRows h.length ((pullsAt r ps).map (scaleRow · h))) ∧
    itemAt w.biases r = itemAt m.weights.biases r + (pullsAt r ps).sum

omit [IsStrictOrderedRing K] in
theorem pullsAt_pulls (r : Nat) :
    pullsAt r (m.pulls h alpha right wrong) =
      (if right = r then [m.pull h alpha one r] else []) ++ List.replicate (wrong.count r) (m.pull h alpha zero r) := by
  have hwrong : pullsAt r (wrong.map fun r => (r, m.pull h alpha zero r)) =
      List.replicate (wrong.count r) (m.pull h alpha zero r) := by
    rw [pullsAt, List.filter_map, List.map_map]
    have hfilter : (wrong.filter ((fun p => p.1 == r) ∘ fun r => (r, m.pull h alpha zero r))) =
        List.replicate (wrong.count r) r := List.filter_beq r
    rw [hfilter, List.map_replicate]
    rfl
  rw [← hwrong, Model.pulls, pullsAt, List.filter_cons]
  by_cases hr : right = r
  · simp [hr, pullsAt]
  · simp [hr, pullsAt]

theorem lastOf_pullsAt_iff (r : Nat) :
    lastOf (pullsAt r (m.pulls h alpha right wrong)) = (pullsAt r (m.pulls h alpha right wrong)).sum ↔
      alpha = 0 ∨ (r ≠ right → 2 ≤ wrong.count r → logistic (m.output h r) = 0) ∧
        (r = right → right ∈ wrong → wrong.count right * logistic (m.output h right) = 1) := by
  rw [pullsAt_pulls]
  by_cases hr : right = r
  · subst hr
    rw [if_pos rfl, List.singleton_append]
    cases hcount : wrong.count right with
    | zero =>
      have hnot : right ∉ wrong := List.count_eq_zero.1 hcount
      simp [lastOf, hnot]
    | succ n =>
      have hmem : right ∈ wrong := List.count_pos_iff.1 (by omega)
      have hfactor : m.pull h alpha one right + n * m.pull h alpha zero right =
          alpha * (1 - ((n + 1 : Nat) : K) * logistic (m.output h right)) := by
        rw [Model.pull, Model.pull, Exact.one_eq, Exact.zero_eq]
        push_cast
        ring
      rw [lastOf_eq_sum_cons, hfactor, mul_eq_zero, sub_eq_zero, eq_comm (a := (1 : K))]
      simp [hmem]
  · have hpull : m.pull h alpha zero r = 0 ↔ logistic (m.output h r) = 0 ∨ alpha = 0 := by
      rw [Model.pull, Exact.zero_eq, zero_sub, mul_eq_zero, neg_eq_zero]
    rw [if_neg hr, List.nil_append, lastOf_eq_sum_replicate, hpull]
    have hne : r ≠ right := Ne.symm hr
    simp only [hne, ne_eq, not_false_eq_true, forall_const, false_implies, and_true]
    rw [← Nat.lt_succ_iff, ← not_le]
    tauto

omit [IsStrictOrderedRing K] in
theorem Model.exists_learn_last (hm : m.Shaped) {context words : List Nat}
    (hcontext : ∀ i ∈ context, i < m.elements.length) (hwords : ∀ i ∈ words, i < m.vectors.words.length)
    (right : Nat) (hwrong : wrong ≠ []) (alpha : K) :
    let h := m.view context words
    let ps := m.pulls h alpha right wrong
    ∃ w, m.learn context words right wrong alpha = .ok w ∧ ∀ r < m.elements.length,
      rowAt w.outputs r = addRows (rowAt m.weights.outputs r) (scaleRow (lastOf (pullsAt r ps)) h) ∧
      itemAt w.biases r = itemAt m.weights.biases r + lastOf (pullsAt r ps) := by
  intro h ps
  obtain ⟨w, hw, houtputs, hbiases⟩ := m.exists_learn context words right hwrong alpha
  have hshape : HasShape m.weights.outputs m.elements.length h.length := by
    rw [hm.length_view hcontext hwords]
    exact hm.outputs
  refine ⟨w, hw, fun r hr => ?_⟩
  rw [houtputs, hbiases]
  exact ⟨rowAt_addAt hshape ps hr, itemAt_addItemsAt _ ps (by rwa [hm.biases])⟩

omit [IsStrictOrderedRing K] in
theorem Model.keeps_iff_lastOf {ps : List (Nat × K)} {w : Weights K}
    (hlast : ∀ r < m.elements.length,
      rowAt w.outputs r = addRows (rowAt m.weights.outputs r) (scaleRow (lastOf (pullsAt r ps)) h) ∧
      itemAt w.biases r = itemAt m.weights.biases r + lastOf (pullsAt r ps)) :
    m.Keeps h ps w ↔ ∀ r < m.elements.length, lastOf (pullsAt r ps) = (pullsAt r ps).sum := by
  refine forall₂_congr fun r hr => ?_
  obtain ⟨hrow, hbias⟩ := hlast r hr
  rw [hrow, hbias, sumRows_scaleRow, add_right_inj]
  refine ⟨fun hboth => hboth.2, fun heq => ?_⟩
  rw [heq]
  exact ⟨rfl, rfl⟩

theorem Model.forall_lastOf_iff (hplaces : ∀ i ∈ right :: wrong, i < m.elements.length) :
    (∀ r < m.elements.length,
      lastOf (pullsAt r (m.pulls h alpha right wrong)) = (pullsAt r (m.pulls h alpha right wrong)).sum) ↔
    alpha = 0 ∨ (∀ r, r ≠ right → 2 ≤ wrong.count r → logistic (m.output h r) = 0) ∧
      (right ∈ wrong → wrong.count right * logistic (m.output h right) = 1) := by
  by_cases halpha : alpha = 0
  · simp [lastOf_pullsAt_iff, halpha]
  · simp only [lastOf_pullsAt_iff, halpha, false_or]
    constructor
    · intro hall
      have hrange : ∀ r, 0 < wrong.count r → r < m.elements.length := fun r hr =>
        hplaces r (List.mem_cons_of_mem _ (List.count_pos_iff.1 hr))
      exact ⟨fun r hr htwice => (hall r (hrange r (by omega))).1 hr htwice,
        fun hmem => (hall right (hplaces right List.mem_cons_self)).2 rfl hmem⟩
    · rintro ⟨hothers, hright⟩ r -
      exact ⟨hothers r, fun _ => hright⟩

/-- A lesson leaves the last pull at each row. So no pull is lost exactly when the rate is zero, or when no wrong element
was drawn twice and the right one is not among them; the exceptions are a row whose weight is zero, and the right one
where its share of the pulls that go the other way makes up for its own. -/
theorem Model.learn_keeps_iff (hm : m.Shaped) {context words : List Nat}
    (hcontext : ∀ i ∈ context, i < m.elements.length) (hwords : ∀ i ∈ words, i < m.vectors.words.length)
    (hplaces : ∀ i ∈ right :: wrong, i < m.elements.length) (hwrong : wrong ≠ []) (alpha : K) :
    let h := m.view context words
    let ps := m.pulls h alpha right wrong
    ∃ w, m.learn context words right wrong alpha = .ok w ∧
      (∀ r < m.elements.length,
        rowAt w.outputs r = addRows (rowAt m.weights.outputs r) (scaleRow (lastOf (pullsAt r ps)) h) ∧
        itemAt w.biases r = itemAt m.weights.biases r + lastOf (pullsAt r ps)) ∧
      (m.Keeps h ps w ↔ alpha = 0 ∨ (∀ r, r ≠ right → 2 ≤ wrong.count r → logistic (m.output h r) = 0) ∧
        (right ∈ wrong → wrong.count right * logistic (m.output h right) = 1)) ∧
      ((∀ x : K, logistic x ≠ 0) → right ∉ wrong → (m.Keeps h ps w ↔ alpha = 0 ∨ wrong.Nodup)) := by
  intro h ps
  obtain ⟨w, hw, hlast⟩ := Model.exists_learn_last hm hcontext hwords right hwrong alpha
  have hiff := (Model.keeps_iff_lastOf hlast).trans (Model.forall_lastOf_iff hplaces)
  refine ⟨w, hw, hlast, hiff, fun hlogistic hright => hiff.trans (or_congr_right ?_)⟩
  rw [List.nodup_iff_count_le_one]
  constructor
  · rintro ⟨hothers, -⟩ r
    by_contra htwice
    have hne : r ≠ right := by
      rintro rfl
      exact hright (List.count_pos_iff.1 (by omega))
    exact hlogistic _ (hothers r hne (by omega))
  · intro honce
    exact ⟨fun r _ htwice => absurd (honce r) (by omega), fun hmem => absurd hmem hright⟩

end Losses

/-- Two elements about which nothing was learned yet, of which one is a context. -/
noncomputable def barAndPie : Model ℝ where
  elements := ["plt.bar", "plt.pie"]
  mode := .additive
  reading := default
  vectors := ⟨["bar"], [[0]], 1, false⟩
  weights := ⟨[[1], [0]], [[0], [0]], [0, 0]⟩

theorem shaped_barAndPie : barAndPie.Shaped := by
  refine ⟨⟨rfl, ?_⟩, ⟨rfl, ?_⟩, rfl, ⟨rfl, ?_⟩⟩ <;> simp [barAndPie, Mode.width]

theorem Model.learn_keeps_iff_once :
    let _ := Exact.realFunctions
    barAndPie.Shaped ∧ (∀ i ∈ [0, 1], i < barAndPie.elements.length) ∧ [1].Nodup ∧
      ∃ w, barAndPie.learn [0] [] 0 [1] 1 = .ok w ∧
        barAndPie.Keeps (barAndPie.view [0] []) (barAndPie.pulls (barAndPie.view [0] []) 1 0 [1]) w := by
  intro _
  have hrange : ∀ i ∈ [0, 1], i < barAndPie.elements.length := by simp [barAndPie]
  have hcontext : ∀ i ∈ [0], i < barAndPie.elements.length := by simp [barAndPie]
  have hwords : ∀ i ∈ ([] : List Nat), i < barAndPie.vectors.words.length := by simp
  have hlogistic : ∀ x : ℝ, logistic x ≠ 0 := by
    intro x
    have hpos : (0 : ℝ) < 1 + Real.exp (-x) := by positivity
    rw [logistic, Exact.one_eq]
    exact (one_div_pos.2 hpos).ne'
  obtain ⟨w, hw, -, -, hkeeps⟩ :=
    Model.learn_keeps_iff shaped_barAndPie hcontext hwords hrange (List.cons_ne_nil 1 []) 1
  exact ⟨shaped_barAndPie, hrange, by simp, w, hw, (hkeeps hlogistic (by simp)).2 (Or.inr (by simp))⟩

/-- A wrong element that was drawn twice is pulled once. -/
theorem Model.pie_pulled_once :
    let _ := Exact.realFunctions
    pullsAt 1 (barAndPie.pulls (barAndPie.view [0] []) 1 0 [1, 1]) = [-1 / 2, -1 / 2] ∧
      ∃ w, barAndPie.learn [0] [] 0 [1, 1] 1 = .ok w ∧ itemAt w.biases 1 = -1 / 2 ∧
        ¬ barAndPie.Keeps (barAndPie.view [0] []) (barAndPie.pulls (barAndPie.view [0] []) 1 0 [1, 1]) w := by
  intro _
  have hview : barAndPie.view [0] [] = [1] := by
    simp [Model.view, Model.contextMean, WordVectors.mean, barAndPie, Mode.join, addRows, meanRows, sumRows, rowsAt, rowAt,
      zeros, Exact.zero_eq, Exact.ofInt_eq]
  have houtput : barAndPie.output (barAndPie.view [0] []) 1 = 0 := by
    rw [hview]
    simp [Model.output, dot, mulRows, rowAt, itemAt, barAndPie, Exact.sum_eq]
  have hpull : barAndPie.pull (barAndPie.view [0] []) 1 zero 1 = -1 / 2 := by
    have hexp : (exp (-0) : ℝ) = 1 := (congrArg Real.exp neg_zero).trans Real.exp_zero
    rw [Model.pull, houtput, logistic, hexp, Exact.one_eq, Exact.zero_eq]
    norm_num
  have hpulls : pullsAt 1 (barAndPie.pulls (barAndPie.view [0] []) 1 0 [1, 1]) = [-1 / 2, -1 / 2] := by
    rw [pullsAt_pulls, hpull]
    rfl
  obtain ⟨w, hw, -, hbiases⟩ := barAndPie.exists_learn [0] [] 0 (List.cons_ne_nil 1 [1]) 1
  have hbias : itemAt w.biases 1 = -1 / 2 := by
    rw [hbiases, itemAt_addItemsAt _ _ (by simp [barAndPie]), hpulls]
    simp [lastOf, itemAt, barAndPie]
  refine ⟨hpulls, w, hw, hbias, fun hkeeps => ?_⟩
  have hall := (hkeeps 1 (by simp [barAndPie])).2
  rw [hbias, hpulls] at hall
  norm_num [itemAt, barAndPie] at hall

end Elements

end PlotAdvisor.Models
