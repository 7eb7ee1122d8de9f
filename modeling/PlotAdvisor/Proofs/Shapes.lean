import PlotAdvisor.Models.Productions.Training
import PlotAdvisor.Proofs.Faults

/-! The shape of what a productions model has learned. The vocabulary and the settings say how many rows each matrix
has, and every row is as long as the settings say. Learning from numbers that have rows keeps this, so that nothing
that is added or multiplied place by place ever differs in length.

* `HasShape` - a matrix with so many rows of such a length.
* `Weights.Shaped` - the shape of all weights; the weights at the start have it.
* `Weights.Shaped.learn` - one lesson keeps it.
-/
set_option autoImplicit false

namespace PlotAdvisor.Models

variable {α : Type} [Scalar α]

/-! ## Rows and matrices -/

def HasShape (m : Matrix α) (rows size : Nat) : Prop := m.length = rows ∧ ∀ r ∈ m, r.length = size

section Matrices

variable {m : Matrix α} {rows size : Nat}

omit [Scalar α] in
theorem hasShape_map {β : Type} {f : β → Row α} (hf : ∀ x, (f x).length = size) (xs : List β) :
    HasShape (xs.map f) xs.length size := by
  refine ⟨List.length_map f, fun r hr => ?_⟩
  obtain ⟨x, -, rfl⟩ := List.mem_map.1 hr
  exact hf x

omit [Scalar α] in
theorem HasShape.length_rowAt (h : HasShape m rows size) {i : Nat} (hi : i < rows) : (rowAt m i).length = size := by
  have hlt : i < m.length := h.1 ▸ hi
  rw [rowAt, List.getD_eq_getElem?_getD, List.getElem?_eq_getElem hlt]
  exact h.2 _ (List.getElem_mem hlt)

omit [Scalar α] in
theorem HasShape.rowsAt (h : HasShape m rows size) {places : List Nat} (hp : ∀ i ∈ places, i < rows) :
    HasShape (rowsAt m places) places.length size := by
  refine ⟨List.length_map _, fun r hr => ?_⟩
  obtain ⟨i, hi, rfl⟩ := List.mem_map.1 hr
  exact h.length_rowAt (hp i hi)

theorem length_addRows {a b : Row α} (ha : a.length = size) (hb : b.length = size) : (addRows a b).length = size := by
  rw [addRows, List.length_zipWith, ha, hb, Nat.min_self]

theorem length_mulRows {a b : Row α} (ha : a.length = size) (hb : b.length = size) : (mulRows a b).length = size := by
  rw [mulRows, List.length_zipWith, ha, hb, Nat.min_self]

theorem length_sumRows (h : ∀ r ∈ m, r.length = size) : (sumRows size m).length = size := by
  suffices hall : ∀ total : Row α, total.length = size → (m.foldl addRows total).length = size from
    hall (zeros size) List.length_replicate
  induction m with
  | nil => exact fun total ht => ht
  | cons r m ih =>
    intro total ht
    rw [List.forall_mem_cons] at h
    exact ih h.2 (addRows total r) (length_addRows ht h.1)

omit [Scalar α] in
theorem HasShape.map (h : HasShape m rows size) {f : Row α → Row α}
    (hf : ∀ r, r.length = size → (f r).length = size) : HasShape (m.map f) rows size := by
  refine ⟨by rw [List.length_map, h.1], fun r hr => ?_⟩
  obtain ⟨q, hq, rfl⟩ := List.mem_map.1 hr
  exact hf q (h.2 q hq)

omit [Scalar α] in
theorem HasShape.zipWith {m' : Matrix α} {f : Row α → Row α → Row α} (h : HasShape m rows size)
    (h' : HasShape m' rows size) (hf : ∀ a b, a.length = size → b.length = size → (f a b).length = size) :
    HasShape (List.zipWith f m m') rows size := by
  refine ⟨by rw [List.length_zipWith, h.1, h'.1, Nat.min_self], fun r hr => ?_⟩
  rw [← List.map_uncurry_zip_eq_zipWith] at hr
  obtain ⟨p, hp, rfl⟩ := List.mem_map.1 hr
  exact hf p.1 p.2 (h.2 _ (List.of_mem_zip hp).1) (h'.2 _ (List.of_mem_zip hp).2)

theorem HasShape.addAt (h : HasShape m rows size) {places : List Nat} (hp : ∀ i ∈ places, i < rows)
    {more : Matrix α} {count : Nat} (hm : HasShape more count size) : HasShape (addAt m places more) rows size := by
  -- every row that is put in comes from the matrix as it was, and not from the one that is being changed
  suffices hall : ∀ (ps : List (Nat × Row α)), ps ⊆ places.zip more → ∀ out : Matrix α, HasShape out rows size →
      HasShape (ps.foldl (fun out p => out.set p.1 (addRows (rowAt m p.1) p.2)) out) rows size from
    hall _ (List.Subset.refl _) m h
  intro ps
  induction ps with
  | nil => exact fun _ out hout => hout
  | cons p ps ih =>
    intro hsub out hout
    rw [List.cons_subset] at hsub
    refine ih hsub.2 _ ⟨by rw [List.length_set, hout.1], fun r hr => ?_⟩
    obtain ⟨hplace, hrow⟩ := List.of_mem_zip hsub.1
    rcases List.mem_or_eq_of_mem_set hr with hr | rfl
    · exact hout.2 r hr
    · exact length_addRows (h.length_rowAt (hp p.1 hplace)) (hm.2 p.2 hrow)

omit [Scalar α] in
theorem length_foldl_set {γ : Type} (f : Nat → γ → α) (ps : List (Nat × γ)) (out : List α) :
    (ps.foldl (fun out p => out.set p.1 (f p.1 p.2)) out).length = out.length := by
  induction ps generalizing out with
  | nil => rfl
  | cons p ps ih => rw [List.foldl_cons, ih, List.length_set]

theorem length_addItemsAt (r : Row α) (places : List Nat) (more : Row α) :
    (addItemsAt r places more).length = r.length :=
  length_foldl_set (fun i x => itemAt r i + x) _ r

end Matrices

namespace Productions

open Program Scalar

/-! ## Weights -/

structure Weights.Shaped (st : Settings α) (v : Vocabulary) (w : Weights α) : Prop where
  inner : HasShape w.inner (v.inner.length + 1) st.size
  terminals : HasShape w.terminals (v.terminals.length + 1) st.size
  words : HasShape w.words v.wordCount st.size
  innerMarks : HasShape w.innerMarks st.memory.ancestors.toNat st.size
  terminalMarks : HasShape w.terminalMarks st.memory.terminals.toNat st.size
  entries : HasShape w.entries v.entryCount st.size
  biases : w.biases.length = v.entryCount

/-- The numbers that stand for the surroundings are as many as the memory holds, and each has its row. -/
structure Context.Within (st : Settings α) (v : Vocabulary) (c : Context) : Prop where
  inner : c.inner.length = st.memory.ancestors.toNat
  innerRows : ∀ n ∈ c.inner, n < v.inner.length + 1
  terminals : c.terminals.length = st.memory.terminals.toNat
  terminalRows : ∀ n ∈ c.terminals, n < v.terminals.length + 1
  wordRows : ∀ n ∈ c.words, n < v.wordCount

theorem hasShape_startOfMarks {size : Nat} {count : Int} {marks : Matrix α} (h : startOfMarks size count = .ok marks) :
    HasShape marks count.toNat size := by
  rw [startOfMarks] at h
  split at h
  · exact nomatch h
  · rw [← Except.ok.inj h]
    refine ⟨List.length_replicate, fun r hr => ?_⟩
    rw [List.eq_of_mem_replicate hr, List.length_replicate]

omit [Scalar α] in
theorem hasShape_startOfSymbols (st : Settings α) (ss : List Symbol) :
    HasShape (startOfSymbols st ss) (ss.length + 1) st.size := by
  have h := hasShape_map (f := fun s => st.rows.row (s ++ toString st.seed) st.size)
    (fun s => st.rows.length_row _ _) ("None" :: ss.map Symbol.render)
  rwa [List.length_cons, List.length_map] at h

theorem length_eraseDups_le (xs : List String) : xs.eraseDups.length ≤ xs.length := by
  cases xs with
  | nil => exact Nat.le_refl 0
  | cons x xs =>
    have hfilter := List.length_filter_le (fun y => !y == x) xs
    have hrest := length_eraseDups_le (xs.filter fun y => !y == x)
    rw [List.eraseDups_cons, List.length_cons, List.length_cons]
    omega
termination_by xs.length
decreasing_by exact Nat.lt_succ_of_le (List.length_filter_le _ _)

theorem wordCount_le (v : Vocabulary) : v.wordCount ≤ v.words.length := by
  have h := length_eraseDups_le (v.words.map Word.text)
  rwa [List.length_map] at h

theorem length_startOfBiases (ps : List Production) :
    (ps.flatMap (startOfBiases : Production → Row α)).length =
      (ps.map fun p => p.children.length).foldr (· + ·) 0 := by
  induction ps with
  | nil => rfl
  | cons p ps ih => simp [ih, startOfBiases]

theorem Weights.shaped_of_start {st : Settings α} {v : Vocabulary} {w : Weights α} (h : Weights.start st v = .ok w) :
    w.Shaped st v := by
  rw [Weights.start] at h
  obtain ⟨innerMarks, hinner, h⟩ := bind_eq_ok h
  obtain ⟨terminalMarks, hterminals, h⟩ := bind_eq_ok h
  obtain rfl := Except.ok.inj h
  refine ⟨hasShape_startOfSymbols st v.inner, hasShape_startOfSymbols st v.terminals, ?_,
    hasShape_startOfMarks hinner, hasShape_startOfMarks hterminals, ?_, length_startOfBiases _⟩
  · have hrows := hasShape_map (f := fun w : Word => st.rows.row (w.text ++ toString st.seed) st.size)
      (fun w => st.rows.length_row _ _) (v.words.take v.wordCount)
    rwa [List.length_take, Nat.min_eq_left (wordCount_le v)] at hrows
  · have hrows := hasShape_map (f := fun i : Nat => st.rows.row ("syn1r" ++ toString i ++ toString st.seed) st.size)
      (fun i => st.rows.length_row _ _) (List.range v.entryCount)
    rwa [List.length_range] at hrows

section Lesson

variable {st : Settings α} {v : Vocabulary} {w : Weights α} {c : Context}

/-- What is seen of the program and of the utterance is as long as a row. -/
theorem Weights.Shaped.length_views (hw : w.Shaped st v) (hc : c.Within st v) :
    (c.views st.size w).1.length = st.size ∧ (c.views st.size w).2.length = st.size := by
  have hinner := hw.inner.rowsAt hc.innerRows
  have hterminals := hw.terminals.rowsAt hc.terminalRows
  rw [hc.inner] at hinner
  rw [hc.terminals] at hterminals
  have hmul : ∀ a b : Row α, a.length = st.size → b.length = st.size → (mulRows a b).length = st.size :=
    fun a b => length_mulRows
  refine ⟨length_addRows ?_ ?_, ?_⟩
  · exact length_sumRows (hinner.zipWith hw.innerMarks hmul).2
  · exact length_sumRows (hterminals.zipWith hw.terminalMarks hmul).2
  · rw [Context.views, meanRows, List.length_map]
    exact length_sumRows (hw.words.rowsAt hc.wordRows).2

theorem length_joined {additive : Bool} {known said : Row α} {size : Nat} (hk : known.length = size)
    (hs : said.length = size) : (joined additive known said).length = size := by
  cases additive with
  | false => exact length_mulRows hk hs
  | true => exact length_addRows hk hs

theorem Weights.Shaped.learn (hw : w.Shaped st v) (hc : c.Within st v) {right : Nat} {wrong : List Nat}
    (he : ∀ n ∈ right :: wrong, n < v.entryCount) (labels : List α) (alpha : α) :
    (w.learn st c right wrong labels alpha).Shaped st v := by
  obtain ⟨hknown, hsaid⟩ := hw.length_views hc
  have hinner := hw.inner.rowsAt hc.innerRows
  have hterminals := hw.terminals.rowsAt hc.terminalRows
  rw [hc.inner] at hinner
  rw [hc.terminals] at hterminals
  rw [Weights.learn]
  generalize c.views st.size w = views at hknown hsaid
  obtain ⟨known, said⟩ := views
  dsimp only at hknown hsaid ⊢
  have hh : (joined st.additive known said).length = st.size := length_joined hknown hsaid
  generalize joined st.additive known said = h at hh
  generalize List.zipWith (fun label f => (label - f) * alpha) labels ((right :: wrong).map fun r =>
    logistic (dot h (rowAt w.entries r) + itemAt w.biases r)) = g
  have hscaled : ∀ r ∈ List.zipWith scaleRow g (rowsAt w.entries (right :: wrong)), r.length = st.size := by
    intro r hr
    rw [← List.map_uncurry_zip_eq_zipWith] at hr
    obtain ⟨p, hp, rfl⟩ := List.mem_map.1 hr
    rw [← (hw.entries.rowsAt he).2 _ (List.of_mem_zip hp).2]
    exact List.length_map _
  have hback := length_sumRows hscaled
  generalize sumRows st.size (List.zipWith scaleRow g (rowsAt w.entries (right :: wrong))) = back at hback
  -- what goes back to the program and to the utterance is as long as a row, whether it is split or not
  have hshare : ∀ other : Row α, other.length = st.size →
      (if st.additive then back else mulRows back other).length = st.size := by
    intro other ho
    split
    · exact hback
    · exact length_mulRows hback ho
  have hfactor : ∀ r : Row α, r.length = st.size →
      (mulRows r (if st.additive then back else mulRows back said)).length = st.size :=
    fun r hr => length_mulRows hr (hshare said hsaid)
  refine ⟨?_, ?_, ?_, ?_, ?_, ?_, ?_⟩
  · exact hw.inner.addAt hc.innerRows (hw.innerMarks.map hfactor)
  · exact hw.terminals.addAt hc.terminalRows (hw.terminalMarks.map hfactor)
  · refine hw.words.addAt hc.wordRows (hasShape_map (fun n => ?_) c.words)
    rw [List.length_map]
    exact hshare known hknown
  · exact hw.innerMarks.zipWith (hinner.map hfactor) fun a b => length_addRows
  · exact hw.terminalMarks.zipWith (hterminals.map hfactor) fun a b => length_addRows
  · exact hw.entries.addAt he (hasShape_map (fun c => by rw [scaleRow, List.length_map, hh]) g)
  · rw [length_addItemsAt]
    exact hw.biases

end Lesson

end Productions

end PlotAdvisor.Models
