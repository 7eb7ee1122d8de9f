import Mathlib.Analysis.SpecialFunctions.Pow.Real
import PlotAdvisor.Models.Elements.Training
import PlotAdvisor.Proofs.ExactNumbers
import PlotAdvisor.Proofs.FullNames
import PlotAdvisor.Proofs.Lessons

/-! Drawing from tables of cumulative shares. A number draws the first place whose item is not below it, and the numbers
begin with zero. So the first place is drawn by one number more than its share, and the place where the whole is reached
by one number less. -/
set_option autoImplicit false

namespace PlotAdvisor.Models

open Scalar

/-! ## Tables of shares -/

/-- Shares that are added up: the items never fall, and the last one is the whole. -/
structure Cumulative (table : List Int) (whole : Nat) : Prop where
  nonneg : ∀ t ∈ table, 0 ≤ t
  sorted : table.Pairwise (· ≤ ·)
  last : table.getLast? = some (whole : Int)
  pos : 0 < whole

/-- The item in front of a place, which is zero in front of the first. -/
def itemBefore (table : List Int) (j : Nat) : Int := (0 :: table).getD j 0

def increment (table : List Int) (j : Nat) : Int := table.getD j 0 - itemBefore table j

def drawCount (table : List Int) (whole j : Nat) : Nat := (List.range whole).countP fun n => drawnPlace table n == j

def Reaches (table : List Int) (whole j : Nat) : Prop := itemBefore table j < whole ∧ table.getD j 0 = whole

instance (table : List Int) (whole j : Nat) : Decidable (Reaches table whole j) := inferInstanceAs (Decidable (_ ∧ _))

variable {table : List Int} {whole j : Nat}

theorem itemBefore_succ (table : List Int) (j : Nat) : itemBefore table (j + 1) = table.getD j 0 := by
  simp [itemBefore]

theorem drawnPlace_cons (t : Int) (ts : List Int) (n : Nat) :
    drawnPlace (t :: ts) n = if t < n then drawnPlace ts n + 1 else 0 := by
  unfold drawnPlace searchSorted
  split <;> simp_all

theorem drawnPlace_le_iff (h : table.Pairwise (· ≤ ·)) (hj : j < table.length) (n : Nat) :
    drawnPlace table n ≤ j ↔ (n : Int) ≤ table.getD j 0 := by
  induction table generalizing j with
  | nil => simp at hj
  | cons t ts ih =>
    obtain ⟨hle, hts⟩ := List.pairwise_cons.1 h
    rw [drawnPlace_cons]
    by_cases ht : t < n
    · rw [if_pos ht]
      cases j with
      | zero => simpa using ht
      | succ j => simpa using ih hts (Nat.lt_of_succ_lt_succ hj)
    · rw [if_neg ht]
      refine iff_of_true (Nat.zero_le j) ?_
      cases j with
      | zero => simpa using ht
      | succ j =>
        have hlt : j < ts.length := Nat.lt_of_succ_lt_succ hj
        have hitem := hle ts[j] (List.getElem_mem hlt)
        rw [List.getD_cons_succ, List.getD_eq_getElem _ _ hlt]
        omega

namespace Cumulative

theorem ne_nil (h : Cumulative table whole) : table ≠ [] := by
  rintro rfl
  exact absurd h.last (by simp)

theorem le_whole (h : Cumulative table whole) : ∀ t ∈ table, t ≤ whole := by
  obtain ⟨front, rfl⟩ := List.getLast?_eq_some_iff.1 h.last
  intro t ht
  rcases List.mem_append.1 ht with ht | ht
  · exact (List.pairwise_append.1 h.sorted).2.2 t ht _ (List.mem_singleton.2 rfl)
  · rw [List.mem_singleton.1 ht]

theorem getD_le_getD (h : Cumulative table whole) {i : Nat} (hij : i ≤ j) (hj : j < table.length) :
    table.getD i 0 ≤ table.getD j 0 := by
  rcases Nat.lt_or_eq_of_le hij with hlt | rfl
  · rw [List.getD_eq_getElem _ _ (hlt.trans hj), List.getD_eq_getElem _ _ hj]
    exact List.pairwise_iff_getElem.1 h.sorted i j (hlt.trans hj) hj hlt
  · exact le_rfl

theorem bounds (h : Cumulative table whole) (hj : j < table.length) :
    0 ≤ itemBefore table j ∧ itemBefore table j ≤ table.getD j 0 ∧ table.getD j 0 ≤ whole := by
  have hitem : ∀ i (hi : i < table.length), 0 ≤ table.getD i 0 ∧ table.getD i 0 ≤ whole := by
    intro i hi
    rw [List.getD_eq_getElem _ _ hi]
    exact ⟨h.nonneg _ (List.getElem_mem hi), h.le_whole _ (List.getElem_mem hi)⟩
  cases j with
  | zero => exact ⟨le_rfl, hitem 0 hj⟩
  | succ j =>
    rw [itemBefore_succ]
    exact ⟨(hitem j (Nat.lt_of_succ_lt hj)).1, h.getD_le_getD j.le_succ hj, (hitem (j + 1) hj).2⟩

end Cumulative

/-! ## How many numbers draw a place -/

theorem countP_range_le {t : Int} (ht : 0 ≤ t) (whole : Nat) :
    ((List.range whole).countP (fun n : Nat => decide ((n : Int) ≤ t)) : Int) = min (t + 1) whole := by
  induction whole with
  | zero => simp; omega
  | succ n ih =>
    rw [List.range_succ, List.countP_append, List.countP_singleton, Nat.cast_add, ih]
    by_cases hn : (n : Int) ≤ t
    · simp [hn]
      omega
    · simp [hn]
      omega

theorem countP_le_succ (f : Nat → Nat) (j : Nat) (ns : List Nat) :
    ns.countP (fun n => decide (f n ≤ j + 1)) = ns.countP (fun n => decide (f n ≤ j)) + ns.countP fun n => f n == j + 1 := by
  induction ns with
  | nil => rfl
  | cons n ns ih =>
    simp only [List.countP_cons, ih, decide_eq_true_eq, beq_iff_eq]
    split_ifs <;> omega

theorem countP_drawnPlace_le (h : Cumulative table whole) (hj : j < table.length) :
    ((List.range whole).countP (fun n => decide (drawnPlace table n ≤ j)) : Int) = min (table.getD j 0 + 1) whole := by
  have hitem : 0 ≤ table.getD j 0 := (h.bounds hj).1.trans (h.bounds hj).2.1
  simp only [drawnPlace_le_iff h.sorted hj]
  exact countP_range_le hitem whole

theorem drawCount_eq (h : Cumulative table whole) (hj : j < table.length) :
    (drawCount table whole j : Int) =
      min (table.getD j 0 + 1) whole - if j = 0 then 0 else min (itemBefore table j + 1) whole := by
  cases j with
  | zero =>
    rw [← countP_drawnPlace_le h hj, if_pos rfl, sub_zero, drawCount]
    simp only [Nat.le_zero, Bool.beq_eq_decide_eq]
  | succ j =>
    have hup := countP_drawnPlace_le h hj
    have hbelow := countP_drawnPlace_le h (Nat.lt_of_succ_lt hj)
    rw [countP_le_succ, Nat.cast_add, hbelow] at hup
    rw [if_neg j.succ_ne_zero, itemBefore_succ, drawCount]
    omega

theorem drawCount_eq_increment (h : Cumulative table whole) (hj : j < table.length) :
    (drawCount table whole j : Int) =
      increment table j + (if j = 0 then 1 else 0) - (if Reaches table whole j then 1 else 0) := by
  obtain ⟨hbefore, hle, hwhole⟩ := h.bounds hj
  have hpos := h.pos
  rw [drawCount_eq h hj, increment]
  unfold Reaches
  have hzero : j = 0 → itemBefore table j = 0 := by
    rintro rfl
    rfl
  split_ifs <;> omega

theorem drawCount_eq_increment_iff (h : Cumulative table whole) (hj : j < table.length) :
    (drawCount table whole j : Int) = increment table j ↔ (j = 0 ↔ Reaches table whole j) := by
  rw [drawCount_eq_increment h hj]
  split_ifs with hfirst hreach hreach
  · exact iff_of_true (by omega) (iff_of_true hfirst hreach)
  · exact iff_of_false (by omega) fun hiff => hreach (hiff.1 hfirst)
  · exact iff_of_false (by omega) fun hiff => hfirst (hiff.2 hreach)
  · exact iff_of_true (by omega) (iff_of_false hfirst hreach)

/-! ## Tables that are built -/

section Sums

variable {α : Type} [Scalar α]

def sumsFrom (total : α) : List α → List α
  | [] => []
  | x :: xs => (total + x) :: sumsFrom (total + x) xs

theorem runningSums_eq (xs : List α) : runningSums xs = sumsFrom zero xs := by
  suffices hall : ∀ (done : List α) (total : α),
      (xs.foldl (fun acc x => ((acc.2 + x) :: acc.1, acc.2 + x)) (done, total)).1.reverse =
        done.reverse ++ sumsFrom total xs from hall [] zero
  induction xs with
  | nil => simp [sumsFrom]
  | cons x xs ih =>
    intro done total
    rw [List.foldl_cons, ih, List.reverse_cons, List.append_assoc, sumsFrom, List.singleton_append]

end Sums

variable {K : Type} [Field K] [LinearOrder K] [IsStrictOrderedRing K] [Exact.Functions K]

/-- Powers are not negative, and the nearest integers of numbers are in the order of the numbers. -/
structure Regular (K : Type) [Field K] [LinearOrder K] [Exact.Functions K] : Prop where
  pow_nonneg : ∀ x y : K, 0 ≤ x → 0 ≤ pow x y
  nearest_mono : Monotone (nearest : K → Int)
  nearest_zero : nearest (0 : K) = 0

theorem sumsFrom_sorted {xs : List K} (h : ∀ x ∈ xs, 0 ≤ x) (total : K) :
    (total :: sumsFrom total xs).Pairwise (· ≤ ·) := by
  induction xs generalizing total with
  | nil => exact List.pairwise_singleton _ _
  | cons x xs ih =>
    rw [List.forall_mem_cons] at h
    have hrest := ih h.2 (total + x)
    have hle : total ≤ total + x := le_add_of_nonneg_right h.1
    refine List.pairwise_cons.2 ⟨fun y hy => ?_, hrest⟩
    rcases List.mem_cons.1 hy with rfl | hy
    · exact hle
    · exact hle.trans ((List.pairwise_cons.1 hrest).1 y hy)

theorem cumulative_runningSums (hK : Regular K) {xs : List K} (h : ∀ x ∈ xs, 0 ≤ x)
    (hlast : ((runningSums xs).map fun x => nearest (x * ofInt shareDomain)).getLast? = some (shareDomain : Int)) :
    Cumulative ((runningSums xs).map fun x => nearest (x * ofInt shareDomain)) shareDomain := by
  have hdomain : (0 : K) ≤ ofInt shareDomain := by
    rw [Exact.ofInt_eq, Int.cast_natCast]
    exact Nat.cast_nonneg _
  have hsums := sumsFrom_sorted h 0
  rw [runningSums_eq, Exact.zero_eq] at hlast ⊢
  obtain ⟨hnonneg, hsorted⟩ := List.pairwise_cons.1 hsums
  refine ⟨fun t ht => ?_, ?_, hlast, by decide⟩
  · obtain ⟨x, hx, rfl⟩ := List.mem_map.1 ht
    rw [← hK.nearest_zero]
    exact hK.nearest_mono (mul_nonneg (hnonneg x hx) hdomain)
  · rw [List.pairwise_map]
    exact hsorted.imp fun hle => hK.nearest_mono (mul_le_mul_of_nonneg_right hle hdomain)

theorem Regular.power_nonneg (hK : Regular K) {n : Int} (hn : 0 ≤ n) (y : K) : 0 ≤ (pow (ofInt n) y : K) :=
  hK.pow_nonneg _ _ (Int.cast_nonneg hn)

theorem div_sum_nonneg {x : K} (hx : 0 ≤ x) {xs : List K} (h : ∀ y ∈ xs, 0 ≤ y) : 0 ≤ x / sum xs := by
  rw [Exact.sum_eq]
  exact div_nonneg hx (List.sum_nonneg h)

theorem cumulative_sharesOf (hK : Regular K) {counts : Table String Int} (hcounts : ∀ n ∈ counts.values, 0 ≤ n)
    {elements : List String} (hne : elements ≠ []) (h : Elements.sharesOf K counts elements = .ok table) :
    Cumulative table shareDomain := by
  rw [Elements.sharesOf] at h
  obtain ⟨u, hensure, h⟩ := bind_eq_ok h
  obtain rfl := Except.ok.inj h
  have hcount : ∀ e, 0 ≤ counts.getD e 0 := by
    intro e
    rw [Table.getD]
    cases he : counts.get? e with
    | none => rfl
    | some n => exact hcounts n (List.mem_map.2 ⟨(e, n), Table.mem_entries_of_get? he, rfl⟩)
  refine cumulative_runningSums hK (fun x hx => ?_) (Productions.getLast?_of_ensure ?_ hensure)
  · obtain ⟨e, -, rfl⟩ := List.mem_map.1 hx
    refine div_sum_nonneg (hK.power_nonneg (hcount e) _) fun y hy => ?_
    obtain ⟨n, hn, rfl⟩ := List.mem_map.1 hy
    exact hK.power_nonneg (hcounts n hn) _
  · rw [← List.length_pos_iff, List.length_map, Productions.length_runningSums, List.length_map]
    exact List.length_pos_of_ne_nil hne

theorem cumulative_shares (hK : Regular K) {p : Productions.Production} {negative : Int} (hp : p.Complete K negative)
    (hdrawn : p.isDrawn negative = true) : Cumulative (p.shares K) shareDomain := by
  have hlast := hp hdrawn
  have hpower : ∀ y ∈ (p.children.map Prod.snd).map fun n : Nat => (pow (ofInt n) (decimal 75 2) : K), 0 ≤ y := by
    intro y hy
    obtain ⟨n, -, rfl⟩ := List.mem_map.1 hy
    exact hK.power_nonneg (Int.natCast_nonneg n) _
  refine cumulative_runningSums hK (fun x hx => ?_) hlast
  obtain ⟨y, hy, rfl⟩ := List.mem_map.1 hx
  exact div_sum_nonneg (hpower y hy) hpower

inductive BuiltTable (K : Type) [Scalar K] : List Int → Prop
  | ofElements {counts : Table String Int} {elements : List String} {table : List Int} :
      (∀ n ∈ counts.values, 0 ≤ n) → elements ≠ [] → Elements.sharesOf K counts elements = .ok table →
      BuiltTable K table
  | ofProduction {st : Productions.Settings K} {pairs : List Productions.Pair} {σ : Type} [Draws σ] {g g' : σ}
      {m : Productions.Model K} {p : Productions.Production} : Productions.Model.start st pairs g = .ok (m, g') →
      p ∈ m.vocabulary.productions → p.isDrawn st.negative = true → BuiltTable K (p.shares K)

theorem BuiltTable.cumulative (hK : Regular K) (h : BuiltTable K table) : Cumulative table shareDomain := by
  cases h with
  | ofElements hcounts hne h => exact cumulative_sharesOf hK hcounts hne h
  | ofProduction hm hp hdrawn => exact cumulative_shares hK ((Productions.Model.ready_of_start hm).complete _ hp) hdrawn

/-- Every table that is built in exact arithmetic has shares that are added up to the whole domain. From any such table
the first place is drawn by one number more than its share and the place where the whole is reached by one number less.
So all places are drawn as often as their shares say exactly when the first place has the whole. -/
theorem drawn_by_share_iff (hK : Regular K) :
    (∀ table, BuiltTable K table → Cumulative table shareDomain) ∧
    ∀ (table : List Int) (whole : Nat), Cumulative table whole →
      (∀ j < table.length, (drawCount table whole j : Int) =
        increment table j + (if j = 0 then 1 else 0) - (if Reaches table whole j then 1 else 0)) ∧
      ((∀ j < table.length, (drawCount table whole j : Int) = increment table j) ↔
        table.head? = some (whole : Int)) := by
  refine ⟨fun table h => h.cumulative hK, fun table whole h => ⟨fun j hj => drawCount_eq_increment h hj, ?_⟩⟩
  have hlength : 0 < table.length := List.length_pos_of_ne_nil h.ne_nil
  have hfirst : Reaches table whole 0 ↔ table.head? = some (whole : Int) := by
    obtain ⟨t, ts, rfl⟩ := List.exists_cons_of_ne_nil h.ne_nil
    simp [Reaches, itemBefore, h.pos]
  constructor
  · intro hall
    exact hfirst.1 (((drawCount_eq_increment_iff h hlength).1 (hall 0 hlength)).1 rfl)
  · intro hhead j hj
    refine (drawCount_eq_increment_iff h hj).2 ⟨?_, fun hreach => ?_⟩
    · rintro rfl
      exact hfirst.2 hhead
    · -- behind the first place the whole has been reached already
      by_contra hne
      obtain ⟨i, rfl⟩ := Nat.exists_eq_succ_of_ne_zero hne
      have hle := h.getD_le_getD i.zero_le (Nat.lt_of_succ_lt hj)
      have hbefore := hreach.1
      rw [itemBefore_succ] at hbefore
      have hwhole := (hfirst.2 hhead).2
      omega

theorem regular_real : @Regular ℝ _ _ Exact.realFunctions := by
  let _ := Exact.realFunctions
  refine ⟨fun x y hx => Real.rpow_nonneg hx y, fun x y hxy => ?_, round_zero⟩
  change round x ≤ round y
  rw [round_eq, round_eq]
  exact Int.floor_le_floor (by linarith)

/-- A histogram that was met five times, between two things that were never met. -/
def onlyHistogram : List (String × Int) := [("plt.pie", 0), ("plt.hist", 5), ("plt.bar", 0)]

theorem sharesOf_onlyHistogram :
    let _ := Exact.realFunctions
    Elements.sharesOf ℝ (Table.ofList onlyHistogram) (onlyHistogram.map Prod.fst) =
      .ok [0, (shareDomain : Int), (shareDomain : Int)] := by
  intro _
  have hzero : (pow (ofInt 0) (decimal 75 2) : ℝ) = 0 := by
    change ((0 : Int) : ℝ) ^ ((75 : Int) / 10 ^ 2 : ℝ) = 0
    norm_num
  have hfive : (pow (ofInt 5) (decimal 75 2) : ℝ) ≠ 0 := (Real.rpow_pos_of_pos (by norm_num [Exact.ofInt_eq]) _).ne'
  have htotal : (sum ((Table.ofList onlyHistogram).values.map fun n => pow (ofInt n) (decimal 75 2)) : ℝ) =
      pow (ofInt 5) (decimal 75 2) := by
    change (sum [pow (ofInt 0) (decimal 75 2), pow (ofInt 5) (decimal 75 2), pow (ofInt 0) (decimal 75 2)] : ℝ) = _
    rw [Exact.sum_eq, hzero]
    simp
  have hshares : (onlyHistogram.map Prod.fst).map (fun e =>
      (pow (ofInt ((Table.ofList onlyHistogram).getD e 0)) (decimal 75 2) / pow (ofInt 5) (decimal 75 2) : ℝ)) =
      [0, 1, 0] := by
    change [(pow (ofInt 0) (decimal 75 2) / pow (ofInt 5) (decimal 75 2) : ℝ),
      pow (ofInt 5) (decimal 75 2) / pow (ofInt 5) (decimal 75 2),
      pow (ofInt 0) (decimal 75 2) / pow (ofInt 5) (decimal 75 2)] = _
    rw [hzero, zero_div, div_self hfive]
  have hdomain : nearest (ofInt shareDomain : ℝ) = shareDomain := round_intCast _
  rw [Elements.sharesOf]
  dsimp only
  rw [htotal, hshares, runningSums_eq]
  simp only [sumsFrom, Exact.zero_eq, List.map_cons, List.map_nil, add_zero, zero_add, zero_mul, one_mul, hdomain,
    regular_real.nearest_zero]
  rfl

theorem builtTable_onlyHistogram :
    let _ := Exact.realFunctions
    BuiltTable ℝ [0, (shareDomain : Int), (shareDomain : Int)] := by
  intro _
  exact .ofElements (by decide) (by decide) sharesOf_onlyHistogram

theorem drawn_by_share_iff_onlyHistogram :
    let _ := Exact.realFunctions
    Regular ℝ ∧ BuiltTable ℝ [0, (shareDomain : Int), (shareDomain : Int)] ∧
      (drawCount [0, (shareDomain : Int), (shareDomain : Int)] shareDomain 1 : Int) = shareDomain - 1 := by
  intro _
  obtain ⟨hbuilt, hcount⟩ := drawn_by_share_iff regular_real
  obtain ⟨hdrawn, -⟩ := hcount _ _ (hbuilt _ builtTable_onlyHistogram)
  refine ⟨regular_real, builtTable_onlyHistogram, (hdrawn 1 (by decide)).trans ?_⟩
  decide

/-- A thing that was never met is drawn, by the number zero. -/
theorem unmet_drawn :
    let _ := Exact.realFunctions
    BuiltTable ℝ [0, (shareDomain : Int), (shareDomain : Int)] ∧
      increment [0, (shareDomain : Int), (shareDomain : Int)] 0 = 0 ∧
      drawnPlace [0, (shareDomain : Int), (shareDomain : Int)] 0 = 0 ∧
      drawCount [0, (shareDomain : Int), (shareDomain : Int)] shareDomain 0 = 1 := by
  intro _
  have hcount := drawCount_eq_increment (builtTable_onlyHistogram.cumulative regular_real) (j := 0) (by decide)
  refine ⟨builtTable_onlyHistogram, rfl, rfl, Int.natCast_inj.1 (hcount.trans ?_)⟩
  decide

/-! ## Wrong elements -/

def Drawable (table : List Int) (whole j : Nat) : Prop :=
  j < table.length ∧ (j = 0 ∨ itemBefore table j < table.getD j 0 ∧ itemBefore table j + 1 < whole)

theorem exists_drawnPlace_iff (h : Cumulative table whole) :
    (∃ n < whole, drawnPlace table n = j) ↔ Drawable table whole j := by
  have hcount : (∃ n < whole, drawnPlace table n = j) ↔ 0 < drawCount table whole j := by
    simp [drawCount, List.countP_pos_iff]
  constructor
  · rintro ⟨n, hn, rfl⟩
    have hlt : drawnPlace table n < table.length := drawnPlace_lt h.last hn
    have hdrawn := drawCount_eq h hlt
    have hpos := hcount.1 ⟨n, hn, rfl⟩
    refine ⟨hlt, ?_⟩
    split_ifs at hdrawn with hfirst
    · exact Or.inl hfirst
    · exact Or.inr (by omega)
  · rintro ⟨hlt, hj⟩
    have hdrawn := drawCount_eq h hlt
    obtain ⟨hbefore, hle, -⟩ := h.bounds hlt
    have hpos := h.pos
    refine hcount.2 ?_
    split_ifs at hdrawn with hfirst <;> omega

/-- A source whose numbers are given. -/
structure Sequence where
  item : Nat → Nat

instance : Draws Sequence := ⟨fun s => (s.item 0, ⟨fun i => s.item (i + 1)⟩), Prod.mk, fun xs _ => .refl xs⟩

theorem drawnPlaces_const (h : Cumulative table whole) {n : Nat} (hn : n < whole) (count : Nat) :
    drawnPlaces table count (⟨fun _ => n⟩ : Sequence) = List.replicate count (drawnPlace table n) := by
  have hmod : n % whole = n := Nat.mod_eq_of_lt hn
  induction count with
  | zero => rfl
  | succ count ih =>
    rw [drawnPlaces]
    simp only [Draws.below, Draws.next, h.last, Option.getD_some, Int.toNat_natCast, hmod]
    rw [ih, List.replicate_succ]

namespace Elements

variable {accepts : Nat → Bool}

theorem drawWrong_unending (h : Cumulative table whole) (hnone : ∀ n < whole, accepts (drawnPlace table n) = false)
    {σ : Type} [Draws σ] (fuel count : Nat) (done : List Nat) (g : σ) :
    drawWrong table accepts fuel (count + 1) done g = .error .unending := by
  obtain ⟨g', hdraws⟩ := drawWrong_eq table accepts fuel (count + 1) done g
  have hempty : (drawnPlaces table fuel g).filter accepts = [] := by
    refine List.filter_eq_nil_iff.2 fun j hj => ?_
    obtain ⟨n, hn, rfl⟩ := exists_of_mem_drawnPlaces h.last h.pos hj
    simp [hnone n hn]
  rw [hdraws, hempty]
  rfl

theorem exists_drawWrong_eq_ok (h : Cumulative table whole) {n : Nat} (hn : n < whole)
    (hacc : accepts (drawnPlace table n) = true) (count : Nat) (done : List Nat) :
    ∃ r, drawWrong table accepts count count done (⟨fun _ => n⟩ : Sequence) = .ok r := by
  obtain ⟨g', hdraws⟩ := drawWrong_eq table accepts count count done (⟨fun _ => n⟩ : Sequence)
  rw [drawnPlaces_const h hn, List.filter_replicate_of_pos hacc, List.length_replicate, if_pos le_rfl] at hdraws
  exact ⟨_, hdraws⟩

variable {α : Type} [Scalar α]

/-- An element that may be drawn as a wrong one: it is not the beginning of the right one, or it is not on the lines of
the example, as the settings say. -/
def Learning.Spares (st : Learning α) (lines : List (List String)) (e : String) (j : Nat) : Prop :=
  if st.settings.drawUsed then ∀ rest, e ≠ st.model.elements.getD j "" ++ rest
  else ∀ x ∈ lines.flatten, st.model.number? x ≠ some j

omit [Scalar α] in
theorem Learning.accepts_iff (st : Learning α) (lines : List (List String)) (e : String) (j : Nat) :
    st.accepts (st.model.numbers lines.flatten) e j = true ↔ st.Spares lines e j := by
  unfold Learning.accepts Learning.Spares
  split_ifs
  · rw [Bool.not_eq_true', ← Bool.not_eq_true, Text.startsWith_eq_true_iff, not_exists]
  · rw [Bool.not_eq_true', ← Bool.not_eq_true, List.contains_iff_mem, Model.numbers, List.mem_eraseDups,
      List.mem_filterMap, not_exists]
    exact forall_congr' fun x => not_and

theorem Learning.use_unending {st : Learning α} (h : Cumulative st.shares whole) {used : List Nat} {e : String}
    (hnone : ∀ n < whole, st.accepts used e (drawnPlace st.shares n) = false) (hnegative : 1 ≤ st.settings.negative)
    (htext : ∀ withParents, st.background.library.trainingText e withParents ≠ "")
    (hright : ∃ right, st.model.number? e = some right) {σ : Type} [Draws σ] (g : σ) (context : List Nat) (alpha : α) :
    st.use context used alpha e g = .error .unending := by
  obtain ⟨right, hright⟩ := hright
  obtain ⟨count, hcount⟩ := Nat.exists_eq_add_of_le' (show 1 ≤ st.settings.negative.toNat by omega)
  rw [Learning.use]
  obtain ⟨withParents, g'⟩ := if st.settings.drawParents then coin α g else (false, g)
  simp only [beq_iff_eq, htext withParents, if_false, hright, hcount]
  rw [drawWrong_unending h hnone]
  rfl

/-- Where an element is learned from, there is a number that draws a wrong element exactly when a place that can be drawn
holds an element that may be drawn. Exactly then the loop of the draws can end; else it goes on for ever, whatever is
drawn, and so does learning from the element. -/
theorem Learning.sample_exists_iff {st : Learning α} (h : Cumulative st.shares whole) (lines : List (List String))
    (e : String) :
    let accepts := st.accepts (st.model.numbers lines.flatten) e
    ((∃ n < whole, accepts (drawnPlace st.shares n) = true) ↔
      ∃ j, Drawable st.shares whole j ∧ st.Spares lines e j) ∧
    (∀ count, 1 ≤ count → ((∃ n < whole, accepts (drawnPlace st.shares n) = true) ↔
      ∃ (draws : Sequence) (fuel : Nat), ∃ r, drawWrong st.shares accepts fuel count [] draws = .ok r)) ∧
    ((∀ n < whole, accepts (drawnPlace st.shares n) = false) → 1 ≤ st.settings.negative →
      (∀ withParents, st.background.library.trainingText e withParents ≠ "") → (∃ right, st.model.number? e = some right) →
      ∀ (σ : Type) [Draws σ] (g : σ) (context : List Nat) (alpha : α),
        st.use context (st.model.numbers lines.flatten) alpha e g = .error .unending) := by
  intro accepts
  refine ⟨?_, fun count hcount => ?_, fun hnone hnegative htext hright σ _ g context alpha => ?_⟩
  · constructor
    · rintro ⟨n, hn, hacc⟩
      exact ⟨_, (exists_drawnPlace_iff h).1 ⟨n, hn, rfl⟩, (st.accepts_iff lines e _).1 hacc⟩
    · rintro ⟨j, hj, hspares⟩
      obtain ⟨n, hn, rfl⟩ := (exists_drawnPlace_iff h).2 hj
      exact ⟨n, hn, (st.accepts_iff lines e _).2 hspares⟩
  · obtain ⟨count, rfl⟩ := Nat.exists_eq_add_of_le' hcount
    constructor
    · rintro ⟨n, hn, hacc⟩
      exact ⟨_, _, exists_drawWrong_eq_ok h hn hacc (count + 1) []⟩
    · rintro ⟨draws, fuel, r, hr⟩
      by_contra hnot
      have hnone : ∀ n < whole, accepts (drawnPlace st.shares n) = false := by simpa using hnot
      rw [drawWrong_unending h hnone] at hr
      cases hr
  · exact Learning.use_unending h hnone hnegative htext hright g context alpha

/-- What is known before an example when the vocabulary has a function and its argument only. -/
def barAndColor (drawUsed : Bool) : Learning Float where
  model := ⟨["plt.bar", "plt.bar@color"], .additive, default, default, ⟨[], [], []⟩⟩
  settings :=
    { mode := .additive, negative := 1, epochs := 1, seed := 1, alpha := 1, window := 2, lemmas := false
      phraseLimit := 1, threads := some 1, drawParents := false, contextsFromTexts := true
      outputsFromTexts := false, drawUsed := drawUsed, rows := default }
  background :=
    { library := ⟨Table.ofList [
        ("plt.bar", ⟨"plt.bar", "bar", "", "func", "plt", "", "1", "make a bar plot", ""⟩),
        ("plt.bar@color", ⟨"plt.bar@color", "color", "", "arg", "plt.bar", "", "1", "the color of the bars", ""⟩)]⟩
      normalizer := default, vectors := default, emptyWords := [], tokenizer := default, stemmers := default }
  shares := [1073741824, 2147483647]
  total := 1

theorem cumulative_barAndColor (drawUsed : Bool) : Cumulative (barAndColor drawUsed).shares shareDomain :=
  ⟨by simp [barAndColor], by simp [barAndColor], rfl, by decide⟩

theorem Learning.sample_exists_iff_bar :
    Cumulative (barAndColor false).shares shareDomain ∧ ∃ n < shareDomain,
      (barAndColor false).accepts ((barAndColor false).model.numbers ["plt.bar"]) "plt.bar"
        (drawnPlace (barAndColor false).shares n) = true := by
  refine ⟨cumulative_barAndColor false, ?_⟩
  obtain ⟨hexists, -, -⟩ := Learning.sample_exists_iff (cumulative_barAndColor false) [[], ["plt.bar"]] "plt.bar"
  refine hexists.2 ⟨1, ?_, ?_⟩
  · refine ⟨by decide, Or.inr (by decide)⟩
  · intro x hx
    obtain rfl : x = "plt.bar" := by simpa using hx
    decide

/-- No wrong element can be drawn for the argument where the example uses both: the one setting refuses what is used,
the other what the argument begins with. -/
theorem Learning.color_unending :
    Cumulative [1073741824, 2147483647] shareDomain ∧ ∀ drawUsed,
      (barAndColor drawUsed).shares = [1073741824, 2147483647] ∧ (barAndColor drawUsed).settings.negative = 1 ∧
      let used := (barAndColor drawUsed).model.numbers [[], ["plt.bar", "plt.bar@color"]].flatten
      (∀ n < shareDomain,
        (barAndColor drawUsed).accepts used "plt.bar@color" (drawnPlace (barAndColor drawUsed).shares n) = false) ∧
      ∀ (g : Generator) (context : List Nat) (alpha : Float),
        (barAndColor drawUsed).use context used alpha "plt.bar@color" g = .error .unending := by
  refine ⟨cumulative_barAndColor false, fun drawUsed => ⟨rfl, rfl, ?_⟩⟩
  intro used
  have hshares := cumulative_barAndColor drawUsed
  have hboth : ∀ j < 2, (barAndColor drawUsed).accepts used "plt.bar@color" j = false := by cases drawUsed <;> decide
  have hnone : ∀ n < shareDomain,
      (barAndColor drawUsed).accepts used "plt.bar@color" (drawnPlace (barAndColor drawUsed).shares n) = false :=
    fun n hn => hboth _ (drawnPlace_lt hshares.last hn)
  have htext : ∀ withParents,
      (barAndColor drawUsed).background.library.trainingText "plt.bar@color" withParents ≠ "" := by
    cases drawUsed <;> decide
  exact ⟨hnone, fun g context alpha => Learning.use_unending hshares hnone le_rfl htext ⟨1, rfl⟩ g context alpha⟩

end Elements

end PlotAdvisor.Models
