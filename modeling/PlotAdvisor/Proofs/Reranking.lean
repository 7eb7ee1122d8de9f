import Mathlib.Algebra.Order.Field.Rat
import PlotAdvisor.Models.Vectors.ElementRanking
import PlotAdvisor.Proofs.ExactNumbers
import PlotAdvisor.Proofs.Faults

/-! What the elements in use do to the scores of the candidates, in exact arithmetic. The sum of shares runs on
through the list, so a candidate is scaled by the shares of all candidates to its own.

* `scaled_eq_scaledBy` - the scores are scaled by the running totals of the candidates' own sums.
* `totals_eq_self_iff` - these totals are the own sums exactly where all sums but the last are zero.
* `forall_perm_alone_iff` - the order of the candidates makes a difference.
-/
set_option autoImplicit false

namespace PlotAdvisor.Models.Vectors.ElementRanker

open Scalar

/-! ## Running totals -/

section Totals

variable {K : Type} [Field K]

/-- The sums of a list up to each of its places, on top of a number. -/
def totals : K → List K → List K
  | _, [] => []
  | t, y :: ys => (t + y) :: totals (t + y) ys

theorem length_totals (t : K) (ys : List K) : (totals t ys).length = ys.length := by
  induction ys generalizing t with
  | nil => rfl
  | cons y ys ih => rw [totals, List.length_cons, List.length_cons, ih]

theorem totals_eq_self_iff (t : K) (ys : List K) :
    totals t ys = ys ↔ (ys ≠ [] → t = 0) ∧ ∀ y ∈ ys.dropLast, y = 0 := by
  induction ys generalizing t with
  | nil => simp [totals]
  | cons y ys ih =>
    rw [totals, List.cons_eq_cons, add_eq_right, ih]
    cases ys with
    | nil => simp
    | cons z zs =>
      rw [List.dropLast_cons_cons, List.forall_mem_cons]
      -- The total that the tail begins with is then the sum at the head.
      constructor
      · rintro ⟨ht, hy, hzs⟩
        exact ⟨fun _ => ht, by simpa [ht] using hy, hzs⟩
      · rintro ⟨ht, hy, hzs⟩
        have ht := ht (by simp)
        exact ⟨ht, fun _ => by rw [ht, hy, add_zero], hzs⟩

end Totals

/-! ## The share of the elements in use -/

section Shares

variable {K : Type} [Field K] (r : ElementRanker K) (pairs : Table (String × String) Int) {used : List String}

/-- The elements in use have counts by which shares can be taken. -/
def Counted (used : List String) : Prop := ∀ u ∈ used, ∃ n, r.counts.get? u = some n ∧ n + 1 ≠ 0

/-- The shares of the elements in use that go together with an element. -/
def ownSum (used : List String) (e : String) : K :=
  (used.map fun u => (pairCount pairs e u : K) / ((r.counts.getD u 0 + 1 : Int) : K)).sum

def ownSums (used : List String) (xs : List (String × K)) : List K := xs.map fun x => r.ownSum pairs used x.1

variable [LinearOrder K] [Exact.Functions K] {r}

theorem share_eq {u : String} {n : Int} (hn : r.counts.get? u = some n) (hne : n + 1 ≠ 0) (e : String) :
    r.share pairs e u = .ok ((pairCount pairs e u : K) / ((r.counts.getD u 0 + 1 : Int) : K)) := by
  have hget : r.counts.getD u 0 = n := by rw [Table.getD, hn]; rfl
  rw [share, hn, hget]
  exact if_neg hne

theorem foldlM_share (hcounted : r.Counted used) (e : String) (t : K) :
    used.foldlM (fun t u => do return t + (← r.share pairs e u)) t = .ok (t + r.ownSum pairs used e) := by
  induction used generalizing t with
  | nil => simp [ownSum, Pure.pure, Except.pure]
  | cons u used ih =>
    have hrest : r.Counted used := fun v hv => hcounted v (List.mem_cons_of_mem u hv)
    obtain ⟨n, hn, hne⟩ := hcounted u List.mem_cons_self
    rw [List.foldlM_cons, share_eq pairs hn hne]
    refine (ih hrest _).trans ?_
    rw [ownSum, ownSum, List.map_cons, List.sum_cons]
    exact congrArg Except.ok (add_assoc t _ _)

def scaledBy (xs : List (String × K)) (sums : List K) : Except Fault (List (String × K)) :=
  (xs.zip sums).mapM fun y => do return (y.1.1, y.1.2 * (← smoothed y.2))

theorem scaledBy_cons (x : String × K) (xs : List (String × K)) (s : K) (ss : List K) :
    scaledBy (x :: xs) (s :: ss) = do return (x.1, x.2 * (← smoothed s)) :: (← scaledBy xs ss) := by
  rw [scaledBy, List.zip_cons_cons, List.mapM_cons]
  cases smoothed s <;> rfl

theorem scaled_eq_scaledBy (hcounted : r.Counted used) (t : K) (xs : List (String × K)) :
    r.scaled pairs used t xs = scaledBy xs (totals t (r.ownSums pairs used xs)) := by
  induction xs generalizing t with
  | nil => rfl
  | cons x xs ih =>
    rw [scaled, foldlM_share pairs hcounted, ownSums, List.map_cons, totals, scaledBy_cons, ← ownSums, ← ih]
    rfl

variable {pairs}

theorem suggest_eq (hcounted : r.Counted used) (htogether : r.together = some pairs) (query : String) :
    r.suggest query used = do
      let best ← r.candidates query used
      return byScore (← scaledBy best (totals zero (r.ownSums pairs used best))) := by
  simp only [suggest, htogether, scaled_eq_scaledBy pairs hcounted]

theorem totals_ownSums_iff (xs : List (String × K)) :
    totals zero (r.ownSums pairs used xs) = r.ownSums pairs used xs ↔
      ∀ x ∈ xs.dropLast, r.ownSum pairs used x.1 = 0 := by
  rw [totals_eq_self_iff, ownSums, ← List.map_dropLast, List.forall_mem_map]
  exact and_iff_right fun _ => Exact.zero_eq

variable (r pairs)

/-- Each candidate is scaled by what it has itself in common with the elements in use. -/
def Alone (used : List String) (xs : List (String × K)) : Prop :=
  r.scaled pairs used zero xs = scaledBy xs (r.ownSums pairs used xs)

variable {r pairs}

theorem alone_of_zero (hcounted : r.Counted used) {xs : List (String × K)}
    (hzero : ∀ x ∈ xs.dropLast, r.ownSum pairs used x.1 = 0) : r.Alone pairs used xs := by
  rw [Alone, scaled_eq_scaledBy pairs hcounted, (totals_ownSums_iff xs).mpr hzero]

end Shares

/-! ## Candidates on their own -/

section Logarithm

variable {K : Type} [Field K] [LinearOrder K] [IsStrictOrderedRing K] [Exact.Functions K]

theorem smoothed_eq_ok_iff {s y : K} : smoothed s = .ok y ↔ -10 < s ∧ log (s + 10) = y := by
  have hten : (ofInt 10 : K) = 10 := by rw [Exact.ofInt_eq]; norm_num
  have hiff : atMost (s + 10) (zero : K) = true ↔ ¬ -10 < s := by
    rw [Exact.atMost_iff, Exact.zero_eq, ← sub_neg_eq_add, sub_nonpos, not_lt]
  simp only [smoothed, hten]
  split
  case isTrue h => simp [hiff.mp h]
  case isFalse h => simp [not_not.mp (mt hiff.mpr h)]

theorem exists_scaledBy_eq_ok (xs : List (String × K)) {ss : List K} (hss : ∀ s ∈ ss, -10 < s) :
    ∃ ys, scaledBy xs ss = .ok ys := by
  apply mapM_ok_iff.mpr
  intro x hx
  have hs := hss x.2 (List.of_mem_zip hx).2
  rw [smoothed_eq_ok_iff.mpr ⟨hs, rfl⟩]
  exact ⟨_, rfl⟩

/-- Where the logarithm tells numbers apart and no score is zero, the scores tell the sums. -/
theorem eq_of_scaledBy_eq (hlog : Set.InjOn (log : K → K) (Set.Ioi 0)) {xs : List (String × K)} {ss ts : List K}
    (hscores : ∀ x ∈ xs, x.2 ≠ 0) (hss : ss.length = xs.length) (hts : ts.length = xs.length)
    (hdefined : ∀ t ∈ ts, -10 < t) (h : scaledBy xs ss = scaledBy xs ts) : ss = ts := by
  induction xs generalizing ss ts with
  | nil => rw [List.length_eq_zero_iff.mp hss, List.length_eq_zero_iff.mp hts]
  | cons x xs ih =>
    obtain ⟨s, ss, rfl⟩ := List.exists_cons_of_length_eq_add_one hss
    obtain ⟨t, ts, rfl⟩ := List.exists_cons_of_length_eq_add_one hts
    rw [List.forall_mem_cons] at hscores hdefined
    obtain ⟨zs, hzs⟩ := exists_scaledBy_eq_ok xs hdefined.2
    have ht := smoothed_eq_ok_iff.mpr ⟨hdefined.1, rfl⟩
    rw [scaledBy_cons, scaledBy_cons, ht, hzs] at h
    obtain ⟨y, hy, h⟩ := bind_eq_ok h
    obtain ⟨ys, hys, h⟩ := bind_eq_ok h
    obtain ⟨hx, rfl⟩ := List.cons_eq_cons.mp (Except.ok.inj h)
    obtain ⟨hs, rfl⟩ := smoothed_eq_ok_iff.mp hy
    have hlogs : log (s + 10) = log (t + 10) := mul_left_cancel₀ hscores.1 (Prod.mk.inj hx).2
    have hsum : s + 10 = t + 10 :=
      hlog (neg_lt_iff_pos_add.mp hs) (neg_lt_iff_pos_add.mp hdefined.1) hlogs
    rw [add_right_cancel hsum, ih hscores.2 (Nat.succ.inj hss) (Nat.succ.inj hts) hdefined.2 (hys.trans hzs.symm)]

variable {r : ElementRanker K} {pairs : Table (String × String) Int} {used : List String}

theorem alone_iff (hcounted : r.Counted used) (hlog : Set.InjOn (log : K → K) (Set.Ioi 0)) {xs : List (String × K)}
    (hdefined : ∀ x ∈ xs, -10 < r.ownSum pairs used x.1) (hscores : ∀ x ∈ xs, x.2 ≠ 0) :
    r.Alone pairs used xs ↔ ∀ x ∈ xs.dropLast, r.ownSum pairs used x.1 = 0 := by
  refine ⟨fun halone => ?_, alone_of_zero hcounted⟩
  rw [Alone, scaled_eq_scaledBy pairs hcounted] at halone
  apply (totals_ownSums_iff xs).mp
  apply eq_of_scaledBy_eq hlog hscores _ _ _ halone
  · rw [length_totals, ownSums, List.length_map]
  · rw [ownSums, List.length_map]
  · rwa [ownSums, List.forall_mem_map]

theorem forall_perm_alone_iff (hcounted : r.Counted used) (hlog : Set.InjOn (log : K → K) (Set.Ioi 0))
    {xs : List (String × K)} (hdefined : ∀ x ∈ xs, -10 < r.ownSum pairs used x.1) (hscores : ∀ x ∈ xs, x.2 ≠ 0) :
    (∀ ys, ys.Perm xs → r.Alone pairs used ys) ↔ xs.length ≤ 1 ∨ ∀ x ∈ xs, r.ownSum pairs used x.1 = 0 := by
  constructor
  · intro halone
    apply or_iff_not_imp_left.mpr
    intro hlength x hx
    -- In the order that has the candidate at the head, others follow it.
    obtain ⟨before, after, rfl⟩ := List.append_of_mem hx
    have hperm : (x :: (before ++ after)).Perm (before ++ x :: after) := List.perm_middle.symm
    have hrest : before ++ after ≠ [] := by
      intro hnil
      simp [List.append_eq_nil_iff.mp hnil] at hlength
    have hzero := (alone_iff hcounted hlog (fun y hy => hdefined y (hperm.subset hy))
      (fun y hy => hscores y (hperm.subset hy))).mp (halone _ hperm)
    rw [List.dropLast_cons_of_ne_nil hrest] at hzero
    exact hzero x List.mem_cons_self
  · intro h ys hperm
    apply alone_of_zero hcounted
    intro y hy
    rcases h with hlength | hzero
    · have hpos := List.length_pos_of_mem hy
      rw [List.length_dropLast, hperm.length_eq] at hpos
      omega
    · exact hzero y (hperm.subset (List.dropLast_subset ys hy))

/-- Where the logarithm tells numbers apart, the candidates are scaled on their own exactly if all but the last have
nothing in common with the elements in use. In every order they are exactly if there is one at most or none has. -/
theorem scaled_alone_iff (r : ElementRanker K) (pairs : Table (String × String) Int) (used : List String)
    (hcounted : r.Counted used) :
    (r.together = some pairs → ∀ query, r.suggest query used = do
      let best ← r.candidates query used
      return byScore (← scaledBy best (totals zero (r.ownSums pairs used best)))) ∧
    ∀ xs : List (String × K), (∀ x ∈ xs, -10 < r.ownSum pairs used x.1) →
      ((∀ x ∈ xs.dropLast, r.ownSum pairs used x.1 = 0) → r.Alone pairs used xs) ∧
      (Set.InjOn (log : K → K) (Set.Ioi 0) → (∀ x ∈ xs, x.2 ≠ 0) →
        (r.Alone pairs used xs ↔ ∀ x ∈ xs.dropLast, r.ownSum pairs used x.1 = 0) ∧
        ((∀ ys, ys.Perm xs → r.Alone pairs used ys) ↔
          xs.length ≤ 1 ∨ ∀ x ∈ xs, r.ownSum pairs used x.1 = 0)) := by
  refine ⟨suggest_eq hcounted, fun xs hdefined => ⟨alone_of_zero hcounted, fun hlog hscores => ?_⟩⟩
  exact ⟨alone_iff hcounted hlog hdefined hscores, forall_perm_alone_iff hcounted hlog hdefined hscores⟩

end Logarithm

/-! ## A bar before a pie -/

def barPairs : Table (String × String) Int := ⟨[(("plt.bar", "plt.title"), 9)]⟩

def barRanker : ElementRanker ℚ := ⟨default, default, default, ⟨[("plt.title", 9)]⟩, false, some barPairs⟩

theorem barRanker_counted : barRanker.Counted ["plt.title"] := by
  intro u hu
  rw [List.mem_singleton.mp hu]
  exact ⟨9, by decide, by decide⟩

theorem ownSum_bar : barRanker.ownSum barPairs ["plt.title"] "plt.bar" = 9 / 10 := by decide +kernel

theorem ownSum_pie : barRanker.ownSum barPairs ["plt.title"] "plt.pie" = 0 := by decide +kernel

theorem scaled_alone_iff_bar :
    let _ := Exact.unchanging
    ¬ barRanker.Alone barPairs ["plt.title"] [("plt.bar", 1), ("plt.pie", 1)] ∧
      barRanker.Alone barPairs ["plt.title"] [("plt.pie", 1), ("plt.bar", 1)] := by
  intro _
  have hlog : Set.InjOn (log : ℚ → ℚ) (Set.Ioi 0) := fun _ _ _ _ h => h
  have hall := (scaled_alone_iff barRanker barPairs ["plt.title"] barRanker_counted).2
  constructor
  · intro halone
    have hzero := ((hall [("plt.bar", 1), ("plt.pie", 1)] (by simp [ownSum_bar, ownSum_pie]; norm_num)).2 hlog
      (by simp)).1.mp halone
    simp [ownSum_bar] at hzero
  · exact (hall [("plt.pie", 1), ("plt.bar", 1)] (by simp [ownSum_bar, ownSum_pie]; norm_num)).1 (by simp [ownSum_pie])

theorem pie_scaled_by_bar :
    barRanker.ownSum barPairs ["plt.title"] "plt.pie" = 0 ∧
    ∀ [Exact.Functions ℚ],
      barRanker.scaled barPairs ["plt.title"] zero [("plt.bar", 1), ("plt.pie", 1)] =
        .ok [("plt.bar", log (109 / 10)), ("plt.pie", log (109 / 10))] ∧
      barRanker.scaled barPairs ["plt.title"] zero [("plt.pie", 1), ("plt.bar", 1)] =
        .ok [("plt.pie", log 10), ("plt.bar", log (109 / 10))] := by
  refine ⟨ownSum_pie, fun {_} => ?_⟩
  have hsmoothed : smoothed (9 / 10 : ℚ) = .ok (log (109 / 10)) :=
    smoothed_eq_ok_iff.mpr ⟨by norm_num, by norm_num⟩
  have hzero : smoothed (0 : ℚ) = .ok (log 10) := smoothed_eq_ok_iff.mpr ⟨by norm_num, by norm_num⟩
  constructor <;>
    simp [scaled_eq_scaledBy barPairs barRanker_counted, ownSums, ownSum_bar, ownSum_pie, Exact.zero_eq, totals,
      scaledBy, hsmoothed, hzero, Bind.bind, Except.bind, Pure.pure, Except.pure]

end PlotAdvisor.Models.Vectors.ElementRanker
