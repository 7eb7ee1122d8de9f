import Mathlib.Analysis.SpecialFunctions.Pow.Real
import PlotAdvisor.Advice.Highlight
import PlotAdvisor.Proofs.ExactNumbers
import PlotAdvisor.Proofs.Table

/-! What the weights for highlighting keep of the scores, in exact arithmetic and for every positive exponential.

The weight of a thing is its share, unless its score lies less than three tenths below the best: then it is the
largest share less a penalty for the distance. The largest weight therefore goes to the best scores. Lower scores can
come out of order at two places: where the penalty of a near score is larger than the lead of the largest share
over the share of a far one, and among the far ones where a negative score counts as it is and a lower one, of the
lower half, counts as zero.

* `highlight_eq` - the weights in terms of the scores alone.
* `weightIn_best`, `weightIn_le` - the best score has the largest share, and nothing has more.
* `share_le_share_iff` - the order of the shares of far scores.
-/
set_option autoImplicit false

namespace PlotAdvisor.Advice

open Scalar

/-! ## Penalties -/

section Penalty

variable {K : Type} [Field K] [LinearOrder K]

/-- What a near score has less than the largest share, by its distance from the best. -/
def penalty (d : K) : K := if d < 0.1 then d / 2 else if d < 0.2 then 2 * d else 3 * d

variable [IsStrictOrderedRing K]

theorem penalty_zero : penalty (0 : K) = 0 := by norm_num [penalty]

theorem penalty_nonneg {d : K} (hd : 0 ≤ d) : 0 ≤ penalty d := by
  unfold penalty
  split_ifs <;> linarith

theorem penalty_mono {d e : K} (hde : d ≤ e) : penalty d ≤ penalty e := by
  unfold penalty
  split_ifs <;> linarith

theorem raised_eq [Exact.Functions K] (top d own : K) :
    raised top d own = if d < 3 / 10 then max (top - penalty d) 0 else own := by
  have hdown (m : Int) (f : K) (hf : (decimal m 1 : K) = f) :
      maxOf (top - d * decimal m 1) zero = max (top - f * d) 0 := by
    rw [Exact.maxOf_eq, Exact.zero_eq, hf, mul_comm]
  have hone : (decimal 1 1 : K) = 0.1 := by norm_num [Exact.decimal_eq]
  have htwo : (decimal 2 1 : K) = 0.2 := by norm_num [Exact.decimal_eq]
  have hthree : (decimal 3 1 : K) = 3 / 10 := by norm_num [Exact.decimal_eq]
  simp only [raised, penalty, Exact.less_iff, hone, htwo, hthree, hdown 5 (1 / 2) (by norm_num [Exact.decimal_eq]),
    hdown 20 2 (by norm_num [Exact.decimal_eq]), hdown 30 3 (by norm_num [Exact.decimal_eq])]
  by_cases h1 : d < 0.1
  · have h3 : d < 3 / 10 := by linarith
    rw [if_pos h1, if_pos h3, if_pos h1, one_div_mul_eq_div]
  · by_cases h2 : d < 0.2
    · have h3 : d < 3 / 10 := by linarith
      rw [if_neg h1, if_pos h2, if_pos h3, if_neg h1, if_pos h2]
    · rw [if_neg h1, if_neg h2, if_neg h1, if_neg h2]

end Penalty

/-! ## The largest -/

section Largest

variable {K : Type} [LinearOrder K]

theorem isGreatest_foldl_max (x : K) (xs : List K) : IsGreatest {y | y ∈ x :: xs} (xs.foldl max x) := by
  induction xs generalizing x with
  | nil => simp [IsGreatest, upperBounds]
  | cons y ys ih =>
    obtain ⟨hmem, hle⟩ := ih (max x y)
    have hmax : max x y ≤ ys.foldl max (max x y) := hle (by simp)
    refine ⟨?_, ?_⟩
    · rcases List.mem_cons.1 hmem with htop | hlater
      · rw [List.foldl_cons, htop]
        rcases max_choice x y with h | h <;> simp [h]
      · exact List.mem_cons_of_mem x (List.mem_cons_of_mem y hlater)
    · rintro z hz
      rcases List.mem_cons.1 hz with rfl | hz
      · exact (le_max_left z y).trans hmax
      · rcases List.mem_cons.1 hz with rfl | hz
        · exact (le_max_right x z).trans hmax
        · exact hle (List.mem_cons_of_mem _ hz)

/-- Whoever has the highest score has the highest weight. -/
def CrownsBest {κ : Type} (items weights : List (κ × K)) : Prop :=
  ∀ a s x, (a, s) ∈ items → (a, x) ∈ weights → (∀ i ∈ items, i.2 ≤ s) → ∀ w ∈ weights, w.2 ≤ x

def FollowsScores {κ : Type} (items weights : List (κ × K)) : Prop :=
  ∀ a s x b t y, (a, s) ∈ items → (a, x) ∈ weights → (b, t) ∈ items → (b, y) ∈ weights → t < s → y ≤ x

variable [Field K] [Exact.Functions K]

theorem isGreatest_topScore {scores : List K} (h : scores ≠ []) : IsGreatest {s | s ∈ scores} (topScore scores) := by
  obtain ⟨x, xs, rfl⟩ := List.exists_cons_of_ne_nil h
  have hstep : (fun m y : K => if less y m then m else y) = max := by
    funext m y
    by_cases hlt : y < m
    · rw [if_pos (Exact.less_iff.2 hlt), max_eq_left hlt.le]
    · rw [if_neg (mt Exact.less_iff.1 hlt), max_eq_right (not_lt.1 hlt)]
  rw [topScore, hstep]
  exact isGreatest_foldl_max x xs

theorem isGreatest_topWeight {ws : List K} (h : ws ≠ []) : IsGreatest {w | w ∈ ws} (topWeight ws) := by
  obtain ⟨x, xs, rfl⟩ := List.exists_cons_of_ne_nil h
  have hstep : (maxOf : K → K → K) = max := by
    funext a b
    exact Exact.maxOf_eq a b
  rw [topWeight, hstep]
  exact isGreatest_foldl_max x xs

end Largest

/-! ## Weights in terms of scores -/

variable {K : Type} [Field K] [LinearOrder K] [Exact.Functions K]

def portion (scores : List K) (s : K) : K := exp (stretched scores s)

def portions (scores : List K) : K := (scores.map (portion scores)).sum

def share (scores : List K) (s : K) : K := min 1 (portion scores s / portions scores * 2)

def topShare (scores : List K) : K := topWeight (scores.map (share scores))

/-- How far a score lies below the best. -/
def gap (scores : List K) (s : K) : K := topScore scores - s

def weightIn (scores : List K) (s : K) : K := raised (topShare scores) (gap scores s) (share scores s)

section Items

variable {κ : Type} [BEq κ] [LawfulBEq κ] {items : List (κ × K)}

theorem entries_weights (hitems : (items.map Prod.fst).Nodup) :
    (weights items).entries = items.map fun i => (i.1, share (items.map Prod.snd) i.2) := by
  have hkeys : ((items.map fun i => (i.1, stretched (items.map Prod.snd) i.2)).map Prod.fst).Nodup := by
    rwa [List.map_map]
  simp only [weights, Table.mapValues, Table.values, Table.entries_ofList hkeys, Exact.sum_eq, Exact.minOf_eq,
    Exact.one_eq, Exact.ofInt_eq, List.map_map]
  simp [share, portions, portion, Function.comp_def]

theorem highlight_eq (hitems : (items.map Prod.fst).Nodup) :
    highlight items = items.map fun i => (i.1, weightIn (items.map Prod.snd) i.2) := by
  have hweights := entries_weights hitems
  have hvalues : (weights items).values = (items.map Prod.snd).map (share (items.map Prod.snd)) := by
    rw [Table.values, hweights, List.map_map, List.map_map]
    rfl
  have hkeys : (weights items).keys.Nodup := by
    rw [Table.keys, hweights, List.map_map]
    exact hitems
  rw [highlight]
  refine List.map_congr_left fun i hi => ?_
  have hshare : (weights items).get? i.1 = some (share (items.map Prod.snd) i.2) :=
    Table.get?_of_mem_entries hkeys (by rw [hweights]; exact List.mem_map_of_mem hi)
  have hscore : (Table.ofList items).get? i.1 = some i.2 :=
    Table.get?_of_mem_entries (Table.nodup_keys_ofList items) (by rw [Table.entries_ofList hitems]; exact hi)
  simp only [Table.getD, hshare, hscore, hvalues, Option.getD_some]
  rfl

theorem mem_highlight_iff (hitems : (items.map Prod.fst).Nodup) {a : κ} {s x : K} (ha : (a, s) ∈ items) :
    (a, x) ∈ highlight items ↔ x = weightIn (items.map Prod.snd) s := by
  rw [highlight_eq hitems]
  constructor
  · intro hx
    obtain ⟨⟨b, t⟩, hb, heq⟩ := List.mem_map.1 hx
    obtain ⟨rfl, rfl⟩ := Prod.mk.inj heq
    have hsame : (b, s) = (b, t) := List.inj_on_of_nodup_map hitems ha hb rfl
    rw [(Prod.mk.inj hsame).2]
  · rintro rfl
    exact List.mem_map_of_mem (f := fun i => (i.1, weightIn (items.map Prod.snd) i.2)) ha

theorem followsScores_iff (hitems : (items.map Prod.fst).Nodup) :
    FollowsScores items (highlight items) ↔ ∀ s ∈ items.map Prod.snd, ∀ t ∈ items.map Prod.snd,
      t < s → weightIn (items.map Prod.snd) t ≤ weightIn (items.map Prod.snd) s := by
  constructor
  · intro h s hs t ht hts
    obtain ⟨⟨a, s⟩, ha, rfl⟩ := List.mem_map.1 hs
    obtain ⟨⟨b, t⟩, hb, rfl⟩ := List.mem_map.1 ht
    exact h a s _ b t _ ha ((mem_highlight_iff hitems ha).2 rfl) hb ((mem_highlight_iff hitems hb).2 rfl) hts
  · intro h a s x b t y ha hx hb hy hts
    rw [(mem_highlight_iff hitems ha).1 hx, (mem_highlight_iff hitems hb).1 hy]
    exact h s (List.mem_map_of_mem ha) t (List.mem_map_of_mem hb) hts

end Items

/-! ## Shares -/

variable {scores : List K} {s t : K}

theorem share_le_one (scores : List K) (s : K) : share scores s ≤ 1 := min_le_left _ _

theorem share_le_topShare (hs : s ∈ scores) : share scores s ≤ topShare scores := by
  have hne : scores.map (share scores) ≠ [] := by simpa using List.ne_nil_of_mem hs
  exact (isGreatest_topWeight hne).2 (List.mem_map_of_mem hs)

theorem exists_topShare (h : scores ≠ []) : ∃ s ∈ scores, topShare scores = share scores s := by
  have hne : scores.map (share scores) ≠ [] := by simpa using h
  obtain ⟨s, hs, heq⟩ := List.mem_map.1 (isGreatest_topWeight hne).1
  exact ⟨s, hs, heq.symm⟩

theorem topShare_le_one (h : scores ≠ []) : topShare scores ≤ 1 := by
  obtain ⟨s, -, htop⟩ := exists_topShare h
  rw [htop]
  exact share_le_one scores s

theorem topScore_eq (hs : s ∈ scores) (hbest : ∀ t ∈ scores, t ≤ s) : topScore scores = s := by
  obtain ⟨hmem, hle⟩ := isGreatest_topScore (List.ne_nil_of_mem hs)
  exact le_antisymm (hbest _ hmem) (hle hs)

theorem le_topScore (hs : s ∈ scores) : s ≤ topScore scores :=
  (isGreatest_topScore (List.ne_nil_of_mem hs)).2 hs

/-! ## Ranks -/

theorem rankOf_eq (scores : List K) (s : K) : rankOf scores s = scores.countP fun t => decide (t ≤ s) := by
  rw [rankOf, ← List.countP_eq_length_filter]
  refine List.countP_congr fun t _ => ?_
  simp [← not_lt, ← Exact.less_iff]

theorem rankOf_mono (h : t ≤ s) : rankOf scores t ≤ rankOf scores s := by
  rw [rankOf_eq, rankOf_eq]
  refine List.countP_mono_left fun u _ hu => ?_
  simp only [decide_eq_true_eq] at hu ⊢
  exact hu.trans h

theorem rankOf_lt (hs : s ∈ scores) (h : s < topScore scores) : rankOf scores s < scores.length := by
  rw [rankOf_eq]
  refine lt_of_le_of_ne List.countP_le_length fun hall => ?_
  have htop := List.countP_eq_length.1 hall _ (isGreatest_topScore (List.ne_nil_of_mem hs)).1
  exact absurd h (not_lt.2 (by simpa using htop))

theorem stretched_of_lower (h : 2 * rankOf scores s < scores.length) : stretched scores s = 0 := by
  have hfactor : rankOf scores s * 2 / scores.length = 0 := Nat.div_eq_of_lt (by omega)
  rw [stretched, hfactor, Exact.ofInt_eq]
  simp

theorem stretched_of_upper (h : scores.length ≤ 2 * rankOf scores s) (hlt : rankOf scores s < scores.length) :
    stretched scores s = s := by
  have hfactor : rankOf scores s * 2 / scores.length = 1 := Nat.div_eq_of_lt_le (by omega) (by omega)
  rw [stretched, hfactor, Exact.ofInt_eq]
  simp

/-- A lower score counts for no more, unless it is of the lower half and the other, of the upper half, is negative. -/
theorem stretched_le_iff (hs : s ∈ scores) (hbest : s < topScore scores) (hts : t < s) :
    stretched scores t ≤ stretched scores s ↔
      (2 * rankOf scores t < scores.length → scores.length ≤ 2 * rankOf scores s → 0 ≤ s) := by
  have hrank : rankOf scores t ≤ rankOf scores s := rankOf_mono hts.le
  have hlt : rankOf scores s < scores.length := rankOf_lt hs hbest
  by_cases hupper : scores.length ≤ 2 * rankOf scores s
  · rw [stretched_of_upper hupper hlt]
    by_cases hlower : 2 * rankOf scores t < scores.length
    · rw [stretched_of_lower hlower]
      exact ⟨fun h _ _ => h, fun h => h hlower hupper⟩
    · rw [stretched_of_upper (not_lt.1 hlower) (hrank.trans_lt hlt)]
      exact ⟨fun _ h => absurd h hlower, fun _ => hts.le⟩
  · rw [stretched_of_lower (not_le.1 hupper), stretched_of_lower (by omega)]
    exact ⟨fun _ _ h => absurd h hupper, fun _ => le_rfl⟩

section Ordered

variable [IsStrictOrderedRing K]

theorem weightIn_of_near (h : gap scores s < 3 / 10) :
    weightIn scores s = max (topShare scores - penalty (gap scores s)) 0 := by
  rw [weightIn, raised_eq, if_pos h]

theorem weightIn_of_far (h : ¬ gap scores s < 3 / 10) : weightIn scores s = share scores s := by
  rw [weightIn, raised_eq, if_neg h]

section Positive

variable (hexp : ∀ x : K, 0 < exp x)

include hexp

theorem portions_pos (h : scores ≠ []) : 0 < portions scores := by
  refine List.sum_pos _ (fun x hx => ?_) (by simpa using h)
  obtain ⟨s, -, rfl⟩ := List.mem_map.1 hx
  exact hexp _

theorem share_pos (hs : s ∈ scores) : 0 < share scores s := by
  have htotal : 0 < portions scores := portions_pos hexp (List.ne_nil_of_mem hs)
  exact lt_min one_pos (mul_pos (div_pos (hexp _) htotal) two_pos)

theorem add_portion_le (hs : s ∈ scores) (ht : t ∈ scores) (hne : s ≠ t) :
    portion scores s + portion scores t ≤ portions scores := by
  have hpair : [s, t].Subperm scores := List.subperm_of_subset (by simpa using hne) (by simp [hs, ht])
  obtain ⟨pair, hperm, hsub⟩ := hpair
  calc portion scores s + portion scores t = ([s, t].map (portion scores)).sum := by simp
    _ = (pair.map (portion scores)).sum := (hperm.map (portion scores)).sum_eq.symm
    _ ≤ portions scores := (hsub.map (portion scores)).sum_le_sum fun x hx => by
        obtain ⟨u, -, rfl⟩ := List.mem_map.1 hx
        exact (hexp _).le

theorem share_le_share_iff (hs : s ∈ scores) (ht : t ∈ scores) (hne : s ≠ t) :
    share scores t ≤ share scores s ↔ portion scores t ≤ portion scores s := by
  have htotal : 0 < portions scores := portions_pos hexp (List.ne_nil_of_mem hs)
  constructor
  · intro hle
    by_contra hlt
    rw [not_le] at hlt
    have hsum := add_portion_le hexp hs ht hne
    have hcap : portion scores s / portions scores * 2 < 1 := by
      rw [div_mul_eq_mul_div, div_lt_one htotal]
      linarith
    have hmore : portion scores s / portions scores * 2 < portion scores t / portions scores * 2 := by
      have hdiv := div_lt_div_of_pos_right hlt htotal
      linarith
    have hshare : share scores s < share scores t := by
      rw [share, min_eq_right hcap.le]
      exact lt_min hcap hmore
    exact absurd hle (not_le.2 hshare)
  · intro hle
    refine min_le_min_left 1 ?_
    have hdiv := div_le_div_of_nonneg_right hle htotal.le
    linarith

end Positive

/-! ## The best -/

theorem gap_nonneg (hs : s ∈ scores) : 0 ≤ gap scores s := sub_nonneg.2 (le_topScore hs)

theorem weightIn_le (hexp : ∀ x : K, 0 < exp x) (hs : s ∈ scores) : weightIn scores s ≤ topShare scores := by
  by_cases hnear : gap scores s < 3 / 10
  · rw [weightIn_of_near hnear]
    have hpenalty := penalty_nonneg (gap_nonneg hs)
    have hpos := (share_pos hexp hs).le.trans (share_le_topShare hs)
    exact max_le (by linarith) hpos
  · rw [weightIn_of_far hnear]
    exact share_le_topShare hs

theorem weightIn_nonneg (hexp : ∀ x : K, 0 < exp x) (hs : s ∈ scores) : 0 ≤ weightIn scores s := by
  by_cases hnear : gap scores s < 3 / 10
  · rw [weightIn_of_near hnear]
    exact le_max_right _ _
  · rw [weightIn_of_far hnear]
    exact (share_pos hexp hs).le

theorem weightIn_best (hexp : ∀ x : K, 0 < exp x) (hs : s ∈ scores) (hbest : ∀ t ∈ scores, t ≤ s) :
    weightIn scores s = topShare scores := by
  have hgap : gap scores s = 0 := by rw [gap, topScore_eq hs hbest, sub_self]
  have hpos := (share_pos hexp hs).le.trans (share_le_topShare hs)
  rw [weightIn_of_near (by rw [hgap]; norm_num), hgap, penalty_zero, sub_zero, max_eq_left hpos]

variable {κ : Type} [BEq κ] [LawfulBEq κ]

/-- For every positive exponential, the weights of different things are weights of the same things in the same order,
lie between zero and one, and are largest for the best. -/
theorem highlight_crowns_best (hexp : ∀ x : K, 0 < exp x) (items : List (κ × K))
    (hitems : (items.map Prod.fst).Nodup) :
    (highlight items).map Prod.fst = items.map Prod.fst ∧
      (∀ w ∈ highlight items, 0 ≤ w.2 ∧ w.2 ≤ 1) ∧ CrownsBest items (highlight items) := by
  have hweights := highlight_eq hitems
  have hbounds : ∀ w ∈ highlight items, 0 ≤ w.2 ∧ w.2 ≤ topShare (items.map Prod.snd) := by
    intro w hw
    rw [hweights] at hw
    obtain ⟨i, hi, rfl⟩ := List.mem_map.1 hw
    have hscore : i.2 ∈ items.map Prod.snd := List.mem_map_of_mem hi
    exact ⟨weightIn_nonneg hexp hscore, weightIn_le hexp hscore⟩
  refine ⟨?_, ?_, ?_⟩
  · rw [hweights, List.map_map]
    rfl
  · intro w hw
    have hne : items.map Prod.snd ≠ [] := by
      rintro hnil
      rw [hweights, List.map_eq_nil_iff.1 hnil] at hw
      exact absurd hw (by simp)
    exact ⟨(hbounds w hw).1, (hbounds w hw).2.trans (topShare_le_one hne)⟩
  · intro a s x ha hx hbest w hw
    have hscore : s ∈ items.map Prod.snd := List.mem_map_of_mem ha
    have hall : ∀ t ∈ items.map Prod.snd, t ≤ s := by
      intro t ht
      obtain ⟨i, hi, rfl⟩ := List.mem_map.1 ht
      exact hbest i hi
    rw [(mem_highlight_iff hitems ha).1 hx, weightIn_best hexp hscore hall]
    exact (hbounds w hw).2

/-! ## Weights in the order of the scores -/

theorem weightIn_le_of_near (hs : gap scores s < 3 / 10) (ht : gap scores t < 3 / 10) (hts : t ≤ s) :
    weightIn scores t ≤ weightIn scores s := by
  have hgap : gap scores s ≤ gap scores t := sub_le_sub_left hts _
  have hpenalty := penalty_mono hgap
  rw [weightIn_of_near hs, weightIn_of_near ht]
  exact max_le_max_right 0 (by linarith)

theorem weightIn_le_iff_of_apart (hexp : ∀ x : K, 0 < exp x) (ht : t ∈ scores) (hnear : gap scores s < 3 / 10)
    (hfar : ¬ gap scores t < 3 / 10) :
    weightIn scores t ≤ weightIn scores s ↔ penalty (gap scores s) ≤ topShare scores - share scores t := by
  have hpos := share_pos hexp ht
  rw [weightIn_of_far hfar, weightIn_of_near hnear, le_max_iff, or_iff_left (not_le.2 hpos)]
  constructor <;> intro h <;> linarith

theorem weightIn_le_iff_of_far (hexp : ∀ x : K, 0 < exp x) (hmono : StrictMono (exp : K → K)) (hs : s ∈ scores)
    (ht : t ∈ scores) (hfar : ¬ gap scores s < 3 / 10) (hts : t < s) :
    weightIn scores t ≤ weightIn scores s ↔
      (2 * rankOf scores t < scores.length → scores.length ≤ 2 * rankOf scores s → 0 ≤ s) := by
  have hgap : gap scores s ≤ gap scores t := sub_le_sub_left hts.le _
  have hbest : s < topScore scores := by
    have hpos : 0 < gap scores s := lt_of_lt_of_le (by norm_num) (not_lt.1 hfar)
    exact sub_pos.1 hpos
  rw [weightIn_of_far hfar, weightIn_of_far (not_lt.2 ((not_lt.1 hfar).trans hgap)),
    share_le_share_iff hexp hs ht hts.ne', portion, portion, hmono.le_iff_le, stretched_le_iff hs hbest hts]

/-- For every increasing positive exponential, the weights of different things follow their scores exactly if two
things hold. The penalty of a near score is never larger than what the share of a far one falls short of the largest.
And a far score that is negative and in the upper half has no score of the lower half below it. -/
theorem highlight_follows_iff (hexp : ∀ x : K, 0 < exp x) (hmono : StrictMono (exp : K → K)) (items : List (κ × K))
    (hitems : (items.map Prod.fst).Nodup) :
    let scores := items.map Prod.snd
    FollowsScores items (highlight items) ↔
      (∀ s ∈ scores, ∀ t ∈ scores, gap scores s < 3 / 10 → 3 / 10 ≤ gap scores t →
        penalty (gap scores s) ≤ topShare scores - share scores t) ∧
      (∀ s ∈ scores, ∀ t ∈ scores, 3 / 10 ≤ gap scores s → t < s → 2 * rankOf scores t < scores.length →
        scores.length ≤ 2 * rankOf scores s → 0 ≤ s) := by
  intro scores
  rw [followsScores_iff hitems]
  constructor
  · intro h
    refine ⟨fun s hs t ht hnear hfar => ?_, fun s hs t ht hfar hts => ?_⟩
    · have hts : t < s := by
        have hgap : gap scores s < gap scores t := hnear.trans_le hfar
        exact sub_lt_sub_iff_left _ |>.1 hgap
      exact (weightIn_le_iff_of_apart hexp ht hnear (not_lt.2 hfar)).1 (h s hs t ht hts)
    · exact (weightIn_le_iff_of_far hexp hmono hs ht (not_lt.2 hfar) hts).1 (h s hs t ht hts)
  · rintro ⟨hapart, hfars⟩ s hs t ht hts
    by_cases hnear : gap scores s < 3 / 10
    · by_cases hnear' : gap scores t < 3 / 10
      · exact weightIn_le_of_near hnear hnear' hts.le
      · exact (weightIn_le_iff_of_apart hexp ht hnear hnear').2 (hapart s hs t ht hnear (not_lt.1 hnear'))
    · exact (weightIn_le_iff_of_far hexp hmono hs ht hnear hts).2 (hfars s hs t ht (not_lt.1 hnear) hts)

end Ordered

/-! ## Winners -/

noncomputable def clearWinner : List (String × ℝ) :=
  [("pie", 0.9), ("bar", 0.2), ("hist", 0.1), ("plot", 0.05)]

noncomputable def threeWinners : List (String × ℝ) :=
  [("pie", 0.9), ("bar", 0.9), ("hist", 0.9), ("plot", 0.65), ("title", 0.1)]

theorem highlight_crowns_best_three :
    let _ := Exact.realFunctions
    (∀ x : ℝ, 0 < exp x) ∧ (threeWinners.map Prod.fst).Nodup ∧
      (highlight threeWinners).map Prod.fst = ["pie", "bar", "hist", "plot", "title"] ∧
      CrownsBest threeWinners (highlight threeWinners) := by
  intro _
  have hexp : ∀ x : ℝ, 0 < exp x := Real.exp_pos
  have hnames : (threeWinners.map Prod.fst).Nodup := by simp [threeWinners]
  obtain ⟨hsame, -, hcrowned⟩ := highlight_crowns_best hexp threeWinners hnames
  exact ⟨hexp, hnames, hsame, hcrowned⟩

theorem highlight_follows_iff_clearWinner :
    let _ := Exact.realFunctions
    (∀ x : ℝ, 0 < exp x) ∧ StrictMono (exp : ℝ → ℝ) ∧ (clearWinner.map Prod.fst).Nodup ∧
      FollowsScores clearWinner (highlight clearWinner) := by
  intro _
  have hexp : ∀ x : ℝ, 0 < exp x := Real.exp_pos
  have hmono : StrictMono (exp : ℝ → ℝ) := Real.exp_strictMono
  have hnames : (clearWinner.map Prod.fst).Nodup := by simp [clearWinner]
  refine ⟨hexp, hmono, hnames, (highlight_follows_iff hexp hmono clearWinner hnames).2 ⟨?_, ?_⟩⟩
  · intro s hs t ht hnear _
    have hbest : topScore (clearWinner.map Prod.snd) = 0.9 :=
      topScore_eq (by simp [clearWinner]) (by norm_num [clearWinner])
    have hcases : s = 0.9 ∨ s ≤ 0.2 := by
      simp only [clearWinner, List.map_cons, List.map_nil, List.mem_cons, List.not_mem_nil, or_false] at hs
      rcases hs with rfl | rfl | rfl | rfl <;> norm_num
    have halone : s = 0.9 := by
      refine hcases.resolve_right fun hlow => ?_
      rw [gap, hbest] at hnear
      linarith
    rw [gap, hbest, halone, sub_self, penalty_zero, sub_nonneg]
    exact share_le_topShare ht
  · intro s hs _ _ _ _ _ _
    simp only [clearWinner, List.map_cons, List.map_nil, List.mem_cons, List.not_mem_nil, or_false] at hs
    rcases hs with rfl | rfl | rfl | rfl <;> norm_num

noncomputable def threeScores : List ℝ := [0.9, 0.9, 0.9, 0.65, 0.1]

theorem portion_loser :
    let _ := Exact.realFunctions
    ∀ s : ℝ, s ≤ 0.65 → portion threeScores s = 1 := by
  intro _ s hs
  have hrank : rankOf threeScores s ≤ rankOf threeScores 0.65 := rankOf_mono hs
  have hnear : rankOf threeScores 0.65 = 2 := by
    rw [rankOf_eq]
    norm_num [threeScores, List.countP_cons]
  have hlower : 2 * rankOf threeScores s < threeScores.length := by
    have hlength : threeScores.length = 5 := rfl
    omega
  rw [portion, stretched_of_lower hlower]
  exact Real.exp_zero

theorem one_le_portion_winner :
    let _ := Exact.realFunctions
    1 ≤ portion threeScores 0.9 := by
  intro _
  have hstretched : 0 ≤ stretched threeScores 0.9 := by
    rw [stretched, Exact.ofInt_eq]
    positivity
  exact Real.one_le_exp hstretched

theorem topShare_threeScores :
    let _ := Exact.realFunctions
    topShare threeScores ≤ 2 / 3 := by
  intro _
  obtain ⟨s, hs, htop⟩ := exists_topShare (by simp [threeScores] : threeScores ≠ [])
  have hcases : s = 0.9 ∨ s ≤ 0.65 := by
    simp only [threeScores, List.mem_cons, List.not_mem_nil, or_false] at hs
    rcases hs with rfl | rfl | rfl | rfl | rfl <;> norm_num
  have hmost : portion threeScores s ≤ portion threeScores 0.9 := by
    rcases hcases with rfl | hlow
    · exact le_rfl
    · rw [portion_loser s hlow]
      exact one_le_portion_winner
  have htotal : portions threeScores = 3 * portion threeScores 0.9 + 2 := by
    have hsum : portions threeScores = portion threeScores 0.9 + (portion threeScores 0.9 +
        (portion threeScores 0.9 + (portion threeScores 0.65 + (portion threeScores 0.1 + 0)))) := rfl
    rw [hsum, portion_loser _ le_rfl, portion_loser 0.1 (by norm_num)]
    ring
  have hpos : 0 < portions threeScores := portions_pos Real.exp_pos (by simp [threeScores])
  rw [htop, share]
  refine (min_le_right _ _).trans ?_
  rw [div_mul_eq_mul_div, div_le_div_iff₀ hpos (by norm_num), htotal]
  linarith

/-- The penalty of the near score leaves it nothing; the lower score keeps its share. -/
theorem near_score_outweighed :
    let _ := Exact.realFunctions
    ("plot", (0 : ℝ)) ∈ highlight threeWinners ∧ (∃ w, 0 < w ∧ ("title", w) ∈ highlight threeWinners) ∧
      ¬ FollowsScores threeWinners (highlight threeWinners) := by
  intro _
  have hnames : (threeWinners.map Prod.fst).Nodup := by simp [threeWinners]
  have hscores : threeWinners.map Prod.snd = threeScores := rfl
  have hbest : topScore threeScores = 0.9 := topScore_eq (by simp [threeScores]) (by norm_num [threeScores])
  have hplot : ("plot", (0.65 : ℝ)) ∈ threeWinners := by simp [threeWinners]
  have hnothing : weightIn threeScores 0.65 = 0 := by
    have hgap : gap threeScores 0.65 = 1 / 4 := by
      rw [gap, hbest]
      norm_num
    have hpenalty : penalty (1 / 4 : ℝ) = 3 / 4 := by norm_num [penalty]
    have htop := topShare_threeScores
    rw [weightIn_of_near (by rw [hgap]; norm_num), hgap, hpenalty]
    exact max_eq_right (by linarith)
  have hplotWeight : ("plot", (0 : ℝ)) ∈ highlight threeWinners :=
    (mem_highlight_iff hnames hplot).2 (by rw [hscores, hnothing])
  have htitle : ("title", (0.1 : ℝ)) ∈ threeWinners := by simp [threeWinners]
  have hsomething : 0 < weightIn threeScores 0.1 := by
    rw [weightIn_of_far (by rw [gap, hbest]; norm_num)]
    exact share_pos Real.exp_pos (by simp [threeScores])
  have htitleWeight : ("title", weightIn threeScores 0.1) ∈ highlight threeWinners :=
    (mem_highlight_iff hnames htitle).2 (by rw [hscores])
  refine ⟨hplotWeight, ⟨_, hsomething, htitleWeight⟩, fun hfollows => ?_⟩
  have hle := hfollows _ _ _ _ _ _ hplot hplotWeight htitle htitleWeight (by norm_num)
  linarith

end PlotAdvisor.Advice
