import PlotAdvisor.Proofs.Crew
import PlotAdvisor.Proofs.ExactNumbers

/-! How pairs are cut into jobs, and at which rates. A job is filled as long as the next pair fits in, so it is small
enough or a single pair, and the first pair of the job behind it would not have fitted in. The rate of a job depends on
the pairs that have left before it alone, in exact arithmetic: it falls in a straight line from the highest to the
least rate and stays there. -/
set_option autoImplicit false

namespace PlotAdvisor.Models.Productions

open Program Scalar

theorem treeCount_reverse (ps : List Pair) : treeCount ps.reverse = treeCount ps :=
  sumOver_perm _ ps.reverse_perm

/-! ## One step -/

section Steps

variable {α : Type}

def Filling.push (f : Filling α) (p : Pair) : Filling α :=
  { f with pairs := p :: f.pairs, size := f.size + p.tree.count }

variable [Scalar α] {st : Settings α} {course : Course} {f : Filling α} {p : Pair} {ps : List Pair}

def Filling.next (st : Settings α) (course : Course) (f : Filling α) (p : Pair) : Filling α :=
  { (f.submit st course).2 with pairs := [p], size := p.tree.count }

theorem jobsFrom_of_fits (h : f.size + p.tree.count ≤ st.batch) :
    jobsFrom st course f (p :: ps) = jobsFrom st course (f.push p) ps := by
  rw [jobsFrom]
  exact if_pos h

theorem jobsFrom_of_full (h : ¬ f.size + p.tree.count ≤ st.batch) :
    jobsFrom st course f (p :: ps) = ⟨f.pairs.reverse, f.alpha⟩ :: jobsFrom st course (f.next st course p) ps := by
  have hjob : (f.submit st course).1 = ⟨f.pairs.reverse, f.alpha⟩ := by
    rw [Filling.submit]
    split <;> rfl
  rw [jobsFrom, ← hjob]
  exact if_neg h

theorem jobsFrom_nil (st : Settings α) (course : Course) (f : Filling α) :
    jobsFrom st course f [] = if f.pairs.isEmpty then [] else [⟨f.pairs.reverse, f.alpha⟩] := by
  rw [jobsFrom]

/-! ## The size of jobs -/

structure Filling.Within (st : Settings α) (f : Filling α) : Prop where
  size : f.size = treeCount f.pairs
  small : f.size ≤ st.batch ∨ ∃ p, f.pairs = [p]

omit [Scalar α] in
theorem Filling.Within.push (hf : f.Within st) (h : f.size + p.tree.count ≤ st.batch) : (f.push p).Within st := by
  refine ⟨?_, Or.inl h⟩
  have hsize := hf.size
  simp only [Filling.push, treeCount, sumOver] at hsize ⊢
  omega

theorem Filling.within_next (st : Settings α) (course : Course) (f : Filling α) (p : Pair) :
    (f.next st course p).Within st :=
  ⟨by simp [Filling.next, treeCount, sumOver], Or.inr ⟨p, rfl⟩⟩

omit [Scalar α] in
theorem Filling.Within.job (hf : f.Within st) :
    (treeCount f.pairs.reverse : Int) ≤ st.batch ∨ ∃ p, f.pairs.reverse = [p] := by
  rw [treeCount_reverse, ← hf.size]
  refine hf.small.imp_right ?_
  rintro ⟨p, hp⟩
  exact ⟨p, by rw [hp, List.reverse_singleton]⟩

theorem jobsFrom_small (hf : f.Within st) :
    ∀ j ∈ jobsFrom st course f ps, (treeCount j.pairs : Int) ≤ st.batch ∨ ∃ p, j.pairs = [p] := by
  induction ps generalizing f with
  | nil =>
    intro j hj
    rw [jobsFrom_nil] at hj
    split at hj
    · simp at hj
    · obtain rfl := List.mem_singleton.1 hj
      exact hf.job
  | cons p ps ih =>
    by_cases h : f.size + p.tree.count ≤ st.batch
    · rw [jobsFrom_of_fits h]
      exact ih (hf.push h)
    · rw [jobsFrom_of_full h, List.forall_mem_cons]
      exact ⟨hf.job, ih (f.within_next st course p)⟩

theorem exists_jobsFrom (st : Settings α) (course : Course) (ps : List Pair) (h : f.pairs.getLast? = some p) :
    ∃ j js, jobsFrom st course f ps = j :: js ∧ j.pairs.head? = some p := by
  induction ps generalizing f with
  | nil =>
    have hne : f.pairs.isEmpty = false := by
      cases hp : f.pairs with
      | nil => simp [hp] at h
      | cons q qs => rfl
    exact ⟨_, [], by rw [jobsFrom_nil, hne, if_neg Bool.false_ne_true], by rw [List.head?_reverse, h]⟩
  | cons q qs ih =>
    by_cases hq : f.size + q.tree.count ≤ st.batch
    · rw [jobsFrom_of_fits hq]
      refine ih ?_
      cases hp : f.pairs with
      | nil => simp [hp] at h
      | cons r rs => rw [Filling.push, hp, List.getLast?_cons_cons, ← hp, h]
    · rw [jobsFrom_of_full hq]
      exact ⟨_, _, rfl, by rw [List.head?_reverse, h]⟩

/-- The first pair of a job would have made the job before it too large. -/
def Greedy (limit : Int) (j k : Job α) : Prop :=
  ∃ p, k.pairs.head? = some p ∧ limit < (treeCount j.pairs : Int) + p.tree.count

theorem jobsFrom_greedy (hf : f.Within st) : (jobsFrom st course f ps).IsChain (Greedy st.batch) := by
  induction ps generalizing f with
  | nil =>
    rw [jobsFrom_nil]
    split
    · exact .nil
    · exact .singleton _
  | cons p ps ih =>
    by_cases h : f.size + p.tree.count ≤ st.batch
    · rw [jobsFrom_of_fits h]
      exact ih (hf.push h)
    · have hrest := ih (f.within_next st course p)
      have hbegun : (f.next st course p).pairs.getLast? = some p := rfl
      obtain ⟨j, js, hjs, hj⟩ := exists_jobsFrom st course ps hbegun
      rw [jobsFrom_of_full h, hjs]
      rw [hjs] at hrest
      refine List.isChain_cons_cons.2 ⟨⟨p, hj, ?_⟩, hrest⟩
      rw [treeCount_reverse, ← hf.size]
      omega

end Steps

/-! ## The rates of jobs -/

section Rates

variable {K : Type} [Field K] [LinearOrder K]

def Course.rate (st : Settings K) (course : Course) (gone : List Pair) : K :=
  max st.leastAlpha (st.alpha - (st.alpha - st.leastAlpha) * (course.advance gone / course.expected))

def Course.Paces (st : Settings K) (course : Course) : List Pair → List (Job K) → Prop
  | _, [] => True
  | gone, j :: js => j.alpha = course.rate st gone ∧ course.Paces st (gone ++ j.pairs) js

/-- A job that is being filled has the rate of its place. How far the course was brought is known as long as the rate
can still fall. -/
structure Filling.Paced (st : Settings K) (course : Course) (gone : List Pair) (f : Filling K) : Prop where
  alpha : f.alpha = course.rate st gone
  left : st.leastAlpha < f.alpha → f.left = course.advance gone

theorem Course.advance_append (course : Course) (ps qs : List Pair) :
    course.advance (ps ++ qs) = course.advance ps + course.advance qs := by
  cases course with
  | pairs n => exact List.length_append
  | trees n => exact sumOver_append _ ps qs

theorem Course.advance_reverse (course : Course) (ps : List Pair) : course.advance ps.reverse = course.advance ps := by
  cases course with
  | pairs n => exact List.length_reverse
  | trees n => exact treeCount_reverse ps

variable {st : Settings K} {course : Course} {gone : List Pair} {f : Filling K}

theorem Course.rate_nil (hl : st.leastAlpha ≤ st.alpha) : course.rate st [] = st.alpha := by
  have hzero : course.advance [] = 0 := by cases course <;> rfl
  rw [rate, hzero, Nat.cast_zero, zero_div, mul_zero, sub_zero, max_eq_right hl]

variable [IsStrictOrderedRing K]

theorem Course.rate_append_le (hl : st.leastAlpha ≤ st.alpha) (he : 0 < course.expected) (gone more : List Pair) :
    course.rate st (gone ++ more) ≤ course.rate st gone := by
  have hexpected : (0 : K) < course.expected := Int.cast_pos.2 he
  have hspan : 0 ≤ st.alpha - st.leastAlpha := sub_nonneg.2 hl
  have hadvance : (course.advance gone : K) ≤ course.advance (gone ++ more) := by
    rw [advance_append]
    exact Nat.cast_le.2 (Nat.le_add_right _ _)
  unfold rate
  gcongr

theorem Course.Paces.le (hl : st.leastAlpha ≤ st.alpha) (he : 0 < course.expected) {js : List (Job K)}
    (h : course.Paces st gone js) : ∀ j ∈ js, st.leastAlpha ≤ j.alpha ∧ j.alpha ≤ course.rate st gone := by
  induction js generalizing gone with
  | nil => simp
  | cons j js ih =>
    obtain ⟨hj, hjs⟩ := h
    rw [List.forall_mem_cons]
    refine ⟨⟨hj ▸ le_max_left _ _, hj.le⟩, fun k hk => ?_⟩
    obtain ⟨hleast, hle⟩ := ih hjs k hk
    exact ⟨hleast, hle.trans (rate_append_le hl he gone j.pairs)⟩

theorem Course.Paces.pairwise (hl : st.leastAlpha ≤ st.alpha) (he : 0 < course.expected) {js : List (Job K)}
    (h : course.Paces st gone js) : js.Pairwise fun j k => k.alpha ≤ j.alpha := by
  induction js generalizing gone with
  | nil => exact .nil
  | cons j js ih =>
    obtain ⟨hj, hjs⟩ := h
    refine List.pairwise_cons.2 ⟨fun k hk => ?_, ih hjs⟩
    rw [hj]
    exact (hjs.le hl he k hk).2.trans (rate_append_le hl he gone j.pairs)

variable [Exact.Functions K]

theorem Filling.Paced.next (hl : st.leastAlpha ≤ st.alpha) (he : 0 < course.expected) (hf : f.Paced st course gone)
    (p : Pair) : (f.next st course p).Paced st course (gone ++ f.pairs.reverse) := by
  by_cases h : st.leastAlpha < f.alpha
  · have hleft : f.left + course.advance f.pairs = course.advance (gone ++ f.pairs.reverse) := by
      rw [hf.left h, Course.advance_append, Course.advance_reverse]
    have hsubmit : (f.submit st course).2 =
        { alpha := course.rate st (gone ++ f.pairs.reverse), left := course.advance (gone ++ f.pairs.reverse) } := by
      rw [Filling.submit, if_pos (Exact.less_iff.2 h), hleft]
      dsimp only
      rw [Exact.maxOf_eq, Exact.ofInt_eq, Exact.ofInt_eq, Int.cast_natCast, Course.rate]
    rw [Filling.next, hsubmit]
    exact ⟨rfl, fun _ => rfl⟩
  · -- the least rate is reached, and it is the rate from here on
    have hsubmit : (f.submit st course).2 = { alpha := f.alpha, left := f.left } := by
      rw [Filling.submit, if_neg (mt Exact.less_iff.1 h)]
    have hle : course.rate st (gone ++ f.pairs.reverse) ≤ f.alpha := hf.alpha ▸ Course.rate_append_le hl he gone _
    have hleast : f.alpha ≤ course.rate st (gone ++ f.pairs.reverse) := (not_lt.1 h).trans (le_max_left _ _)
    rw [Filling.next, hsubmit]
    exact ⟨le_antisymm hleast hle, fun hlt => absurd hlt h⟩

theorem jobsFrom_paces (hl : st.leastAlpha ≤ st.alpha) (he : 0 < course.expected) (hf : f.Paced st course gone)
    (ps : List Pair) : course.Paces st gone (jobsFrom st course f ps) := by
  induction ps generalizing f gone with
  | nil =>
    rw [jobsFrom_nil]
    split
    · exact trivial
    · exact ⟨hf.alpha, trivial⟩
  | cons p ps ih =>
    by_cases h : f.size + p.tree.count ≤ st.batch
    · rw [jobsFrom_of_fits h]
      exact ih ⟨hf.alpha, hf.left⟩
    · rw [jobsFrom_of_full h]
      exact ⟨hf.alpha, ih (hf.next hl he p)⟩

end Rates

/-- The jobs of any pairs. In any arithmetic they are the pairs in their order, none of them is too large unless it is a
single pair, and none ends before it has to. In exact arithmetic the rate of each is that of its place, which never
increases and stays between the least and the highest rate. -/
theorem jobsOf_partition {α K : Type} [Scalar α] [Field K] [LinearOrder K] [IsStrictOrderedRing K] [Exact.Functions K]
    (course : Course) (pairs : List Pair) (hc : pairs ≠ [] → 0 < course.expected) :
    (∀ st : Settings α, 0 ≤ st.batch →
      (jobsOf st course pairs).flatMap Job.pairs = pairs ∧
      (∀ j ∈ jobsOf st course pairs, (treeCount j.pairs : Int) ≤ st.batch ∨ ∃ p, j.pairs = [p]) ∧
      (jobsOf st course pairs).IsChain (Greedy st.batch)) ∧
    ∀ st : Settings K, st.leastAlpha ≤ st.alpha →
      course.Paces st [] (jobsOf st course pairs) ∧
      (jobsOf st course pairs).Pairwise (fun j k => k.alpha ≤ j.alpha) ∧
      ∀ j ∈ jobsOf st course pairs, st.leastAlpha ≤ j.alpha ∧ j.alpha ≤ st.alpha := by
  refine ⟨fun st hb => ?_, fun st hl => ?_⟩
  · have hstart : ({ alpha := st.alpha } : Filling α).Within st := ⟨rfl, Or.inl hb⟩
    exact ⟨pairs_jobsFrom st course _ pairs, jobsFrom_small hstart, jobsFrom_greedy hstart⟩
  · by_cases hp : pairs = []
    · subst hp
      exact ⟨trivial, .nil, fun j hj => absurd hj List.not_mem_nil⟩
    · have hrate : course.rate st [] = st.alpha := Course.rate_nil hl
      have hpaces : course.Paces st [] (jobsOf st course pairs) :=
        jobsFrom_paces hl (hc hp) ⟨hrate.symm, fun _ => by cases course <;> rfl⟩ pairs
      refine ⟨hpaces, hpaces.pairwise hl (hc hp), fun j hj => ?_⟩
      obtain ⟨hleast, hle⟩ := hpaces.le hl (hc hp) j hj
      exact ⟨hleast, hle.trans hrate.le⟩

def twoTrees (α : Type) [Scalar α] : Settings α where
  size := 1
  alpha := one
  leastAlpha := zero
  words := ⟨none, none, none, false, true⟩
  seed := 1
  negative := 5
  rounds := 1
  batch := 2
  additive := true
  memory := ⟨1, 1⟩
  rows := default

/-- A program with three partial trees between two with one. -/
def unevenPairs : List Pair := [emptyProgram, ⟨"pass", .node "Module" [.many "body" [.node "Pass" []]]⟩, emptyProgram]

theorem jobsOf_partition_uneven :
    let _ := Exact.unchanging
    0 ≤ (twoTrees Float).batch ∧ (twoTrees ℚ).leastAlpha ≤ (twoTrees ℚ).alpha ∧ 0 < (Course.trees 5).expected ∧
      (jobsOf (twoTrees Float) (.trees 5) unevenPairs).flatMap Job.pairs = unevenPairs ∧
      (jobsOf (twoTrees ℚ) (.trees 5) unevenPairs).length = 3 ∧
      (jobsOf (twoTrees ℚ) (.trees 5) unevenPairs).Pairwise (fun j k => k.alpha ≤ j.alpha) := by
  intro _
  have hl : (twoTrees ℚ).leastAlpha ≤ (twoTrees ℚ).alpha := by
    change (zero : ℚ) ≤ one
    rw [Exact.zero_eq, Exact.one_eq]
    exact zero_le_one
  obtain ⟨hjobs, hrates⟩ := jobsOf_partition (α := Float) (K := ℚ) (.trees 5) unevenPairs fun _ => by decide
  obtain ⟨hpairs, -, -⟩ := hjobs (twoTrees Float) (by decide)
  obtain ⟨-, hfall, -⟩ := hrates (twoTrees ℚ) hl
  exact ⟨by decide, hl, by decide, hpairs, rfl, hfall⟩

end PlotAdvisor.Models.Productions
