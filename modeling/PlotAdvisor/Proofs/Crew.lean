import PlotAdvisor.Models.Productions.Crew

/-! Workers that share the jobs of a corpus lose none and do none twice, in whatever order they get their turns.

The end marks carry the argument. They are put behind the jobs, so that a worker meets one only when every job was
begun. A worker that has passed its end mark on reports no more, so that nothing is behind the last end mark among
the reports.

* `Crew.Step`, `Crew.step_of_move?` - what a move does.
* `Crew.Sound`, `Crew.sound_run` - what holds after every run.
* `Crew.exists_move`, `Crew.length_add_remaining` - no run stops early, and none goes on for ever.
* `Crew.train_eq_begun` - training alone and training by a crew do the same jobs.
-/
set_option autoImplicit false

namespace PlotAdvisor.Models.Productions

open Program

variable {α : Type}

/-! ## Sums -/

section Sums

variable {β γ : Type} (f : β → Nat)

theorem sumOver_append (xs ys : List β) : sumOver f (xs ++ ys) = sumOver f xs + sumOver f ys := by
  induction xs with
  | nil => simp [sumOver]
  | cons x xs ih =>
    rw [List.cons_append, sumOver, ih, sumOver]
    omega

theorem sumOver_perm {xs ys : List β} (h : xs.Perm ys) : sumOver f xs = sumOver f ys := by
  induction h with
  | nil => rfl
  | cons x _ ih => rw [sumOver, ih, sumOver]
  | swap x y l =>
    simp only [sumOver]
    omega
  | trans _ _ ih₁ ih₂ => exact ih₁.trans ih₂

theorem sumOver_flatMap (g : γ → List β) (xs : List γ) :
    sumOver f (xs.flatMap g) = sumOver (fun x => sumOver f (g x)) xs := by
  induction xs with
  | nil => rfl
  | cons x xs ih => rw [List.flatMap_cons, sumOver_append, ih, sumOver]

theorem sumOver_one (xs : List β) : sumOver (fun _ => 1) xs = xs.length := by
  induction xs with
  | nil => rfl
  | cons x xs ih =>
    rw [sumOver, ih, List.length_cons]
    omega

theorem sumOver_eq_zero {xs : List β} (h : ∀ x ∈ xs, f x = 0) : sumOver f xs = 0 := by
  induction xs with
  | nil => rfl
  | cons x xs ih => rw [sumOver, h x List.mem_cons_self, ih fun y hy => h y (List.mem_cons_of_mem x hy)]

end Sums

namespace Worker

@[simp] def isGone : Worker α → Bool
  | .gone => true
  | _ => false

@[simp] def hasEnded : Worker α → Bool
  | .leaving => true
  | .gone => true
  | _ => false

@[simp] def job? : Worker α → Option (Job α)
  | .busy j => some j
  | _ => none

/-- How many moves the worker has to make before it can take anything. -/
@[simp] def debt : Worker α → Nat
  | .busy _ => 2
  | .leaving => 2
  | _ => 0

end Worker

namespace Crew

variable {c c' : Crew α} {rooms : Rooms}

/-! ## Moves -/

inductive Step : Crew α → Crew α → Prop
  | put {c : Crew α} {x : Option (Job α)} {rest : List (Option (Job α))} : c.pending = x :: rest →
      Step c { c with pending := rest, queue := c.queue ++ [x] }
  | begins {c : Crew α} {j : Job α} {rest : List (Option (Job α))} {xs ys : List (Worker α)} :
      c.queue = some j :: rest → c.workers = xs ++ .idle :: ys →
      Step c { c with queue := rest, workers := xs ++ .busy j :: ys, begun := c.begun ++ [j] }
  | ends {c : Crew α} {rest : List (Option (Job α))} {xs ys : List (Worker α)} :
      c.queue = none :: rest → c.workers = xs ++ .idle :: ys →
      Step c { c with queue := rest, workers := xs ++ .leaving :: ys }
  | report {c : Crew α} {j : Job α} {xs ys : List (Worker α)} (trained : Nat) : c.workers = xs ++ .busy j :: ys →
      Step c { c with
        workers := xs ++ .idle :: ys
        reports := c.reports ++ [some (j.report trained)]
        reported := c.reported ++ [(j, j.report trained)] }
  | leaves {c : Crew α} {xs ys : List (Worker α)} : c.workers = xs ++ .leaving :: ys →
      Step c { c with workers := xs ++ .gone :: ys, reports := c.reports ++ [none] }
  | adds {c : Crew α} {r : Report} {rest : List (Option Report)} : c.reports = some r :: rest →
      Step c { c with reports := rest, totals := c.totals.add r, added := c.added ++ [r] }
  | closes {c : Crew α} {rest : List (Option Report)} : 0 < c.awaited → c.reports = none :: rest →
      Step c { c with reports := rest, awaited := c.awaited - 1 }

theorem exists_split {xs : List (Worker α)} {w : Nat} {x : Worker α} (h : xs[w]? = some x) :
    ∃ as bs, xs = as ++ x :: bs ∧ ∀ y, xs.set w y = as ++ y :: bs := by
  obtain ⟨hw, rfl⟩ := List.getElem?_eq_some_iff.1 h
  refine ⟨xs.take w, xs.drop (w + 1), ?_, fun y => ?_⟩
  · rw [List.getElem_cons_drop, List.take_append_drop]
  · exact List.set_eq_take_append_cons_drop.trans (if_pos hw)

theorem step_of_move? {mv : Move} (h : c.move? rooms mv = some c') : Step c c' := by
  cases mv with
  | put =>
    change c.put? rooms = some c' at h
    rw [put?] at h
    split at h
    · exact nomatch h
    · next x rest hp =>
      split at h
      · obtain rfl := Option.some.inj h
        exact .put hp
      · exact nomatch h
  | take w =>
    change c.take? w = some c' at h
    rw [take?] at h
    split at h
    · next j rest hw hq =>
      obtain rfl := Option.some.inj h
      obtain ⟨xs, ys, hs, hset⟩ := exists_split hw
      rw [hset]
      exact .begins hq hs
    · next rest hw hq =>
      obtain rfl := Option.some.inj h
      obtain ⟨xs, ys, hs, hset⟩ := exists_split hw
      rw [hset]
      exact .ends hq hs
    · exact nomatch h
  | report w trained =>
    change c.report? rooms w trained = some c' at h
    rw [report?] at h
    split at h
    · split at h
      · next j hw =>
        obtain rfl := Option.some.inj h
        obtain ⟨xs, ys, hs, hset⟩ := exists_split hw
        rw [hset]
        exact .report trained hs
      · next hw =>
        obtain rfl := Option.some.inj h
        obtain ⟨xs, ys, hs, hset⟩ := exists_split hw
        rw [hset]
        exact .leaves hs
      · exact nomatch h
    · exact nomatch h
  | collect =>
    change c.collect? = some c' at h
    rw [collect?] at h
    split at h
    · exact nomatch h
    · split at h
      · exact nomatch h
      · next r rest hr =>
        obtain rfl := Option.some.inj h
        exact .adds hr
      · next hne rest hr =>
        obtain rfl := Option.some.inj h
        exact .closes (by omega) hr

/-! ## What every move keeps -/

structure Sound (js : List (Job α)) (n : Nat) (c : Crew α) : Prop where
  size : c.workers.length = n
  ahead : ∃ left marks, c.queue ++ c.pending = left.map some ++ List.replicate marks none ∧ c.begun ++ left = js ∧
    marks + c.workers.countP Worker.hasEnded = n ∧ (left = [] ∨ marks = n)
  shared : (c.reported.map Prod.fst ++ c.workers.filterMap Worker.job?).Perm c.begun
  truthful : ∀ e ∈ c.reported, ∃ trained, e.2 = e.1.report trained
  delivered : c.reported.map Prod.snd = c.added ++ c.reports.filterMap id
  passed : c.workers.countP Worker.isGone + c.awaited = n + c.reports.countP Option.isNone
  behind : c.workers.all Worker.isGone = true → c.reports = [] ∨ c.reports.getLast? = some none
  totals : c.totals = c.added.foldl Totals.add {}

theorem sound_start (n : Nat) (js : List (Job α)) : Sound js n (start n js) where
  size := List.length_replicate
  ahead := ⟨js, n, rfl, rfl, by simp [start], Or.inr rfl⟩
  shared := by simp [start]
  truthful := fun _ he => absurd he List.not_mem_nil
  delivered := rfl
  passed := by simp [start]
  behind := fun _ => Or.inl rfl
  totals := rfl

namespace Sound

variable {js : List (Job α)} {n : Nat}

theorem size_step (h : Sound js n c) (hs : Step c c') : c'.workers.length = n := by
  have hsize := h.size
  cases hs with
  | begins _ hw | ends _ hw | report _ hw | leaves hw =>
    rw [hw] at hsize
    simpa using hsize
  | _ => exact hsize

theorem ahead_step (h : Sound js n c) (hs : Step c c') :
    ∃ left marks, c'.queue ++ c'.pending = left.map some ++ List.replicate marks none ∧ c'.begun ++ left = js ∧
      marks + c'.workers.countP Worker.hasEnded = n ∧ (left = [] ∨ marks = n) := by
  obtain ⟨left, marks, hahead, hbegun, hcount, hmarks⟩ := h.ahead
  cases hs with
  | put hp =>
    refine ⟨left, marks, ?_, hbegun, hcount, hmarks⟩
    rw [← hahead, hp]
    simp
  | begins hq hw =>
    rw [hq] at hahead
    cases left with
    | nil => cases marks <;> simp [List.replicate_succ] at hahead
    | cons j' left =>
      obtain ⟨hj, htail⟩ := List.cons.inj hahead
      obtain rfl := Option.some.inj hj
      refine ⟨left, marks, htail, by simpa using hbegun, ?_, Or.inr (hmarks.resolve_left (by simp))⟩
      rw [hw] at hcount
      simpa [List.countP_cons] using hcount
  | ends hq hw =>
    rw [hq] at hahead
    cases left with
    | cons j' left => simp at hahead
    | nil =>
      cases marks with
      | zero => simp at hahead
      | succ marks =>
        refine ⟨[], marks, by simpa [List.replicate_succ] using hahead, hbegun, ?_, Or.inl rfl⟩
        rw [hw] at hcount
        simp [List.countP_cons] at hcount ⊢
        omega
  | report _ hw | leaves hw =>
    refine ⟨left, marks, hahead, hbegun, ?_, hmarks⟩
    rw [hw] at hcount
    simpa [List.countP_cons] using hcount
  | _ => exact ⟨left, marks, hahead, hbegun, hcount, hmarks⟩

theorem shared_step (h : Sound js n c) (hs : Step c c') :
    (c'.reported.map Prod.fst ++ c'.workers.filterMap Worker.job?).Perm c'.begun := by
  have hshared := h.shared
  cases hs with
  | begins _ hw =>
    rw [hw] at hshared
    simp only [List.filterMap_append, List.filterMap_cons, Worker.job?, ← List.append_assoc] at hshared ⊢
    exact List.perm_middle.trans ((hshared.cons _).trans (List.perm_append_singleton _ _).symm)
  | ends _ hw | leaves hw =>
    rw [hw] at hshared
    simpa [List.filterMap_cons] using hshared
  | report _ hw =>
    rw [hw] at hshared
    simp only [List.filterMap_append, List.filterMap_cons, Worker.job?, List.map_append, List.map_cons, List.map_nil,
      List.append_assoc, List.singleton_append] at hshared ⊢
    exact (List.Perm.append_left _ List.perm_middle.symm).trans hshared
  | _ => exact hshared

theorem truthful_step (h : Sound js n c) (hs : Step c c') : ∀ e ∈ c'.reported, ∃ trained, e.2 = e.1.report trained := by
  cases hs with
  | report trained _ =>
    intro e he
    rcases List.mem_append.1 he with he | he
    · exact h.truthful e he
    · rw [List.mem_singleton.1 he]
      exact ⟨trained, rfl⟩
  | _ => exact h.truthful

theorem delivered_step (h : Sound js n c) (hs : Step c c') :
    c'.reported.map Prod.snd = c'.added ++ c'.reports.filterMap id := by
  have hdelivered := h.delivered
  cases hs with
  | report _ _ => simp [hdelivered]
  | leaves _ => simp [hdelivered]
  | adds hr | closes _ hr =>
    rw [hr] at hdelivered
    simpa using hdelivered
  | _ => exact hdelivered

theorem passed_step (h : Sound js n c) (hs : Step c c') :
    c'.workers.countP Worker.isGone + c'.awaited = n + c'.reports.countP Option.isNone := by
  have hpassed := h.passed
  cases hs with
  | begins _ hw | ends _ hw | report _ hw | leaves hw =>
    rw [hw] at hpassed
    simp [List.countP_cons] at hpassed ⊢
    omega
  | adds hr | closes _ hr =>
    rw [hr] at hpassed
    simp at hpassed ⊢
    omega
  | _ => exact hpassed

theorem behind_step (h : Sound js n c) (hs : Step c c') (hgone : c'.workers.all Worker.isGone = true) :
    c'.reports = [] ∨ c'.reports.getLast? = some none := by
  cases hs with
  | put _ => exact h.behind hgone
  | begins _ _ | ends _ _ | report _ _ => simp at hgone
  | leaves _ => exact Or.inr (by simp)
  | @adds r rest hr | @closes rest _ hr =>
    have hbehind := h.behind hgone
    rw [hr] at hbehind
    cases rest with
    | nil => exact Or.inl rfl
    | cons x rest => exact Or.inr (by simpa [List.getLast?_cons_cons] using hbehind)

theorem totals_step (h : Sound js n c) (hs : Step c c') : c'.totals = c'.added.foldl Totals.add {} := by
  cases hs with
  | adds _ => simp [h.totals]
  | _ => exact h.totals

theorem step (h : Sound js n c) (hs : Step c c') : Sound js n c' :=
  ⟨h.size_step hs, h.ahead_step hs, h.shared_step hs, h.truthful_step hs, h.delivered_step hs, h.passed_step hs,
    h.behind_step hs, h.totals_step hs⟩

end Sound

/-! ## Runs -/

theorem run?_cons {mv : Move} {moves : List Move} (h : c.run? rooms (mv :: moves) = some c') :
    ∃ d, c.move? rooms mv = some d ∧ d.run? rooms moves = some c' := by
  rw [run?, List.foldlM_cons] at h
  exact Option.bind_eq_some_iff.1 h

theorem sound_run {js : List (Job α)} {n : Nat} {moves : List Move} (hc : Sound js n c)
    (h : c.run? rooms moves = some c') : Sound js n c' := by
  induction moves generalizing c with
  | nil =>
    obtain rfl := Option.some.inj h
    exact hc
  | cons mv moves ih =>
    obtain ⟨d, hmove, hrest⟩ := run?_cons h
    exact ih (hc.step (step_of_move? hmove)) hrest

/-! ## The end of a run -/

def remaining (c : Crew α) : Nat :=
  4 * c.pending.length + 3 * c.queue.length + sumOver Worker.debt c.workers + c.reports.length

theorem remaining_step (hs : Step c c') : c'.remaining + 1 = c.remaining := by
  cases hs with
  | put hp =>
    simp [remaining, hp]
    omega
  | begins hq hw | ends hq hw =>
    simp [remaining, hq, hw, sumOver_append, sumOver]
    omega
  | report _ hw | leaves hw =>
    simp [remaining, hw, sumOver_append, sumOver]
    omega
  | adds hr | closes _ hr =>
    simp [remaining, hr]
    omega

theorem length_add_remaining {moves : List Move} (h : c.run? rooms moves = some c') :
    moves.length + c'.remaining = c.remaining := by
  induction moves generalizing c with
  | nil =>
    obtain rfl := Option.some.inj h
    simp
  | cons mv moves ih =>
    obtain ⟨d, hmove, hrest⟩ := run?_cons h
    have hstep := remaining_step (step_of_move? hmove)
    have hmoves := ih hrest
    rw [List.length_cons]
    omega

theorem remaining_start (n : Nat) (js : List (Job α)) : (start n js).remaining = 4 * (js.length + n) := by
  have hidle : sumOver Worker.debt (List.replicate n (Worker.idle : Worker α)) = 0 :=
    sumOver_eq_zero _ fun w hw => by simp [List.eq_of_mem_replicate hw]
  simp [remaining, start, hidle]

theorem admits_zero (room : Nat) : Rooms.admits room 0 = true := by
  rcases Nat.eq_zero_or_pos room with rfl | h
  · rfl
  · simp [Rooms.admits, h]

theorem exists_report {w : Worker α} (rooms : Rooms) (hr : c.reports = []) (hw : w ∈ c.workers) (hd : w.debt ≠ 0) :
    ∃ mv c', c.move? rooms mv = some c' := by
  obtain ⟨i, hi⟩ := List.mem_iff_getElem?.1 hw
  refine ⟨.report i 0, ?_⟩
  cases w with
  | busy j => exact ⟨_, by simp [move?, report?, hr, admits_zero, hi]; rfl⟩
  | leaving => exact ⟨_, by simp [move?, report?, hr, admits_zero, hi]; rfl⟩
  | _ => simp at hd

theorem exists_take {x : Option (Job α)} {rest : List (Option (Job α))} (rooms : Rooms) (hq : c.queue = x :: rest)
    (hw : .idle ∈ c.workers) : ∃ mv c', c.move? rooms mv = some c' := by
  obtain ⟨i, hi⟩ := List.mem_iff_getElem?.1 hw
  refine ⟨.take i, ?_⟩
  cases x with
  | none => exact ⟨_, by simp [move?, take?, hi, hq]; rfl⟩
  | some j => exact ⟨_, by simp [move?, take?, hi, hq]; rfl⟩

theorem exists_move {js : List (Job α)} {n : Nat} (rooms : Rooms) (hc : Sound js n c) (ha : 0 < c.awaited) :
    ∃ mv c', c.move? rooms mv = some c' := by
  cases hr : c.reports with
  | cons x rest =>
    refine ⟨.collect, ?_⟩
    have hne : c.awaited ≠ 0 := by omega
    cases x <;> exact ⟨_, by simp [move?, collect?, hr, hne]; rfl⟩
  | nil =>
    by_cases hdebt : ∃ w ∈ c.workers, w.debt ≠ 0
    · obtain ⟨w, hw, hd⟩ := hdebt
      exact exists_report rooms hr hw hd
    · -- nobody is at work, so that whoever has ended is gone, and someone is not
      have hrest : ∀ w ∈ c.workers, w.debt = 0 := fun w hw => Classical.byContradiction fun h => hdebt ⟨w, hw, h⟩
      have hended : c.workers.countP Worker.hasEnded = c.workers.countP Worker.isGone := by
        refine List.countP_congr fun w hw => ?_
        have := hrest w hw
        cases w <;> simp_all
      have hpassed := hc.passed
      rw [hr] at hpassed
      have hfew : c.workers.countP Worker.isGone < n := by simp at hpassed; omega
      have hidle : .idle ∈ c.workers := by
        refine Classical.byContradiction fun hnone => ?_
        have hall : c.workers.countP Worker.isGone = c.workers.length := by
          refine List.countP_eq_length.2 fun w hw => ?_
          have := hrest w hw
          cases w <;> simp_all
        have := hc.size
        omega
      obtain ⟨left, marks, hahead, -, hmarks, -⟩ := hc.ahead
      cases hq : c.queue with
      | cons x rest => exact exists_take rooms hq hidle
      | nil =>
        rw [hq, List.nil_append] at hahead
        cases hp : c.pending with
        | nil =>
          have := congrArg List.length hahead
          simp [hp] at this
          omega
        | cons x rest => exact ⟨.put, _, by simp [move?, put?, hp, hq, admits_zero]; rfl⟩

theorem exists_completion {js : List (Job α)} {n : Nat} (rooms : Rooms) (hc : Sound js n c) :
    ∃ more d, c.run? rooms more = some d ∧ d.awaited = 0 := by
  -- every move leaves fewer to make
  induction hr : c.remaining using Nat.strongRecOn generalizing c with
  | ind k ih =>
    rcases Nat.eq_zero_or_pos c.awaited with ha | ha
    · exact ⟨[], c, rfl, ha⟩
    · obtain ⟨mv, c', hmove⟩ := exists_move rooms hc ha
      have hstep := step_of_move? hmove
      have hless := remaining_step hstep
      obtain ⟨more, d, hmore, hd⟩ := ih c'.remaining (by omega) (hc.step hstep) rfl
      refine ⟨mv :: more, d, ?_, hd⟩
      rw [run?, List.foldlM_cons, hmove]
      exact hmore

theorem Sound.done {js : List (Job α)} {n : Nat} (hc : Sound js n c) (hn : 1 ≤ n) (ha : c.awaited = 0) :
    c.begun = js ∧ (c.reported.map Prod.fst).Perm js ∧ c.added = c.reported.map Prod.snd ∧
      c.pending = [] ∧ c.queue = [] ∧ c.reports = [] ∧ ∀ w ∈ c.workers, w.isGone = true := by
  have hpassed := hc.passed
  have hmost := List.countP_le_length (l := c.workers) (p := Worker.isGone)
  rw [hc.size] at hmost
  have hgone : ∀ w ∈ c.workers, w.isGone = true := by
    refine List.countP_eq_length.1 ?_
    rw [hc.size]
    omega
  have hended : c.workers.countP Worker.hasEnded = n := by
    rw [← hc.size]
    refine List.countP_eq_length.2 fun w hw => ?_
    have := hgone w hw
    cases w <;> simp_all
  have hbusy : c.workers.filterMap Worker.job? = [] := by
    refine List.filterMap_eq_nil_iff.2 fun w hw => ?_
    have := hgone w hw
    cases w <;> simp_all
  obtain ⟨left, marks, hahead, hbegun, hmarks, hleft⟩ := hc.ahead
  obtain rfl : marks = 0 := by omega
  obtain rfl : left = [] := hleft.resolve_right (by omega)
  obtain ⟨hqueue, hpending⟩ := List.append_eq_nil_iff.1 hahead
  have hreports : c.reports = [] := by
    refine (hc.behind (List.all_eq_true.2 hgone)).resolve_right fun hlast => ?_
    have hmark : 0 < c.reports.countP Option.isNone :=
      List.countP_pos_iff.2 ⟨none, List.mem_of_getLast? hlast, rfl⟩
    omega
  have hshared := hc.shared
  have hdelivered := hc.delivered
  rw [List.append_nil] at hbegun
  rw [hbusy, List.append_nil, hbegun] at hshared
  rw [hreports, List.filterMap_nil, List.append_nil] at hdelivered
  exact ⟨hbegun, hshared, hdelivered.symm, hpending, hqueue, hreports, hgone⟩

end Crew

/-! ## The jobs of a corpus -/

section Corpus

variable [Scalar α]

theorem pairs_jobsFrom (st : Settings α) (course : Course) (f : Filling α) (ps : List Pair) :
    (jobsFrom st course f ps).flatMap Job.pairs = f.pairs.reverse ++ ps := by
  induction ps generalizing f with
  | nil =>
    rw [jobsFrom]
    split
    · next h => simp [List.isEmpty_iff.1 h]
    · simp
  | cons p ps ih =>
    rw [jobsFrom]
    dsimp only
    split
    · rw [ih]
      simp
    · rw [List.flatMap_cons, ih, Filling.submit]
      split <;> simp

theorem pairs_jobs (st : Settings α) (pairs : List Pair) :
    (jobs st pairs).flatMap Job.pairs = repeated st pairs := pairs_jobsFrom st _ _ _

omit [Scalar α] in
theorem length_repeated (st : Settings α) (pairs : List Pair) :
    (repeated st pairs).length = pairs.length * (max st.rounds 1).toNat := by
  simp [repeated, Nat.mul_comm]

end Corpus

theorem foldl_add (rs : List Report) (t : Totals) :
    rs.foldl Totals.add t = ⟨t.jobs + rs.length, t.examples + sumOver Report.examples rs,
      t.trained + sumOver Report.trained rs, t.raw + sumOver Report.raw rs⟩ := by
  induction rs generalizing t with
  | nil => rfl
  | cons r rs ih =>
    rw [List.foldl_cons, ih]
    simp [Totals.add, sumOver]
    omega

theorem sum_reported {js : List (Job α)} {reported : List (Job α × Report)} (hp : (reported.map Prod.fst).Perm js)
    (ht : ∀ e ∈ reported, ∃ trained, e.2 = e.1.report trained) {f : Report → Nat} {g : Pair → Nat}
    (hfg : ∀ (j : Job α) trained, f (j.report trained) = sumOver g j.pairs) :
    sumOver f (reported.map Prod.snd) = sumOver g (js.flatMap Job.pairs) := by
  have hjobs : sumOver f (reported.map Prod.snd) = sumOver (fun j => sumOver g j.pairs) (reported.map Prod.fst) := by
    clear hp
    induction reported with
    | nil => rfl
    | cons e es ih =>
      obtain ⟨trained, he⟩ := ht e List.mem_cons_self
      simp only [List.map_cons, sumOver, he, hfg, ih fun d hd => ht d (List.mem_cons_of_mem e hd)]
  rw [hjobs, sumOver_perm _ hp, sumOver_flatMap]

theorem Crew.remaining_eq_zero {c : Crew α} (hp : c.pending = []) (hq : c.queue = []) (hr : c.reports = [])
    (hg : ∀ w ∈ c.workers, w.isGone = true) : c.remaining = 0 := by
  have hdebt : sumOver Worker.debt c.workers = 0 := by
    refine sumOver_eq_zero _ fun w hw => ?_
    have := hg w hw
    cases w <;> simp_all
  simp [remaining, hp, hq, hr, hdebt]

theorem Crew.train_eq_begun [Scalar α] {σ : Type} [Draws σ] {m : Model α} {pairs : List Pair} {n : Nat}
    {rooms : Rooms} {moves : List Move} {c : Crew α} (hn : 1 ≤ n)
    (hrun : (start n (jobs m.settings pairs)).run? rooms moves = some c) (hdone : c.awaited = 0)
    {labels : List α} (hl : labelsFor m.settings.negative = .ok labels)
    (hv : (m.vocabulary.words.isEmpty || m.vocabulary.productions.isEmpty) = false) (g : σ) :
    m.train pairs g = c.begun.foldlM Model.work (m, g) := by
  have hbegun := ((sound_run (sound_start n _) hrun).done hn hdone).1
  rw [Model.train, hl, hv, hbegun]
  rfl

/-- However the threads get their turns, the collector can stop waiting in the end; and when it does, the jobs of the
corpus were begun one after the other, each of them once, and together they are the corpus as often as it is gone
through. Each job was reported on once, and each report was added once, so that the totals are those of the corpus.
A corpus is gone through at least once, whatever number of rounds is asked for. -/
theorem Crew.training_complete [Scalar α] {st : Settings α} {pairs : List Pair} {n : Nat} {rooms : Rooms}
    {moves : List Move} {c : Crew α} (hn : 1 ≤ n)
    (hrun : (start n (jobs st pairs)).run? rooms moves = some c) :
    (∃ more d, c.run? rooms more = some d ∧ d.awaited = 0) ∧
    (c.awaited = 0 →
      c.begun = jobs st pairs ∧ c.begun.flatMap Job.pairs = repeated st pairs ∧
      (c.reported.map Prod.fst).Perm (jobs st pairs) ∧
      (∀ e ∈ c.reported, ∃ trained, e.2 = e.1.report trained) ∧
      c.added = c.reported.map Prod.snd ∧
      c.totals = ⟨(jobs st pairs).length, pairs.length * (max st.rounds 1).toNat,
        sumOver Report.trained c.added, sumOver (fun p => p.tree.count) (repeated st pairs)⟩ ∧
      moves.length = 4 * ((jobs st pairs).length + n)) := by
  have hsound := sound_run (sound_start n (jobs st pairs)) hrun
  refine ⟨exists_completion rooms hsound, fun hdone => ?_⟩
  obtain ⟨hbegun, hshared, hadded, hpending, hqueue, hreports, hgone⟩ := hsound.done hn hdone
  refine ⟨hbegun, by rw [hbegun, pairs_jobs], hshared, hsound.truthful, hadded, ?_, ?_⟩
  · have hexamples := sum_reported hshared hsound.truthful (f := Report.examples) (g := fun _ => 1)
      fun j trained => (sumOver_one j.pairs).symm
    have hraw := sum_reported hshared hsound.truthful (f := Report.raw) (g := fun p => p.tree.count)
      fun j trained => rfl
    have hjobs : c.added.length = (jobs st pairs).length := by
      rw [hadded, List.length_map, ← hshared.length_eq, List.length_map]
    rw [hsound.totals, foldl_add, hjobs]
    rw [← hadded, pairs_jobs] at hexamples hraw
    simp [hexamples, hraw, sumOver_one, length_repeated]
  · have hlength := length_add_remaining hrun
    rw [remaining_eq_zero hpending hqueue hreports hgone, remaining_start] at hlength
    exact hlength

def oneJob (rounds : Int) : Settings Float where
  size := 1
  alpha := Scalar.one
  leastAlpha := Scalar.one
  words := ⟨none, none, none, false, true⟩
  seed := 1
  negative := 5
  rounds := rounds
  batch := 100
  additive := true
  memory := ⟨1, 1⟩
  rows := default

def emptyProgram : Pair := ⟨"nothing", .node "Module" []⟩

def Crew.afterJob (n : Nat) (j : Job α) (r : Report) : Crew α where
  pending := []
  queue := []
  workers := List.replicate n .gone
  reports := []
  awaited := 0
  totals := Totals.add {} r
  begun := [j]
  reported := [(j, r)]
  added := [r]

/-- The first worker leaves while the second one is at work. -/
theorem Crew.training_complete_two :
    ∃ moves c, (start 2 (jobs (oneJob 2) [emptyProgram])).run? (.ofFactor 2 2) moves = some c ∧ c.awaited = 0 ∧
      c.begun = jobs (oneJob 2) [emptyProgram] ∧ c.begun.flatMap Job.pairs = [emptyProgram, emptyProgram] ∧
      c.totals.examples = 2 := by
  let job : Job Float := ⟨[emptyProgram, emptyProgram], Scalar.one⟩
  have hrun : (start 2 (jobs (oneJob 2) [emptyProgram])).run? (.ofFactor 2 2)
      [.put, .take 1, .put, .take 0, .put, .report 0 0, .collect, .report 1 1, .take 1, .collect, .report 1 0,
        .collect] = some (afterJob 2 job (job.report 1)) := by
    change (start 2 [job]).run? _ _ = _
    rfl
  obtain ⟨hbegun, hpairs, -, -, -, htotals, -⟩ := (training_complete (by decide) hrun).2 rfl
  exact ⟨_, _, hrun, rfl, hbegun, hpairs, congrArg Totals.examples htotals⟩

/-- A corpus is gone through once also when no round is asked for. -/
theorem Crew.no_rounds_train :
    ∃ moves c, (start 1 (jobs (oneJob 0) [emptyProgram])).run? (.ofFactor 2 1) moves = some c ∧ c.awaited = 0 ∧
      c.begun.flatMap Job.pairs = [emptyProgram] ∧
      (c.totals.examples : Int) ≠ [emptyProgram].length * (oneJob 0).rounds := by
  let job : Job Float := ⟨[emptyProgram], Scalar.one⟩
  have hrun : (start 1 (jobs (oneJob 0) [emptyProgram])).run? (.ofFactor 2 1)
      [.put, .put, .take 0, .report 0 1, .take 0, .report 0 0, .collect, .collect] =
        some (afterJob 1 job (job.report 1)) := by
    change (start 1 [job]).run? _ _ = _
    rfl
  exact ⟨_, _, hrun, rfl, rfl, by decide⟩

end PlotAdvisor.Models.Productions
