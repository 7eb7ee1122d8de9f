import Mathlib.Algebra.Order.Field.Rat
import PlotAdvisor.Mining.Positions
import PlotAdvisor.Proofs.CoOccurrence
import PlotAdvisor.Proofs.ExactNumbers

/-! Where a function is inserted among calls that it usually follows, or usually precedes, in exact arithmetic.

A line scores the distances of all calls exactly if it lies on the right side of each of them. Lines are offered for
the outermost calls, and the last line of the text is offered besides. Before the first outermost call there is thus
always a line, but behind the last one only if the text goes on: a text without a newline at its end does not.

* `scoreAt_eq_iff` - which lines have the full score.
* `exists_bestPlace` - the best place has the largest score, and the largest line of those with it.
* `lt_bestPlace_iff`, `bestPlace_le_iff` - when the best place is behind all calls, and when it is behind none.
-/
set_option autoImplicit false

namespace PlotAdvisor.Mining

open Program Elements Scalar

section Scores

variable {K : Type} [Field K] [LinearOrder K]

/-! ## Sides -/

/-- The line lies on the right side of a call with the given distance: behind it, or not behind it. -/
def Agrees (line : Int) (call : K × Int) : Prop := (0 < call.1 ∧ call.2 < line) ∨ (call.1 < 0 ∧ line ≤ call.2)

instance (line : Int) (call : K × Int) : Decidable (Agrees line call) := inferInstanceAs (Decidable (_ ∨ _))

def reward (line : Int) (call : K × Int) : K := if Agrees line call then |call.1| else -|call.1|

def fullScore (calls : List (K × Int)) : K := (calls.map fun c => |c.1|).sum

section Best

variable [Exact.Functions K]

/-! ## The best place -/

theorem isWorse_iff (p q : Int × K) : isWorse p q = true ↔ toLex (p.2, p.1) < toLex (q.2, q.1) := by
  rw [Prod.Lex.toLex_lt_toLex]
  simp only [isWorse, Bool.or_eq_true, Bool.and_eq_true, Bool.not_eq_true', ← Bool.not_eq_true, Exact.less_iff,
    decide_eq_true_eq, not_lt]
  constructor
  · rintro (hlt | ⟨hle, hline⟩)
    · exact Or.inl hlt
    · exact hle.lt_or_eq.imp_right fun heq => ⟨heq, hline⟩
  · rintro (hlt | ⟨heq, hline⟩)
    · exact Or.inl hlt
    · exact Or.inr ⟨heq.le, hline⟩

theorem foldl_isWorse (p : Int × K) (ps : List (Int × K)) :
    let best := ps.foldl (fun best q => if isWorse best q then q else best) p
    best ∈ p :: ps ∧ ∀ q ∈ p :: ps, toLex (q.2, q.1) ≤ toLex (best.2, best.1) := by
  induction ps generalizing p with
  | nil => simp
  | cons q ps ih =>
    rw [List.foldl_cons]
    by_cases hworse : isWorse p q = true
    · rw [if_pos hworse]
      obtain ⟨hmem, hle⟩ := ih q
      refine ⟨List.mem_cons_of_mem p hmem, List.forall_mem_cons.2 ⟨?_, hle⟩⟩
      exact ((isWorse_iff p q).1 hworse).le.trans (hle q List.mem_cons_self)
    · rw [if_neg hworse]
      obtain ⟨hmem, hle⟩ := ih p
      rw [List.forall_mem_cons] at hle
      have hq := (not_lt.1 (mt (isWorse_iff p q).2 hworse)).trans hle.1
      refine ⟨?_, List.forall_mem_cons.2 ⟨hle.1, List.forall_mem_cons.2 ⟨hq, hle.2⟩⟩⟩
      rcases List.mem_cons.1 hmem with hp | hlater
      · rw [hp]
        exact List.mem_cons_self
      · exact List.mem_cons_of_mem p (List.mem_cons_of_mem q hlater)

theorem exists_bestPlace {ps : List (Int × K)} (h : ps ≠ []) :
    ∃ p ∈ ps, bestPlace ps = p.1 ∧ ∀ q ∈ ps, toLex (q.2, q.1) ≤ toLex (p.2, p.1) := by
  obtain ⟨p, ps, rfl⟩ := List.exists_cons_of_ne_nil h
  obtain ⟨hmem, hle⟩ := foldl_isWorse p ps
  exact ⟨_, hmem, rfl, hle⟩

/-- The lines of calls and a last line, each with its score against the calls. -/
def offered (seen : List (K × Int)) (last : Int) : List (Int × K) :=
  (seen.map Prod.snd ++ [last]).map fun l => (l, scoreAt l seen)

theorem bestPlace_offered (seen : List (K × Int)) (last : Int) :
    (∃ c ∈ seen, bestPlace (offered seen last) = c.2) ∨ bestPlace (offered seen last) = last := by
  obtain ⟨p, hp, hbest, -⟩ := exists_bestPlace (by simp [offered] : offered seen last ≠ [])
  obtain ⟨l, hl, rfl⟩ := List.mem_map.1 hp
  rw [hbest]
  rcases List.mem_append.1 hl with hl | hl
  · obtain ⟨c, hc, rfl⟩ := List.mem_map.1 hl
    exact Or.inl ⟨c, hc, rfl⟩
  · exact Or.inr (List.mem_singleton.1 hl)

end Best

/-! ## Full scores -/

variable [IsStrictOrderedRing K]

theorem reward_le (line : Int) (call : K × Int) : reward line call ≤ |call.1| := by
  unfold reward
  split
  · exact le_rfl
  · exact neg_le_self (abs_nonneg _)

theorem reward_eq_iff {line : Int} {call : K × Int} (hcall : call.1 ≠ 0) :
    reward line call = |call.1| ↔ Agrees line call := by
  have hpos : 0 < |call.1| := abs_pos.2 hcall
  unfold reward
  split
  · next h => exact ⟨fun _ => h, fun _ => rfl⟩
  · next h => exact ⟨fun heq => by linarith, fun h' => absurd h' h⟩

variable [Exact.Functions K]

theorem scoreAt_eq (line : Int) (calls : List (K × Int)) : scoreAt line calls = (calls.map (reward line)).sum := by
  have hstep (score : K) (call : K × Int) :
      (if (less zero call.1 && decide (call.2 < line)) || (less call.1 zero && decide (line ≤ call.2)) then
        score + magnitude call.1 else score - magnitude call.1) = score + reward line call := by
    have hiff : ((less zero call.1 && decide (call.2 < line)) || (less call.1 zero && decide (line ≤ call.2))) = true ↔
        Agrees line call := by
      simp [Agrees, Exact.less_iff, Exact.zero_eq]
    unfold reward
    by_cases h : Agrees line call
    · rw [if_pos (hiff.2 h), if_pos h, Exact.magnitude_eq]
    · rw [if_neg (mt hiff.1 h), if_neg h, Exact.magnitude_eq, sub_eq_add_neg]
  have hfold (score : K) (cs : List (K × Int)) :
      cs.foldl (fun score call => score + reward line call) score = score + (cs.map (reward line)).sum := by
    induction cs generalizing score with
    | nil => simp
    | cons c cs ih => rw [List.foldl_cons, ih, List.map_cons, List.sum_cons, add_assoc]
  simp only [scoreAt, hstep]
  rw [hfold, Exact.decimal_zero, zero_add]

theorem scoreAt_le (line : Int) (calls : List (K × Int)) : scoreAt line calls ≤ fullScore calls := by
  rw [scoreAt_eq]
  exact List.sum_le_sum fun c _ => reward_le line c

theorem scoreAt_eq_iff {line : Int} {calls : List (K × Int)} (hcalls : ∀ c ∈ calls, c.1 ≠ 0) :
    scoreAt line calls = fullScore calls ↔ ∀ c ∈ calls, Agrees line c := by
  rw [scoreAt_eq, fullScore]
  induction calls with
  | nil => simp
  | cons c calls ih =>
    rw [List.forall_mem_cons] at hcalls ⊢
    have hrest : (calls.map (reward line)).sum ≤ (calls.map fun c => |c.1|).sum :=
      List.sum_le_sum fun c _ => reward_le line c
    rw [List.map_cons, List.map_cons, List.sum_cons, List.sum_cons,
      add_eq_add_iff_eq_and_eq (reward_le line c) hrest, reward_eq_iff hcalls.1, ih hcalls.2]

/-! ## Behind all calls, or behind none -/

theorem bestPlace_agrees {seen : List (K × Int)} {last line : Int} (hseen : ∀ c ∈ seen, c.1 ≠ 0)
    (hline : line ∈ seen.map Prod.snd ++ [last]) (hagrees : ∀ c ∈ seen, Agrees line c) :
    (∀ c ∈ seen, Agrees (bestPlace (offered seen last)) c) ∧ line ≤ bestPlace (offered seen last) := by
  obtain ⟨p, hp, hbest, hlargest⟩ := exists_bestPlace (by simp [offered] : offered seen last ≠ [])
  obtain ⟨l, hl, rfl⟩ := List.mem_map.1 hp
  have hfull : scoreAt line seen = fullScore seen := (scoreAt_eq_iff hseen).2 hagrees
  have hle := hlargest (line, scoreAt line seen) (List.mem_map_of_mem hline)
  rw [Prod.Lex.toLex_le_toLex] at hle
  rw [hbest]
  rcases hle with hlt | ⟨heq, hle⟩
  · have hmore : fullScore seen < fullScore seen := by
      calc fullScore seen = scoreAt line seen := hfull.symm
        _ < scoreAt l seen := hlt
        _ ≤ fullScore seen := scoreAt_le l seen
    exact absurd hmore (lt_irrefl _)
  · exact ⟨(scoreAt_eq_iff hseen).1 (heq.symm.trans hfull), hle⟩

theorem lt_bestPlace_iff {seen calls : List (K × Int)} {last : Int} (hseen : seen ⊆ calls)
    (hlater : ∀ c ∈ calls, 0 < c.1) :
    (∀ c ∈ calls, c.2 < bestPlace (offered seen last)) ↔ ∀ c ∈ calls, c.2 < last := by
  have hlast (hbehind : ∀ c ∈ seen, c.2 < bestPlace (offered seen last)) : bestPlace (offered seen last) = last := by
    rcases bestPlace_offered seen last with ⟨c, hc, hbest⟩ | hbest
    · exact absurd (hbehind c hc) (by rw [hbest]; exact lt_irrefl _)
    · exact hbest
  constructor
  · intro h
    rwa [hlast fun c hc => h c (hseen hc)] at h
  · intro h
    have hagrees : ∀ c ∈ seen, Agrees last c := fun c hc => Or.inl ⟨hlater c (hseen hc), h c (hseen hc)⟩
    have hoffered : last ∈ seen.map Prod.snd ++ [last] := List.mem_append_right _ (List.mem_singleton_self last)
    have hbest := (bestPlace_agrees (fun c hc => (hlater c (hseen hc)).ne') hoffered hagrees).1
    have hbehind : ∀ c ∈ seen, c.2 < bestPlace (offered seen last) := by
      intro c hc
      rcases hbest c hc with ⟨-, hlt⟩ | ⟨hneg, -⟩
      · exact hlt
      · exact absurd hneg (hlater c (hseen hc)).asymm
    rwa [hlast hbehind]

theorem bestPlace_eq_first {seen : List (K × Int)} {last : Int} (hearlier : ∀ c ∈ seen, c.1 < 0) {o : K × Int}
    (ho : o ∈ seen) (hfirst : ∀ c ∈ seen, o.2 ≤ c.2) : bestPlace (offered seen last) = o.2 := by
  have hline : o.2 ∈ seen.map Prod.snd ++ [last] := List.mem_append_left _ (List.mem_map_of_mem ho)
  have hagrees : ∀ c ∈ seen, Agrees o.2 c := fun c hc => Or.inr ⟨hearlier c hc, hfirst c hc⟩
  obtain ⟨hbest, hle⟩ := bestPlace_agrees (fun c hc => (hearlier c hc).ne) hline hagrees
  rcases hbest o ho with ⟨hpos, -⟩ | ⟨-, hge⟩
  · exact absurd hpos (hearlier o ho).asymm
  · exact le_antisymm hge hle

theorem bestPlace_le_iff {seen calls : List (K × Int)} {last : Int} (hseen : seen ⊆ calls)
    (hearlier : ∀ c ∈ calls, c.1 < 0) :
    (∀ c ∈ calls, bestPlace (offered seen last) ≤ c.2) ↔
      (∃ o ∈ seen, ∀ c ∈ calls, o.2 ≤ c.2) ∨ seen = [] ∧ ∀ c ∈ calls, last ≤ c.2 := by
  by_cases hnone : seen = []
  · have hbest : bestPlace (offered seen last) = last := by
      rcases bestPlace_offered seen last with ⟨c, hc, -⟩ | hbest
      · exact absurd hc (by simp [hnone])
      · exact hbest
    rw [hbest]
    simp [hnone]
  · obtain ⟨o, ho, hfirst⟩ := seen.toFinset.exists_min_image Prod.snd (by simpa using hnone)
    simp only [List.mem_toFinset] at ho hfirst
    have hbest : bestPlace (offered seen last) = o.2 :=
      bestPlace_eq_first (fun c hc => hearlier c (hseen hc)) ho hfirst
    rw [hbest]
    constructor
    · exact fun h => Or.inl ⟨o, ho, h⟩
    · rintro (⟨o', ho', h⟩ | ⟨hnil, -⟩) c hc
      · exact (hfirst o' ho').trans (h c hc)
      · exact absurd hnil hnone

end Scores

/-! ## The usual order -/

section Order

variable {K : Type} [Field K] [LinearOrder K]

/-- A function goes behind all calls if it usually follows each of them, and behind none if it usually precedes each. -/
def RespectsOrder (ps : Positions K) (mine : K) (calls : List (String × Int)) (line : Int) : Prop :=
  ((∀ c ∈ calls, ps.getD c.1 0 < mine) → ∀ c ∈ calls, c.2 < line) ∧
    ((∀ c ∈ calls, mine < ps.getD c.1 0) → ∀ c ∈ calls, line ≤ c.2)

def allPlacedCalls (ps : Positions K) (program : Tree) : List (String × Int) :=
  (program.preorder.filter fun t => isCall t.kind).filterMap (placedCall? ps)

omit [Field K] [LinearOrder K] in
theorem placedCalls_subset (ps : Positions K) (program : Tree) :
    placedCalls ps program ⊆ allPlacedCalls ps program := by
  intro c hc
  obtain ⟨t, ht, hplaced⟩ := List.mem_filterMap.1 hc
  have hkind : isCall t.kind = true := isOne_of_mem_outermost ht
  have hnode : t ∈ t.preorder := by
    refine Tree.mem_preorder_self (Tree.isNode_of_kind fun hempty => ?_)
    rw [hempty] at hkind
    exact absurd hkind (by decide)
  refine List.mem_filterMap.2 ⟨t, List.mem_filter.2 ⟨?_, hkind⟩, hplaced⟩
  exact mem_preorder_of_mem_outermost ht hnode

/-- The distance of a function from a call, with the line of the call. -/
def distance (ps : Positions K) (mine : K) (c : String × Int) : K × Int := (mine - ps.getD c.1 0, c.2)

omit [LinearOrder K] in
theorem distance_snd (ps : Positions K) (mine : K) (c : String × Int) : (distance ps mine c).2 = c.2 := rfl

variable [Exact.Functions K] (ps : Positions K) (parse : String → Except Fault Tree) (code f : String)
  {program : Tree} {mine : K}

theorem insertionLinesIn_eq (hparse : parse code = .ok program) (hmine : ps.get? f = some mine) :
    insertionLinesIn ps parse code f = offered ((placedCalls ps program).map (distance ps mine)) (countLines code) := by
  simp only [insertionLinesIn, hparse, insertionLines, hmine, offered, List.map_map, Exact.zero_eq]
  rfl

variable [IsStrictOrderedRing K]

theorem respectsOrder_iff {seen calls : List (String × Int)} {last : Int} (hseen : seen ⊆ calls) :
    RespectsOrder ps mine calls (bestPlace (offered (seen.map (distance ps mine)) last)) ↔
      ((∀ c ∈ calls, ps.getD c.1 0 < mine) → ∀ c ∈ calls, c.2 < last) ∧
      ((∀ c ∈ calls, mine < ps.getD c.1 0) →
        (∃ o ∈ seen, ∀ c ∈ calls, o.2 ≤ c.2) ∨ seen = [] ∧ ∀ c ∈ calls, last ≤ c.2) := by
  have hdistances : seen.map (distance ps mine) ⊆ calls.map (distance ps mine) := List.map_subset _ hseen
  refine and_congr (imp_congr_right fun hlater => ?_) (imp_congr_right fun hearlier => ?_)
  · have hpositive : ∀ c ∈ calls.map (distance ps mine), 0 < c.1 :=
      List.forall_mem_map.2 fun c hc => sub_pos.2 (hlater c hc)
    have hiff : _ ↔ ∀ c ∈ calls.map (distance ps mine), c.2 < last := lt_bestPlace_iff hdistances hpositive
    rwa [List.forall_mem_map, List.forall_mem_map] at hiff
  · have hnegative : ∀ c ∈ calls.map (distance ps mine), c.1 < 0 :=
      List.forall_mem_map.2 fun c hc => sub_neg.2 (hearlier c hc)
    have hiff : _ ↔ _ ∨ _ ∧ ∀ c ∈ calls.map (distance ps mine), last ≤ c.2 :=
      bestPlace_le_iff hdistances hnegative
    simp only [List.forall_mem_map] at hiff
    simpa only [List.mem_map, exists_exists_and_eq_and, List.map_eq_nil_iff, distance_snd] using hiff

/-- With regard to the outermost calls, the best place respects the usual order exactly if, for a function that usually
follows them all, the text has a line behind them. With regard to all calls it is the same, but for a function that
usually precedes them an outermost call has to come first too. -/
theorem bestPlace_respects_iff (hparse : parse code = .ok program) (hmine : ps.get? f = some mine) :
    let best := bestPlace (insertionLinesIn ps parse code f)
    let seen := placedCalls ps program
    let calls := allPlacedCalls ps program
    (RespectsOrder ps mine seen best ↔
      ((∀ c ∈ seen, ps.getD c.1 0 < mine) → ∀ c ∈ seen, c.2 < countLines code)) ∧
    (RespectsOrder ps mine calls best ↔
      ((∀ c ∈ calls, ps.getD c.1 0 < mine) → ∀ c ∈ calls, c.2 < countLines code) ∧
      ((∀ c ∈ calls, mine < ps.getD c.1 0) →
        (∃ o ∈ seen, ∀ c ∈ calls, o.2 ≤ c.2) ∨ seen = [] ∧ ∀ c ∈ calls, countLines code ≤ c.2)) := by
  intro best seen calls
  have hbest : best = bestPlace (offered (seen.map (distance ps mine)) (countLines code)) := by
    rw [← insertionLinesIn_eq ps parse code f hparse hmine]
  rw [hbest]
  refine ⟨?_, respectsOrder_iff ps (placedCalls_subset ps program)⟩
  rw [respectsOrder_iff ps (List.Subset.refl seen), and_iff_left]
  intro _
  by_cases hnone : seen = []
  · exact Or.inr ⟨hnone, by simp [hnone]⟩
  · obtain ⟨o, ho, hfirst⟩ := seen.toFinset.exists_min_image Prod.snd (by simpa using hnone)
    simp only [List.mem_toFinset] at ho hfirst
    exact Or.inl ⟨o, ho, hfirst⟩

end Order

/-! ## A plot that gets a title -/

def plotProgram : Tree := moduleOf [plottingCall 1 10 "plot" [] []] []

def plotThenTitle : Positions ℚ := ⟨[("plot", 1), ("title", 2)]⟩

theorem placedCalls_plotProgram : placedCalls plotThenTitle plotProgram = [("plot", 1)] := by decide +kernel

theorem bestPlace_respects_iff_newline :
    let _ := Exact.unchanging
    plotThenTitle.get? "title" = some 2 ∧ RespectsOrder plotThenTitle 2 [("plot", 1)]
      (bestPlace (insertionLinesIn plotThenTitle (fun _ => .ok plotProgram) "plt.plot()\n" "title")) := by
  intro _
  have hmine : plotThenTitle.get? "title" = some 2 := by decide +kernel
  have hrespects := (bestPlace_respects_iff plotThenTitle (fun _ => .ok plotProgram) "plt.plot()\n" "title"
    rfl hmine).1
  rw [placedCalls_plotProgram] at hrespects
  refine ⟨hmine, hrespects.2 fun _ => ?_⟩
  decide +kernel

/-- Without a newline at its end the text has no line behind the plot, and the title goes before it. -/
theorem title_before_plot :
    let _ := Exact.unchanging
    bestPlace (insertionLinesIn plotThenTitle (fun _ => .ok plotProgram) "plt.plot()" "title") = 1 ∧
      ¬ RespectsOrder plotThenTitle 2 (placedCalls plotThenTitle plotProgram)
        (bestPlace (insertionLinesIn plotThenTitle (fun _ => .ok plotProgram) "plt.plot()" "title")) := by
  intro _
  have hlines : countLines "plt.plot()" = 1 := by decide +kernel
  have hmine : plotThenTitle.get? "title" = some 2 := by decide +kernel
  have hbest : bestPlace (insertionLinesIn plotThenTitle (fun _ => .ok plotProgram) "plt.plot()" "title") = 1 := by
    rw [insertionLinesIn_eq plotThenTitle _ _ _ rfl hmine, placedCalls_plotProgram, hlines]
    rcases bestPlace_offered ([("plot", 1)].map (distance plotThenTitle 2)) 1 with ⟨c, hc, hbest⟩ | hbest
    · rw [hbest]
      rw [List.mem_singleton.1 hc]
      rfl
    · exact hbest
  refine ⟨hbest, fun hrespects => ?_⟩
  have hlater : ∀ c ∈ placedCalls plotThenTitle plotProgram, plotThenTitle.getD c.1 0 < 2 := by decide +kernel
  have hbehind := hrespects.1 hlater ("plot", 1) (by decide +kernel)
  rw [hbest] at hbehind
  exact absurd hbehind (lt_irrefl _)

end PlotAdvisor.Mining
