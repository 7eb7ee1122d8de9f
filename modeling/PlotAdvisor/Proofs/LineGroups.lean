import PlotAdvisor.Program.Groups
import PlotAdvisor.Proofs.Words

/-! Line groups cover the lines of a program text in place, whatever the test of completeness answers and whatever its
answers depend on.

* `CoveringFrom` - groups from a line on, with nothing but blank lines between them.
* `LeftOver` - what stands behind the last group: nothing, or lines that the test refused together at the very end.
-/
set_option autoImplicit false

namespace PlotAdvisor

namespace Program

/-! ## Blank lines -/

theorem blank_of_joinBreaks {cs : List Char} (h : ∀ c ∈ joinBreaks cs, Text.isBlank c = true) :
    ∀ c ∈ cs, Text.isBlank c = true := by
  fun_induction joinBreaks cs with
  | case1 cs ih =>
    intro c hc
    rcases List.mem_cons.1 hc with rfl | hc
    · rfl
    · exact ih h c hc
  | case2 c cs _ ih =>
    rw [List.forall_mem_cons] at h ⊢
    exact ⟨h.1, ih h.2⟩
  | case3 => simp

theorem mem_joinWith {c : Char} {p : List Char} {ps : List (List Char)} (sep : List Char) (hp : p ∈ ps) (hc : c ∈ p) :
    c ∈ Text.Chars.joinWith sep ps := by
  fun_induction Text.Chars.joinWith sep ps with
  | case1 => simp at hp
  | case2 q => exact List.mem_singleton.1 hp ▸ hc
  | case3 q qs _ ih =>
    rcases List.mem_cons.1 hp with rfl | hp
    · simp [hc]
    · simp [ih hp]

theorem blank_of_trialText {held : List String} (h : trialText held = "") {l : String} (hl : l ∈ held) :
    ∀ c ∈ l.toList, Text.isBlank c = true := by
  have hnil : Text.Chars.trimEnd (joinBreaks (Text.join "\n" held).toList) = [] := by
    simpa [trialText] using congrArg String.toList h
  have hall := blank_of_joinBreaks (Text.trimEnd_eq_nil_iff.1 hnil)
  intro c hc
  refine hall c ?_
  rw [Text.join, String.toList_ofList]
  exact mem_joinWith _ (List.mem_map_of_mem hl) hc

theorem eq_empty_of_trialText {code l : String} {held : List String} (h : trialText held = "") (hl : l ∈ held)
    (hcode : l ∈ strippedLines code) : l = "" := by
  obtain ⟨whole, -, rfl⟩ := List.mem_map.1 hcode
  rw [← Text.trimEnd_trimEnd, Text.trimEnd_of_blank (blank_of_trialText h hl)]

/-! ## Groups in place -/

def LineGroup.stop (g : LineGroup) : Nat := g.first + g.lines.length

/-- A group that holds lines of a text and shows them at their numbers: padded, it is as long as the number of the line
behind it, with empty lines up to its first line and the lines of the text from there on. -/
structure LineGroup.InPlace (lines : List String) (g : LineGroup) : Prop where
  nonempty : g.first < g.stop
  stop_le : g.stop ≤ lines.length
  length_padded : g.padded.length = g.stop
  before : ∀ i < g.first, g.padded[i]? = some ""
  inside : ∀ i, g.first ≤ i → i < g.stop → g.padded[i]? = lines[i]?

theorem LineGroup.inPlace_of_append {lines past rest : List String} {g : LineGroup}
    (hlines : lines = past ++ g.lines ++ rest) (hpast : past.length = g.first) (hne : g.lines ≠ []) :
    g.InPlace lines := by
  have hpos : 0 < g.lines.length := List.length_pos_iff.2 hne
  refine ⟨?_, ?_, ?_, fun i hi => ?_, fun i hi his => ?_⟩
  · rw [stop]
    omega
  · rw [hlines, List.length_append, List.length_append, stop]
    omega
  · rw [padded, List.length_append, List.length_replicate, stop]
  · rw [padded, List.getElem?_append_left (by simpa using hi), List.getElem?_replicate, if_pos hi]
  · rw [stop] at his
    rw [padded, List.getElem?_append_right (by simpa using hi), List.length_replicate, hlines,
      List.getElem?_append_left (by rw [List.length_append]; omega), List.getElem?_append_right (by omega), hpast]

structure CoveringFrom (lines : List String) (start : Nat) (gs : List LineGroup) : Prop where
  inPlace : ∀ g ∈ gs, g.InPlace lines
  start_le : ∀ g ∈ gs, start ≤ g.first
  increasing : gs.Pairwise fun g h => g.stop ≤ h.first
  blank_between : ∀ g ∈ gs, ∀ i, start ≤ i → i < g.stop → (∀ h ∈ gs, ¬ (h.first ≤ i ∧ i < h.stop)) →
    lines[i]? = some ""

namespace CoveringFrom

variable {lines : List String} {start : Nat} {gs : List LineGroup}

theorem nil : CoveringFrom lines start [] := ⟨by simp, by simp, .nil, by simp⟩

theorem skip (hblank : lines[start]? = some "") (h : CoveringFrom lines (start + 1) gs) : CoveringFrom lines start gs where
  inPlace := h.inPlace
  start_le g hg := Nat.le_of_succ_le (h.start_le g hg)
  increasing := h.increasing
  blank_between g hg i hi his hnone := by
    rcases Nat.lt_or_eq_of_le hi with hlt | rfl
    · exact h.blank_between g hg i hlt his hnone
    · exact hblank

theorem cons {g : LineGroup} (hg : g.InPlace lines) (hstart : g.first = start) (h : CoveringFrom lines g.stop gs) :
    CoveringFrom lines start (g :: gs) where
  inPlace := List.forall_mem_cons.2 ⟨hg, h.inPlace⟩
  start_le := List.forall_mem_cons.2 ⟨Nat.le_of_eq hstart.symm, fun k hk => by
    have := h.start_le k hk
    have := hg.nonempty
    omega⟩
  increasing := List.pairwise_cons.2 ⟨h.start_le, h.increasing⟩
  blank_between k hk i hi his hnone := by
    rw [List.forall_mem_cons] at hnone
    have hbehind : g.stop ≤ i := by
      have := hnone.1
      omega
    rcases List.mem_cons.1 hk with rfl | hk
    · omega
    · exact h.blank_between k hk i hbehind his hnone.2

end CoveringFrom

/-! ## Running the test -/

section
variable {σ : Type} (test : String → StateT σ (Except Fault) Bool)

/-- The test refused the lines, and this is how it came into its present state. -/
def Refused (held : List String) (next : Option String) (s : σ) : Prop :=
  ∃ before, (test (triedText held next)).run before = .ok (false, s)

def LeftOver (lines : List String) (start : Nat) (s : σ) : Prop :=
  ∃ k, start ≤ k ∧ (∀ i, start ≤ i → i < k → lines[i]? = some "") ∧
    ((∀ l ∈ lines.drop k, l = "") ∨ Refused test (lines.drop k) none s)

variable {test}

theorem LeftOver.skip {lines : List String} {start : Nat} {s : σ} (hblank : lines[start]? = some "")
    (h : LeftOver test lines (start + 1) s) : LeftOver test lines start s := by
  obtain ⟨k, hle, hbetween, hrest⟩ := h
  refine ⟨k, Nat.le_of_succ_le hle, fun i hi hlt => ?_, hrest⟩
  rcases Nat.lt_or_eq_of_le hi with hmore | rfl
  · exact hbetween i hmore hlt
  · exact hblank

theorem groupsFrom_blank {first : Nat} {held rest : List String} {l : String} (h : trialText (held ++ [l]) = "") :
    groupsFrom test first held (l :: rest) = groupsFrom test (first + 1) ((held ++ [l]).drop 1) rest := by
  rw [groupsFrom, if_pos (by simpa using h)]

theorem run_groupsFrom_complete {first : Nat} {held rest : List String} {l : String} {s s₁ s₂ : σ} {gs : List LineGroup}
    (h : trialText (held ++ [l]) ≠ "") (hyes : (test (triedText (held ++ [l]) rest.head?)).run s = .ok (true, s₁))
    (hrest : (groupsFrom test (first + (held ++ [l]).length) [] rest).run s₁ = .ok (gs, s₂)) :
    (groupsFrom test first held (l :: rest)).run s = .ok (⟨first, held ++ [l]⟩ :: gs, s₂) := by
  rw [groupsFrom, if_neg (by simpa using h), StateT.run_bind, hyes]
  change (groupsFrom test (first + (held ++ [l]).length) [] rest >>= fun gs => pure (⟨first, held ++ [l]⟩ :: gs)).run s₁ = _
  rw [StateT.run_bind, hrest]
  rfl

theorem run_groupsFrom_open {first : Nat} {held rest : List String} {l : String} {s s₁ : σ}
    (h : trialText (held ++ [l]) ≠ "") (hno : (test (triedText (held ++ [l]) rest.head?)).run s = .ok (false, s₁)) :
    (groupsFrom test first held (l :: rest)).run s = (groupsFrom test first (held ++ [l]) rest).run s₁ := by
  rw [groupsFrom, if_neg (by simpa using h), StateT.run_bind, hno]
  rfl

def endOf (start : Nat) (gs : List LineGroup) : Nat := (gs.getLast?.map LineGroup.stop).getD start

theorem endOf_cons (start : Nat) (g : LineGroup) (gs : List LineGroup) : endOf start (g :: gs) = endOf g.stop gs := by
  rw [endOf, endOf, List.getLast?_cons]
  cases gs.getLast? <;> rfl

theorem leftOver_endOf_skip {lines : List String} {start : Nat} {gs : List LineGroup} {s : σ}
    (hblank : lines[start]? = some "") (h : LeftOver test lines (endOf (start + 1) gs) s) :
    LeftOver test lines (endOf start gs) s := by
  cases gs with
  | nil => exact LeftOver.skip hblank h
  | cons g gs => rwa [endOf_cons] at h ⊢

theorem run_groupsFrom_covers (htest : ∀ text s, ∃ answer, (test text).run s = .ok answer) {code : String}
    (first : Nat) (past held rest : List String) (s : σ) (hlines : strippedLines code = past ++ held ++ rest)
    (hpast : past.length = first) (hheld : (∀ l ∈ held, l = "") ∨ Refused test held rest.head? s) :
    ∃ gs s', (groupsFrom test first held rest).run s = .ok (gs, s') ∧ CoveringFrom (strippedLines code) first gs ∧
      LeftOver test (strippedLines code) (endOf first gs) s' := by
  induction rest generalizing first past held s with
  | nil =>
    have hdrop : (strippedLines code).drop first = held := by
      rw [hlines, List.append_nil, ← hpast, List.drop_left]
    refine ⟨[], s, rfl, .nil, first, Nat.le_refl first, fun i hi hlt => absurd hlt (Nat.not_lt.2 hi), ?_⟩
    rwa [hdrop]
  | cons l rest ih =>
    by_cases hblank : trialText (held ++ [l]) = ""
    · -- the first of the blank lines is left behind
      have hempty : ∀ x ∈ held ++ [l], x = "" := fun x hx => eq_empty_of_trialText hblank hx (by
        rw [hlines]
        simp only [List.mem_append, List.mem_cons, List.not_mem_nil, or_false] at hx ⊢
        rcases hx with hx | hx
        · exact Or.inl (Or.inr hx)
        · exact Or.inr (Or.inl hx))
      obtain ⟨x, more, hmore⟩ : ∃ x more, held ++ [l] = x :: more := List.exists_cons_of_ne_nil (by simp)
      rw [hmore, List.forall_mem_cons] at hempty
      have hsplit : strippedLines code = (past ++ [x]) ++ more ++ rest := by
        rw [hlines, List.append_assoc past [x], List.singleton_append, ← hmore]
        simp
      have hfirst : (strippedLines code)[first]? = some "" := by
        rw [hsplit, List.append_assoc, List.append_assoc, List.getElem?_append_right (Nat.le_of_eq hpast), hpast]
        simp [hempty.1]
      obtain ⟨gs, s', hrun, hcover, hleft⟩ := ih (first + 1) (past ++ [x]) more s hsplit (by simp [hpast])
        (Or.inl hempty.2)
      refine ⟨gs, s', ?_, hcover.skip hfirst, leftOver_endOf_skip hfirst hleft⟩
      rw [groupsFrom_blank hblank, hmore]
      exact hrun
    · have hsplit : strippedLines code = past ++ (held ++ [l]) ++ rest := by
        rw [hlines]
        simp
      obtain ⟨⟨answer, s₁⟩, hanswer⟩ := htest (triedText (held ++ [l]) rest.head?) s
      cases answer with
      | true =>
        have hin : (⟨first, held ++ [l]⟩ : LineGroup).InPlace (strippedLines code) :=
          LineGroup.inPlace_of_append hsplit hpast (by simp)
        obtain ⟨gs, s', hrun, hcover, hleft⟩ := ih (first + (held ++ [l]).length) (past ++ (held ++ [l])) [] s₁
          (by rw [hsplit, List.append_nil]) (by rw [List.length_append, hpast]) (Or.inl (by simp))
        refine ⟨_, s', run_groupsFrom_complete hblank hanswer hrun, hcover.cons hin rfl, ?_⟩
        rw [endOf_cons]
        exact hleft
      | false =>
        obtain ⟨gs, s', hrun, hcover, hleft⟩ := ih first past (held ++ [l]) s₁ hsplit hpast (Or.inr ⟨s, hanswer⟩)
        exact ⟨gs, s', (run_groupsFrom_open hblank hanswer).trans hrun, hcover, hleft⟩

/-- The groups of a text, for a test that always answers and may answer the same text differently each time: they stand
in place and in order, only blank lines lie between them, and what is behind the last one is blank or was refused as a
whole at the end. -/
theorem lineGroups_cover (htest : ∀ text s, ∃ answer, (test text).run s = .ok answer) (code : String) (s : σ) :
    ∃ gs s', (lineGroups test code).run s = .ok (gs, s') ∧ (∀ g ∈ gs, g.InPlace (strippedLines code)) ∧
      gs.Pairwise (fun g h => g.stop ≤ h.first) ∧
      (∀ g ∈ gs, ∀ i < g.stop, (∀ h ∈ gs, ¬ (h.first ≤ i ∧ i < h.stop)) → (strippedLines code)[i]? = some "") ∧
      LeftOver test (strippedLines code) (endOf 0 gs) s' := by
  obtain ⟨gs, s', hrun, hcover, hleft⟩ := run_groupsFrom_covers htest 0 [] [] (strippedLines code) s
    (List.nil_append _).symm rfl (Or.inl (by simp))
  exact ⟨gs, s', hrun, hcover.inPlace, hcover.increasing, fun g hg i => hcover.blank_between g hg i (Nat.zero_le i), hleft⟩

end

/-- A test that gives answers in turn, and refuses when there are none left. -/
def inTurn (_ : String) : StateT (List Bool) (Except Fault) Bool := fun answers =>
  .ok (answers.headD false, answers.tail)

/-- Two lines make a group, two blank ones are left out, the next line is a group of its own, and the last one is
refused. -/
theorem lineGroups_cover_four :
    (∀ text s, ∃ answer, (inTurn text).run s = .ok answer) ∧
      ∃ gs s', (lineGroups inTurn "a(1,\n  2)\n\n \nb\nc(").run [false, true, true] = .ok (gs, s') ∧
        gs.map (fun g => (g.first, g.padded)) = [(0, ["a(1,", "  2)"]), (4, ["", "", "", "", "b"])] ∧
        (∀ g ∈ gs, g.InPlace (strippedLines "a(1,\n  2)\n\n \nb\nc(")) ∧
        LeftOver inTurn (strippedLines "a(1,\n  2)\n\n \nb\nc(") 5 s' := by
  have htest : ∀ text s, ∃ answer, (inTurn text).run s = .ok answer := fun text s => ⟨_, rfl⟩
  obtain ⟨gs, s', hrun, hin, -, -, hleft⟩ := lineGroups_cover htest "a(1,\n  2)\n\n \nb\nc(" [false, true, true]
  have hgroups : (lineGroups inTurn "a(1,\n  2)\n\n \nb\nc(").run [false, true, true] =
      .ok ([⟨0, ["a(1,", "  2)"]⟩, ⟨4, ["b"]⟩], []) := by rfl
  obtain ⟨rfl, rfl⟩ := Prod.mk.inj (Except.ok.inj (hrun.symm.trans hgroups))
  exact ⟨htest, _, _, hrun, rfl, hin, hleft⟩

end Program

end PlotAdvisor
