import PlotAdvisor.Wording.Lemmas

/-! Phrases are taken greedily. A run of words is told by its place and its size; it is known if its words, joined, are.
From left to right, each place that no run covers yet is the start of the longest known run there, or of none.

* `Greedy` - runs taken from a place on: known, disjoint, each the longest at its place, and no known run starts at a
  place that none of them covers.
* `Greedy.unique` - there is one such sequence.
-/
set_option autoImplicit false

namespace PlotAdvisor.Wording

/-- A run of words: the place of the first one, and how many there are. -/
structure Run where
  start : Nat
  size : Nat

namespace Run

def stop (r : Run) : Nat := r.start + r.size

def phrase (words : List String) (r : Run) : String := Text.join "_" ((words.drop r.start).take r.size)

end Run

section

variable (known : String → Bool) (limit : Int) (words : List String)

structure IsKnown (r : Run) : Prop where
  pos : 0 < r.size
  size_le : r.size ≤ limit
  stop_le : r.stop ≤ words.length
  phrase_known : known (r.phrase words) = true

structure Greedy (place : Nat) (runs : List Run) : Prop where
  taken : ∀ r ∈ runs, place ≤ r.start ∧ IsKnown known limit words r
  disjoint : runs.Pairwise fun r s => r.stop ≤ s.start
  longest : ∀ r ∈ runs, ∀ q, IsKnown known limit words q → q.start = r.start → q.size ≤ r.size
  covered : ∀ q, IsKnown known limit words q → place ≤ q.start → ∃ r ∈ runs, r.start ≤ q.start ∧ q.start < r.stop

end

variable {known : String → Bool} {limit : Int} {words : List String}

/-! ## One sequence -/

namespace Greedy

variable {place : Nat} {r : Run} {runs : List Run}

theorem start_le (h : Greedy known limit words place (r :: runs)) {q : Run} (hq : IsKnown known limit words q)
    (hplace : place ≤ q.start) : r.start ≤ q.start := by
  obtain ⟨s, hs, hle, -⟩ := h.covered q hq hplace
  rcases List.mem_cons.1 hs with rfl | hs
  · exact hle
  · have hbehind := (List.pairwise_cons.1 h.disjoint).1 s hs
    have hstop : r.stop = r.start + r.size := rfl
    omega

theorem tail (h : Greedy known limit words place (r :: runs)) : Greedy known limit words r.stop runs := by
  have hdisjoint := List.pairwise_cons.1 h.disjoint
  refine ⟨fun s hs => ?_, hdisjoint.2, fun s hs => h.longest s (List.mem_cons_of_mem r hs), fun q hq hplace => ?_⟩
  · exact ⟨hdisjoint.1 s hs, (h.taken s (List.mem_cons_of_mem r hs)).2⟩
  · have hstart := (h.taken r List.mem_cons_self).1
    have hstop : r.stop = r.start + r.size := rfl
    obtain ⟨s, hs, hle, hlt⟩ := h.covered q hq (by omega)
    rcases List.mem_cons.1 hs with rfl | hs
    · omega
    · exact ⟨s, hs, hle, hlt⟩

theorem unique {others : List Run} (h : Greedy known limit words place runs)
    (hothers : Greedy known limit words place others) : runs = others := by
  induction runs generalizing place others with
  | nil =>
    cases others with
    | nil => rfl
    | cons s others =>
      obtain ⟨hplace, hs⟩ := hothers.taken s List.mem_cons_self
      obtain ⟨q, hq, -⟩ := h.covered s hs hplace
      exact absurd hq List.not_mem_nil
  | cons r runs ih =>
    obtain ⟨hr, hknown⟩ := h.taken r List.mem_cons_self
    cases others with
    | nil =>
      obtain ⟨q, hq, -⟩ := hothers.covered r hknown hr
      exact absurd hq List.not_mem_nil
    | cons s others =>
      obtain ⟨hs, hknown'⟩ := hothers.taken s List.mem_cons_self
      have hstart : r.start = s.start := Nat.le_antisymm (h.start_le hknown' hs) (hothers.start_le hknown hr)
      have hsize : r.size = s.size := by
        have hle := hothers.longest s List.mem_cons_self r hknown hstart
        have hge := h.longest r List.mem_cons_self s hknown' hstart.symm
        omega
      obtain rfl : r = s := by
        cases r
        cases s
        simp_all
      rw [ih h.tail hothers.tail]

/-! ## What one place adds -/

theorem nil (h : words.length ≤ place) : Greedy known limit words place [] := by
  refine ⟨nofun, List.Pairwise.nil, nofun, fun q hq hplace => ?_⟩
  have hpos := hq.pos
  have hle := hq.stop_le
  have hstop : q.stop = q.start + q.size := rfl
  omega

theorem cons (hr : IsKnown known limit words r)
    (hlongest : ∀ q, IsKnown known limit words q → q.start = r.start → q.size ≤ r.size)
    (h : Greedy known limit words r.stop runs) : Greedy known limit words r.start (r :: runs) := by
  have hstop : r.stop = r.start + r.size := rfl
  refine ⟨fun s hs => ?_, List.pairwise_cons.2 ⟨fun s hs => (h.taken s hs).1, h.disjoint⟩, fun s hs => ?_,
    fun q hq hplace => ?_⟩
  · rcases List.mem_cons.1 hs with rfl | hs
    · exact ⟨Nat.le_refl _, hr⟩
    · have hbehind := (h.taken s hs).1
      exact ⟨by omega, (h.taken s hs).2⟩
  · rcases List.mem_cons.1 hs with rfl | hs
    · exact hlongest
    · exact h.longest s hs
  · by_cases hq' : q.start < r.stop
    · exact ⟨r, List.mem_cons_self, hplace, hq'⟩
    · obtain ⟨s, hs, hle, hlt⟩ := h.covered q hq (by omega)
      exact ⟨s, List.mem_cons_of_mem r hs, hle, hlt⟩

theorem skip (hnone : ∀ q, IsKnown known limit words q → q.start ≠ place)
    (h : Greedy known limit words (place + 1) runs) : Greedy known limit words place runs := by
  refine ⟨fun s hs => ?_, h.disjoint, h.longest, fun q hq hplace => ?_⟩
  · have hbehind := (h.taken s hs).1
    exact ⟨by omega, (h.taken s hs).2⟩
  · have hne := hnone q hq
    exact h.covered q hq (by omega)

end Greedy

/-! ## The phrases of a text -/

theorem longestPhrase_some {ws : List String} {n : Nat} {p : String} {k : Nat}
    (h : longestPhrase known ws n = some (p, k)) :
    0 < k ∧ k ≤ n ∧ p = Text.join "_" (ws.take k) ∧ known p = true ∧
      ∀ j, k < j → j ≤ n → known (Text.join "_" (ws.take j)) = false := by
  induction n with
  | zero => exact nomatch h
  | succ n ih =>
    rw [longestPhrase] at h
    split at h
    · next hknown =>
      obtain ⟨rfl, rfl⟩ := Prod.mk.inj (Option.some.inj h)
      exact ⟨Nat.succ_pos n, Nat.le_refl _, rfl, hknown, fun j hj hle => absurd hj (by omega)⟩
    · next hknown =>
      obtain ⟨hpos, hle, hp, hk, hlonger⟩ := ih h
      refine ⟨hpos, by omega, hp, hk, fun j hj hjn => ?_⟩
      rcases Nat.lt_or_ge n j with hn | hn
      · obtain rfl : j = n + 1 := by omega
        simpa using hknown
      · exact hlonger j hj hn

theorem longestPhrase_none {ws : List String} {n : Nat} (h : longestPhrase known ws n = none) :
    ∀ j, 0 < j → j ≤ n → known (Text.join "_" (ws.take j)) = false := by
  induction n with
  | zero => intro j hj hle; omega
  | succ n ih =>
    rw [longestPhrase] at h
    split at h
    · exact nomatch h
    · next hknown =>
      intro j hj hjn
      rcases Nat.lt_or_ge n j with hn | hn
      · obtain rfl : j = n + 1 := by omega
        simpa using hknown
      · exact ih h j hj hn

theorem phrasesFrom_skip (most skip : Nat) (ws : List String) :
    phrasesFrom known most skip ws = phrasesFrom known most 0 (ws.drop skip) := by
  induction ws generalizing skip with
  | nil => cases skip <;> simp [phrasesFrom]
  | cons w ws ih =>
    cases skip with
    | zero => rfl
    | succ skip => rw [phrasesFrom, ih, List.drop_succ_cons]

theorem phrasesFrom_greedy (known : String → Bool) (limit : Int) (words : List String) (place : Nat) :
    ∃ runs, Greedy known limit words place runs ∧
      phrasesFrom known limit.toNat 0 (words.drop place) = runs.map (Run.phrase words) := by
  -- by what is left of the text behind the place
  induction hleft : words.length - place using Nat.strongRecOn generalizing place with
  | ind left ih =>
    cases hdrop : words.drop place with
    | nil => exact ⟨[], Greedy.nil (List.drop_eq_nil_iff.1 hdrop), by simp [phrasesFrom]⟩
    | cons w ws =>
      have hlength : (w :: ws).length = words.length - place := by rw [← hdrop, List.length_drop]
      have hpos : 0 < words.length - place := by rw [← hlength]; exact Nat.succ_pos _
      have hws : ws = words.drop (place + 1) := by rw [← List.drop_drop, hdrop, List.drop_one, List.tail_cons]
      -- known runs at the place are the beginnings that are tried
      have htried {q : Run} (hq : IsKnown known limit words q) (hstart : q.start = place) :
          q.size ≤ min limit.toNat (w :: ws).length ∧ known (Text.join "_" ((w :: ws).take q.size)) = true := by
        obtain ⟨-, hsize, hstop, hknown⟩ := hq
        rw [Run.stop, hstart] at hstop
        rw [Run.phrase, hstart, hdrop] at hknown
        exact ⟨by omega, hknown⟩
      rw [phrasesFrom]
      cases hlongest : longestPhrase known (w :: ws) (min limit.toNat (w :: ws).length) with
      | none =>
        obtain ⟨runs, hruns, heq⟩ := ih (words.length - (place + 1)) (by omega) (place + 1) rfl
        refine ⟨runs, hruns.skip fun q hq hstart => ?_, by rw [← heq, hws]⟩
        obtain ⟨hle, hknown⟩ := htried hq hstart
        rw [longestPhrase_none hlongest q.size hq.pos hle] at hknown
        exact nomatch hknown
      | some found =>
        obtain ⟨p, n⟩ := found
        obtain ⟨hn, hle, hp, hknown, hlonger⟩ := longestPhrase_some hlongest
        obtain ⟨runs, hruns, heq⟩ := ih (words.length - (place + n)) (by omega) (place + n) rfl
        have hphrase : Run.phrase words ⟨place, n⟩ = p := by rw [Run.phrase, hdrop, hp]
        have hrun : IsKnown known limit words ⟨place, n⟩ := by
          have hlimit : (n : Int) ≤ limit := by omega
          have hstop : place + n ≤ words.length := by omega
          exact ⟨hn, hlimit, hstop, by rw [hphrase]; exact hknown⟩
        refine ⟨⟨place, n⟩ :: runs, Greedy.cons hrun (fun q hq hstart => ?_) hruns, ?_⟩
        · obtain ⟨hq', hknown'⟩ := htried hq hstart
          refine Nat.le_of_not_lt fun hlt => ?_
          rw [hlonger q.size hlt hq'] at hknown'
          exact nomatch hknown'
        · dsimp only
          rw [phrasesFrom_skip, hws, List.drop_drop, List.map_cons, hphrase, ← heq]
          congr 3
          omega

theorem exists_greedy (known : String → Bool) (limit : Int) (words : List String) :
    ∃ runs, Greedy known limit words 0 runs := by
  obtain ⟨runs, hruns, -⟩ := phrasesFrom_greedy known limit words 0
  exact ⟨runs, hruns⟩

theorem Greedy.phrases_eq {text : String} {runs : List Run} (h : Greedy known limit (Text.words text) 0 runs) :
    phrases known .empty [] limit text = runs.map (Run.phrase (Text.words text)) := by
  obtain ⟨others, hothers, heq⟩ := phrasesFrom_greedy known limit (Text.words text) 0
  rw [h.unique hothers, ← heq, phrases]
  simp [Table.getD, Table.get?, Table.empty]

/-- The phrases of a text are those of its greedy runs, of which there is exactly one sequence. -/
theorem phrases_greedy (known : String → Bool) (limit : Int) (text : String) :
    ∃ runs, (∀ others, Greedy known limit (Text.words text) 0 others ↔ others = runs) ∧
      phrases known .empty [] limit text = runs.map (Run.phrase (Text.words text)) := by
  obtain ⟨runs, hruns⟩ := exists_greedy known limit (Text.words text)
  refine ⟨runs, fun others => ⟨fun h => h.unique hruns, fun h => ?_⟩, hruns.phrases_eq⟩
  rw [h]
  exact hruns

example : phrases ["a_b", "a_b_c", "d", "f_h", "h"].contains .empty [] 3 "a b c d e f h" = ["a_b_c", "d", "f_h"] := by
  rfl

end PlotAdvisor.Wording
