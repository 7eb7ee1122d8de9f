import Mathlib.Data.List.TakeWhile
import PlotAdvisor.Proofs.Numbering
import PlotAdvisor.Proofs.Shapes
import PlotAdvisor.Proofs.Table

/-! What draws can give, whatever is drawn. A drawn word of an utterance has a row: the words of a vocabulary differ,
except that the word for none may be there twice, and then the one without a row is never kept. A wrong entry that is
drawn belongs to the production and is not the right one, as a table of shares ends with the whole domain, which no
draw reaches. There may be too few that can be drawn, and then the draws never end. -/
set_option autoImplicit false

namespace PlotAdvisor.Models

/-! ## Places -/

theorem drawnPlace_lt {table : List Int} {whole n : Nat} (h : table.getLast? = some (whole : Int)) (hn : n < whole) :
    drawnPlace table n < table.length := by
  rw [drawnPlace, searchSorted]
  refine Nat.lt_of_le_of_ne (List.takeWhile_prefix _).length_le fun hlen => ?_
  have hall := List.takeWhile_eq_self_iff.1 ((List.takeWhile_prefix _).eq_of_length hlen)
  have hlast := hall (whole : Int) (List.mem_of_getLast? h)
  simp only [decide_eq_true_eq] at hlast
  omega

section Drawing

variable {σ : Type} [Draws σ]

/-- The places that the first numbers of a source draw. -/
def drawnPlaces (table : List Int) : Nat → σ → List Nat
  | 0, _ => []
  | count + 1, g =>
    let (n, g) := Draws.below g (table.getLast?.getD 1).toNat
    drawnPlace table n :: drawnPlaces table count g

theorem exists_of_mem_drawnPlaces {table : List Int} {whole : Nat} (h : table.getLast? = some (whole : Int))
    (hpos : 0 < whole) {count j : Nat} {g : σ} (hj : j ∈ drawnPlaces table count g) :
    ∃ n < whole, drawnPlace table n = j := by
  have hbound : (table.getLast?.getD 1).toNat = whole := by simp [h]
  induction count generalizing g with
  | zero => simp [drawnPlaces] at hj
  | succ count ih =>
    rcases List.mem_cons.1 hj with rfl | hj
    · exact ⟨(Draws.next g).1 % whole, Nat.mod_lt _ hpos, by rw [← hbound]; rfl⟩
    · exact ih hj

/-- The first accepted places are found, unless there are too few of them. -/
theorem drawWrong_eq (table : List Int) (accepts : Nat → Bool) (fuel count : Nat) (done : List Nat) (g : σ) :
    ∃ g', drawWrong table accepts fuel count done g =
      if count ≤ ((drawnPlaces table fuel g).filter accepts).length then
        .ok (done.reverse ++ ((drawnPlaces table fuel g).filter accepts).take count, g')
      else .error .unending := by
  induction fuel generalizing count done g with
  | zero => cases count <;> exact ⟨g, by simp [drawWrong, drawnPlaces]⟩
  | succ fuel ih =>
    cases count with
    | zero => exact ⟨g, by simp [drawWrong]⟩
    | succ count =>
      rw [drawWrong, drawnPlaces]
      rcases Draws.below g (table.getLast?.getD 1).toNat with ⟨n, g₁⟩
      dsimp only
      by_cases hw : accepts (drawnPlace table n) = true
      · obtain ⟨g', hrest⟩ := ih count (drawnPlace table n :: done) g₁
        refine ⟨g', ?_⟩
        rw [if_pos hw, hrest, List.filter_cons_of_pos hw]
        simp
      · rw [if_neg hw, List.filter_cons_of_neg hw]
        exact ih (count + 1) done g₁

end Drawing

namespace Productions

open Program Scalar

variable {α : Type} [Scalar α]

/-! ## Words -/

theorem eraseDups_of_nodup {xs : List String} (h : xs.Nodup) : xs.eraseDups = xs := by
  induction xs with
  | nil => rfl
  | cons x xs ih =>
    obtain ⟨hx, hxs⟩ := List.nodup_cons.1 h
    have hfilter : xs.filter (fun y => !y == x) = xs := by
      refine List.filter_eq_self.2 fun y hy => ?_
      simpa using ne_of_mem_of_not_mem hy hx
    rw [List.eraseDups_cons, hfilter, ih hxs]

theorem nodup_keys_foldl_count {t : Table String Nat} (ht : t.keys.Nodup) (ws : List String) :
    (ws.foldl Table.count t).keys.Nodup := by
  induction ws generalizing t with
  | nil => exact ht
  | cons w ws ih => exact ih (Table.nodup_keys_set ht w _)

theorem WordCounts.nodup_add {w : WordCounts} (hw : w.counts.keys.Nodup) (limit : Option Int) (utterance : String) :
    (w.add limit utterance).counts.keys.Nodup := by
  have hcounts := nodup_keys_foldl_count hw (Text.words utterance)
  unfold WordCounts.add
  cases limit with
  | none => exact hcounts
  | some n =>
    dsimp only
    split
    · exact hcounts.sublist (List.filter_sublist.map _)
    · exact hcounts

theorem nodup_foldl_add {w : WordCounts} (hw : w.counts.keys.Nodup) (limit : Option Int) (utterances : List String) :
    (utterances.foldl (WordCounts.add limit) w).counts.keys.Nodup := by
  induction utterances generalizing w with
  | nil => exact hw
  | cons u us ih => exact ih (WordCounts.nodup_add hw limit u)

theorem exists_wordsOfCorpus (rules : WordRules α) (utterances : List String) :
    ∃ ws : List Word, (ws.map Word.text).Nodup ∧
      wordsOfCorpus rules utterances = if rules.nullWord then ws ++ [nullWord] else ws := by
  have hmet : (utterances.foldl (WordCounts.add rules.limit) {}).counts.keys.Nodup :=
    nodup_foldl_add (w := {}) List.nodup_nil rules.limit utterances
  refine ⟨_, ?_, rfl⟩
  generalize (utterances.foldl (WordCounts.add rules.limit) {}).counts = met at hmet
  have hkept (threshold : α) : (((met.entries.filter fun e => decide (rules.leastCount.getD 0 ≤ (e.2 : Int))).map
      fun e => (⟨e.1, e.2, keepOf threshold e.2⟩ : Word)).map Word.text).Nodup := by
    rw [List.map_map]
    exact hmet.sublist (List.filter_sublist.map Prod.fst)
  split
  · exact ((List.mergeSort_perm _ _).map Word.text).nodup_iff.2 (hkept _)
  · exact hkept _

section Vocabulary

variable {v : Vocabulary} {ws : List Word}

theorem length_le_wordCount (hws : (ws.map Word.text).Nodup) {null : Bool}
    (hv : v.words = if null then ws ++ [nullWord] else ws) : ws.length ≤ v.wordCount := by
  rw [Vocabulary.wordCount, hv]
  cases null with
  | false => simp [eraseDups_of_nodup hws]
  | true => simp [List.eraseDups_append, eraseDups_of_nodup hws]

theorem wordCount_pos (hv : v.words ≠ []) : 0 < v.wordCount := by
  obtain ⟨w, ws, hws⟩ := List.exists_cons_of_ne_nil hv
  simp [Vocabulary.wordCount, hws, List.eraseDups_cons]

theorem getElem?_of_wordNumber? {x : String} {i : Nat} {w : Word} (h : v.wordNumber? x = some (i, w)) :
    v.words[i]? = some w := by
  obtain ⟨e, he, hew⟩ := Option.map_eq_some_iff.1 h
  obtain ⟨rfl, rfl⟩ := Prod.mk.inj hew
  have hmem := List.mem_of_find?_eq_some he
  rw [List.mem_reverse] at hmem
  exact List.mk_mem_zipIdx_iff_getElem?.1 hmem

def NeverBelowZero (α : Type) [Scalar α] : Prop :=
  ∀ n : Nat, less (ofInt n / ofInt Generator.period * ofInt keepAlways : α) (ofInt 0) = false

theorem wordsOf_lt {σ : Type} [Draws σ] (hα : NeverBelowZero α) (hws : (ws.map Word.text).Nodup) {null : Bool}
    (hv : v.words = if null then ws ++ [nullWord] else ws) (utterance : String) (g : σ) :
    ∀ n ∈ (v.wordsOf α null utterance g).1, n < v.wordCount := by
  have hle := length_le_wordCount hws hv
  -- a word with a number is one that differs from the others, or the word for none
  have hnumber : ∀ e ∈ (Text.words utterance).filterMap v.wordNumber?, e.1 < v.wordCount ∨ e.2.keep = 0 := by
    intro e he
    obtain ⟨x, -, hx⟩ := List.mem_filterMap.1 he
    have hget := getElem?_of_wordNumber? hx
    rw [hv] at hget
    by_cases hi : e.1 < ws.length
    · exact Or.inl (Nat.lt_of_lt_of_le hi hle)
    · cases null with
      | false => simp [List.getElem?_eq_none (Nat.not_lt.1 hi)] at hget
      | true =>
        rw [if_pos rfl, List.getElem?_append_right (Nat.not_lt.1 hi), List.getElem?_singleton] at hget
        split at hget
        · exact Or.inr (Option.some.inj hget ▸ rfl)
        · exact nomatch hget
  rw [Vocabulary.wordsOf]
  generalize hdrawn : ((Text.words utterance).filterMap v.wordNumber?).foldl _ _ = drawn
  have hkept : ∀ n ∈ drawn.1, n < v.wordCount := by
    rw [← hdrawn]
    refine List.foldlRecOn (motive := fun s : List Nat × σ => ∀ n ∈ s.1, n < v.wordCount) _ _ (by simp) ?_
    rintro ⟨kept, g⟩ hkept ⟨i, w⟩ he n hn
    dsimp only [Draws.unit] at hkept hn
    split at hn
    · next hkeep =>
      rcases List.mem_cons.1 hn with rfl | hn
      · refine (hnumber _ he).resolve_right fun hzero => ?_
        dsimp only at hzero
        rw [hzero, hα] at hkeep
        exact nomatch hkeep
      · exact hkept n hn
    · exact hkept n hn
  obtain ⟨kept, g'⟩ := drawn
  intro n hn
  dsimp only at hn hkept
  split at hn
  · next hnone =>
    obtain rfl := List.mem_singleton.1 hn
    refine wordCount_pos ?_
    simp only [Bool.and_eq_true] at hnone
    simp [hv, hnone.2]
  · exact hkept n (List.mem_reverse.1 hn)

end Vocabulary

/-! ## Wrong entries -/

theorem length_foldl_fst {β γ δ : Type} {step : List β × γ → δ → List β × γ}
    (h : ∀ s x, (step s x).1.length = s.1.length + 1) (xs : List δ) (s : List β × γ) :
    (xs.foldl step s).1.length = s.1.length + xs.length := by
  induction xs generalizing s with
  | nil => rfl
  | cons x xs ih =>
    rw [List.foldl_cons, ih, h, List.length_cons]
    omega

theorem length_runningSums (xs : List α) : (runningSums xs).length = xs.length := by
  rw [runningSums, List.length_reverse, length_foldl_fst fun s x => rfl]
  exact Nat.zero_add _

theorem length_shares (p : Production) : (p.shares α).length = p.children.length := by
  simp [Production.shares, cumulativeShares, length_runningSums]

/-- A table from which wrong entries are drawn ends with the whole domain. -/
def Production.Complete (α : Type) [Scalar α] (p : Production) (negative : Int) : Prop :=
  p.isDrawn negative = true → (p.shares α).getLast? = some (shareDomain : Int)

theorem exists_labels {negative : Int} {count : Nat} (hone : 1 ≤ count)
    (hcount : (count : Int) ≤ negative + 1 + smallVocabulary) :
    ∃ labels : List α, labelsFor negative = .ok labels ∧ (labels.take count).length = count := by
  refine ⟨one :: List.replicate ((negative + 1 + smallVocabulary).toNat - 1) zero, ?_, ?_⟩
  · rw [labelsFor, if_neg (by omega), if_neg (by omega)]
  · rw [List.length_take, List.length_cons, List.length_replicate]
    omega

/-- The wrong entries of a lesson: all in the block of the production, without the right one, as many as are asked for
where they are drawn and else all others, and with as many labels. -/
structure Contrast (α : Type) [Scalar α] (p : Production) (negative : Int) (right : Nat) (wrong : List Nat) : Prop where
  block : ∀ n ∈ wrong, p.offset ≤ n ∧ n < p.offset + p.children.length
  apart : right ∉ wrong
  count : wrong.length = if p.isDrawn negative then negative.toNat else p.children.length - 1
  labels : wrong ≠ [] → ∃ labels : List α, labelsFor negative = .ok labels ∧
    (labels.take (right :: wrong).length).length = (right :: wrong).length

variable {p : Production} {negative : Int} {right : Nat}

theorem Contrast.of_count {wrong : List Nat} (hr : p.Holds right) (block : ∀ n ∈ wrong, p.Holds n)
    (apart : right ∉ wrong)
    (count : wrong.length = if p.isDrawn negative then negative.toNat else p.children.length - 1) :
    Contrast α p negative right wrong := by
  refine ⟨block, apart, count, fun hne => exists_labels (by simp) ?_⟩
  have hpos := List.length_pos_of_ne_nil hne
  have := hr.1
  have := hr.2
  rw [List.length_cons, smallVocabulary]
  by_cases hdrawn : p.isDrawn negative = true
  · rw [if_pos hdrawn] at count
    omega
  · rw [if_neg hdrawn] at count
    rw [Production.isDrawn, smallVocabulary, decide_eq_true_eq] at hdrawn
    omega

theorem length_others (hr : p.Holds right) : (p.entries.filter (· ≠ right)).length = p.children.length - 1 := by
  have hnodup : p.entries.Nodup := List.nodup_range.map fun a b h => Nat.add_right_cancel h
  have hmem : right ∈ p.entries := by
    have := hr.1
    have := hr.2
    exact List.mem_map.2 ⟨right - p.offset, List.mem_range.2 (by omega), by omega⟩
  have hothers : p.entries.filter (· ≠ right) = p.entries.erase right := by
    rw [hnodup.erase_eq_filter]
    exact List.filter_congr fun n _ => Bool.eq_iff_iff.2 (by simp)
  rw [hothers, List.length_erase_of_mem hmem, Production.entries, List.length_map, List.length_range]

/-- Wrong entries are found, unless they are drawn and too few of the places that are drawn are others. -/
theorem wrongEntries_cases {σ : Type} [Draws σ] (hp : p.Complete α negative) (hr : p.Holds right) (g : σ) :
    (∃ wrong g', wrongEntries α p negative right g = .ok (wrong, g') ∧ Contrast α p negative right wrong) ∨
      wrongEntries α p negative right g = .error .unending ∧ p.isDrawn negative = true ∧
        (∀ j ∈ drawnPlaces (p.shares α) Generator.period g, j < p.children.length) ∧
        ((drawnPlaces (p.shares α) Generator.period g).filter (· != right - p.offset)).length < negative := by
  have hlow := hr.1
  rw [wrongEntries]
  by_cases hdrawn : p.isDrawn negative = true
  · have hplaces : ∀ j ∈ drawnPlaces (p.shares α) Generator.period g, j < p.children.length := by
      intro j hj
      obtain ⟨n, hn, rfl⟩ := exists_of_mem_drawnPlaces (hp hdrawn) (by decide) hj
      rw [← length_shares (α := α) p]
      exact drawnPlace_lt (hp hdrawn) hn
    obtain ⟨g', hdraws⟩ := drawWrong_eq (p.shares α) (· != right - p.offset) Generator.period negative.toNat [] g
    rw [if_pos hdrawn, hdraws]
    split
    · next hcount =>
      refine Or.inl ⟨_, g', rfl, .of_count hr (fun n hn => ?_) (fun hn => ?_) ?_⟩
      · obtain ⟨j, hj, rfl⟩ := List.mem_map.1 hn
        have hlt := hplaces j (List.mem_of_mem_filter (List.mem_of_mem_take hj))
        exact ⟨by omega, by omega⟩
      · obtain ⟨j, hj, hright⟩ := List.mem_map.1 hn
        have hother := (List.mem_filter.1 (List.mem_of_mem_take hj)).2
        simp only [bne_iff_ne, ne_eq] at hother
        omega
      · rw [if_pos hdrawn, List.length_map, List.reverse_nil, List.nil_append, List.length_take, Nat.min_eq_left hcount]
    · next hcount => exact Or.inr ⟨rfl, hdrawn, hplaces, by omega⟩
  · rw [if_neg hdrawn]
    refine Or.inl ⟨_, g, rfl, .of_count hr (fun n hn => ?_) (fun hn => by simp at hn) ?_⟩
    · obtain ⟨i, hi, rfl⟩ := List.mem_map.1 (List.mem_of_mem_filter hn)
      have hlt := List.mem_range.1 hi
      exact ⟨by omega, by omega⟩
    · rw [if_neg hdrawn, length_others hr]

end Productions

end PlotAdvisor.Models
