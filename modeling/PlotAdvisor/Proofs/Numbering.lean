import PlotAdvisor.Proofs.Sameness
import PlotAdvisor.Proofs.Vocabulary

/-! The numbers of a vocabulary. Each table of symbols holds each symbol that was met once, so that its numbers, from one
on, and its symbols determine each other. Each production holds each thing that was met below its symbol once, and the
productions follow one another without a gap, so that the production entries are numbered from zero on. -/
set_option autoImplicit false

namespace PlotAdvisor

open Program

/-! ## Lists without a key twice -/

section Keys

variable {β κ : Type}

theorem findIdx?_eq_some_iff_of_nodup {k : β → κ} {p : β → Bool} {q : κ} (hp : ∀ x, p x = true ↔ k x = q)
    {xs : List β} (hxs : (xs.map k).Nodup) {i : Nat} :
    xs.findIdx? p = some i ↔ ∃ x, xs[i]? = some x ∧ k x = q := by
  rw [List.findIdx?_eq_some_iff_getElem]
  constructor
  · rintro ⟨hi, hx, -⟩
    exact ⟨xs[i], List.getElem?_eq_getElem hi, (hp _).1 hx⟩
  · rintro ⟨x, hx, hk⟩
    obtain ⟨hi, rfl⟩ := List.getElem?_eq_some_iff.1 hx
    refine ⟨hi, (hp _).2 hk, fun j hj hpj => ?_⟩
    have hji : (xs.map k)[j]? = (xs.map k)[i]? := by
      simp [hi, Nat.lt_trans hj hi, (hp _).1 hpj, hk]
    have heq := (List.getElem?_inj (by simp; omega) hxs).1 hji
    omega

theorem find?_eq_some_iff_of_nodup {k : β → κ} {p : β → Bool} {q : κ} (hp : ∀ x, p x = true ↔ k x = q)
    {xs : List β} (hxs : (xs.map k).Nodup) {x : β} : xs.find? p = some x ↔ x ∈ xs ∧ k x = q := by
  constructor
  · intro h
    exact ⟨List.mem_of_find?_eq_some h, (hp x).1 (List.find?_some h)⟩
  · rintro ⟨hx, hk⟩
    obtain ⟨y, hy⟩ : ∃ y, xs.find? p = some y :=
      Option.isSome_iff_exists.1 (List.find?_isSome.2 ⟨x, hx, (hp x).2 hk⟩)
    have hyx : k y = k x := ((hp y).1 (List.find?_some hy)).trans hk.symm
    rw [hy, List.inj_on_of_nodup_map hxs (List.mem_of_find?_eq_some hy) hx hyx]

open Classical in
/-- Keys with one more, which comes last unless it is there already. -/
noncomputable def grown (ks : List κ) (k : κ) : List κ := if k ∈ ks then ks else ks ++ [k]

theorem nodup_grown {ks : List κ} (h : ks.Nodup) (k : κ) : (grown ks k).Nodup := by
  unfold grown
  split
  · exact h
  · next hk => exact List.nodup_append.2 ⟨h, by simp, by simpa using fun a ha => ne_of_mem_of_not_mem ha hk⟩

theorem mem_grown {ks : List κ} {k q : κ} : q ∈ grown ks k ↔ q ∈ ks ∨ q = k := by
  unfold grown
  split
  · next hk =>
    constructor
    · exact Or.inl
    · rintro (h | rfl)
      · exact h
      · exact hk
  · simp

open Classical in
theorem grown_cons (j : κ) (ks : List κ) (k : κ) :
    grown (j :: ks) k = if j = k then j :: ks else j :: grown ks k := by
  unfold grown
  by_cases hj : j = k
  · simp [hj]
  · have hk : k ≠ j := fun h => hj h.symm
    by_cases hmem : k ∈ ks <;> simp [hj, hk, hmem]

theorem nodup_foldl_grown {ks : List κ} (h : ks.Nodup) (more : List κ) : (more.foldl grown ks).Nodup := by
  induction more generalizing ks with
  | nil => exact h
  | cons k more ih => exact ih (nodup_grown h k)

theorem mem_foldl_grown {ks more : List κ} {q : κ} : q ∈ more.foldl grown ks ↔ q ∈ ks ∨ q ∈ more := by
  induction more generalizing ks with
  | nil => simp
  | cons k more ih => simp [ih, mem_grown, or_assoc]

end Keys

theorem Program.Symbol.map_key_distinct (ss : List Symbol) :
    (Symbol.distinct ss).map Symbol.key = (ss.map Symbol.key).foldl grown [] := by
  suffices h : ∀ done : List Symbol,
      (ss.foldl (fun done s => if done.any fun d => d.same s then done else done ++ [s]) done).map Symbol.key =
        (ss.map Symbol.key).foldl grown (done.map Symbol.key) from h []
  induction ss with
  | nil => exact fun done => rfl
  | cons s ss ih =>
    intro done
    have hany : (done.any fun d => d.same s) = true ↔ s.key ∈ done.map Symbol.key := by
      simp [Symbol.same_iff]
    rw [List.foldl_cons, ih, List.map_cons, List.foldl_cons]
    congr 1
    simp only [grown, ← hany]
    split <;> simp

namespace Models.Productions

/-! ## Tables of symbols -/

def byNumber (ss : List Symbol) : List (Option Symbol) := none :: ss.map some

structure Tabled (met ss : List Symbol) : Prop where
  known : ∀ s, (∃ n, Vocabulary.numberIn? ss s = some n) ↔ ∃ t ∈ met, t.simple.same s = true
  range : ∀ n, (∃ s, Vocabulary.numberIn? ss s = some n) ↔ 1 ≤ n ∧ n < (byNumber ss).length
  inverse : ∀ s n, Vocabulary.numberIn? ss s = some n ↔
    ∃ d, (byNumber ss)[n]? = some (some d) ∧ d.same s = true

theorem numberIn?_eq_some_iff {ss : List Symbol} (h : (ss.map Symbol.key).Nodup) {s : Symbol} {n : Nat} :
    Vocabulary.numberIn? ss s = some n ↔ ∃ d, (byNumber ss)[n]? = some (some d) ∧ d.same s = true := by
  have hfind (i : Nat) : ss.findIdx? (fun t => t.same s) = some i ↔ ∃ d, ss[i]? = some d ∧ d.key = s.key :=
    findIdx?_eq_some_iff_of_nodup (fun t => Symbol.same_iff) h
  rw [Vocabulary.numberIn?, Option.map_eq_some_iff]
  simp only [hfind, Symbol.same_iff, byNumber]
  cases n with
  | zero => simp
  | succ i => simp

theorem nodup_sortedSymbols (ss : List Symbol) : ((sortedSymbols ss).map Symbol.key).Nodup := by
  have hperm := (Sorting.sortBy_perm Symbol.less (Symbol.distinct (ss.map Symbol.simple))).map Symbol.key
  refine hperm.nodup_iff.2 ?_
  rw [Symbol.map_key_distinct]
  exact nodup_foldl_grown List.nodup_nil _

theorem mem_sortedSymbols {ss : List Symbol} {k : Symbol ⊕ Literal.Key} :
    k ∈ (sortedSymbols ss).map Symbol.key ↔ ∃ s ∈ ss, s.simple.key = k := by
  have hperm := (Sorting.sortBy_perm Symbol.less (Symbol.distinct (ss.map Symbol.simple))).map Symbol.key
  rw [sortedSymbols, hperm.mem_iff, Symbol.map_key_distinct, mem_foldl_grown]
  simp

theorem tabled_sortedSymbols (ss : List Symbol) : Tabled ss (sortedSymbols ss) := by
  have hnumber := fun s n => numberIn?_eq_some_iff (nodup_sortedSymbols ss) (s := s) (n := n)
  refine ⟨fun s => ?_, fun n => ?_, hnumber⟩
  · have hmem : s.key ∈ (sortedSymbols ss).map Symbol.key ↔ ∃ t ∈ ss, t.simple.key = s.key := mem_sortedSymbols
    simp only [Symbol.same_iff, ← hmem]
    rw [← Option.isSome_iff_exists, Vocabulary.numberIn?, Option.isSome_map, List.findIdx?_isSome, List.any_eq_true]
    simp [Symbol.same_iff]
  · simp only [hnumber, byNumber, List.length_cons, List.length_map]
    constructor
    · rintro ⟨s, d, hd, -⟩
      obtain ⟨hn, -⟩ := List.getElem?_eq_some_iff.1 hd
      cases n with
      | zero => simp at hd
      | succ i => simp at hn; omega
    · rintro ⟨hone, hn⟩
      obtain ⟨i, rfl⟩ : ∃ i, n = i + 1 := ⟨n - 1, by omega⟩
      have hi : i < (sortedSymbols ss).length := by omega
      exact ⟨(sortedSymbols ss)[i], (sortedSymbols ss)[i], by simp [hi], Symbol.same_self _⟩

theorem Tabled.of_perm {met others ss : List Symbol} (h : Tabled met ss) (hperm : met.Perm others) :
    Tabled others ss := by
  refine ⟨fun s => (h.known s).trans ?_, h.range, h.inverse⟩
  exact exists_congr fun t => and_congr_left' hperm.mem_iff

/-! ## Counted sightings -/

section Counting

theorem map_key_countBelow (b : Below) (cs : List (Below × Nat)) :
    (countBelow b cs).map (fun c => c.1.key) = grown (cs.map fun c => c.1.key) b.key := by
  induction cs with
  | nil => simp [countBelow, grown]
  | cons c cs ih =>
    rw [countBelow, List.map_cons, grown_cons, ← ih]
    by_cases h : c.1.same b = true
    · simp [h, Below.same_iff.1 h]
    · simp [h, mt Below.same_iff.2 h]

theorem map_key_countUnder (s : Symbol) (b : Below) (met : List (Symbol × List (Below × Nat))) :
    (countUnder s b met).map (fun e => e.1.key) = grown (met.map fun e => e.1.key) s.key := by
  induction met with
  | nil => simp [countUnder, grown]
  | cons e met ih =>
    rw [countUnder, List.map_cons, grown_cons, ← ih]
    by_cases h : e.1.same s = true
    · simp [h, Symbol.same_iff.1 h]
    · simp [h, mt Symbol.same_iff.2 h]

def Sighted (met : List (Symbol × List (Below × Nat))) (k : Symbol ⊕ Literal.Key)
    (q : (Symbol ⊕ Literal.Key) ⊕ List (Symbol ⊕ Literal.Key)) : Prop :=
  ∃ e ∈ met, e.1.key = k ∧ q ∈ e.2.map fun c => c.1.key

theorem sighted_cons {e : Symbol × List (Below × Nat)} {met : List (Symbol × List (Below × Nat))}
    {k : Symbol ⊕ Literal.Key} {q : (Symbol ⊕ Literal.Key) ⊕ List (Symbol ⊕ Literal.Key)} :
    Sighted (e :: met) k q ↔ (e.1.key = k ∧ q ∈ e.2.map fun c => c.1.key) ∨ Sighted met k q := by
  simp [Sighted]

theorem sighted_countUnder {s : Symbol} {b : Below} {met : List (Symbol × List (Below × Nat))}
    {k : Symbol ⊕ Literal.Key} {q : (Symbol ⊕ Literal.Key) ⊕ List (Symbol ⊕ Literal.Key)} :
    Sighted (countUnder s b met) k q ↔ Sighted met k q ∨ (s.key = k ∧ b.key = q) := by
  induction met with
  | nil => simp [countUnder, Sighted, eq_comm]
  | cons e met ih =>
    rw [countUnder]
    split
    · next hsame =>
      rw [Symbol.same_iff] at hsame
      simp only [sighted_cons, map_key_countBelow, mem_grown, hsame, eq_comm (a := q)]
      tauto
    · simp only [sighted_cons, ih, or_assoc]

/-- The table holds no symbol twice, and below no symbol anything twice. -/
structure Single (met : List (Symbol × List (Below × Nat))) : Prop where
  parents : (met.map fun e => e.1.key).Nodup
  children : ∀ e ∈ met, (e.2.map fun c => c.1.key).Nodup

theorem Single.countUnder {met : List (Symbol × List (Below × Nat))} (h : Single met) (s : Symbol) (b : Below) :
    Single (countUnder s b met) := by
  refine ⟨?_, ?_⟩
  · rw [map_key_countUnder]
    exact nodup_grown h.parents s.key
  · have hc := h.children
    clear h
    induction met with
    | nil =>
      intro e he
      obtain rfl := List.mem_singleton.1 he
      simp
    | cons d met ih =>
      rw [List.forall_mem_cons] at hc
      rw [Productions.countUnder]
      split
      · rw [List.forall_mem_cons]
        refine ⟨?_, hc.2⟩
        rw [map_key_countBelow]
        exact nodup_grown hc.1 b.key
      · rw [List.forall_mem_cons]
        exact ⟨hc.1, ih hc.2⟩

def sightings (ts : List PartialTree) : List (Symbol × List (Below × Nat)) :=
  ts.foldl (fun met t => countUnder t.parent.simple t.children.simple met) []

theorem single_sightings (ts : List PartialTree) : Single (sightings ts) := by
  suffices h : ∀ met, Single met →
      Single (ts.foldl (fun met t => countUnder t.parent.simple t.children.simple met) met) from
    h [] ⟨List.nodup_nil, fun e he => absurd he List.not_mem_nil⟩
  induction ts with
  | nil => exact fun met h => h
  | cons t ts ih => exact fun met h => ih _ (h.countUnder _ _)

theorem sighted_sightings {ts : List PartialTree} {k : Symbol ⊕ Literal.Key}
    {q : (Symbol ⊕ Literal.Key) ⊕ List (Symbol ⊕ Literal.Key)} :
    Sighted (sightings ts) k q ↔ ∃ t ∈ ts, t.parent.simple.key = k ∧ t.children.simple.key = q := by
  suffices h : ∀ met, Sighted (ts.foldl (fun met t => countUnder t.parent.simple t.children.simple met) met) k q ↔
      Sighted met k q ∨ ∃ t ∈ ts, t.parent.simple.key = k ∧ t.children.simple.key = q by
    rw [sightings, h]
    simp [Sighted]
  induction ts with
  | nil => simp
  | cons t ts ih =>
    intro met
    simp [ih, sighted_countUnder, or_assoc]

end Counting

/-! ## Productions one after the other -/

def Production.Holds (p : Production) (n : Nat) : Prop := p.offset ≤ n ∧ n < p.offset + p.children.length

theorem offset_le_of_mem_numbered {offset : Nat} {es : List (Symbol × List (Below × Nat))} {p : Production}
    (h : p ∈ numbered offset es) : offset ≤ p.offset := by
  induction es generalizing offset with
  | nil => simp [numbered] at h
  | cons e es ih =>
    rw [numbered] at h
    rcases List.mem_cons.1 h with rfl | h
    · exact Nat.le_refl _
    · have := ih h
      omega

theorem eq_of_holds {offset n : Nat} {es : List (Symbol × List (Below × Nat))} {p q : Production}
    (hp : p ∈ numbered offset es) (hq : q ∈ numbered offset es) (hpn : p.Holds n) (hqn : q.Holds n) : p = q := by
  induction es generalizing offset with
  | nil => simp [numbered] at hp
  | cons e es ih =>
    rw [numbered] at hp hq
    have hlater : ∀ r ∈ numbered (offset + e.2.length) es, r.Holds n → ¬ n < offset + e.2.length := by
      intro r hr hrn
      have := offset_le_of_mem_numbered hr
      have := hrn.1
      omega
    rcases List.mem_cons.1 hp with rfl | hp
    · rcases List.mem_cons.1 hq with rfl | hq
      · rfl
      · exact absurd hpn.2 (hlater q hq hqn)
    · rcases List.mem_cons.1 hq with rfl | hq
      · exact absurd hqn.2 (hlater p hp hpn)
      · exact ih hp hq

theorem exists_holds_iff {offset n : Nat} {es : List (Symbol × List (Below × Nat))} :
    (∃ p ∈ numbered offset es, p.Holds n) ↔
      offset ≤ n ∧ n < offset + ((numbered offset es).map fun p => p.children.length).foldr (· + ·) 0 := by
  induction es generalizing offset with
  | nil => simp [numbered]
  | cons e es ih =>
    rw [numbered, List.exists_mem_cons_iff, ih]
    simp only [List.map_cons, List.foldr_cons, Production.Holds]
    omega

theorem map_numbered (offset : Nat) (es : List (Symbol × List (Below × Nat))) :
    (numbered offset es).map (fun p => (p.parent, p.children)) = es := by
  induction es generalizing offset with
  | nil => rfl
  | cons e es ih => simp [numbered, ih]

theorem sortedChildren_perm (cs : List (Below × Nat)) : (sortedChildren cs).Perm cs := by
  rw [sortedChildren]
  refine ((Sorting.sortBy_perm _ _).append (Sorting.sortBy_perm _ _)).trans ?_
  exact List.filter_append_perm _ cs

def sortedSightings (ts : List PartialTree) : List (Symbol × List (Below × Nat)) :=
  (Sorting.sortBy (fun (a b : Symbol × List (Below × Nat)) => a.1.less b.1) (sightings ts)).map fun e =>
    (e.1, sortedChildren e.2)

theorem single_sortedSightings (ts : List PartialTree) : Single (sortedSightings ts) := by
  obtain ⟨hparents, hchildren⟩ := single_sightings ts
  refine ⟨?_, ?_⟩
  · rw [sortedSightings, List.map_map]
    exact (((Sorting.sortBy_perm _ (sightings ts)).map _).nodup_iff).2 hparents
  · intro e he
    obtain ⟨d, hd, rfl⟩ := List.mem_map.1 he
    have hsorted := (sortedChildren_perm d.2).map fun c => c.1.key
    exact hsorted.nodup_iff.2 (hchildren d ((Sorting.mem_sortBy _).1 hd))

theorem sighted_sortedSightings {ts : List PartialTree} {k : Symbol ⊕ Literal.Key}
    {q : (Symbol ⊕ Literal.Key) ⊕ List (Symbol ⊕ Literal.Key)} :
    Sighted (sortedSightings ts) k q ↔ ∃ t ∈ ts, t.parent.simple.key = k ∧ t.children.simple.key = q := by
  rw [← sighted_sightings]
  constructor
  · rintro ⟨e, he, hk, hq⟩
    obtain ⟨d, hd, rfl⟩ := List.mem_map.1 he
    exact ⟨d, (Sorting.mem_sortBy _).1 hd, hk, ((sortedChildren_perm d.2).map _).mem_iff.1 hq⟩
  · rintro ⟨d, hd, hk, hq⟩
    refine ⟨(d.1, sortedChildren d.2), List.mem_map_of_mem ((Sorting.mem_sortBy _).2 hd), hk, ?_⟩
    exact ((sortedChildren_perm d.2).map _).mem_iff.2 hq

/-! ## Entries -/

/-- What stands under a number, among those of the production. -/
def Production.belowAt? (p : Production) (n : Nat) : Option Below :=
  if p.offset ≤ n then p.children[n - p.offset]?.map Prod.fst else none

namespace Vocabulary

def entryNumber? (v : Vocabulary) (s : Symbol) (b : Below) : Option Nat := (v.production? s).bind fun p => p.entry? b

def belowAt? (v : Vocabulary) (s : Symbol) (n : Nat) : Option Below := (v.production? s).bind fun p => p.belowAt? n

end Vocabulary

theorem Production.holds_of_belowAt? {p : Production} {n : Nat} {c : Below} (h : p.belowAt? n = some c) :
    p.Holds n := by
  unfold belowAt? at h
  split at h
  · next hle =>
    obtain ⟨d, hd, -⟩ := Option.map_eq_some_iff.1 h
    obtain ⟨hlt, -⟩ := List.getElem?_eq_some_iff.1 hd
    exact ⟨hle, by omega⟩
  · exact nomatch h

theorem Production.exists_belowAt? {p : Production} {n : Nat} (h : p.Holds n) : ∃ c, p.belowAt? n = some c := by
  have hlt : n - p.offset < p.children.length := by
    have := h.1
    have := h.2
    omega
  exact ⟨p.children[n - p.offset].1, by simp [belowAt?, h.1, hlt]⟩

theorem Production.entry?_eq_some_iff {p : Production} (hp : (p.children.map fun c => c.1.key).Nodup) {b : Below}
    {n : Nat} : p.entry? b = some n ↔ ∃ c, p.belowAt? n = some c ∧ c.key = b.key := by
  have hfind (i : Nat) : p.children.findIdx? (fun c => c.1.same b) = some i ↔
      ∃ c, p.children[i]? = some c ∧ c.1.key = b.key :=
    findIdx?_eq_some_iff_of_nodup (fun c => Below.same_iff) hp
  unfold Production.entry?
  rw [Option.map_eq_some_iff]
  simp only [hfind, belowAt?]
  constructor
  · rintro ⟨i, ⟨c, hc, hk⟩, rfl⟩
    exact ⟨c.1, by simp [hc], hk⟩
  · rintro ⟨c, hc, hk⟩
    split at hc
    · next hle =>
      obtain ⟨d, hd, rfl⟩ := Option.map_eq_some_iff.1 hc
      exact ⟨n - p.offset, ⟨d, hd, hk⟩, by omega⟩
    · exact nomatch hc

section Corpus

variable {α : Type} [Scalar α] {rules : WordRules α} {utterances : List String} {ts : List PartialTree}

theorem productions_ofTrees :
    (Vocabulary.ofTrees rules utterances ts).productions = numbered 0 (sortedSightings ts) := rfl

theorem nodup_children_of_mem {p : Production} (h : p ∈ (Vocabulary.ofTrees rules utterances ts).productions) :
    (p.children.map fun c => c.1.key).Nodup := by
  rw [productions_ofTrees] at h
  exact (single_sortedSightings _).children _ (mem_numbered h)

theorem production?_eq_some_iff {s : Symbol} {p : Production} :
    (Vocabulary.ofTrees rules utterances ts).production? s = some p ↔
      p ∈ (Vocabulary.ofTrees rules utterances ts).productions ∧ p.parent.key = s.key := by
  refine find?_eq_some_iff_of_nodup (fun p => Symbol.same_iff) ?_
  have hparents := (single_sortedSightings ts).parents
  rw [productions_ofTrees]
  rwa [← map_numbered 0 (sortedSightings _), List.map_map] at hparents

theorem entryNumber?_eq_some_iff {s : Symbol} {b : Below} {n : Nat} :
    (Vocabulary.ofTrees rules utterances ts).entryNumber? s b = some n ↔
      ∃ p ∈ (Vocabulary.ofTrees rules utterances ts).productions, p.parent.key = s.key ∧
        ∃ c, p.belowAt? n = some c ∧ c.key = b.key := by
  rw [Vocabulary.entryNumber?, Option.bind_eq_some_iff]
  constructor
  · rintro ⟨p, hp, hn⟩
    obtain ⟨hmem, hk⟩ := production?_eq_some_iff.1 hp
    exact ⟨p, hmem, hk, (Production.entry?_eq_some_iff (nodup_children_of_mem hmem)).1 hn⟩
  · rintro ⟨p, hmem, hk, hn⟩
    refine ⟨p, production?_eq_some_iff.2 ⟨hmem, hk⟩, ?_⟩
    exact (Production.entry?_eq_some_iff (nodup_children_of_mem hmem)).2 hn

theorem exists_entryNumber?_iff {s : Symbol} {b : Below} :
    (∃ n, (Vocabulary.ofTrees rules utterances ts).entryNumber? s b = some n) ↔
      ∃ t ∈ ts, t.parent.simple.same s = true ∧ t.children.simple.same b = true := by
  simp only [Symbol.same_iff, Below.same_iff, ← sighted_sortedSightings, entryNumber?_eq_some_iff]
  constructor
  · rintro ⟨n, p, hp, hk, c, hc, hb⟩
    refine ⟨_, mem_numbered hp, hk, ?_⟩
    unfold Production.belowAt? at hc
    split at hc
    · obtain ⟨d, hd, rfl⟩ := Option.map_eq_some_iff.1 hc
      exact hb ▸ List.mem_map_of_mem (List.mem_of_getElem? hd)
    · exact nomatch hc
  · rintro ⟨e, he, hk, hb⟩
    rw [← map_numbered 0 (sortedSightings ts)] at he
    obtain ⟨p, hp, rfl⟩ := List.mem_map.1 he
    obtain ⟨c, hc, hb⟩ := List.mem_map.1 hb
    obtain ⟨i, hi⟩ := List.getElem?_of_mem hc
    exact ⟨p.offset + i, p, hp, hk, c.1, by simp [Production.belowAt?, hi], hb⟩

theorem exists_holds_productions_iff {n : Nat} :
    (∃ p ∈ (Vocabulary.ofTrees rules utterances ts).productions, p.Holds n) ↔
      n < (Vocabulary.ofTrees rules utterances ts).entryCount := by
  rw [Vocabulary.entryCount, productions_ofTrees, exists_holds_iff]
  omega

/-- The numbers of the production entries. What has one below a symbol is what was met below it in the corpus. The
numbers are those from zero up to the number of entries, no two things that are not the same have one number, and what
stands below the symbol under a number is what has it. The symbols and the values are numbered likewise, from one on. -/
theorem Vocabulary.entries_bijective {σ : Type} [Draws σ] (rules : WordRules α) (m : Memory) (pairs : List Pair)
    (g : σ) :
    let v := (ofPairs rules m pairs g).1
    let ts := corpusTrees m pairs
    (∀ s b, (∃ n, v.entryNumber? s b = some n) ↔
      ∃ t ∈ ts, t.parent.simple.same s = true ∧ t.children.simple.same b = true) ∧
    (∀ n, (∃ s b, v.entryNumber? s b = some n) ↔ n < v.entryCount) ∧
    (∀ s b n, v.entryNumber? s b = some n → ∀ s' b',
      v.entryNumber? s' b' = some n ↔ s.same s' = true ∧ b.same b' = true) ∧
    (∀ s b n, v.entryNumber? s b = some n ↔ ∃ c, v.belowAt? s n = some c ∧ c.same b = true) ∧
    Tabled (ts.map fun t => t.parent) v.inner ∧ Tabled (ts.flatMap fun t => t.terminals) v.terminals := by
  intro v ts
  obtain ⟨drawn, hts, hv⟩ : OfCorpus rules m pairs v := ofCorpus_ofPairs rules m pairs g
  clear_value v
  subst hv
  refine ⟨fun s b => ?_, fun n => ?_, fun s b n h s' b' => ?_, fun s b n => ?_,
    (tabled_sortedSymbols _).of_perm (hts.map _), (tabled_sortedSymbols _).of_perm (hts.flatMap_right _)⟩
  · rw [← exists_congr fun t => and_congr_left' hts.mem_iff]
    exact exists_entryNumber?_iff
  · rw [← exists_holds_productions_iff]
    constructor
    · rintro ⟨s, b, h⟩
      obtain ⟨p, hp, -, c, hc, -⟩ := entryNumber?_eq_some_iff.1 h
      exact ⟨p, hp, Production.holds_of_belowAt? hc⟩
    · rintro ⟨p, hp, hn⟩
      obtain ⟨c, hc⟩ := Production.exists_belowAt? hn
      exact ⟨p.parent, c, entryNumber?_eq_some_iff.2 ⟨p, hp, rfl, c, hc, rfl⟩⟩
  · obtain ⟨p, hp, hk, c, hc, hb⟩ := entryNumber?_eq_some_iff.1 h
    rw [Symbol.same_iff, Below.same_iff, ← hk, ← hb, entryNumber?_eq_some_iff]
    constructor
    · rintro ⟨p', hp', hk', c', hc', hb'⟩
      have hholds := Production.holds_of_belowAt? hc
      have hholds' := Production.holds_of_belowAt? hc'
      obtain rfl := eq_of_holds hp hp' hholds hholds'
      obtain rfl : c = c' := Option.some.inj (hc.symm.trans hc')
      exact ⟨hk', hb'⟩
    · rintro ⟨hk', hb'⟩
      exact ⟨p, hp, hk', c, hc, hb'⟩
  · rw [entryNumber?_eq_some_iff]
    simp only [belowAt?, Option.bind_eq_some_iff, production?_eq_some_iff, Below.same_iff]
    constructor
    · rintro ⟨p, hp, hk, c, hc, hb⟩
      exact ⟨c, ⟨p, ⟨hp, hk⟩, hc⟩, hb⟩
    · rintro ⟨c, ⟨p, ⟨hp, hk⟩, hc⟩, hb⟩
      exact ⟨p, hp, hk, c, hc, hb⟩

end Corpus

end Models.Productions

end PlotAdvisor
