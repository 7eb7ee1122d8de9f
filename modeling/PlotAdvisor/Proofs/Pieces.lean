import Mathlib.Data.List.TakeWhile
import PlotAdvisor.Text.Basic

/-! Texts as pieces between a character. Splitting and joining undo each other, and the first piece is the text up
to the first such character.

* `upTo`, `fromFirst` - a text cut in front of the first of a character.
* `splitOn_append`, `splitOn_eq_cons` - the first piece, and what the others are joined to.
* `splitOn_append_last` - the pieces of two texts, one behind the other.
* `join_splitOn`, `join_append` - pieces put together again.
-/
set_option autoImplicit false

namespace PlotAdvisor.Text

/-! ## Lists of characters -/

namespace Chars

theorem joinWith_eq {α : Type} (sep : List α) (ps : List (List α)) : joinWith sep ps = sep.intercalate ps := by
  induction ps with
  | nil => rfl
  | cons p ps ih =>
    cases ps with
    | nil => simp [joinWith]
    | cons q qs =>
      rw [joinWith, ih, List.intercalate_cons_cons]
      exact nofun

theorem dropStart?_eq_some_iff (start cs rest : List Char) :
    dropStart? start cs = some rest ↔ cs = start ++ rest := by
  induction start generalizing cs with
  | nil => simp [dropStart?]
  | cons s start ih =>
    cases cs with
    | nil => simp [dropStart?]
    | cons c cs =>
      by_cases h : s = c
      · simp [dropStart?, h, ih]
      · have h' : ¬ c = s := fun e => h e.symm
        simp [dropStart?, h, h']

theorem cutAt_append (sep rest : List Char) : cutAt sep (sep ++ rest) = some ([], rest) := by
  cases h : sep ++ rest with
  | nil =>
    obtain ⟨rfl, rfl⟩ := List.append_eq_nil_iff.1 h
    rfl
  | cons c cs =>
    have hdrop : dropStart? sep (c :: cs) = some rest := (dropStart?_eq_some_iff _ _ _).2 h.symm
    rw [cutAt, hdrop]

theorem startsWith_singleton (c d : Char) (cs : List Char) : startsWith [c] (d :: cs) = (d == c) := by
  by_cases h : d = c
  · simp [startsWith, dropStart?, h]
  · have h' : ¬ c = d := fun e => h e.symm
    simp [startsWith, dropStart?, h, h']

theorem splitFrom_singleton (c : Char) (cur cs : List Char) :
    splitFrom [c] 0 cur cs = (cs.splitOn c).modifyHead (cur.reverse ++ ·) := by
  induction cs generalizing cur with
  | nil => simp [splitFrom]
  | cons d cs ih =>
    rw [splitFrom, startsWith_singleton, List.splitOn_cons_eq_if_modifyHead]
    split
    · rw [List.length_singleton, Nat.sub_self, ih]
      simp [← Function.id_def]
    · rw [ih, List.modifyHead_modifyHead]
      simp [Function.comp_def]

theorem splitOn_singleton (c : Char) (cs : List Char) : splitOn [c] cs = cs.splitOn c := by
  rw [splitOn, if_neg (by simp), splitFrom_singleton]
  simp [← Function.id_def]

/-- The first piece is the text up to the first separator, and the others are what follows it. -/
theorem splitOn_eq_takeWhile (c : Char) (cs : List Char) :
    cs.splitOn c = cs.takeWhile (· != c) ::
      match cs.dropWhile (· != c) with
      | [] => []
      | _ :: after => after.splitOn c := by
  induction cs with
  | nil => simp
  | cons d cs ih =>
    rw [List.splitOn_cons_eq_if_modifyHead]
    by_cases h : d = c
    · simp [h]
    · rw [if_neg (by simpa using h), ih]
      simp [h]

theorem notMem_of_mem_splitOn {c : Char} {p cs : List Char} (h : p ∈ cs.splitOn c) : c ∉ p := by
  induction cs generalizing p with
  | nil => simp_all
  | cons d cs ih =>
    rw [List.splitOn_cons_eq_if_modifyHead] at h
    obtain ⟨q, qs, hq⟩ := List.exists_cons_of_ne_nil (List.splitOn_ne_nil c cs)
    rw [hq] at h ih
    by_cases hd : d = c
    · rw [if_pos (by simpa using hd)] at h
      rcases List.mem_cons.1 h with rfl | h
      · simp
      · exact ih h
    · rw [if_neg (by simpa using hd), List.modifyHead_cons] at h
      rcases List.mem_cons.1 h with rfl | h
      · have hdc : ¬ c = d := fun e => hd e.symm
        simpa [hdc] using ih (p := q) (by simp)
      · exact ih (by simp [h])

theorem length_splitOn (c : Char) (cs : List Char) : (cs.splitOn c).length = cs.count c + 1 := by
  induction cs with
  | nil => simp
  | cons d cs ih =>
    rw [List.splitOn_cons_eq_if_modifyHead]
    by_cases h : d = c
    · simp [h, ih]
    · rw [if_neg (by simpa using h), List.length_modifyHead, ih, List.count_cons_of_ne h]

theorem cutAt_singleton (c : Char) (cs : List Char) :
    cutAt [c] cs =
      match cs.dropWhile (· != c) with
      | [] => none
      | _ :: after => some (cs.takeWhile (· != c), after) := by
  induction cs with
  | nil => rfl
  | cons d cs ih =>
    by_cases h : d = c
    · simp [cutAt, dropStart?, h]
    · have h' : ¬ c = d := fun e => h e.symm
      rw [cutAt]
      simp only [dropStart?, beq_iff_eq, h', if_false, ih]
      cases hd : cs.dropWhile (· != c) <;> simp [h, hd]

end Chars

/-! ## The first of a character -/

def upTo (c : Char) (s : String) : String := String.ofList (s.toList.takeWhile (· != c))

def fromFirst (c : Char) (s : String) : String := String.ofList (s.toList.dropWhile (· != c))

theorem upTo_append_fromFirst (c : Char) (s : String) : upTo c s ++ fromFirst c s = s := by
  apply String.toList_injective
  simp [upTo, fromFirst]

theorem notMem_upTo (c : Char) (s : String) : c ∉ (upTo c s).toList := by
  intro h
  rw [upTo, String.toList_ofList] at h
  simpa using List.mem_takeWhile_imp h

theorem mem_of_mem_upTo {c d : Char} {s : String} (h : d ∈ (upTo c s).toList) : d ∈ s.toList := by
  rw [upTo, String.toList_ofList] at h
  exact (List.takeWhile_sublist _).subset h

theorem upTo_append {c : Char} {p : String} (h : c ∉ p.toList) (s : String) : upTo c (p ++ s) = p ++ upTo c s := by
  apply String.toList_injective
  have hp : ∀ d ∈ p.toList, (d != c) = true := by
    intro d hd
    simpa using fun e : d = c => h (e ▸ hd)
  simp [upTo, List.takeWhile_append_of_pos hp]

theorem fromFirst_append {c : Char} {p : String} (h : c ∉ p.toList) (s : String) :
    fromFirst c (p ++ s) = fromFirst c s := by
  have hp : ∀ d ∈ p.toList, (d != c) = true := by
    intro d hd
    simpa using fun e : d = c => h (e ▸ hd)
  simp [fromFirst, List.dropWhile_append_of_pos hp]

theorem fromFirst_eq_empty_iff (c : Char) (s : String) : fromFirst c s = "" ↔ c ∉ s.toList := by
  rw [← String.toList_inj, fromFirst, String.toList_ofList, String.toList_empty, List.dropWhile_eq_nil_iff]
  constructor
  · intro h hc
    simpa using h c hc
  · intro h d hd
    simpa using fun e : d = c => h (e ▸ hd)

theorem upTo_of_notMem {c : Char} {s : String} (h : c ∉ s.toList) : upTo c s = s := by
  have hnone : fromFirst c s = "" := (fromFirst_eq_empty_iff c s).2 h
  have hself := upTo_append_fromFirst c s
  rwa [hnone, String.append_empty] at hself

theorem eq_of_head?_fromFirst {c d : Char} {s : String} (h : (fromFirst c s).toList.head? = some d) : d = c := by
  rw [fromFirst, String.toList_ofList] at h
  simpa [h] using List.head?_dropWhile_not (· != c) s.toList

theorem upTo_fromFirst_eq_empty_iff (c d : Char) (hcd : d ≠ c) (s : String) :
    upTo c (fromFirst d s) = "" ↔ d ∉ s.toList := by
  rw [← fromFirst_eq_empty_iff]
  constructor
  · intro h
    cases hchars : (fromFirst d s).toList with
    | nil => exact String.toList_injective hchars
    | cons e cs =>
      obtain rfl : e = d := eq_of_head?_fromFirst (s := s) (by simp [hchars])
      have hnil := congrArg String.toList h
      simp [upTo, hchars, hcd] at hnil
  · intro h
    rw [h]
    rfl

section Separated
variable {sep : String} {c : Char}

theorem splitOnce_fst (hsep : sep.toList = [c]) (s : String) : (splitOnce s sep).1 = upTo c s := by
  unfold splitOnce
  rw [hsep, Chars.cutAt_singleton]
  cases h : s.toList.dropWhile (· != c) with
  | nil =>
    have hall : s.toList.takeWhile (· != c) = s.toList := by
      simpa [h] using List.takeWhile_append_dropWhile (p := (· != c)) (l := s.toList)
    simp [upTo, hall]
  | cons d after => simp [upTo]

theorem has_iff (hsep : sep.toList = [c]) (s : String) : has s sep = true ↔ c ∈ s.toList := by
  rw [has, Chars.contains, hsep, Chars.cutAt_singleton, ← not_iff_not, ← fromFirst_eq_empty_iff, ← String.toList_inj,
    fromFirst, String.toList_ofList, String.toList_empty]
  cases s.toList.dropWhile (· != c) <;> simp

/-! ## Pieces -/

theorem splitOn_eq_map (hsep : sep.toList = [c]) (s : String) :
    splitOn s sep = (s.toList.splitOn c).map String.ofList := by
  rw [splitOn, hsep, Chars.splitOn_singleton]

theorem join_eq (hsep : sep.toList = [c]) (ps : List String) :
    join sep ps = String.ofList ([c].intercalate (ps.map String.toList)) := by
  rw [join, hsep, Chars.joinWith_eq]

theorem join_cons_cons (sep p q : String) (ps : List String) :
    join sep (p :: q :: ps) = p ++ sep ++ join sep (q :: ps) := by
  apply String.toList_injective
  simp [join, Chars.joinWith]

theorem join_singleton (sep p : String) : join sep [p] = p := by
  simp [join, Chars.joinWith]

theorem join_splitOn (hsep : sep.toList = [c]) (s : String) : join sep (splitOn s sep) = s := by
  rw [splitOn_eq_map hsep, join_eq hsep, List.map_map]
  simp [Function.comp_def]

theorem splitOn_ne_nil (hsep : sep.toList = [c]) (s : String) : splitOn s sep ≠ [] := by
  simp [splitOn_eq_map hsep]

theorem length_splitOn (hsep : sep.toList = [c]) (s : String) : (splitOn s sep).length = s.toList.count c + 1 := by
  rw [splitOn_eq_map hsep, List.length_map, Chars.length_splitOn]

theorem exists_last_piece (hsep : sep.toList = [c]) (s : String) : ∃ init last, splitOn s sep = init ++ [last] :=
  ⟨_, _, (List.dropLast_concat_getLast (splitOn_ne_nil hsep s)).symm⟩

theorem splitOn_append (hsep : sep.toList = [c]) {p : String} (hp : c ∉ p.toList) (s : String) :
    splitOn (p ++ sep ++ s) sep = p :: splitOn s sep := by
  rw [splitOn_eq_map hsep, splitOn_eq_map hsep]
  simp [hsep, List.splitOn_append_cons_self_of_not_mem hp]

theorem splitOn_append_append (hsep : sep.toList = [c]) (s t : String) :
    splitOn (s ++ sep ++ t) sep = splitOn s sep ++ splitOn t sep := by
  simp [splitOn_eq_map hsep, hsep, List.splitOn_append_cons_self]

theorem notMem_of_mem_splitOn (hsep : sep.toList = [c]) {s p : String} (h : p ∈ splitOn s sep) : c ∉ p.toList := by
  rw [splitOn_eq_map hsep] at h
  obtain ⟨q, hq, rfl⟩ := List.mem_map.1 h
  simpa using Chars.notMem_of_mem_splitOn hq

theorem splitOn_eq_cons (hsep : sep.toList = [c]) (s : String) :
    ∃ ps, splitOn s sep = upTo c s :: ps ∧ ∀ p, join sep (p :: ps) = p ++ fromFirst c s := by
  rw [splitOn_eq_map hsep, Chars.splitOn_eq_takeWhile]
  cases h : s.toList.dropWhile (· != c) with
  | nil =>
    refine ⟨[], rfl, fun p => ?_⟩
    simp [join_singleton, fromFirst, h]
  | cons d after =>
    have hhead : (fromFirst c s).toList.head? = some d := by simp [fromFirst, h]
    have hd : d = c := eq_of_head?_fromFirst hhead
    refine ⟨(after.splitOn c).map String.ofList, rfl, fun p => ?_⟩
    apply String.toList_injective
    rw [join_eq hsep, List.map_cons, List.map_map,
      List.intercalate_cons_of_ne_nil (by simp)]
    simp [fromFirst, h, hd, Function.comp_def]

/-- Of several pieces the first ends at a separator. -/
theorem splitOn_eq_cons_cons (hsep : sep.toList = [c]) {s p q : String} {ps : List String}
    (h : splitOn s sep = p :: q :: ps) : c ∉ p.toList ∧ ∃ r, s = p ++ sep ++ r ∧ splitOn r sep = q :: ps := by
  have hfirst : p = upTo c s := by
    obtain ⟨qs, hqs, -⟩ := splitOn_eq_cons hsep s
    rw [h] at hqs
    exact (List.cons.inj hqs).1
  have hp : c ∉ p.toList := hfirst ▸ notMem_upTo c s
  have hs : s = p ++ sep ++ join sep (q :: ps) := by
    rw [← join_cons_cons, ← h, join_splitOn hsep]
  refine ⟨hp, join sep (q :: ps), hs, ?_⟩
  rw [hs, splitOn_append hsep hp] at h
  exact (List.cons.inj h).2

theorem join_append (sep : String) (ps qs : List String) (hps : ps ≠ []) (hqs : qs ≠ []) :
    join sep (ps ++ qs) = join sep ps ++ sep ++ join sep qs := by
  induction ps with
  | nil => exact absurd rfl hps
  | cons p ps ih =>
    cases ps with
    | nil =>
      obtain ⟨q, qs, rfl⟩ := List.exists_cons_of_ne_nil hqs
      rw [List.singleton_append, join_cons_cons, join_singleton]
    | cons p' ps =>
      rw [List.cons_append, List.cons_append, join_cons_cons, ← List.cons_append, ih (by simp), join_cons_cons]
      simp only [String.append_assoc]

theorem splitOn_append_last (hsep : sep.toList = [c]) {s t last first : String} {init more : List String}
    (hs : splitOn s sep = init ++ [last]) (ht : splitOn t sep = first :: more) :
    splitOn (s ++ t) sep = init ++ (last ++ first) :: more := by
  induction init generalizing s with
  | nil =>
    have hself : s = last := by
      rw [← join_splitOn hsep s, hs, List.nil_append, join_singleton]
    have hno : c ∉ s.toList := hself ▸ notMem_of_mem_splitOn hsep (s := s) (by simp [hs])
    have hall : ∀ d ∈ s.toList, (d != c) = true := by
      intro d hd
      simpa using fun e : d = c => hno (e ▸ hd)
    rw [splitOn_eq_map hsep, Chars.splitOn_eq_takeWhile] at ht ⊢
    obtain ⟨hfirst, hmore⟩ := List.cons.inj ht
    rw [String.toList_append, List.takeWhile_append_of_pos hall, List.dropWhile_append_of_pos hall, List.map_cons,
      hmore, ← hself, ← hfirst]
    simp
  | cons p init ih =>
    obtain ⟨q, qs, hq⟩ := List.exists_cons_of_ne_nil (l := init ++ [last]) (by simp)
    rw [List.cons_append, hq] at hs
    obtain ⟨hp, r, rfl, hr⟩ := splitOn_eq_cons_cons hsep hs
    rw [String.append_assoc, splitOn_append hsep hp, ih (hr.trans hq.symm), List.cons_append]

theorem mem_join {p : String} {ps : List String} (hp : p ∈ ps) {d : Char} (hd : d ∈ p.toList) :
    d ∈ (join sep ps).toList := by
  induction ps with
  | nil => exact absurd hp (by simp)
  | cons q ps ih =>
    cases ps with
    | nil =>
      rw [join_singleton]
      exact List.mem_singleton.1 hp ▸ hd
    | cons r ps =>
      rw [join_cons_cons, String.toList_append, String.toList_append]
      rcases List.mem_cons.1 hp with rfl | hp
      · simp [hd]
      · simp [ih hp]

end Separated

end PlotAdvisor.Text
