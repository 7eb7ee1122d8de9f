import PlotAdvisor.Proofs.Beginnings
import PlotAdvisor.Proofs.Shipped

/-! What one pass of the normal form does to an element id, step by step: a new module in front of the rest, a short
form in front of the rest, and one holder taken out between `plt` and a member of the current axes or figure.

* `fromInteractive_cases`, `replaceBeginning_some` - the first two steps change only how an id begins.
* `IsMember`, `fromCurrent_of_member` - the third step, on the parts of an id.
* `fromCurrent_eq_self_iff`, `dots_fromCurrent` - it changes an id exactly when it can, and takes one dot out.
-/
set_option autoImplicit false

namespace PlotAdvisor.Elements

open Text

theorem beforeAt_eq (s : String) : beforeAt s = upTo '@' s := splitOnce_fst rfl s

/-! ## A new module -/

theorem fromInteractive_cases (functions : List String) (id : String) :
    fromInteractive functions id = id ∨
      ∃ r, id = "pylab" ++ "." ++ r ∧ fromInteractive functions id = "matplotlib.pyplot" ++ "." ++ r := by
  unfold fromInteractive
  split
  · next f rest h =>
    split
    · obtain ⟨-, r, hid, hr⟩ := splitOn_eq_cons_cons dot_toList h
      refine Or.inr ⟨r, hid, ?_⟩
      rw [join_cons_cons, ← hr, join_splitOn dot_toList]
    · exact Or.inl rfl
  · exact Or.inl rfl

theorem fromInteractive_of_first_ne (functions : List String) {id : String} (h : upTo '.' id ≠ "pylab") :
    fromInteractive functions id = id := by
  obtain ⟨ps, hsplit, -⟩ := splitOn_eq_cons dot_toList id
  unfold fromInteractive
  rw [hsplit]
  split
  · next heq => exact absurd (List.cons.inj heq).1 h
  · rfl

/-! ## A short form -/

theorem replaceBeginning_some {t : Table String String} {id r : String} (h : replaceBeginning t id = some r) :
    ∃ path v rest, t.get? path = some v ∧ id = path ++ rest ∧ r = v ++ rest ∧
      (rest = "" ∨ ∃ more, rest = "." ++ more) := by
  obtain ⟨path, v, rest, hlongest, hv, hid, hr⟩ := (replaceBeginning_eq_some_iff id r).1 h
  refine ⟨path, v, rest, hv, hid, hr, ?_⟩
  rcases hlongest.begins with hall | ⟨more, hmore⟩
  · exact Or.inl (eq_of_append_eq (hid.symm.trans (by simp [hall])) rfl).2
  · exact Or.inr ⟨more, (eq_of_append_eq (hid.symm.trans (hmore.trans String.append_assoc)) rfl).2⟩

theorem replaceBeginning_none {t : Table String String} {id : String} (h : replaceBeginning t id = none) :
    t.get? (upTo '.' id) = none := by
  obtain ⟨ps, hsplit, -⟩ := splitOn_eq_cons dot_toList id
  have hfirst : Begins (upTo '.' id) id :=
    (begins_iff _ id).2 ⟨[upTo '.' id], ps, hsplit, by simp, (join_singleton "." _).symm⟩
  simpa [Table.contains] using (replaceBeginning_eq_none_iff id).1 h _ hfirst

theorem upTo_append_rest {path rest : String} (h : rest = "" ∨ ∃ more, rest = "." ++ more) :
    upTo '.' (path ++ rest) = upTo '.' path := by
  rcases h with rfl | ⟨more, rfl⟩
  · simp
  · apply String.toList_injective
    simp only [upTo, String.toList_append, String.toList_ofList]
    rw [List.takeWhile_append]
    split
    · next hall =>
      have hself : path.toList.takeWhile (· != '.') = path.toList :=
        (List.takeWhile_sublist _).eq_of_length hall
      simp [hself]
    · rfl

/-! ## A holder taken out -/

/-- An id that names a member of the current axes or figure, with what follows the name of the member. -/
structure IsMember (id holder member tail : String) : Prop where
  eq : id = "plt" ++ "." ++ (holder ++ "." ++ (member ++ tail))
  holder_mem : holder ∈ ["gca", "gcf", "figure"]
  no_dot : '.' ∉ member.toList
  no_at : '@' ∉ member.toList
  tail_begins : ∀ c, tail.toList.head? = some c → c = '.' ∨ c = '@'

theorem IsMember.holder_no_dot {id holder member tail : String} (h : IsMember id holder member tail) :
    '.' ∉ holder.toList := by
  have hall : ∀ x ∈ ["gca", "gcf", "figure"], '.' ∉ x.toList := by decide
  exact hall holder h.holder_mem

/-- A text that ends what stands in front of it: it is empty, or begins with a dot or an `@`. -/
def GoesOn (tail : String) : Prop := ∀ c, tail.toList.head? = some c → c = '.' ∨ c = '@'

theorem upTo_goesOn {name tail : String} (hdot : '.' ∉ name.toList) (hat : '@' ∉ name.toList) (h : GoesOn tail) :
    upTo '@' (upTo '.' (name ++ tail)) = name := by
  -- what follows the name up to the next dot is empty or begins with `@`
  have hnone : upTo '@' (upTo '.' tail) = "" := by
    apply String.toList_injective
    simp only [upTo, String.toList_ofList]
    cases htail : tail.toList with
    | nil => rfl
    | cons c cs => rcases h c (by simp [htail]) with rfl | rfl <;> simp
  rw [upTo_append hdot, upTo_append hat, hnone, String.append_empty]

theorem IsMember.name_eq {id holder member tail : String} (h : IsMember id holder member tail) :
    upTo '@' (upTo '.' (member ++ tail)) = member :=
  upTo_goesOn h.no_dot h.no_at h.tail_begins

theorem fromCurrent_of_member {id holder member tail : String} (h : IsMember id holder member tail)
    (functions : List String) :
    fromCurrent functions id =
      if member ∈ functions then "plt" ++ "." ++ (member ++ tail)
      else
        match Chars.dropStart? "set_".toList member.toList with
        | some g =>
          if String.ofList g ∈ functions then "plt" ++ "." ++ (String.ofList g ++ fromFirst '.' tail) else id
        | none => id := by
  obtain ⟨ps, hsplit, hjoin⟩ := splitOn_eq_cons dot_toList (member ++ tail)
  rw [upTo_append h.no_dot] at hsplit
  rw [fromFirst_append h.no_dot] at hjoin
  have hfull : splitOn id "." = "plt" :: holder :: (member ++ upTo '.' tail) :: ps := by
    rw [h.eq, splitOn_append dot_toList (by decide), splitOn_append dot_toList h.holder_no_dot, hsplit]
  have hname : beforeAt (member ++ upTo '.' tail) = member := by
    rw [beforeAt_eq, ← upTo_append h.no_dot, h.name_eq]
  have hmember : join "." ("plt" :: (member ++ upTo '.' tail) :: ps) = "plt" ++ "." ++ (member ++ tail) := by
    rw [join_cons_cons, hjoin, @String.append_assoc member, upTo_append_fromFirst]
  have hholder : ["gca", "gcf", "figure"].contains holder = true := by simpa using h.holder_mem
  unfold fromCurrent
  simp only [hfull, hholder, if_true, hname, hmember, List.contains_iff_mem]
  split
  · rfl
  · cases Chars.dropStart? "set_".toList member.toList with
    | none => rfl
    | some g => simp only [join_cons_cons, hjoin]

theorem fromCurrent_of_no_member (functions : List String) {id : String}
    (h : ∀ holder member tail, ¬ IsMember id holder member tail) : fromCurrent functions id = id := by
  unfold fromCurrent
  split
  · next holder part rest hsplit =>
    split
    · next hholder =>
      obtain ⟨-, r, hid, hr⟩ := splitOn_eq_cons_cons dot_toList hsplit
      obtain ⟨-, q, hrq, hq⟩ := splitOn_eq_cons_cons dot_toList hr
      have hpart : part = upTo '.' q := by
        obtain ⟨ps, hps, -⟩ := splitOn_eq_cons dot_toList q
        exact (List.cons.inj (hq.symm.trans hps)).1
      have hq_eq : q = upTo '@' part ++ (fromFirst '@' part ++ fromFirst '.' q) := by
        rw [← String.append_assoc, upTo_append_fromFirst, hpart, upTo_append_fromFirst]
      exfalso
      refine h holder (upTo '@' part) (fromFirst '@' part ++ fromFirst '.' q) ⟨?_, ?_, ?_, notMem_upTo '@' part, ?_⟩
      · rw [← hq_eq, ← hrq, hid]
      · simpa using hholder
      · intro hdot
        exact notMem_upTo '.' q (hpart ▸ mem_of_mem_upTo hdot)
      · intro c hc
        rw [String.toList_append, List.head?_append] at hc
        cases harg : (fromFirst '@' part).toList.head? with
        | none => exact Or.inl (eq_of_head?_fromFirst (by simpa [harg] using hc))
        | some d =>
          obtain rfl : d = c := by simpa [harg] using hc
          exact Or.inr (eq_of_head?_fromFirst harg)
    · rfl
  · rfl

def Movable (functions : List String) (id : String) : Prop :=
  ∃ holder member tail, IsMember id holder member tail ∧
    (member ∈ functions ∨ ∃ g ∈ functions, member = "set_" ++ g)

theorem dropStart?_set (g : String) : Chars.dropStart? "set_".toList ("set_" ++ g).toList = some g.toList := by
  rw [Chars.dropStart?_eq_some_iff, String.toList_append]

theorem fromCurrent_of_setter {functions : List String} {id holder g tail : String}
    (h : IsMember id holder ("set_" ++ g) tail) (hset : "set_" ++ g ∉ functions) (hg : g ∈ functions) :
    fromCurrent functions id = "plt" ++ "." ++ (g ++ fromFirst '.' tail) := by
  rw [fromCurrent_of_member h, if_neg hset, dropStart?_set]
  simp [hg]

theorem fromCurrent_cases (functions : List String) (id : String) :
    (¬ Movable functions id ∧ fromCurrent functions id = id) ∨
    (∃ holder member tail, IsMember id holder member tail ∧ member ∈ functions ∧
      fromCurrent functions id = "plt" ++ "." ++ (member ++ tail)) ∨
    ∃ holder g tail, IsMember id holder ("set_" ++ g) tail ∧ "set_" ++ g ∉ functions ∧ g ∈ functions ∧
      fromCurrent functions id = "plt" ++ "." ++ (g ++ fromFirst '.' tail) := by
  by_cases hmov : Movable functions id
  · obtain ⟨holder, member, tail, h, hf⟩ := hmov
    by_cases hmem : member ∈ functions
    · exact Or.inr (Or.inl ⟨holder, member, tail, h, hmem, by rw [fromCurrent_of_member h, if_pos hmem]⟩)
    · obtain ⟨g, hg, rfl⟩ := hf.resolve_left hmem
      exact Or.inr (Or.inr ⟨holder, g, tail, h, hmem, hg, fromCurrent_of_setter h hmem hg⟩)
  · refine Or.inl ⟨hmov, ?_⟩
    by_cases hany : ∃ holder member tail, IsMember id holder member tail
    · obtain ⟨holder, member, tail, h⟩ := hany
      rw [fromCurrent_of_member h, if_neg fun hmem => hmov ⟨holder, member, tail, h, Or.inl hmem⟩]
      cases hset : Chars.dropStart? "set_".toList member.toList with
      | none => rfl
      | some g =>
        have hmember : member = "set_" ++ String.ofList g := by
          apply String.toList_injective
          rw [(Chars.dropStart?_eq_some_iff _ _ _).1 hset]
          simp
        exact if_neg fun hg => hmov ⟨holder, member, tail, h, Or.inr ⟨_, hg, hmember⟩⟩
    · exact fromCurrent_of_no_member functions fun holder member tail h => hany ⟨holder, member, tail, h⟩

/-! ## Dots -/

def dots (id : String) : Nat := id.toList.count '.'

theorem dots_append (a b : String) : dots (a ++ b) = dots a + dots b := by
  simp [dots]

theorem dots_of_notMem {s : String} (h : '.' ∉ s.toList) : dots s = 0 := List.count_eq_zero.2 h

theorem dots_fromFirst (s : String) : dots (fromFirst '.' s) = dots s := by
  have hs : dots s = dots (upTo '.' s ++ fromFirst '.' s) := by rw [upTo_append_fromFirst]
  rw [hs, dots_append, dots_of_notMem (notMem_upTo '.' s), Nat.zero_add]

theorem dots_of_member {id holder member tail : String} (h : IsMember id holder member tail) :
    dots id = dots tail + 2 := by
  have hdot : dots "." = 1 := rfl
  have hplt : dots "plt" = 0 := rfl
  rw [h.eq]
  simp only [dots_append, hdot, hplt, dots_of_notMem h.holder_no_dot, dots_of_notMem h.no_dot]
  omega

theorem dots_fromCurrent {functions : List String} {id : String} (h : Movable functions id) :
    dots (fromCurrent functions id) + 1 = dots id := by
  have hdot : dots "." = 1 := rfl
  have hplt : dots "plt" = 0 := rfl
  rcases fromCurrent_cases functions id with
    ⟨hnot, -⟩ | ⟨holder, member, tail, hm, -, hr⟩ | ⟨holder, g, tail, hm, -, -, hr⟩
  · exact absurd h hnot
  · rw [hr, dots_of_member hm]
    simp only [dots_append, hdot, hplt, dots_of_notMem hm.no_dot]
    omega
  · have hg : '.' ∉ g.toList := fun hmem => hm.no_dot (by simp [hmem])
    rw [hr, dots_of_member hm]
    simp only [dots_append, hdot, hplt, dots_of_notMem hg, dots_fromFirst]
    omega

theorem fromCurrent_eq_self_iff (functions : List String) (id : String) :
    fromCurrent functions id = id ↔ ¬ Movable functions id := by
  constructor
  · intro hself hmov
    have hdots := dots_fromCurrent hmov
    rw [hself] at hdots
    omega
  · intro hnot
    rcases fromCurrent_cases functions id with
      ⟨-, hself⟩ | ⟨holder, member, tail, hm, hf, -⟩ | ⟨holder, g, tail, hm, -, hg, -⟩
    · exact hself
    · exact absurd ⟨holder, member, tail, hm, Or.inl hf⟩ hnot
    · exact absurd ⟨holder, "set_" ++ g, tail, hm, Or.inr ⟨g, hg, rfl⟩⟩ hnot

end PlotAdvisor.Elements
