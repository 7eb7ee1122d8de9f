import Mathlib.Data.List.Infix
import PlotAdvisor.Proofs.Pieces

/-! Texts cut at separators of any length, and texts in which one part is replaced by another.

* `replace_append`, `replace_cons` - replacing from the left; `replace_of_found` and `replace_of_next` say the same for
  items that have other features than those by which they are compared. `replace_at_kept` says what stays of a text
  around an item that stays.
* `Parted`, `splitOn_spec` - the pieces of a text: they give the text when they are joined, and no separator is found
  before the end of a piece.
-/
set_option autoImplicit false

namespace PlotAdvisor.Text

namespace Chars

/-! ## Scanning from the left -/

section
variable {α : Type} [BEq α] {sep old new : List α}

theorem splitFrom_skip (skip : Nat) (cur cs : List α) :
    splitFrom sep skip cur cs = splitFrom sep 0 cur (cs.drop skip) := by
  induction cs generalizing skip with
  | nil => simp [splitFrom]
  | cons c cs ih =>
    cases skip with
    | zero => rfl
    | succ skip =>
      rw [splitFrom, ih]
      rfl

theorem splitFrom_ne_nil (skip : Nat) (cur cs : List α) : splitFrom sep skip cur cs ≠ [] := by
  induction cs generalizing skip cur with
  | nil => simp [splitFrom]
  | cons c cs ih =>
    cases skip with
    | zero =>
      rw [splitFrom]
      split
      · simp
      · exact ih 0 (c :: cur)
    | succ skip => exact ih skip cur

omit [BEq α] in
theorem joinWith_cons {ps : List (List α)} (h : ps ≠ []) (p : List α) :
    joinWith new (p :: ps) = p ++ new ++ joinWith new ps := by
  obtain ⟨q, qs, rfl⟩ := List.exists_cons_of_ne_nil h
  rw [joinWith]
  exact List.cons_ne_nil q qs

/-- What stands in front of the text is put in front of the first piece. -/
theorem splitFrom_cur (cur cs : List α) :
    splitFrom sep 0 cur cs = (splitFrom sep 0 [] cs).modifyHead (cur.reverse ++ ·) := by
  induction cs generalizing cur with
  | nil => simp [splitFrom]
  | cons c cs ih =>
    rw [splitFrom, splitFrom]
    split
    · simp
    · rw [ih (c :: cur), ih [c], List.modifyHead_modifyHead]
      simp [Function.comp_def]

omit [BEq α] in
theorem joinWith_modifyHead {ps : List (List α)} (h : ps ≠ []) (start : List α) :
    joinWith new (ps.modifyHead (start ++ ·)) = start ++ joinWith new ps := by
  obtain ⟨p, ps, rfl⟩ := List.exists_cons_of_ne_nil h
  by_cases hps : ps = []
  · simp [hps, joinWith]
  · rw [List.modifyHead_cons, joinWith_cons hps, joinWith_cons hps]
    simp

theorem splitOn_eq (h : sep ≠ []) (cs : List α) : splitOn sep cs = splitFrom sep 0 [] cs := by
  rw [splitOn, if_neg (by simpa using h)]

theorem splitOn_of_found (h : sep ≠ []) {found rest : List α} (hlength : found.length = sep.length)
    (hstart : startsWith sep (found ++ rest) = true) : splitOn sep (found ++ rest) = [] :: splitOn sep rest := by
  have hfound : found ≠ [] := by
    rintro rfl
    exact h (List.length_eq_zero_iff.1 hlength.symm)
  obtain ⟨c, cs, rfl⟩ := List.exists_cons_of_ne_nil hfound
  rw [List.cons_append] at hstart ⊢
  rw [splitOn_eq h, splitOn_eq h, splitFrom, if_pos hstart, splitFrom_skip, ← hlength, List.length_cons,
    Nat.add_sub_cancel, List.drop_left, List.reverse_nil]

theorem splitOn_of_next (h : sep ≠ []) {c : α} {cs : List α} (hstart : startsWith sep (c :: cs) = false) :
    splitOn sep (c :: cs) = (splitOn sep cs).modifyHead (c :: ·) := by
  rw [splitOn_eq h, splitOn_eq h, splitFrom, if_neg (by simp [hstart]), splitFrom_cur [c]]
  rfl

theorem splitOn_ne_nil (h : sep ≠ []) (cs : List α) : splitOn sep cs ≠ [] := by
  rw [splitOn_eq h]
  exact splitFrom_ne_nil 0 [] cs

theorem replace_nil (h : old ≠ []) : replace old new [] = [] := by
  rw [replace, splitOn_eq h]
  rfl

theorem replace_of_found (h : old ≠ []) {found rest : List α} (hlength : found.length = old.length)
    (hstart : startsWith old (found ++ rest) = true) :
    replace old new (found ++ rest) = new ++ replace old new rest := by
  rw [replace, splitOn_of_found h hlength hstart, joinWith_cons (splitOn_ne_nil h rest)]
  rfl

theorem replace_of_next (h : old ≠ []) {c : α} {cs : List α} (hstart : startsWith old (c :: cs) = false) :
    replace old new (c :: cs) = c :: replace old new cs := by
  rw [replace, splitOn_of_next h hstart]
  exact joinWith_modifyHead (splitOn_ne_nil h cs) [c]

theorem length_le_of_startsWith {start cs : List α} (h : startsWith start cs = true) : start.length ≤ cs.length := by
  induction start generalizing cs with
  | nil => simp
  | cons s start ih =>
    cases cs with
    | nil => simp [startsWith, dropStart?] at h
    | cons c cs =>
      have hrest : startsWith start cs = true := by
        rw [startsWith, dropStart?] at h
        split at h
        · exact h
        · simp at h
      simpa using ih hrest

/-- A text is gone through from the left: past a separator where one is found, else past one item. -/
theorem scan_induction (h : sep ≠ []) {motive : List α → Prop} (nil : motive [])
    (found : ∀ found rest, found.length = sep.length → startsWith sep (found ++ rest) = true → motive rest →
      motive (found ++ rest))
    (next : ∀ c cs, startsWith sep (c :: cs) = false → motive cs → motive (c :: cs)) (cs : List α) : motive cs := by
  induction hlength : cs.length using Nat.strongRecOn generalizing cs with
  | ind n ih =>
    cases hstart : startsWith sep cs with
    | true =>
      have hle := length_le_of_startsWith hstart
      have hpos : 0 < sep.length := List.length_pos_iff.2 h
      rw [← List.take_append_drop sep.length cs] at hstart ⊢
      exact found _ _ (by rw [List.length_take]; omega) hstart (ih _ (by simp; omega) _ rfl)
    | false =>
      cases cs with
      | nil => exact nil
      | cons c cs => exact next c cs hstart (ih cs.length (by simp [← hlength]) cs rfl)

section
variable {β : Type} [BEq β] {f : α → β} (hf : ∀ a b, (f a == f b) = (a == b))
include hf

theorem startsWith_map (start cs : List α) : startsWith (start.map f) (cs.map f) = startsWith start cs := by
  unfold startsWith
  induction start generalizing cs with
  | nil => simp [dropStart?]
  | cons s start ih =>
    cases cs with
    | nil => rfl
    | cons c cs =>
      rw [List.map_cons, List.map_cons, dropStart?, dropStart?, hf]
      split
      · exact ih cs
      · rfl

theorem replace_map (h : old ≠ []) (cs : List α) :
    (replace old new cs).map f = replace (old.map f) (new.map f) (cs.map f) := by
  have hmap : old.map f ≠ [] := by simpa using h
  induction cs using scan_induction h with
  | nil => rw [replace_nil h, List.map_nil, replace_nil hmap]
  | found found rest hlength hstart ih =>
    rw [← startsWith_map hf, List.map_append] at hstart
    rw [replace_of_found h hlength ((startsWith_map hf _ _).symm.trans (by rwa [List.map_append])), List.map_append,
      List.map_append, ih, replace_of_found hmap (by simpa using hlength) hstart]
  | next c cs hstart ih =>
    have hstart' := (startsWith_map hf old (c :: cs)).trans hstart
    rw [List.map_cons] at hstart' ⊢
    rw [replace_of_next h hstart, List.map_cons, ih, replace_of_next hmap hstart']

end

theorem replace_sublist (h : old ≠ []) (cs : List α) : (replace old [] cs).Sublist cs := by
  induction cs using scan_induction h with
  | nil => rw [replace_nil h]
  | found found rest hlength hstart ih =>
    rw [replace_of_found h hlength hstart]
    exact ih.trans (List.sublist_append_right found rest)
  | next c cs hstart ih =>
    rw [replace_of_next h hstart]
    exact ih.cons_cons c

/-- An item that stays is met by the scan: nothing that is removed begins at it or reaches over it. -/
theorem replace_at_kept (h : old ≠ []) {before rest : List α} {x : α} (hnodup : (before ++ x :: rest).Nodup)
    (hx : x ∈ replace old [] (before ++ x :: rest)) :
    startsWith old (x :: rest) = false ∧
      ∃ before', replace old [] (before ++ x :: rest) = before' ++ x :: replace old [] rest := by
  generalize hcs : before ++ x :: rest = cs at hnodup hx ⊢
  induction cs using scan_induction h generalizing before with
  | nil => simp at hcs
  | found found tail hlength hstart ih =>
    rw [replace_of_found h hlength hstart, List.nil_append] at hx ⊢
    obtain ⟨-, htailnodup, hapart⟩ := List.nodup_append.1 hnodup
    have hrest : ∀ before', before' ++ x :: rest = tail → startsWith old (x :: rest) = false ∧
        ∃ before', replace old [] tail = before' ++ x :: replace old [] rest :=
      fun before' h' => ih h' htailnodup hx
    rcases List.append_eq_append_iff.1 hcs with ⟨c, rfl, htail⟩ | ⟨before', -, htail⟩
    · cases c with
      | nil => exact hrest [] htail
      | cons y c =>
        obtain ⟨rfl, -⟩ := List.cons.inj htail
        exact absurd rfl (hapart x (by simp) x ((replace_sublist h tail).subset hx))
    · exact hrest before' htail.symm
  | next c cs hstart ih =>
    rw [replace_of_next h hstart] at hx ⊢
    cases before with
    | nil =>
      obtain ⟨rfl, rfl⟩ := List.cons.inj hcs
      exact ⟨hstart, [], rfl⟩
    | cons b before =>
      obtain ⟨rfl, hcs'⟩ := List.cons.inj hcs
      have hne : x ≠ b := by
        rintro rfl
        rw [← hcs'] at hnodup
        exact (List.nodup_cons.1 hnodup).1 (by simp)
      obtain ⟨hx', before', heq⟩ := ih hcs' hnodup.of_cons ((List.mem_cons.1 hx).resolve_left hne)
      exact ⟨hx', b :: before', by rw [heq]; rfl⟩

/-- Where nothing that is removed begins, all stays. -/
theorem replace_append_of_next (h : old ≠ []) {block rest : List α}
    (hblock : ∀ n < block.length, startsWith old (block.drop n ++ rest) = false) :
    replace old new (block ++ rest) = block ++ replace old new rest := by
  induction block with
  | nil => rfl
  | cons c block ih =>
    have hhead : startsWith old (c :: (block ++ rest)) = false := hblock 0 (by simp)
    have htail := ih fun n hn => hblock (n + 1) (by simpa using hn)
    rw [List.cons_append, replace_of_next h hhead, htail, List.cons_append]

end

/-! ## Texts of characters -/

section
variable {sep old new : List Char}

theorem startsWith_iff (start cs : List Char) : startsWith start cs = true ↔ start <+: cs := by
  rw [startsWith, Option.isSome_iff_exists]
  constructor
  · rintro ⟨rest, h⟩
    exact ⟨rest, ((dropStart?_eq_some_iff start cs rest).1 h).symm⟩
  · rintro ⟨rest, h⟩
    exact ⟨rest, (dropStart?_eq_some_iff start cs rest).2 h.symm⟩

theorem startsWith_eq_false_iff (start cs : List Char) : startsWith start cs = false ↔ ¬ start <+: cs := by
  rw [← startsWith_iff, Bool.not_eq_true]

theorem contains_iff (sep cs : List Char) : contains sep cs = true ↔ sep <:+: cs := by
  induction cs with
  | nil => cases sep <;> simp [contains, cutAt]
  | cons c cs ih =>
    rw [List.infix_cons_iff, ← startsWith_iff, ← ih, contains, cutAt, startsWith]
    cases dropStart? sep (c :: cs) <;> simp [contains]

theorem eq_of_startsWith {found rest : List Char} (hlength : found.length = sep.length)
    (hstart : startsWith sep (found ++ rest) = true) : sep = found := by
  have hbegins := List.prefix_of_prefix_length_le ((startsWith_iff _ _).1 hstart) (List.prefix_append found rest)
    hlength.ge
  exact hbegins.eq_of_length hlength.symm

theorem replace_append (h : old ≠ []) (rest : List Char) :
    replace old new (old ++ rest) = new ++ replace old new rest :=
  replace_of_found h rfl ((startsWith_iff _ _).2 ⟨rest, rfl⟩)

theorem replace_cons (h : old ≠ []) {c : Char} {cs : List Char} (hstart : ¬ old <+: c :: cs) :
    replace old new (c :: cs) = c :: replace old new cs :=
  replace_of_next h ((startsWith_eq_false_iff _ _).2 hstart)

theorem replace_of_not_infix {cs : List Char} (h : ¬ old <:+: cs) : replace old new cs = cs := by
  have hold : old ≠ [] := by
    rintro rfl
    exact h (List.nil_infix)
  induction cs with
  | nil => exact replace_nil hold
  | cons c cs ih =>
    rw [List.infix_cons_iff, not_or] at h
    rw [replace_cons hold h.1, ih h.2]

theorem replace_singleton (c : Char) (new cs : List Char) :
    replace [c] new cs = cs.flatMap fun d => if d = c then new else [d] := by
  induction cs with
  | nil => exact replace_nil (List.cons_ne_nil c [])
  | cons d cs ih =>
    rw [List.flatMap_cons, ← ih]
    by_cases h : d = c
    · subst h
      rw [if_pos rfl]
      exact replace_append (List.cons_ne_nil d []) cs
    · rw [if_neg h, List.singleton_append]
      exact replace_cons (List.cons_ne_nil c []) fun hstart => h (List.cons_prefix_cons.1 hstart).1.symm

theorem replace_append_cons (h : old ≠ []) {c : Char} (hc : c ∉ old) (x y : List Char) :
    replace old new (x ++ c :: y) = replace old new x ++ c :: replace old new y := by
  induction x using scan_induction h with
  | nil =>
    have hstart : ¬ old <+: c :: y := by
      rintro ⟨rest, hrest⟩
      obtain ⟨d, ds, rfl⟩ := List.exists_cons_of_ne_nil h
      obtain ⟨rfl, -⟩ := List.cons.inj hrest
      exact hc List.mem_cons_self
    rw [replace_nil h, List.nil_append, List.nil_append, replace_cons h hstart]
  | found found rest hlength hstart ih =>
    obtain rfl : old = found := eq_of_startsWith hlength hstart
    rw [List.append_assoc, replace_append h, replace_append h, ih, List.append_assoc]
  | next d ds hstart ih =>
    rw [startsWith_eq_false_iff] at hstart
    have hstart' : ¬ old <+: d :: (ds ++ c :: y) := by
      intro hbegins
      rcases List.prefix_or_prefix_of_prefix hbegins (List.prefix_append (d :: ds) (c :: y)) with hshort | ⟨rest, rfl⟩
      · exact hstart hshort
      · rw [← List.cons_append, List.prefix_append_right_inj] at hbegins
        cases rest with
        | nil => exact hstart (by simp)
        | cons e rest =>
          obtain ⟨more, hmore⟩ := hbegins
          obtain ⟨rfl, -⟩ := List.cons.inj hmore
          exact hc (by simp)
    rw [List.cons_append, replace_cons h hstart', ih, replace_cons h hstart, List.cons_append]

theorem prefix_of_prefix_replace {start cs : List Char} {sign : Char} (h : old ≠ []) (hsign : sign ∉ start)
    (hstart : start <+: replace old [sign] cs) : start <+: cs := by
  induction start generalizing cs with
  | nil => exact List.nil_prefix
  | cons s start ih =>
    rw [List.mem_cons, not_or] at hsign
    by_cases hold : old <+: cs
    · obtain ⟨rest, rfl⟩ := hold
      rw [replace_append h, List.singleton_append, List.cons_prefix_cons] at hstart
      exact absurd hstart.1.symm hsign.1
    · cases cs with
      | nil =>
        rw [replace_nil h] at hstart
        exact absurd hstart (by simp)
      | cons c cs =>
        rw [replace_cons h hold, List.cons_prefix_cons] at hstart
        exact List.cons_prefix_cons.2 ⟨hstart.1, ih hsign.2 hstart.2⟩

theorem splitOn_append (h : sep ≠ []) (rest : List Char) : splitOn sep (sep ++ rest) = [] :: splitOn sep rest :=
  splitOn_of_found h rfl ((startsWith_iff _ _).2 ⟨rest, rfl⟩)

theorem splitOn_cons (h : sep ≠ []) {c : Char} {cs : List Char} (hstart : ¬ sep <+: c :: cs) :
    splitOn sep (c :: cs) = (splitOn sep cs).modifyHead (c :: ·) :=
  splitOn_of_next h ((startsWith_eq_false_iff _ _).2 hstart)

theorem splitOn_of_notInfix {cs : List Char} (h : ¬ sep <:+: cs) : splitOn sep cs = [cs] := by
  have hsep : sep ≠ [] := by
    rintro rfl
    exact h (List.nil_infix)
  induction cs with
  | nil => simp [splitOn_eq hsep, splitFrom]
  | cons c cs ih =>
    rw [List.infix_cons_iff, not_or] at h
    rw [splitOn_cons hsep h.1, ih h.2, List.modifyHead_cons]

/-! ## The first separator -/

def First (sep p : List Char) : Prop := ¬ sep <:+: p ++ sep.dropLast

instance (sep p : List Char) : Decidable (First sep p) := inferInstanceAs (Decidable (¬ sep <:+: p ++ sep.dropLast))

theorem First.not_infix {p : List Char} (h : First sep p) : ¬ sep <:+: p :=
  fun hin => h (hin.trans (List.prefix_append p sep.dropLast).isInfix)

theorem First.not_prefix (hsep : sep ≠ []) {c : Char} {p : List Char} (h : First sep (c :: p)) (rest : List Char) :
    ¬ sep <+: c :: p ++ sep ++ rest := by
  intro hstart
  have hwhole : c :: p ++ sep.dropLast <+: c :: p ++ sep ++ rest := by
    rw [List.append_assoc, List.prefix_append_right_inj]
    exact (List.dropLast_prefix sep).trans (List.prefix_append sep rest)
  have hlength : sep.length ≤ (c :: p ++ sep.dropLast).length := by
    have hpos : 0 < sep.length := List.length_pos_iff.2 hsep
    simp only [List.length_append, List.length_cons, List.length_dropLast]
    omega
  exact h (List.prefix_of_prefix_length_le hstart hwhole hlength).isInfix

theorem First.tail {c : Char} {p : List Char} (h : First sep (c :: p)) : First sep p :=
  fun hin => h (List.infix_cons_iff.2 (.inr hin))

theorem splitOn_of_first (hsep : sep ≠ []) {p : List Char} (h : First sep p) (rest : List Char) :
    splitOn sep (p ++ sep ++ rest) = p :: splitOn sep rest := by
  induction p with
  | nil => exact splitOn_append hsep rest
  | cons c p ih =>
    have hstart := h.not_prefix hsep rest
    rw [List.cons_append, List.cons_append] at hstart ⊢
    rw [splitOn_cons hsep hstart, ih h.tail, List.modifyHead_cons]

theorem cutAt_of_first (hsep : sep ≠ []) {p : List Char} (h : First sep p) (rest : List Char) :
    cutAt sep (p ++ sep ++ rest) = some (p, rest) := by
  induction p with
  | nil => exact cutAt_append sep rest
  | cons c p ih =>
    have hstart := h.not_prefix hsep rest
    rw [List.cons_append, List.cons_append] at hstart ⊢
    have hdrop : dropStart? sep (c :: (p ++ sep ++ rest)) = none := by
      rw [← startsWith_iff, startsWith] at hstart
      simpa using hstart
    rw [cutAt, hdrop]
    simp only [ih h.tail, Option.map_some]

/-! ## Pieces -/

/-- Pieces between which a separator is found at once: none begins earlier, and there is none behind the last. -/
def Parted (sep : List Char) : List (List Char) → Prop
  | [] => False
  | [p] => ¬ sep <:+: p
  | p :: ps => First sep p ∧ Parted sep ps

theorem parted_cons {p : List Char} {ps : List (List Char)} (h : ps ≠ []) :
    Parted sep (p :: ps) ↔ First sep p ∧ Parted sep ps := by
  obtain ⟨q, qs, rfl⟩ := List.exists_cons_of_ne_nil h
  rfl

theorem splitOn_joinWith (hsep : sep ≠ []) {ps : List (List Char)} (h : Parted sep ps) :
    splitOn sep (joinWith sep ps) = ps := by
  induction ps with
  | nil => exact absurd h id
  | cons p ps ih =>
    by_cases hps : ps = []
    · subst hps
      exact splitOn_of_notInfix h
    · obtain ⟨hp, hrest⟩ := (parted_cons hps).1 h
      rw [joinWith_cons hps, splitOn_of_first hsep hp, ih hrest]

theorem splitOn_spec (hsep : sep ≠ []) (cs : List Char) :
    Parted sep (splitOn sep cs) ∧ joinWith sep (splitOn sep cs) = cs := by
  induction cs using scan_induction hsep with
  | nil =>
    have hnil : ¬ sep <:+: [] := by simpa using hsep
    rw [splitOn_of_notInfix hnil]
    exact ⟨hnil, rfl⟩
  | found found rest hlength hstart ih =>
    obtain rfl : sep = found := eq_of_startsWith hlength hstart
    have hne := splitOn_ne_nil hsep rest
    rw [splitOn_append hsep, parted_cons hne, joinWith_cons hne]
    refine ⟨⟨fun hin => ?_, ih.1⟩, by simp [ih.2]⟩
    have hle := hin.length_le
    have hpos : 0 < sep.length := List.length_pos_iff.2 hsep
    simp at hle
    omega
  | next c cs hstart ih =>
    obtain ⟨hparted, hjoin⟩ := ih
    rw [splitOn_of_next hsep hstart]
    rw [startsWith_eq_false_iff] at hstart
    obtain ⟨p, ps, hpieces⟩ := List.exists_cons_of_ne_nil (splitOn_ne_nil hsep cs)
    rw [hpieces] at hparted hjoin ⊢
    refine ⟨?_, by rw [← hjoin]; exact joinWith_modifyHead (by simp) [c]⟩
    rw [List.modifyHead_cons]
    by_cases hps : ps = []
    · subst hps
      obtain rfl : p = cs := hjoin
      exact fun hin => (List.infix_cons_iff.1 hin).elim hstart hparted
    · rw [parted_cons hps] at hparted ⊢
      refine ⟨fun hin => ?_, hparted.2⟩
      rcases List.infix_cons_iff.1 hin with hbegins | hin
      · refine hstart (hbegins.trans ?_)
        rw [← hjoin, joinWith_cons hps, List.append_assoc]
        exact (List.prefix_append_right_inj (c :: p)).2
          ((List.dropLast_prefix sep).trans (List.prefix_append sep _))
      · exact hparted.1 hin

/-! ## Separators without borders -/

/-- No beginning of the separator, all of it apart, is an end of it too. -/
def Borderless (sep : List Char) : Prop := ∀ n < sep.length, 0 < n → ¬ sep.take n <:+ sep

instance (sep : List Char) : Decidable (Borderless sep) :=
  inferInstanceAs (Decidable (∀ n < sep.length, 0 < n → ¬ sep.take n <:+ sep))

theorem Borderless.first (hsep : Borderless sep) {p : List Char} (h : ¬ sep <:+: p) (hne : sep ≠ []) :
    First sep p := by
  intro hin
  rcases List.infix_append_iff_ne_nil.1 hin with hp | hlast | ⟨x, y, hx, hy, rfl, -, hstart⟩
  · exact h hp
  · have hle := hlast.length_le
    have hpos : 0 < sep.length := List.length_pos_iff.2 hne
    simp at hle
    omega
  · have hbegins : y <+: x ++ y := hstart.trans (List.dropLast_prefix _)
    have hxpos : 0 < x.length := List.length_pos_iff.2 hx
    refine hsep y.length (by simp; omega) (List.length_pos_iff.2 hy) ?_
    rw [← List.prefix_iff_eq_take.1 hbegins]
    exact List.suffix_append x y

def Meets (a b : List Char) : Prop := ∃ n < b.length, b.take (n + 1) <:+ a

instance (a b : List Char) : Decidable (Meets a b) := inferInstanceAs (Decidable (∃ n < b.length, b.take (n + 1) <:+ a))

theorem meets_of {a b x : List Char} (hx : x ≠ []) (ha : x <:+ a) (hb : x <+: b) : Meets a b := by
  have hpos : 0 < x.length := List.length_pos_iff.2 hx
  have hle := hb.length_le
  refine ⟨x.length - 1, by omega, ?_⟩
  rwa [Nat.sub_add_cancel hpos, ← List.prefix_iff_eq_take.1 hb]

theorem not_infix_append_mark {mark x y : List Char} (hmark : ¬ sep <:+: mark) (hleft : ¬ Meets sep mark)
    (hright : ¬ Meets mark sep) (hlength : sep.length ≤ mark.length) (hx : ¬ sep <:+: x) (hy : ¬ sep <:+: y) :
    ¬ sep <:+: x ++ mark ++ y := by
  intro hin
  rcases List.infix_append_iff_ne_nil.1 hin with hin | hin | ⟨u, v, hu, hv, rfl, hend, -⟩
  · rcases List.infix_append_iff_ne_nil.1 hin with hin | hin | ⟨u, v, -, hv, rfl, -, hstart⟩
    · exact hx hin
    · exact hmark hin
    · exact hleft (meets_of hv (List.suffix_append u v) hstart)
  · exact hy hin
  · have hvpos : 0 < v.length := List.length_pos_iff.2 hv
    rw [List.length_append] at hlength
    have hmarkend : u <:+ mark := List.suffix_of_suffix_length_le hend (List.suffix_append x mark) (by omega)
    exact hright (meets_of hu hmarkend (List.prefix_append u v))

end

end Chars

/-! ## The same on strings -/

def Without (mark s : String) : Prop := ¬ mark.toList <:+: s.toList

instance (mark s : String) : Decidable (Without mark s) := inferInstanceAs (Decidable (¬ mark.toList <:+: s.toList))

theorem splitOn_of_without {mark s : String} (h : Without mark s) : splitOn s mark = [s] := by
  rw [splitOn, Chars.splitOn_of_notInfix h, List.map_singleton, String.ofList_toList]

section
variable {mark p : String} (hmark : Chars.Borderless mark.toList) (hne : mark.toList ≠ []) (h : Without mark p)
include hmark hne h

theorem splitOn_append_mark (rest : String) : splitOn (p ++ (mark ++ rest)) mark = p :: splitOn rest mark := by
  have hcut := Chars.splitOn_of_first hne (hmark.first h hne) rest.toList
  rw [splitOn, String.toList_append, String.toList_append, ← List.append_assoc, hcut, List.map_cons,
    String.ofList_toList, splitOn]

theorem splitOnce_append_mark (rest : String) : splitOnce (p ++ (mark ++ rest)) mark = (p, some rest) := by
  have hcut := Chars.cutAt_of_first hne (hmark.first h hne) rest.toList
  rw [splitOnce, String.toList_append, String.toList_append, ← List.append_assoc, hcut]
  simp only [String.ofList_toList]

end

end PlotAdvisor.Text
