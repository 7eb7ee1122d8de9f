import PlotAdvisor.Assistant.Cursor
import PlotAdvisor.Program.Groups
import PlotAdvisor.Proofs.Pieces
import PlotAdvisor.Proofs.Words

/-! The text of a range of a program, the same whether it is cut from the lines at once or line by line.

* `Program.textBetween_one`, `Program.textBetween_more` - cut at once, within a line and over several.
* `Assistant.textOf_one`, `Assistant.textOf_more` - cut line by line.
-/
set_option autoImplicit false

namespace PlotAdvisor

namespace Program

/-! ## The text of a range, cut at once -/

theorem exists_eq_append_cons {α : Type} (xs : List α) (n : Nat) (h : n < xs.length) :
    ∃ before x after, xs = before ++ x :: after ∧ before.length = n :=
  ⟨xs.take n, xs[n], xs.drop (n + 1), by simp, List.length_take_of_le (Nat.le_of_lt h)⟩

theorem itemFrom_append {α : Type} (before : List α) (x : α) (after : List α) {i : Int} (hi : i = before.length) :
    itemFrom (before ++ x :: after) i = .ok x := by
  subst hi
  have hat : ¬ (before.length : Int) < 0 := by omega
  simp only [itemFrom, if_neg hat]
  rw [Int.toNat_natCast, List.getElem?_append_right (Nat.le_refl _), Nat.sub_self]
  rfl

section
variable (before : List String) {first stop : Int} (hfirst : first = before.length) (col endCol : Int)
include hfirst

theorem textBetween_one (l : String) (after : List String) (hstop : stop = first + 1) :
    textBetween (before ++ l :: after) first stop col endCol = .ok (Text.slice l col endCol) := by
  rw [textBetween, if_pos (by omega), itemFrom_append before l after hfirst]
  rfl

theorem textBetween_more (head : String) (mid : List String) (last : String) (after : List String)
    (hstop : stop = first + mid.length + 2) :
    textBetween (before ++ head :: (mid ++ last :: after)) first stop col endCol =
      .ok (Text.join "\n" (Text.slice head col head.length :: (mid ++ [Text.slice last 0 endCol]))) := by
  have hhead := itemFrom_append before head (mid ++ last :: after) hfirst
  have hlast : itemFrom (before ++ head :: mid ++ last :: after) (stop - 1) = .ok last :=
    itemFrom_append (before ++ head :: mid) last after (by simp; omega)
  have hmid : Text.Chars.slice (before ++ [head] ++ (mid ++ last :: after)) (first + 1) (stop - 1) = mid :=
    Text.Chars.slice_append (before ++ [head]) mid (last :: after) (by simp; omega) (by simp; omega)
  rw [List.append_assoc, List.cons_append] at hlast
  rw [List.append_assoc, List.singleton_append] at hmid
  rw [textBetween, if_neg (by omega), if_pos (by omega), hhead, hlast]
  simp only [Bind.bind, Except.bind]
  rw [hmid]
  rfl

end

end Program

/-! ## The text of a range, line by line -/

namespace Assistant

open Program

theorem linesFrom_cons (s : Span) (before : List String) (l : String) (after : List String) (count : Nat) {line : Int}
    (hline : line = before.length + 1) :
    linesFrom (before ++ l :: after) s (count + 1) line = do
      let rest ← linesFrom (before ++ l :: after) s count (line + 1)
      return Text.slice l (if line = s.start.line then s.start.col else 0)
        (if line = s.stop.line then s.stop.col else l.length) :: rest := by
  have hl : lineAt (before ++ l :: after) line = .ok l := by
    have hplace : (line - 1).toNat = before.length := by omega
    rw [lineAt, hplace, List.getElem?_append_right (Nat.le_refl _), Nat.sub_self]
    rfl
  rw [linesFrom, hl]
  rfl

/-- Behind the first line of a range, lines are taken whole up to the last one. -/
theorem linesFrom_behind {s : Span} (before mid : List String) (last : String) (after : List String) {line : Int}
    (hline : line = before.length + 1) (hstart : s.start.line < line) (hstop : s.stop.line = line + mid.length) :
    linesFrom (before ++ (mid ++ last :: after)) s (mid.length + 1) line =
      .ok (mid ++ [Text.slice last 0 s.stop.col]) := by
  induction mid generalizing before line with
  | nil =>
    rw [List.nil_append, linesFrom_cons s before last after _ hline, if_neg (by omega),
      if_pos (by simpa using hstop.symm)]
    rfl
  | cons l mid ih =>
    rw [List.length_cons] at hstop
    have hrest : linesFrom (before ++ [l] ++ (mid ++ last :: after)) s (mid.length + 1) (line + 1) = _ :=
      ih (before ++ [l]) (by simp [hline]) (by omega) (by omega)
    rw [List.append_assoc, List.singleton_append] at hrest
    rw [List.cons_append, List.length_cons, linesFrom_cons s before l _ _ hline, hrest, if_neg (by omega),
      if_neg (by omega), Text.slice_whole]
    rfl

section
variable (before : List String) {s : Span} (hstart : s.start.line = before.length + 1)
include hstart

theorem textOf_one (l : String) (after : List String) (hstop : s.stop.line = s.start.line) :
    textOf (before ++ l :: after) s = .ok (Text.slice l s.start.col s.stop.col) := by
  have hcount : (s.stop.line - s.start.line + 1).toNat = 1 := by omega
  rw [textOf, hcount, linesFrom_cons s before l after 0 hstart, if_pos rfl, if_pos hstop.symm]
  exact congrArg Except.ok (Text.join_singleton "\n" _)

theorem textOf_more (head : String) (mid : List String) (last : String) (after : List String)
    (hstop : s.stop.line = s.start.line + mid.length + 1) :
    textOf (before ++ head :: (mid ++ last :: after)) s =
      .ok (Text.join "\n" (Text.slice head s.start.col head.length :: (mid ++ [Text.slice last 0 s.stop.col]))) := by
  have hcount : (s.stop.line - s.start.line + 1).toNat = mid.length + 1 + 1 := by omega
  have hrest : linesFrom (before ++ [head] ++ (mid ++ last :: after)) s (mid.length + 1) (s.start.line + 1) = _ :=
    linesFrom_behind (before ++ [head]) mid last after (by simp [hstart]) (by omega) (by omega)
  rw [List.append_assoc, List.singleton_append] at hrest
  rw [textOf, hcount, linesFrom_cons s before head _ _ hstart, hrest, if_pos rfl, if_neg (by omega)]
  rfl

end

/-- For a node with a range inside the lines, whatever its columns are, there is a text, and both ways of cutting it out
give it. -/
theorem textOfNode_eq_textBetween (lines : List String) (t : Tree) (line col endLine endCol : Int)
    (hspan : t.span = some (Span.of line col endLine endCol)) (hfirst : 1 ≤ line) (horder : line ≤ endLine)
    (hlast : endLine ≤ lines.length) :
    ∃ text, textOfNode lines t = .ok text ∧ textBetween lines (line - 1) endLine col endCol = .ok text := by
  have hnode : textOfNode lines t = textOf lines (Span.of line col endLine endCol) := by
    rw [textOfNode, hspan]
    rfl
  rw [hnode]
  obtain ⟨before, head, behind, rfl, hbefore⟩ := exists_eq_append_cons lines (line - 1).toNat (by omega)
  rw [List.length_append, List.length_cons] at hlast
  have hstart : line = before.length + 1 := by omega
  rcases Int.lt_or_eq_of_le horder with hmore | hone
  · obtain ⟨mid, last, after, rfl, hmid⟩ := exists_eq_append_cons behind (endLine - line - 1).toNat (by omega)
    have hstop : endLine = line + mid.length + 1 := by omega
    exact ⟨_, textOf_more before hstart head mid last after hstop,
      textBetween_more before (by omega) col endCol head mid last after (by omega)⟩
  · exact ⟨_, textOf_one before hstart head behind hone.symm,
      textBetween_one before (by omega) col endCol head behind (by omega)⟩

/-- From the middle of the first line to a place behind the end of the third. -/
theorem textOfNode_three_lines :
    let call : Tree := .node "Call" (some (Span.of 2 4 4 9)) []
    ∃ text, textOfNode ["", "x = f(a,", "  b,", " c)", "y"] call = .ok text ∧
      textBetween ["", "x = f(a,", "  b,", " c)", "y"] 1 4 4 9 = .ok text ∧ text = "f(a,\n  b,\n c)" := by
  intro call
  obtain ⟨text, hnode, hbetween⟩ := textOfNode_eq_textBetween ["", "x = f(a,", "  b,", " c)", "y"] call 2 4 4 9 rfl
    (by decide) (by decide) (by decide)
  exact ⟨text, hnode, hbetween, (Except.ok.inj hnode).symm⟩

end Assistant

end PlotAdvisor
