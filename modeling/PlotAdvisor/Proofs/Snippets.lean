import PlotAdvisor.Mining.Snippets
import PlotAdvisor.Proofs.Separators
import PlotAdvisor.Proofs.Words

/-! Which snippets are safe to run. In a text of printable characters and blanks of ASCII, blanking the punctuation and
cutting at blanks gives the maximal runs of letters, digits and underscores. -/
set_option autoImplicit false

namespace PlotAdvisor.Mining

open Text

/-- A printable character or a blank of ASCII. -/
def isPlain (c : Char) : Bool := (32 ≤ c.toNat && c.toNat ≤ 126) || isAsciiBlank c

/-- A character of a name: a letter, a digit or an underscore. -/
def inName (c : Char) : Bool := c.isAlphanum || c == '_'

theorem inName_iff_toNat (c : Char) : inName c = true ↔ (48 ≤ c.toNat ∧ c.toNat ≤ 57) ∨
    (65 ≤ c.toNat ∧ c.toNat ≤ 90) ∨ c.toNat = 95 ∨ (97 ≤ c.toNat ∧ c.toNat ≤ 122) := by
  have hline : c = '_' ↔ c.toNat = 95 := Char.toNat_inj.symm
  have hvalue : c.val.toNat = c.toNat := rfl
  have hclasses : c.isAlphanum = (decide (c.val ≥ 'A'.val ∧ c.val ≤ 'Z'.val) ||
      decide (c.val ≥ 'a'.val) && decide (c.val ≤ 'z'.val) || decide (c.val ≥ '0'.val) && decide (c.val ≤ '9'.val)) := rfl
  simp only [inName, hclasses, Bool.or_eq_true, Bool.and_eq_true, decide_eq_true_eq, beq_iff_eq, hline, ge_iff_le,
    UInt32.le_iff_toNat_le, hvalue, Char.reduceVal, UInt32.reduceToNat]
  omega

theorem inName_iff {c : Char} (hc : isPlain c = true) : inName c = true ↔ isMark c = false ∧ isAsciiBlank c = false := by
  have hline : c = '_' ↔ c.toNat = 95 := Char.toNat_inj.symm
  have hspace : c = ' ' ↔ c.toNat = 32 := Char.toNat_inj.symm
  rw [inName_iff_toNat, ← Bool.not_eq_true, ← Bool.not_eq_true]
  simp only [isPlain, isMark, isAsciiBlank, Bool.or_eq_true, Bool.and_eq_true, decide_eq_true_eq, beq_iff_eq, bne_iff_ne,
    ne_eq, hline, hspace] at hc ⊢
  omega

/-- A snippet is safe exactly when it has no two underscores in a row, and no maximal run of letters, digits and
underscores in it is a forbidden word. -/
theorem isSafe_iff {code : String} (hcode : ∀ c ∈ code.toList, isPlain c = true) :
    isSafe code = true ↔ ¬ "__".toList <:+: code.toList ∧
      ∀ w ∈ ["sys", "os", "savefig", "sleep", "raw_input", "SystemExit", "py2exe", "multiprocessing", "threading",
        "write_png"], ¬ Chars.MaximalRun inName w.toList code.toList := by
  have hwords (w : List Char) : w ∈ Chars.asciiWords (code.toList.map fun c => if isMark c then ' ' else c) ↔
      Chars.MaximalRun inName w code.toList := by
    rw [Chars.mem_asciiWords_iff]
    refine Chars.maximalRun_map (fun c hc => ?_) fun c hc hname => ?_
    · rw [Bool.eq_iff_iff, inName_iff (hcode c hc)]
      cases isMark c <;> simp [show isAsciiBlank ' ' = true from rfl]
    · rw [((inName_iff (hcode c hc)).1 hname).1, if_neg (by simp)]
  have hhas : Text.has code "__" = true ↔ "__".toList <:+: code.toList := Chars.contains_iff _ _
  rw [isSafe, Bool.and_eq_true, Bool.not_eq_true', ← Bool.not_eq_true, hhas, List.all_eq_true]
  refine and_congr_right fun _ => ⟨fun h w hw hrun => ?_, fun h w hw => ?_⟩
  · have hfree := h w.toList ((hwords _).2 hrun)
    rw [String.ofList_toList, Bool.not_eq_true', ← Bool.not_eq_true, List.contains_iff_mem] at hfree
    exact hfree hw
  · rw [Bool.not_eq_true', ← Bool.not_eq_true, List.contains_iff_mem]
    intro hforbidden
    refine h _ hforbidden ?_
    rw [String.toList_ofList]
    exact (hwords w).1 hw

theorem not_isSafe_path : (∀ c ∈ "x=os.path".toList, isPlain c = true) ∧ isSafe "x=os.path" = false := by
  have hplain : ∀ c ∈ "x=os.path".toList, isPlain c = true := List.all_eq_true.1 rfl
  refine ⟨hplain, Bool.eq_false_iff.2 fun hsafe => ?_⟩
  obtain ⟨-, hfree⟩ := (isSafe_iff hplain).1 hsafe
  have hname : ∀ c ∈ "os".toList, inName c = true := List.all_eq_true.1 rfl
  refine hfree "os" (by simp) ⟨by simp, hname, "x=".toList, ".path".toList, rfl, ?_, ?_⟩
  · intro u c (hu : ['x'] ++ ['='] = u ++ [c])
    obtain ⟨-, hc⟩ := List.append_inj' hu rfl
    rw [← List.singleton_inj.1 hc]
    decide
  · intro c u hu
    rw [← (List.cons.inj hu).1]
    decide

end PlotAdvisor.Mining
