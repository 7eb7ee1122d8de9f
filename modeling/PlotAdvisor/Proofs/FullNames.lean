import PlotAdvisor.Elements.Normalizer
import PlotAdvisor.Proofs.Separators

/-! Full names of modules. The short name that an id begins with is looked for in all of the id, so that the same
characters further behind, in the name of an attribute or in a key, are taken for the module too. -/
set_option autoImplicit false

namespace PlotAdvisor

namespace Text

/-! ## What replacing leaves as it is -/

namespace Chars

section
variable {old new : List Char}

/-- A longer text in the place of a shorter one makes the whole longer. -/
theorem length_replace (hold : old ≠ []) (hnew : old.length < new.length) (cs : List Char) :
    cs.length ≤ (replace old new cs).length ∧ (old <:+: cs → cs.length < (replace old new cs).length) := by
  induction hlength : cs.length using Nat.strongRecOn generalizing cs with
  | ind n ih =>
    by_cases hstart : old <+: cs
    · obtain ⟨rest, rfl⟩ := hstart
      have hpos : 0 < old.length := List.length_pos_iff.2 hold
      rw [List.length_append] at hlength
      have hrest := (ih rest.length (by omega) rest rfl).1
      rw [replace_append hold, List.length_append]
      omega
    · cases cs with
      | nil =>
        refine ⟨by simp at hlength; omega, fun hin => absurd hin ?_⟩
        simpa using hold
      | cons c cs =>
        rw [List.length_cons] at hlength
        obtain ⟨hle, hlt⟩ := ih cs.length (by omega) cs rfl
        rw [replace_cons hold hstart, List.length_cons, List.infix_cons_iff]
        refine ⟨by omega, fun hin => ?_⟩
        have := hlt (hin.resolve_left hstart)
        omega

theorem replace_eq_self_iff (hold : old ≠ []) (hnew : old.length < new.length) (cs : List Char) :
    replace old new cs = cs ↔ ¬ old <:+: cs := by
  refine ⟨fun hself hin => ?_, replace_of_not_infix⟩
  have hlt := (length_replace hold hnew cs).2 hin
  rw [hself] at hlt
  omega

end

end Chars

theorem startsWith_eq_true_iff (s start : String) : startsWith s start = true ↔ ∃ rest, s = start ++ rest := by
  rw [startsWith, Chars.startsWith_iff]
  constructor
  · rintro ⟨rest, h⟩
    refine ⟨String.ofList rest, String.toList_injective ?_⟩
    rw [String.toList_append, String.toList_ofList, h]
  · rintro ⟨rest, rfl⟩
    exact ⟨rest.toList, String.toList_append.symm⟩

theorem startsWith_upTo {c : Char} {start : String} (h : c ∉ start.toList) (s : String) :
    startsWith (upTo c s) start = startsWith s start := by
  rw [Bool.eq_iff_iff, startsWith_eq_true_iff, startsWith_eq_true_iff]
  constructor
  · rintro ⟨rest, hrest⟩
    exact ⟨rest ++ fromFirst c s, by rw [← String.append_assoc, ← hrest, upTo_append_fromFirst]⟩
  · rintro ⟨rest, rfl⟩
    exact ⟨upTo c rest, upTo_append h rest⟩

end Text

namespace Elements

open Text

/-! ## The leading module -/

def moduleNames : List (String × String) := [
  ("plt.gca.", "matplotlib.axes.Axes."),
  ("plt.", "matplotlib.pyplot."),
  ("ax.", "matplotlib.axes.Axes."),
  ("mpl.", "matplotlib.")]

/-- The first short name that an id begins with, and its full name. -/
def leadingModule? (id : String) : Option (String × String) := moduleNames.find? fun m => startsWith id m.1

theorem lengthen_eq (id : String) :
    lengthen id = match leadingModule? id with
      | some (short, full) => replace id short full
      | none => id := by
  have hpath (start : String) (h : '@' ∉ start.toList) :
      startsWith (splitOnce id "@").1 start = startsWith id start := by
    rw [splitOnce_fst (c := '@') rfl, startsWith_upTo h]
  simp only [lengthen, leadingModule?, moduleNames, List.find?_cons, List.find?_nil]
  rw [hpath "plt.gca." (by decide), hpath "plt." (by decide), hpath "ax." (by decide), hpath "mpl." (by decide)]
  cases startsWith id "plt.gca." with
  | true => rfl
  | false =>
    cases startsWith id "plt." with
    | true => rfl
    | false =>
      cases startsWith id "ax." with
      | true => rfl
      | false => cases startsWith id "mpl." <;> rfl

theorem length_lt_of_moduleNames :
    ∀ m ∈ moduleNames, m.1.toList ≠ [] ∧ m.1.toList.length < m.2.toList.length := by
  decide

theorem replace_leading {short full : String} (hshort : short.toList ≠ []) (rest : String) :
    replace (short ++ rest) short full = full ++ replace rest short full := by
  apply String.toList_injective
  simp [replace, Chars.replace_append hshort]

/-- The full name of the leading module takes its place, and the rest of the id stays as it is exactly when the short name
does not occur in it again; otherwise it becomes the full name there too. An id without a leading module stays. -/
theorem lengthen_leading_iff (id : String) :
    match leadingModule? id with
    | some (short, full) => ∃ rest, id = short ++ rest ∧ lengthen id = full ++ replace rest short full ∧
        (lengthen id = full ++ rest ↔ ¬ short.toList <:+: rest.toList)
    | none => lengthen id = id := by
  rw [lengthen_eq]
  cases hmodule : leadingModule? id with
  | none => rfl
  | some m =>
    obtain ⟨short, full⟩ := m
    obtain ⟨hshort, hlength⟩ := length_lt_of_moduleNames _ (List.mem_of_find?_eq_some hmodule)
    have hstart : startsWith id short = true := by
      simpa using List.find?_some hmodule
    obtain ⟨rest, rfl⟩ := (startsWith_eq_true_iff id short).1 hstart
    refine ⟨rest, rfl, replace_leading hshort rest, ?_⟩
    have hrest : replace rest short full = rest ↔ ¬ short.toList <:+: rest.toList := by
      rw [← Chars.replace_eq_self_iff hshort hlength, replace, ← String.toList_inj, String.toList_ofList]
    rw [← hrest]
    show replace (short ++ rest) short full = full ++ rest ↔ _
    rw [replace_leading hshort, String.append_right_inj]

theorem attribute_taken_for_module :
    leadingModule? "ax.dataLim.max.tolist" = some ("ax.", "matplotlib.axes.Axes.") ∧
      lengthen "ax.dataLim.max.tolist" = "matplotlib.axes.Axes.dataLim.mmatplotlib.axes.Axes.tolist" ∧
      lengthen "ax.dataLim.max.tolist" ≠ "matplotlib.axes.Axes." ++ "dataLim.max.tolist" := by
  decide

end Elements

end PlotAdvisor
