import PlotAdvisor.Elements.Normalizer
import PlotAdvisor.Proofs.Pieces
import PlotAdvisor.Proofs.Table

/-! What is read from the texts that come with the library: the short forms, and the functions of the plotting module.

* `Csv.read_rows` - plain rows of two fields are read back.
* `shippedRows`, `HasShippedForms` - the rows of the short forms, and a normalizer that has them.
* `mem_definedFunctions` - a line of the summary gives a function of the module.
* `ofSources_shipped` - the normalizer of the texts that come with the library.
-/
set_option autoImplicit false

namespace PlotAdvisor

/-! ## Plain rows -/

namespace Csv

theorem recordsFrom_plain_cons (field : List Char) (fields : List (List Char)) (c : Char) (cs : List Char)
    (h : needsQuotes c = false) :
    recordsFrom .plain field fields (c :: cs) = recordsFrom .plain (c :: field) fields cs := by
  simp only [needsQuotes, Bool.or_eq_false_iff, beq_eq_false_iff_ne] at h
  obtain ⟨⟨⟨hcomma, -⟩, hline⟩, hreturn⟩ := h
  rw [recordsFrom]
  · simp [hcomma, hline, hreturn]
  · exact fun _ hc => absurd hc hreturn

theorem recordsFrom_begin (mode : Mode) (hmode : mode = .record ∨ mode = .start) (fields : List (List Char))
    (c : Char) (cs : List Char) (h : needsQuotes c = false) :
    recordsFrom mode [] fields (c :: cs) = recordsFrom .plain [c] fields cs := by
  simp only [needsQuotes, Bool.or_eq_false_iff, beq_eq_false_iff_ne] at h
  obtain ⟨⟨⟨hcomma, hquote⟩, hline⟩, hreturn⟩ := h
  rcases hmode with rfl | rfl
  all_goals
    rw [recordsFrom]
    · simp [hcomma, hquote, hline, hreturn]
    all_goals simp [hreturn]

theorem recordsFrom_comma (field : List Char) (fields : List (List Char)) (cs : List Char) :
    recordsFrom .plain field fields (',' :: cs) = recordsFrom .start [] (field.reverse :: fields) cs := by
  rw [recordsFrom]
  · simp
  · simp

theorem recordsFrom_line (field : List Char) (fields : List (List Char)) (cs : List Char) :
    recordsFrom .plain field fields ('\n' :: cs) =
      (field.reverse :: fields).reverse :: recordsFrom .record [] [] cs := by
  rw [recordsFrom]
  · simp
  · simp

/-- A text that is not empty and needs no quotes. -/
def IsPlain (s : String) : Prop := s.toList ≠ [] ∧ s.toList.any needsQuotes = false

instance (s : String) : Decidable (IsPlain s) := inferInstanceAs (Decidable (_ ∧ _))

theorem recordsFrom_field (mode : Mode) (hmode : mode = .record ∨ mode = .start) (fields : List (List Char))
    (s : String) (hs : IsPlain s) (rest : List Char) :
    recordsFrom mode [] fields (s.toList ++ rest) = recordsFrom .plain s.toList.reverse fields rest := by
  obtain ⟨hne, hnone⟩ := hs
  have hplain : ∀ c ∈ s.toList, needsQuotes c = false := by simpa using hnone
  obtain ⟨c, cs, hcs⟩ := List.exists_cons_of_ne_nil hne
  have hmore (field : List Char) : recordsFrom .plain field fields (cs ++ rest) =
      recordsFrom .plain (cs.reverse ++ field) fields rest := by
    have hplain : ∀ d ∈ cs, needsQuotes d = false := fun d hd => hplain d (by simp [hcs, hd])
    clear hcs
    induction cs generalizing field with
    | nil => rfl
    | cons d cs ih =>
      rw [List.cons_append, recordsFrom_plain_cons field fields d _ (hplain d (by simp)),
        ih _ fun e he => hplain e (by simp [he])]
      simp
  rw [hcs, List.cons_append, recordsFrom_begin mode hmode fields c _ (hplain c (by simp [hcs])), hmore,
    List.reverse_cons]

def row (r : String × String) : String := r.1 ++ "," ++ r.2 ++ "\n"

theorem read_rows (rows : List (String × String)) (h : ∀ r ∈ rows, IsPlain r.1 ∧ IsPlain r.2) :
    read (String.join (rows.map row)) = rows.map fun r => [r.1, r.2] := by
  induction rows with
  | nil => rfl
  | cons r rows ih =>
    have ih := ih fun q hq => h q (by simp [hq])
    obtain ⟨h1, h2⟩ := h r (by simp)
    unfold read at ih ⊢
    have htext : (String.join ((r :: rows).map row)).toList =
        r.1.toList ++ ',' :: (r.2.toList ++ '\n' :: (String.join (rows.map row)).toList) := by
      simp [String.join_cons, row]
    rw [htext, recordsFrom_field .record (Or.inl rfl) [] r.1 h1, recordsFrom_comma,
      recordsFrom_field .start (Or.inr rfl) _ r.2 h2, recordsFrom_line, List.map_cons, ih]
    simp

end Csv

/-! ## The rows that come with the library -/

namespace Elements

/-- The modules and functions that have a short form. -/
def shippedRows : List (String × String) := [
  ("matplotlib", "mpl"),
  ("matplotlib.pyplot", "plt"),
  ("matplotlib.axes.Axes", "ax"),
  ("matplotlib.pyplot.axes", "plt.gca"),
  ("matplotlib.pyplot.figure.add_axes", "plt.gca"),
  ("matplotlib.pyplot.figure.gca", "plt.gca"),
  ("matplotlib.pyplot.figure.add_subplot", "plt.gca"),
  ("matplotlib.pyplot.gcf.add_subplot", "plt.gca"),
  ("matplotlib.pyplot.subplot", "plt.gca"),
  ("matplotlib.pyplot.subplot2grid", "plt.gca")]

theorem read_shortForms : (Csv.read Knowledge.shortForms).mapM Normalizer.fullRow = .ok shippedRows := by
  have htext : Knowledge.shortForms = String.join (shippedRows.map Csv.row) := by
    rfl
  rw [htext, Csv.read_rows shippedRows (by decide)]
  rfl

def HasShippedForms (n : Normalizer) : Prop :=
  ∃ rows, (Csv.read Knowledge.shortForms).mapM Normalizer.fullRow = .ok rows ∧ n.shortForms = Table.ofList rows

theorem hasShippedForms_iff (n : Normalizer) : HasShippedForms n ↔ n.shortForms = Table.ofList shippedRows := by
  simp [HasShippedForms, read_shortForms]

theorem mem_shippedRows {n : Normalizer} (hn : HasShippedForms n) {k v : String}
    (h : n.shortForms.get? k = some v) : (k, v) ∈ shippedRows := by
  rw [(hasShippedForms_iff n).1 hn] at h
  exact (Table.mem_of_get?_setAll h).resolve_right nofun

theorem get?_shortForms_module {n : Normalizer} (hn : HasShippedForms n) :
    n.shortForms.get? "matplotlib" = some "mpl" := by
  rw [(hasShippedForms_iff n).1 hn]
  rfl

end Elements

/-! ## Functions of the module -/

namespace Knowledge

open Text

theorem line_toList : "\n".toList = ['\n'] := rfl

theorem fieldsAtNewline_lines (ls : List String) (h : ∀ l ∈ ls, '\n' ∉ l.toList) :
    fieldsAtNewline (String.join (ls.map (· ++ "\n"))) = ls ++ [""] := by
  induction ls with
  | nil => rfl
  | cons l ls ih =>
    rw [fieldsAtNewline, List.map_cons, String.join_cons, splitOn_append line_toList (h l (by simp))]
    exact congrArg (l :: ·) (ih fun m hm => h m (by simp [hm]))

theorem mem_fieldsAtNewline (rows : List String) (i : Nat) (before line : String)
    (hbefore : rows[i]? = some (before ++ "\n")) (hrow : rows[i + 1]? = some (line ++ "\n"))
    (hline : '\n' ∉ line.toList) : line ∈ (fieldsAtNewline (String.join rows)).drop 1 := by
  obtain ⟨hi, hi_eq⟩ := List.getElem?_eq_some_iff.1 hbefore
  obtain ⟨hj, hj_eq⟩ := List.getElem?_eq_some_iff.1 hrow
  have hrows : rows = rows.take i ++ (before ++ "\n") :: (line ++ "\n") :: rows.drop (i + 2) := by
    rw [← hi_eq, ← hj_eq, List.getElem_cons_drop, List.getElem_cons_drop, List.take_append_drop]
  have htext : String.join rows =
      (String.join (rows.take i) ++ before) ++ "\n" ++ (line ++ "\n" ++ String.join (rows.drop (i + 2))) := by
    refine (congrArg String.join hrows).trans ?_
    simp [String.join_append, String.join_cons, String.append_assoc]
  obtain ⟨p, ps, hp⟩ := List.exists_cons_of_ne_nil
    (splitOn_ne_nil line_toList (String.join (rows.take i) ++ before))
  rw [fieldsAtNewline, htext, splitOn_append_append line_toList, splitOn_append line_toList hline, hp]
  simp

def definedBy (line : String) : Option String :=
  (Chars.dropStart? "def ".toList (Chars.trim line.toList)).map fun rest =>
    String.ofList (rest.takeWhile (· != '('))

theorem mem_definedFunctions {summary f : String} (line : String) (hline : line ∈ (fieldsAtNewline summary).drop 1)
    (hf : definedBy ("def " ++ (splitOnce line ",").1 ++ "(x):") = some f) :
    f ∈ definedFunctions (moduleOfSummary summary) := by
  let header (l : String) : String := "def " ++ (splitOnce l ",").1 ++ "(x):"
  have hmodule : moduleOfSummary summary =
      String.join ((((fieldsAtNewline summary).drop 1).map header).map (· ++ "\n")) := by
    unfold moduleOfSummary
    rw [List.map_map]
    congr 1
    apply List.map_congr_left
    intro l _
    simp [header, String.append_assoc]
  have hheaders : ∀ h ∈ ((fieldsAtNewline summary).drop 1).map header, '\n' ∉ h.toList := by
    intro h hh
    obtain ⟨l, hl, rfl⟩ := List.mem_map.1 hh
    have hno : '\n' ∉ l.toList := notMem_of_mem_splitOn line_toList (List.mem_of_mem_drop hl)
    have hname : '\n' ∉ (splitOnce l ",").1.toList := by
      rw [splitOnce_fst (c := ',') rfl]
      exact fun hmem => hno (mem_of_mem_upTo hmem)
    simp [header, hname]
  unfold definedFunctions
  rw [hmodule, fieldsAtNewline_lines _ hheaders]
  refine List.mem_filterMap.2 ⟨header line, ?_, hf⟩
  exact List.mem_append_left _ (List.mem_map.2 ⟨line, hline, rfl⟩)

theorem mem_shippedFunctions (i : Nat) (before line : String) {f : String}
    (hbefore : plottingRows[i]? = some (before ++ "\n")) (hrow : plottingRows[i + 1]? = some (line ++ "\n"))
    (hline : '\n' ∉ line.toList) (hf : definedBy ("def " ++ (splitOnce line ",").1 ++ "(x):") = some f) :
    f ∈ definedFunctions Sources.shipped.plottingModule := by
  have hmodule : Sources.shipped.plottingModule = moduleOfSummary (String.join plottingRows) := by
    rw [Sources.shipped, plottingSummary]
  rw [hmodule]
  exact mem_definedFunctions line (mem_fieldsAtNewline plottingRows i before line hbefore hrow hline) hf

end Knowledge

/-! ## The normalizer -/

namespace Elements

/-- The functions whose results have a type that is known, in normal form. -/
def shippedTypes : List (String × String) := [("plt.gca", "mpl.axes.Axes"), ("plt.legend", "mpl.legend.Legend")]

theorem read_returnTypes :
    (Csv.read Knowledge.Sources.shipped.returnTypes).mapM Normalizer.fullRow = .ok shippedTypes := by
  have htext : Knowledge.Sources.shipped.returnTypes = String.join (shippedTypes.map Csv.row) := rfl
  rw [htext, Csv.read_rows shippedTypes (by decide)]
  rfl

/-- The normalizer of the texts that come with the library, before the types of results are brought into normal form. -/
def shippedBare : Normalizer :=
  ⟨Table.ofList shippedRows, .empty, Knowledge.definedFunctions Knowledge.Sources.shipped.plottingModule⟩

theorem ofSources_shippedBare : Normalizer.ofSources Knowledge.Sources.shipped =
    .ok { shippedBare with
      returnTypes := .ofList (shippedTypes.map fun r => (shippedBare.simplify r.1, shippedBare.simplify r.2)) } := by
  have hshort : (Csv.read Knowledge.Sources.shipped.shortForms).mapM Normalizer.fullRow = .ok shippedRows :=
    read_shortForms
  have hdocs : Knowledge.readDocs Knowledge.Sources.shipped {} = .ok ⟨.empty, .empty⟩ := rfl
  unfold Normalizer.ofSources shippedBare
  rw [hshort, read_returnTypes, hdocs]
  -- the list of functions is long, and nothing here depends on it
  generalize Knowledge.definedFunctions Knowledge.Sources.shipped.plottingModule = functions
  rfl

theorem hasShippedForms_shippedBare : HasShippedForms shippedBare :=
  (hasShippedForms_iff _).2 (by rw [shippedBare])

theorem ofSources_shipped : ∃ n, Normalizer.ofSources Knowledge.Sources.shipped = .ok n ∧ HasShippedForms n ∧
    n.functions = Knowledge.definedFunctions Knowledge.Sources.shipped.plottingModule :=
  ⟨_, ofSources_shippedBare, hasShippedForms_shippedBare, by rw [shippedBare]⟩

end Elements

end PlotAdvisor
