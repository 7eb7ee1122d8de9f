import Mathlib.Tactic.ByContra
import PlotAdvisor.Assistant.Exchange
import PlotAdvisor.Proofs.Faults

/-! Which responses tell that a text is no program. Once a program has been taken up, only the look for the
functions that it calls reads it again, and only summaries and suggestions look for them. -/
set_option autoImplicit false

namespace PlotAdvisor.Assistant

open Program Elements Documentation

/-! ## Ranges and texts -/

theorem avoids_span (u : Use) : Avoids .unparsable u.span := by
  refine (Avoids.orFault _ (by simp)).bind fun s => ?_
  cases u.value with
  | none => exact Avoids.pure _
  | some v => exact (Avoids.orFault _ (by simp)).bind fun _ => Avoids.pure _

theorem avoids_valueSpan (u : Use) : Avoids .unparsable u.valueSpan := by
  unfold Use.valueSpan
  cases u.value with
  | none => exact Avoids.ok _
  | some v => exact (Avoids.orFault _ (by simp)).map some

theorem avoids_usesAtPlace (c : Context) (p : Place) : Avoids .unparsable (usesAtPlace c p) :=
  Avoids.filterM (fun u => (avoids_span u).bind fun _ => Avoids.pure _) c.uses

theorem avoids_linesFrom (lines : List String) (s : Span) (count : Nat) (line : Int) :
    Avoids .unparsable (linesFrom lines s count line) := by
  induction count generalizing line with
  | zero => exact Avoids.ok _
  | succ count ih =>
    exact (Avoids.orFault _ (by simp)).bind fun _ => (ih (line + 1)).bind fun _ => Avoids.pure _

theorem avoids_textOfNode (lines : List String) (t : Tree) : Avoids .unparsable (textOfNode lines t) :=
  (Avoids.orFault _ (by simp)).bind fun _ => (avoids_linesFrom lines _ _ _).bind fun _ => Avoids.pure _

/-! ## What is given to an element -/

theorem avoids_givenByKeywords (lines : List String) (owner : String) (call : Tree) :
    Avoids .unparsable (givenByKeywords lines owner call) :=
  Avoids.mapM (fun _ => (avoids_textOfNode lines _).bind fun _ =>
    (Avoids.orFault _ (by simp)).bind fun _ => Avoids.pure _) _

theorem avoids_givenByCall (lines : List String) (owner : String) (call : Tree) :
    Avoids .unparsable (givenByCall lines owner call) :=
  (Avoids.mapM (fun _ => (avoids_textOfNode lines _).bind fun _ => Avoids.pure _) _).bind fun _ =>
    (avoids_givenByKeywords lines owner call).bind fun _ => Avoids.pure _

theorem avoids_givenByTable (lines : List String) (owner : String) (t : Tree) :
    Avoids .unparsable (givenByTable lines owner t) := by
  refine Avoids.ite (fun _ => ?_) fun _ =>
    Avoids.ite (fun _ => avoids_givenByKeywords lines owner t) fun _ => Avoids.ok _
  refine (Avoids.mapM (fun entry => ?_) _).bind fun _ => Avoids.pure _
  dsimp only
  split
  · exact (avoids_textOfNode lines entry.2).bind fun _ => Avoids.pure _
  · exact Avoids.ok _

theorem avoids_givenTo (lines : List String) (u : Use) (type : String) :
    Avoids .unparsable (givenTo lines u type) := by
  unfold givenTo
  split
  · exact Avoids.ite (fun _ => avoids_givenByCall lines u.id u.node) fun _ => Avoids.ok _
  · cases u.value with
    | none => exact Avoids.ok _
    | some v => exact avoids_givenByTable lines u.id v
  · exact (Avoids.orFault _ (by simp)).bind fun _ => (avoids_textOfNode lines _).bind fun _ => Avoids.pure _
  · exact Avoids.ok _

/-! ## Choices -/

theorem avoids_ranked (s : Setup) (c : Option Context) (query : String) (cs : List Choice) :
    Avoids .unparsable (s.ranked c query cs) :=
  (Avoids.orFault _ (by simp)).bind fun _ => Avoids.pure _

theorem avoids_functionChoice (s : Setup) (inGallery : Bool) (f : String) :
    Avoids .unparsable (s.functionChoice inGallery f) := by
  unfold Setup.functionChoice
  cases s.library.find? ("plt." ++ f) with
  | none => exact Avoids.error (by simp)
  | some e => exact (Avoids.orFault _ (by simp [Text.noInteger])).bind fun _ => Avoids.pure _

theorem avoids_functionChoices (s : Setup) (c : Option Context) (query code : String)
    (h : Avoids .unparsable (s.called code)) : Avoids .unparsable (s.functionChoices c query code) :=
  h.bind fun _ => (Avoids.mapM (avoids_functionChoice s _) _).bind fun _ =>
    (avoids_ranked s c query _).bind fun _ => Avoids.pure _

theorem avoids_parameterChoices (s : Setup) (c : Option Context) (query code id : String)
    (use : Option (Use × List Given)) : Avoids .unparsable (s.parameterChoices c query code id use) := by
  unfold Setup.parameterChoices
  cases if id == "" then none else s.library.find? id with
  | none => exact Avoids.pure _
  | some e =>
    refine Avoids.ite (fun _ => Avoids.pure _) fun _ => ?_
    have hchoice (x : Entry String) : Avoids .unparsable (Setup.parameterChoice x) :=
      (Avoids.orFault _ (by simp [Text.noInteger])).bind fun _ => Avoids.pure _
    have hrange := Avoids.optionMapM (fun u : Use × List Given => avoids_span u.1) use
    refine (Avoids.mapM hchoice _).bind fun _ => (avoids_ranked s c query _).bind fun _ => ?_
    dsimp only
    exact hrange.bind fun _ => Avoids.pure _

theorem avoids_choices (s : Setup) (c : Option Context) (query code id : String)
    (use : Option (Use × List Given)) (h : Avoids .unparsable (s.called code)) :
    Avoids .unparsable (s.choices c query code id use) := by
  refine Avoids.ite (fun _ => (avoids_functionChoices s c query code h).map some) fun _ => ?_
  cases s.valueChoices id with
  | none => exact avoids_parameterChoices s c query code id use
  | some v => exact Avoids.ok _

/-! ## Matches and summaries -/

theorem avoids_matches (s : Setup) (d : Desk) (query code : String) :
    Avoids .unparsable (matches? s d query code) := by
  unfold matches? matchesFor
  cases d.context with
  | none => exact Avoids.ok _
  | some c =>
    refine Avoids.ite (fun _ => Avoids.ok _) fun _ => ?_
    refine (Avoids.mapM (fun u => ?_) _).bind fun _ => Avoids.pure _
    unfold matchOf
    split
    · exact (avoids_span u).bind fun _ => Avoids.pure _
    · exact Avoids.ok _

theorem avoids_summaryOf (s : Setup) (c : Option Context) (query code : String) (u : Use)
    (h : Avoids .unparsable (s.called code)) : Avoids .unparsable (summaryOf s c query code u) := by
  unfold summaryOf
  cases s.library.find? u.id with
  | none => exact Avoids.ok _
  | some e =>
    exact (avoids_valueSpan u).bind fun _ => (avoids_givenTo _ u e.type).bind fun _ =>
      (avoids_choices s c query code u.id _ h).bind fun _ => Avoids.pure _

theorem avoids_summaries (s : Setup) (c : Option Context) (query code : String) (p : Place)
    (h : Avoids .unparsable (s.called code)) : Avoids .unparsable (summaries s c query code p) := by
  have huses : Avoids .unparsable ((c.map fun c => usesAtPlace c p).getD (.ok [])) := by
    cases c with
    | none => exact Avoids.ok _
    | some c => exact avoids_usesAtPlace c p
  exact huses.bind fun _ => (Avoids.mapM (fun u => avoids_summaryOf s c query code u h) _).bind fun _ =>
    (avoids_functionChoices s c query code h).bind fun _ => Avoids.pure _

/-! ## Requests -/

theorem avoids_number (params : Datum) (name : String) : Avoids .unparsable (numberOf params name) :=
  (Avoids.orFault _ (by simp)).bind fun _ => Avoids.orFault _ (by simp [Text.noInteger])

theorem avoids_place (params : Datum) : Avoids .unparsable (Request.ofDatum params).place :=
  (avoids_number params _).bind fun _ => (avoids_number params _).bind fun _ => Avoids.pure _

theorem avoids_called (s : Setup) (code : String)
    (h : Text.trim code ≠ "" → Avoids .unparsable (s.parse code)) : Avoids .unparsable (s.called code) :=
  Avoids.ite (fun _ => Avoids.pure _) fun hblank =>
    (h (by simpa using hblank)).bind fun _ => Avoids.pure _

theorem avoids_respond (s : Setup) (mode : String) (d : Desk) (params : Datum)
    (h : (Request.ofDatum params).type = "summary" ∨ (Request.ofDatum params).type = "suggest" →
      Avoids .unparsable (s.called (Request.ofDatum params).code)) :
    Avoids .unparsable (respond s mode d (Request.ofDatum params)) := by
  refine (Avoids.bind (Avoids.orFault _ (by simp)) fun _ => Avoids.pure _).bind fun control => ?_
  split
  · exact Avoids.ite (fun _ => Avoids.pure _) fun _ => (avoids_matches s d _ _).bind fun _ => Avoids.pure _
  · next htype =>
    refine Avoids.ite (fun _ => Avoids.pure _) fun _ => ?_
    exact (avoids_place params).bind fun _ =>
      (avoids_summaries s d.context _ _ _ (h (Or.inl htype))).bind fun _ => Avoids.pure _
  · next htype =>
    refine Avoids.ite (fun _ => Avoids.pure _) fun _ => ?_
    exact (avoids_place params).bind fun _ => (Avoids.orFault _ (by simp)).bind fun _ =>
      (avoids_choices s d.context _ _ _ none (h (Or.inr htype))).bind fun _ => Avoids.pure _
  · exact Avoids.pure _
  · exact Avoids.pure _
  · exact Avoids.error (by simp)

theorem respond_unparsable (s : Setup) (mode : String) (d : Desk) (params : Datum)
    (h : respond s mode d (Request.ofDatum params) = .error .unparsable) :
    ((Request.ofDatum params).type = "summary" ∨ (Request.ofDatum params).type = "suggest") ∧
      Text.trim (Request.ofDatum params).code ≠ "" ∧ s.parse (Request.ofDatum params).code = .error .unparsable := by
  refine ⟨?_, ?_, ?_⟩
  · by_contra htype
    exact avoids_respond s mode d params (fun ht => absurd ht htype) h
  · intro hblank
    exact avoids_respond s mode d params (fun _ => avoids_called s _ fun hne => absurd hblank hne) h
  · by_contra hparse
    exact avoids_respond s mode d params (fun _ => avoids_called s _ fun _ => hparse) h

end PlotAdvisor.Assistant
