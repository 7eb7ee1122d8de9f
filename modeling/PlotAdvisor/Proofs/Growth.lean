import PlotAdvisor.Program.Sampling
import PlotAdvisor.Proofs.Faults

/-! One step of growth, and what a chooser is asked on the way.

A part is grown by asking what goes below it and by going on with each symbol of the answer, from left to
right, provided that the answer fits: a node has named fields below it, a field has nodes, one node or one
value, and either may have nothing.

* `Fits`, `grow_of_fits` - fitting answers, and the step that follows one.
* `Fits.simple` - texts outside ASCII do not matter for that.
* `Chooser.noted`, `growWithin_noted` - a chooser that writes down what it is shown grows the same tree.
-/
set_option autoImplicit false

namespace PlotAdvisor.Program

/-! ## Fitting answers -/

namespace Below

def symbols : Below → List Symbol
  | .one s => [s]
  | .many ss => ss

end Below

inductive Fits : Symbol → Below → Prop
  | noField (kind : String) : Fits (.node kind) (.many [])
  | noPart (name : String) : Fits (.field name) (.many [])
  | fields (kind : String) (names : List String) : names ≠ [] → "" ∉ names →
      Fits (.node kind) (.many (names.map .field))
  | nodes (name : String) (kinds : List String) : kinds ≠ [] → Fits (.field name) (.many (kinds.map .node))
  | node (name kind : String) : Fits (.field name) (.one (.node kind))
  | value (name : String) (v : Literal) : Fits (.field name) (.one (.content v))

/-! ## Simple symbols -/

theorem Symbol.simple_content (v : Literal) : (Symbol.content v).simple = .content v.simple := rfl

theorem Literal.simple_simple (v : Literal) : v.simple.simple = v.simple := by
  cases v with
  | text s =>
    by_cases hs : s.toList.all fun c => c.toNat < 128
    · rw [simple, if_pos hs, simple, if_pos hs]
    · rw [simple, if_neg hs]
      decide
  | _ => rfl

theorem Symbol.simple_simple (s : Symbol) : s.simple.simple = s.simple := by
  cases s with
  | node kind => rfl
  | field name => rfl
  | content v => rw [simple_content, simple_content, Literal.simple_simple]

theorem Memory.map_simple_lastTerminals (m : Memory) (before : List Literal) :
    (m.lastTerminals (before.map Literal.simple)).map Symbol.simple = (m.lastTerminals before).map Symbol.simple := by
  simp only [lastTerminals, ← List.map_take, ← List.map_reverse, List.map_map]
  refine List.map_congr_left fun v _ => ?_
  simp only [Function.comp_apply, Symbol.simple_content, Literal.simple_simple]

theorem Below.symbols_simple (b : Below) : b.simple.symbols = b.symbols.map Symbol.simple := by
  cases b <;> rfl

theorem Fits.simple {s : Symbol} {b : Below} (h : Fits s b) : Fits s b.simple := by
  cases h with
  | noField kind => exact .noField kind
  | noPart name => exact .noPart name
  | fields kind names hne hnot =>
    have e : (names.map Symbol.field).map Symbol.simple = names.map Symbol.field := by
      rw [List.map_map]
      rfl
    rw [Below.simple, e]
    exact .fields kind names hne hnot
  | nodes name kinds hne =>
    have e : (kinds.map Symbol.node).map Symbol.simple = kinds.map Symbol.node := by
      rw [List.map_map]
      rfl
    rw [Below.simple, e]
    exact .nodes name kinds hne
  | node name kind => exact .node name kind
  | value name v =>
    rw [Below.simple, Symbol.simple_content]
    exact .value name v.simple

def Part.over : Symbol → Below → List Part → Part
  | .node kind, _, ps => .node kind ps
  | .field name, .one _, p :: _ => .one name p
  | .field name, .many (_ :: _), ps => .many name ps
  | .field name, _, _ => .bare name
  | .content v, _, _ => .leaf v

section Step

variable {σ : Type} (m : Memory) (c : Chooser σ)

def growNext (fuel : Nat) (above : List Symbol) : Symbol → Growing σ Part
  | .content v => do
    addTerminal v
    return .leaf v
  | .node kind => grow m c fuel above (.node kind)
  | .field name => grow m c fuel above (.field name)

def growBelow (fuel : Nat) (above : List Symbol) (self : Symbol) (b : Below) : Growing σ Part := do
  return .over self b (← b.symbols.mapM (growNext m c fuel (self :: above)))

theorem mapM_nameOf (names : List String) :
    ((names.map Symbol.field).mapM nameOf : Growing σ (List String)) = pure names := by
  rw [List.mapM_map]
  exact (List.mapM_pure (f := id)).trans (by rw [List.map_id])

theorem mapM_kindOf (kinds : List String) :
    ((kinds.map Symbol.node).mapM kindOf : Growing σ (List String)) = pure kinds := by
  rw [List.mapM_map]
  exact (List.mapM_pure (f := id)).trans (by rw [List.map_id])

theorem mapM_growNext_fields (fuel : Nat) (above : List Symbol) (names : List String) :
    (names.map Symbol.field).mapM (growNext m c fuel above) =
      (names.map Symbol.field).mapM (grow m c fuel above) := by
  rw [List.mapM_map, List.mapM_map]
  rfl

theorem mapM_growNext_nodes (fuel : Nat) (above : List Symbol) (kinds : List String) :
    (kinds.map Symbol.node).mapM (growNext m c fuel above) =
      (kinds.map Symbol.node).mapM (grow m c fuel above) := by
  rw [List.mapM_map, List.mapM_map]
  rfl

theorem grow_of_fault {fuel : Nat} {above : List Symbol} {self : Symbol} {f : Fault} {st st' : List Literal × σ}
    (h : (choose m c above self).run st = (.error f, st')) :
    (grow m c (fuel + 1) above self).run st = (.error f, st') := by
  rw [grow, Stateful.run_bind, h]

theorem grow_of_fits {fuel : Nat} {above : List Symbol} {self : Symbol} {b : Below} (hf : Fits self b)
    {st st' : List Literal × σ} (h : (choose m c above self).run st = (.ok b, st')) :
    (grow m c (fuel + 1) above self).run st = (growBelow m c fuel above self b).run st' := by
  rw [grow, Stateful.run_bind_ok h]
  cases hf with
  | noField kind => rfl
  | noPart name => rfl
  | fields kind names hne hnames =>
    obtain ⟨n, ns, rfl⟩ := List.exists_cons_of_ne_nil hne
    have hgiven : (n :: ns).contains "" = false := by simpa using hnames
    simp only [List.map_cons]
    rw [← List.map_cons, mapM_nameOf, pure_bind, hgiven, growBelow, Below.symbols, mapM_growNext_fields]
    rfl
  | nodes name kinds hne =>
    obtain ⟨k, ks, rfl⟩ := List.exists_cons_of_ne_nil hne
    simp only [List.map_cons]
    rw [← List.map_cons, mapM_kindOf, pure_bind, growBelow, Below.symbols, mapM_growNext_nodes]
    rfl
  | node name kind =>
    simp only [growBelow, Below.symbols, List.mapM_cons, List.mapM_nil, growNext, bind_assoc, pure_bind]
    rfl
  | value name v =>
    simp only [growBelow, Below.symbols, List.mapM_cons, List.mapM_nil, growNext, bind_assoc, pure_bind]
    rfl

end Step

/-! ## Choosers that write down what they are shown -/

def Chooser.noted {σ : Type} (c : Chooser σ) : Chooser (List Surroundings × σ) := fun around =>
  ExceptT.mk fun (asked, s) =>
    let (answer, s) := (c around).run s
    (answer, (asked ++ [around], s))

section Noted

variable {σ α β : Type}

/-- What is shown at a part below others, after some values. -/
def shownAt (m : Memory) (above : List Symbol) (self : Symbol) (before : List Literal) : Surroundings :=
  ⟨(m.lastTerminals before).map Symbol.simple, (m.nearest above).map Symbol.simple, self⟩

theorem choose_noted (m : Memory) (c : Chooser σ) (above : List Symbol) (self : Symbol) (before : List Literal)
    (asked : List Surroundings) (s : σ) :
    (choose m c.noted above self).run (before, (asked, s)) =
      (((c (shownAt m above self before)).run s).1,
        (before, (asked ++ [shownAt m above self before], ((c (shownAt m above self before)).run s).2))) := rfl

/-- The first computation does what the second does, and writes down more. -/
def NotesOnly (x : Growing (List Surroundings × σ) α) (y : Growing σ α) : Prop :=
  ∀ (before : List Literal) (asked : List Surroundings) (s : σ), ∃ more : List Surroundings,
    x.run (before, (asked, s)) =
      ((y.run (before, s)).1, ((y.run (before, s)).2.1, (asked ++ more, (y.run (before, s)).2.2)))

namespace NotesOnly

theorem pure (a : α) : NotesOnly (Pure.pure a : Growing (List Surroundings × σ) α) (Pure.pure a) := by
  intro before asked s
  exact ⟨[], by rw [List.append_nil]; rfl⟩

theorem throw (f : Fault) : NotesOnly (throwThe Fault f : Growing (List Surroundings × σ) α) (throwThe Fault f) := by
  intro before asked s
  exact ⟨[], by rw [List.append_nil]; rfl⟩

theorem bind {x : Growing (List Surroundings × σ) α} {y : Growing σ α}
    {k : α → Growing (List Surroundings × σ) β} {l : α → Growing σ β} (hxy : NotesOnly x y)
    (hkl : ∀ a, NotesOnly (k a) (l a)) : NotesOnly (x >>= k) (y >>= l) := by
  intro before asked s
  obtain ⟨first, hx⟩ := hxy before asked s
  rw [Stateful.run_bind, Stateful.run_bind, hx]
  rcases y.run (before, s) with ⟨r, before', s'⟩
  cases r with
  | error f => exact ⟨first, rfl⟩
  | ok a =>
    obtain ⟨more, hk⟩ := hkl a before' (asked ++ first) s'
    exact ⟨first ++ more, by rw [← List.append_assoc]; exact hk⟩

theorem mapM {f : β → Growing (List Surroundings × σ) α} {g : β → Growing σ α} (h : ∀ b, NotesOnly (f b) (g b))
    (bs : List β) : NotesOnly (bs.mapM f) (bs.mapM g) := by
  induction bs with
  | nil => exact pure []
  | cons b bs ih =>
    rw [List.mapM_cons, List.mapM_cons]
    exact (h b).bind fun a => ih.bind fun as => pure (a :: as)

theorem addTerminal (v : Literal) :
    NotesOnly (Program.addTerminal v : Growing (List Surroundings × σ) Unit) (Program.addTerminal v) := by
  intro before asked s
  exact ⟨[], by rw [List.append_nil]; rfl⟩

theorem choose (m : Memory) (c : Chooser σ) (above : List Symbol) (self : Symbol) :
    NotesOnly (Program.choose m c.noted above self) (Program.choose m c above self) := by
  intro before asked s
  exact ⟨[_], rfl⟩

theorem kindOf (s : Symbol) : NotesOnly (Program.kindOf s : Growing (List Surroundings × σ) String) (Program.kindOf s) := by
  cases s with
  | node kind => exact pure kind
  | field name => exact throw _
  | content v => exact throw _

theorem nameOf (s : Symbol) : NotesOnly (Program.nameOf s : Growing (List Surroundings × σ) String) (Program.nameOf s) := by
  cases s with
  | node kind => exact throw _
  | field name => exact pure name
  | content v => exact throw _

theorem grow (m : Memory) (c : Chooser σ) (fuel : Nat) (above : List Symbol) (self : Symbol) :
    NotesOnly (Program.grow m c.noted fuel above self) (Program.grow m c fuel above self) := by
  induction fuel generalizing above self with
  | zero => exact throw _
  | succ fuel ih =>
    rw [Program.grow, Program.grow]
    refine (choose m c above self).bind fun b => ?_
    split
    · exact pure _
    · exact pure _
    · exact (mapM kindOf _).bind fun kinds => (mapM (fun s => ih _ s) _).bind fun ps => pure _
    · exact (ih _ _).bind fun p => pure _
    · refine (mapM nameOf _).bind fun names => ?_
      split
      · exact (throw _).bind fun _ => (mapM (fun s => ih _ s) _).bind fun ps => pure _
      · exact (mapM (fun s => ih _ s) _).bind fun ps => pure _
    · exact throw _
    · exact (addTerminal _).bind fun _ => pure _
    · exact throw _

end NotesOnly

theorem growWithin_noted (limit : Nat) (m : Memory) (c : Chooser σ) (s : σ) :
    ∃ asked : List Surroundings, growWithin limit m c.noted ([], s) =
      ((growWithin limit m c s).1, (growWithin limit m c s).2.1, (asked, (growWithin limit m c s).2.2)) := by
  obtain ⟨more, h⟩ := NotesOnly.grow m c limit [] (.node "Module") [] [] s
  refine ⟨more, ?_⟩
  rw [growWithin, growWithin, h]
  rfl

end Noted

end PlotAdvisor.Program
