import PlotAdvisor.Proofs.Parts

/-! Growing a tree again from the answers that its partial trees give, in their order. Growth meets the parts in
the order in which they were taken apart: at each question the values before the part and the parts above it are
those of the next partial tree, apart from texts outside ASCII, which are grown as unknown.

* `scripted` - a chooser that gives prepared answers.
* `Part.regrown` - what the answers of a tree grow into.
* `growWithin_scripted` - what is asked, what is grown, and that no answer is left over.
-/
set_option autoImplicit false

namespace PlotAdvisor.Program

/-! ## Prepared answers -/

def scripted : Chooser (List Below) := fun _ =>
  ExceptT.mk fun answers =>
    match answers with
    | [] => (.error .exhausted, [])
    | b :: rest => (.ok b, rest)

def answersOf (ts : List PartialTree) : List Below := ts.map fun t => t.children.simple

theorem choose_scripted (m : Memory) (above : List Symbol) (self : Symbol) (before : List Literal)
    (asked : List Surroundings) (b : Below) (rest : List Below) :
    (choose m scripted.noted above self).run (before.map Literal.simple, (asked, b :: rest)) =
      (.ok b, (before.map Literal.simple, (asked ++ [shownAt m above self before], rest))) := by
  rw [shownAt, ← m.map_simple_lastTerminals]
  rfl

namespace Part

mutual

def regrown : Part → Part
  | .node kind fields => .node kind (regrownAll fields)
  | .one name child => .one name child.regrown
  | .many name children => if children.isEmpty then .bare name else .many name (regrownAll children)
  | .bare name => .bare name
  | .leaf v => .leaf v.simple

def regrownAll : List Part → List Part
  | [] => []
  | p :: ps => p.regrown :: regrownAll ps

end

theorem regrownAll_eq_map (ps : List Part) : regrownAll ps = ps.map regrown := by
  induction ps with
  | nil => rfl
  | cons p ps ih => rw [regrownAll, ih, List.map_cons]

theorem over_regrown {p : Part} (h : p.isInner = true) :
    .over p.symbol p.children.simple (p.parts.map regrown) = p.regrown := by
  cases p with
  | node kind fields =>
    rw [regrown, regrownAll_eq_map]
    rfl
  | one name child =>
    rw [regrown]
    rfl
  | many name children =>
    rw [regrown, regrownAll_eq_map]
    cases children <;> rfl
  | bare name => simp [isInner] at h
  | leaf v => simp [isInner] at h

theorem surroundings_here (m : Memory) (above : List Symbol) (before : List Literal) {p : Part}
    (h : p.isInner = true) :
    (p.here m above before).surroundings = shownAt m above p.symbol before := by
  cases p <;> simp_all [isInner, here, PartialTree.surroundings, shownAt, symbol, Symbol.simple]

/-! ## Growing again -/

def Replays (m : Memory) (fuel : Nat) (p : Part) : Prop :=
  ∀ (above : List Symbol) (before : List Literal) (asked : List Surroundings) (rest : List Below),
    (growNext m scripted.noted fuel above p.symbol.simple).run
        (before.map Literal.simple, (asked, answersOf (p.partialsFrom m above before).1 ++ rest)) =
      (.ok p.regrown, ((p.partialsFrom m above before).2.map Literal.simple,
        (asked ++ (p.partialsFrom m above before).1.map PartialTree.surroundings, rest)))

theorem mapM_replays {m : Memory} {fuel : Nat} {ps : List Part} (h : ∀ q ∈ ps, Replays m fuel q)
    (above : List Symbol) (before : List Literal) (asked : List Surroundings) (rest : List Below) :
    (((ps.map symbol).map Symbol.simple).mapM (growNext m scripted.noted fuel above)).run
        (before.map Literal.simple, (asked, answersOf (partialsFromAll m above before ps).1 ++ rest)) =
      (.ok (ps.map regrown), ((partialsFromAll m above before ps).2.map Literal.simple,
        (asked ++ (partialsFromAll m above before ps).1.map PartialTree.surroundings, rest))) := by
  induction ps generalizing before asked with
  | nil => simp [partialsFromAll, answersOf, Stateful.run_pure]
  | cons p ps ih =>
    have hp := h p List.mem_cons_self above before asked
      (answersOf (partialsFromAll m above (p.partialsFrom m above before).2 ps).1 ++ rest)
    have hps := ih (fun q hq => h q (List.mem_cons_of_mem p hq)) (p.partialsFrom m above before).2
      (asked ++ (p.partialsFrom m above before).1.map PartialTree.surroundings)
    rw [partialsFromAll]
    simp only [List.map_cons, List.mapM_cons, answersOf, List.map_append, List.append_assoc] at hp hps ⊢
    rw [Stateful.run_bind_ok hp, Stateful.run_bind_ok hps, Stateful.run_pure]

theorem replays_leaf (m : Memory) (fuel : Nat) (v : Literal) : Replays m fuel (.leaf v) := by
  intro above before asked rest
  rw [partialsFrom, regrown, symbol, Symbol.simple_content]
  simp only [answersOf, List.map_nil, List.nil_append, List.append_nil]
  rfl

theorem growNext_of_isInner {σ : Type} (m : Memory) (c : Chooser σ) (fuel : Nat) (above : List Symbol) {p : Part}
    (h : p.isInner = true) : growNext m c fuel above p.symbol.simple = grow m c fuel above p.symbol := by
  cases p <;> simp_all [isInner, symbol, Symbol.simple, growNext]

theorem replays_of_regular {m : Memory} {fuel : Nat} {p : Part} (hr : p.Regular) (hd : p.depth ≤ fuel) :
    Replays m fuel p := by
  induction p using inductionOn generalizing fuel with
  | h p ih =>
    have hi := hr.isInner
    have hpos := depth_pos hi
    obtain ⟨fuel, rfl⟩ : ∃ n, fuel = n + 1 := ⟨fuel - 1, by omega⟩
    have hparts : ∀ q ∈ p.parts, Replays m fuel q := by
      intro q hq
      have hlt := depth_parts hq
      by_cases hl : q.isLeaf = true
      · cases q <;> simp_all [isLeaf, replays_leaf]
      · exact ih q hq (hr.parts hq (by simpa using hl)) (by omega)
    intro above before asked rest
    rw [partialsFrom_eq m above before hi, growNext_of_isInner m scripted.noted (fuel + 1) above hi]
    -- the question is the part's own, and its answer fits
    have hask := choose_scripted m above p.symbol before asked p.children.simple
      (answersOf (partialsFromAll m (p.symbol :: above) before p.parts).1 ++ rest)
    rw [← surroundings_here m above before hi] at hask
    have hgo := mapM_replays hparts (p.symbol :: above) before (asked ++ [(p.here m above before).surroundings]) rest
    rw [← symbols_children, ← Below.symbols_simple] at hgo
    change (grow m scripted.noted (fuel + 1) above p.symbol).run (before.map Literal.simple,
      (asked, p.children.simple :: (answersOf (partialsFromAll m (p.symbol :: above) before p.parts).1 ++ rest))) = _
    rw [grow_of_fits m scripted.noted hr.fits.simple hask, growBelow, Stateful.run_bind_ok hgo, Stateful.run_pure,
      over_regrown hi]
    simp only [List.map_cons, List.append_assoc, List.singleton_append]

end Part

/-! ## Whole programs -/

theorem growWithin_scripted {span : Option Span} {fields : List (String × Tree)} {p : Part} (m : Memory)
    {limit : Nat} (hn : (Tree.node "Module" span fields).Named)
    (hp : Part.ofTree (.node "Module" span fields) = .ok p) (hd : p.depth ≤ limit) :
    ∃ values, growWithin limit m scripted.noted ([], answersOf (p.partialTrees m)) =
      (.ok p.regrown, values, ((p.partialTrees m).map PartialTree.surroundings, [])) := by
  have hr := Part.regular_of_ofTree hn hp
  have hreplay : p.Replays m limit := Part.replays_of_regular hr hd
  have h := hreplay [] [] [] []
  have hs : p.symbol = .node "Module" := Part.symbol_of_ofTree hp
  rw [Part.growNext_of_isInner m scripted.noted limit [] hr.isInner, hs, List.append_nil] at h
  simp only [List.map_nil, List.nil_append] at h
  refine ⟨((p.partialsFrom m [] []).2.map Literal.simple).reverse, ?_⟩
  rw [growWithin, Part.partialTrees, h]

/-- A program grows again from the answers of its partial trees. As many questions are asked as it has parts that
are not values, and the questions are, one by one, what the partial trees show. The limit stands for the room that
the recursion has; taking the program apart needs as much. -/
theorem replay_asks {span : Option Span} {fields : List (String × Tree)} {p : Part} (m : Memory) (limit : Nat)
    (hn : (Tree.node "Module" span fields).Named) (hp : Part.ofTree (.node "Module" span fields) = .ok p)
    (hd : p.depth ≤ limit) :
    ∃ grown values asked,
      growWithin limit m scripted.noted ([], answersOf (p.partialTrees m)) = (.ok grown, values, (asked, [])) ∧
      asked.length = p.count ∧ asked = (p.partialTrees m).map PartialTree.surroundings := by
  obtain ⟨values, h⟩ := growWithin_scripted m hn hp hd
  refine ⟨p.regrown, values, _, h, ?_, rfl⟩
  rw [List.length_map, Part.partialTrees, Part.length_partialsFrom]

/-- The program `if a: b`. -/
def branch : Tree :=
  let name (id : String) : Tree := .node "Name" none [("id", .lit (.text id)), ("ctx", .node "Load" none [])]
  .node "Module" none [
    ("body", .list [.node "If" none [
      ("test", name "a"), ("body", .list [.node "Expr" none [("value", name "b")]]), ("orelse", .list [])]]),
    ("type_ignores", .list [])]

theorem replay_asks_branch :
    ∃ p, Part.ofTree branch = .ok p ∧ branch.Named ∧ p.depth ≤ depthLimit ∧
      ∃ grown values asked,
        growWithin depthLimit ⟨1, 2⟩ scripted.noted ([], answersOf (p.partialTrees ⟨1, 2⟩)) =
          (.ok grown, values, (asked, [])) ∧
        asked.length = 17 ∧ asked = (p.partialTrees ⟨1, 2⟩).map PartialTree.surroundings := by
  have hn : branch.Named := by decide
  exact ⟨_, rfl, hn, by decide, replay_asks ⟨1, 2⟩ depthLimit hn rfl (by decide)⟩

end PlotAdvisor.Program
