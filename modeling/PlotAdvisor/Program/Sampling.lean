import PlotAdvisor.Program.Part

/-! Growing a tree from the root, one part at a time. At each part that is not a value a chooser is given
what a partial tree shows of the surroundings and says what goes below. -/
set_option autoImplicit false

namespace PlotAdvisor.Program

structure Surroundings where
  terminals : List Symbol
  ancestors : List Symbol
  parent : Symbol
  deriving Inhabited

/-- Says what goes below a part; `σ` is what it remembers, also when it fails. -/
abbrev Chooser (σ : Type) := Surroundings → ExceptT Fault (StateM σ) Below

/-- The values grown so far, in reverse, and what the chooser remembers. -/
abbrev Growing (σ : Type) := ExceptT Fault (StateM (List Literal × σ))

def choose {σ : Type} (m : Memory) (chooser : Chooser σ) (above : List Symbol) (self : Symbol) :
    Growing σ Below := ExceptT.mk fun (before, s) =>
  let (answer, s) := (chooser ⟨(m.lastTerminals before).map Symbol.simple,
    (m.nearest above).map Symbol.simple, self⟩).run s
  (answer, (before, s))

def addTerminal {σ : Type} (v : Literal) : Growing σ Unit :=
  ExceptT.mk fun (before, s) => (.ok (), (v :: before, s))

def kindOf {σ : Type} : Symbol → Growing σ String
  | .node kind => return kind
  | _ => throw .noAttribute

def nameOf {σ : Type} : Symbol → Growing σ String
  | .field name => return name
  | _ => throw (.broken "")

def grow {σ : Type} (m : Memory) (chooser : Chooser σ) :
    Nat → List Symbol → Symbol → Growing σ Part
  | 0, _, _ => throw .endless
  | fuel + 1, above, self => do
    match ← choose m chooser above self, self with
    | .many [], .node kind => return .node kind []
    | .many [], .field name => return .bare name
    | .many (.node k :: ss), .field name => do
      let kinds ← (Symbol.node k :: ss).mapM kindOf
      return .many name (← (kinds.map Symbol.node).mapM (grow m chooser fuel (self :: above)))
    | .one (.node k), .field name => do
      return .one name (← grow m chooser fuel (self :: above) (.node k))
    | .many (.field f :: ss), .node kind => do
      let names ← (Symbol.field f :: ss).mapM nameOf
      if names.contains "" then throw Part.nothingGiven
      return .node kind (← (names.map Symbol.field).mapM (grow m chooser fuel (self :: above)))
    | .one (.field _), .node _ => throw .wrongKind
    | .one (.content v), .field name => do
      addTerminal v
      return .one name (.leaf v)
    | _, _ => throw (.broken "")

def growWithin {σ : Type} (limit : Nat) (m : Memory) (chooser : Chooser σ) (s : σ) :
    Except Fault Part × List Literal × σ :=
  let (part, (before, s)) := (grow m chooser limit [] (.node "Module")).run ([], s)
  (part, before.reverse, s)

def depthLimit : Nat := 985

def growModule {σ : Type} (m : Memory) (chooser : Chooser σ) (s : σ) : Except Fault Part × List Literal × σ :=
  growWithin depthLimit m chooser s

/-! ## Replaying partial trees -/

def PartialTree.surroundings (t : PartialTree) : Surroundings :=
  ⟨t.terminals.map Symbol.simple, t.ancestors.map Symbol.simple, t.parent.simple⟩

/-- What was seen below each part, by its surroundings; the last sighting counts. -/
structure Sightings where
  entries : List (Surroundings × Below)

namespace Sightings

def ofPartialTrees (ts : List PartialTree) : Sightings :=
  ⟨ts.map fun t => (t.surroundings, t.children.simple)⟩

def find? (s : Sightings) (around : Surroundings) : Option Below :=
  (s.entries.reverse.find? fun e =>
    Symbol.sameAll e.1.terminals around.terminals && Symbol.sameAll e.1.ancestors around.ancestors &&
      e.1.parent.same around.parent).map Prod.snd

/-- Answers as was seen, at most `limit` times; the state counts the questions. -/
def chooser (s : Sightings) (limit : Nat) : Chooser Nat := fun around => do
  if limit ≤ (← get) then throw (.stuck "too many calls")
  match s.find? around with
  | some answer =>
    modify (· + 1)
    return answer
  | none =>
    throw (.noKey ("(" ++ Symbol.renderTuple around.terminals ++ ", " ++ Symbol.renderTuple around.ancestors ++
      ", " ++ around.parent.render ++ ")"))

end Sightings

end PlotAdvisor.Program
