import PlotAdvisor.Mining.Calls
import PlotAdvisor.Models.Productions.Training
import PlotAdvisor.Program.Sampling

/-! What the productions model says about a program, and the programs that it writes itself.

* `Model.chooser` - draws what goes below a part.
-/
set_option autoImplicit false

namespace PlotAdvisor.Models.Productions

open Program Scalar

variable {α : Type} [Scalar α]

def noWord : Fault := .badValue "No valid NL word. Should turn on null_word option in training."

def Vocabulary.looseContext (v : Vocabulary) (m : Memory) (words : List Nat) (t : PartialTree) : Context :=
  ⟨padded m.ancestors (t.ancestors.map fun s => (v.innerNumber? s.simple).getD 0),
   padded m.terminals (t.terminals.reverse.map fun s => (v.terminalNumber? s.simple).getD 0), words⟩

def Model.share (m : Model α) (c : Context) (entries : List Nat) (chosen : Nat) : Except Fault α := do
  c.check m.weights
  let weights := (m.outputs c entries).map exp
  let score := itemAt weights (entries.idxOf chosen) / sum weights
  ensure (atMost zero score && atMost score one) ""
  return score

def Model.judge (m : Model α) (words : List Nat) (t : PartialTree) : Except Fault (Option α) := do
  let v := m.vocabulary
  let c := v.looseContext m.settings.memory words t
  let parent := t.parent.simple
  let p ← known parent (v.production? parent)
  if p.children.length = 1 then return none
  match p.entry? t.children.simple with
  | none => return none
  | some chosen => return some (log (← m.share c p.entries chosen))

/-- A number up to one from the mean of logarithms; none without any. -/
def fit (logs : List α) : Option α :=
  if logs.isEmpty then none
  else some (ofInt 2 / (one + exp (-(sum logs) / ofInt logs.length)))

/-- How well a tree fits an utterance, from the logarithms of the shares; none where nothing could be judged. -/
def Model.score {σ : Type} [Draws σ] (m : Model α) (utterance : String) (tree : Part) (g : σ) :
    Except Fault (Option α) × σ :=
  let (words, g) := m.vocabulary.wordsOf α m.settings.words.nullWord utterance g
  if words.isEmpty then (.error noWord, g)
  else
    ((do
      let judged ← (tree.partialTrees m.settings.memory).mapM (m.judge words)
      return fit (judged.filterMap id) : Except Fault (Option α)), g)

/-! ## Writing programs -/

def Model.draw {σ : Type} [Draws σ] (m : Model α) (c : Context) (entries : List Nat) (g : σ) :
    Except Fault Nat × σ :=
  match c.check m.weights with
  | .error f => (.error f, g)
  | .ok () =>
    if entries.length = 1 then (.ok 0, g)
    else
      let totals := runningSums ((m.outputs c entries).map exp)
      let (x, g) : α × σ := Draws.unit g
      (.ok (searchSorted less totals (x * totals.getLast?.getD zero)), g)

def Model.chooser {σ : Type} [Draws σ] (m : Model α) (words : List Nat) : Chooser σ := fun around =>
  if words.isEmpty then return .many []
  else do
    let v := m.vocabulary
    let c : Context := ⟨padded m.settings.memory.ancestors (around.ancestors.filterMap v.innerNumber?),
      padded m.settings.memory.terminals (around.terminals.reverse.filterMap v.terminalNumber?), words⟩
    let parent := around.parent.simple
    let p ← ExceptT.mk (pure (known parent (v.production? parent)))
    let i ← ExceptT.mk fun g => m.draw c p.entries g
    ExceptT.mk (pure (orFault (p.children[i]?.map Prod.fst) .outOfRange))

def Model.write {σ : Type} [Draws σ] (m : Model α) (utterance : String) (g : σ) : Except Fault Part × σ :=
  let (words, g) := m.vocabulary.wordsOf α m.settings.words.nullWord utterance g
  let (r, _, g) := growModule m.settings.memory (m.chooser words) g
  (r, g)

/-! ## Functions ranked by how well their calls in a program fit a query -/

def scoreOf (s : Option α) : α := s.getD zero

def Model.bestScores {σ : Type} [Draws σ] (m : Model α) (query : String) (names : List String) :
    List Tree → Table String (Option α) → σ → Except Fault (Table String (Option α)) × σ
  | [], best, g => (.ok best, g)
  | call :: calls, best, g =>
    match Mining.calledName call with
    | none => m.bestScores query names calls best g
    | some f =>
      if !names.contains f then m.bestScores query names calls best g
      else
        match Part.ofTree call with
        | .error e => (.error e, g)
        | .ok part =>
          match m.score query part g with
          | (.error e, g) => (.error e, g)
          | (.ok s, g) =>
            let isBetter := (best.get? f).all fun old => less (scoreOf old) (scoreOf s)
            m.bestScores query names calls (if isBetter then best.set f s else best) g

def Model.rank {σ : Type} [Draws σ] (m : Model α) (query : String) (names : List String) (program : Tree)
    (g : σ) : Except Fault (List (String × Option α)) × σ :=
  let (r, g) := m.bestScores query names (Elements.callNodes program) .empty g
  (r.map fun best => best.entries.mergeSort fun a b => !less (scoreOf a.2) (scoreOf b.2), g)

end PlotAdvisor.Models.Productions
