import PlotAdvisor.Elements.CoOccurrence
import PlotAdvisor.Models.Elements.Basic
import PlotAdvisor.Models.Generator

/-! Learning which elements are asked for. Each use of an element in an example, with its documentation as
the query and elements on lines nearby as the context, moves the weights so that the element becomes
likelier than others that are drawn.

* `Weights.learn` - what one use changes.
* `learnExample` - what an example changes.
* `train` - all examples, as often as asked.
-/
set_option autoImplicit false

namespace PlotAdvisor.Models.Elements

open Documentation Program Scalar Vectors

structure Settings (α : Type) where
  mode : Mode
  negative : Int
  epochs : Int
  seed : Int
  alpha : α
  window : Int
  lemmas : Bool
  phraseLimit : Int
  /-- How many workers there are; as many as there are processors where it is not said. -/
  threads : Option Int
  drawParents : Bool
  contextsFromTexts : Bool
  /-- Whether vectors of answers start from documentation. -/
  outputsFromTexts : Bool
  drawUsed : Bool
  rows : StartRows α

def Settings.isShared {α : Type} (st : Settings α) : Bool := st.threads.all fun n => decide (1 < n)

/-- How often the examples are gone through: workers that share them do so once for each epoch, one alone only once. -/
def Settings.rounds {α : Type} (st : Settings α) : Nat := if st.isShared then st.epochs.toNat else 1

structure Background (α : Type) where
  library : Library
  normalizer : PlotAdvisor.Elements.Normalizer
  vectors : WordVectors α
  emptyWords : List String
  tokenizer : Wording.Tokenizer
  stemmers : Wording.Stemmers

variable {α : Type} [Scalar α] {σ : Type} [Draws σ]

/-! ## One step -/

def Model.learn (m : Model α) (context words : List Nat) (right : Nat) (wrong : List Nat) (alpha : α) :
    Except Fault (Weights α) := do
  ensure (!wrong.isEmpty) ""
  let w := m.weights
  let size := m.vectors.size
  let p := m.contextMean context
  let l := m.vectors.mean words
  let h := m.mode.join p l
  let places := right :: wrong
  let rows := rowsAt w.outputs places
  let labels : List α := one :: wrong.map fun _ => zero
  let g := List.zipWith (fun label r => (label - logistic (m.output h r)) * alpha) labels places
  let back := sumRows h.length (List.zipWith scaleRow g rows)
  let backContext :=
    match m.mode with
    | .additive => back
    | .multiply => mulRows back l
    | .concat => back.take size
  return {
    contexts := addAt w.contexts context (context.map fun _ => backContext.map (· / ofInt context.length))
    outputs := addAt w.outputs places (g.map (scaleRow · h))
    biases := addItemsAt w.biases places g }

/-! ## Examples -/

structure Learning (α : Type) where
  model : Model α
  settings : Settings α
  background : Background α
  shares : List Int
  total : Int
  names : PlotAdvisor.Elements.Names := PlotAdvisor.Elements.sessionTable
  count : Nat := 0
  /-- The rates that are told, with the count of examples. -/
  reports : List (Nat × α) := []

/-- A draw that decides between yes and no. -/
def coin (α : Type) [Scalar α] (g : σ) : Bool × σ :=
  let (x, g) : α × σ := Draws.unit g
  (less (decimal 5 1) x, g)

def drawContext (m : Model α) (window : Int) (lines : List (List String)) (line : Nat) (g : σ) : List Nat × σ :=
  let first := (max 0 (Int.tdiv (2 * line - window) 2)).toNat
  let last := (min (lines.length : Int) (Int.tdiv (2 * line + window) 2 + 1)).toNat
  let (found, g) := ((lines.take last).drop first).foldl (fun (found, g) line =>
    let (skip, g) := coin α g
    if skip then (found, g)
    else line.foldl (fun (found, g) e =>
      let (skip, g) := coin α g
      if skip then (found, g)
      else
        match m.number? e with
        | some i => (i :: found, g)
        | none => (found, g)) (found, g)) (([] : List Nat), g)
  (found.reverse.eraseDups, g)

/-- Whether an element may be drawn as a wrong one for `e`. -/
def Learning.accepts (st : Learning α) (used : List Nat) (e : String) (w : Nat) : Bool :=
  if st.settings.drawUsed then !Text.startsWith e (st.model.elements.getD w "") else !used.contains w

def Learning.use (context used : List Nat) (alpha : α) (e : String) (st : Learning α) (g : σ) :
    Except Fault (Learning α × σ) := do
  let (withParents, g) := if st.settings.drawParents then coin α g else (false, g)
  let text := st.background.library.trainingText e withParents
  if text == "" then return (st, g)
  let words := st.model.reading.numbers st.model.vectors text
  match st.model.number? e with
  | none => return (st, g)
  | some right =>
    let (wrong, g) ← drawWrong st.shares (st.accepts used e) Generator.period st.settings.negative.toNat [] g
    let weights ← st.model.learn context words right wrong alpha
    return ({ st with model := { st.model with weights := weights } }, g)

def Learning.lines (lines : List (List String)) (alpha : α) (st : Learning α) (g : σ) :
    Except Fault (Learning α) := do
  let used := st.model.numbers lines.flatten
  let (st, _) ← lines.zipIdx.foldlM (fun (st, g) (elements, i) => do
    if elements.isEmpty then return (st, g)
    let (context, g) := drawContext st.model st.settings.window lines i g
    elements.foldlM (fun (st, g) e => st.use context used alpha e g) (st, g)) (st, g)
  return st

def reportEvery : Nat := 500

/-- Learns from an example: the rate falls with the count of examples, which also tells where the draws come from.
An example that is no program teaches nothing. -/
def Learning.follow (parse : String → Except Fault Tree) (source : Nat → σ) (st : Learning α) (code : String) :
    Except Fault (Learning α) := do
  let count := st.count + 1
  let least := st.settings.alpha * decimal 1 4
  let rate := st.settings.alpha * (one - ofInt count / ofInt (st.total + 1))
  let alpha := if less rate least then least else rate
  let reports := if count % reportEvery = 0 then st.reports ++ [(count, alpha)] else st.reports
  let st := { st with count := count, reports := reports }
  match parse code with
  | .error .unparsable => return st
  | .error f => throw f
  | .ok t =>
    let (names, uses) := PlotAdvisor.Elements.extract false st.names t
    let st := { st with names := names }
    match PlotAdvisor.Elements.linesOf st.background.normalizer uses with
    | none => return st
    | some lines => st.lines lines alpha (source count)

/-! ## Training -/

def sharesOf (α : Type) [Scalar α] (counts : Table String Int) (elements : List String) : Except Fault (List Int) := do
  let power (n : Int) : α := pow (ofInt n) (decimal 75 2)
  let total := sum (counts.values.map power)
  let shares := (runningSums (elements.map fun e => power (counts.getD e 0) / total)).map fun x =>
    nearest (x * ofInt shareDomain)
  ensure (shares.getLast?.all (· == (shareDomain : Int))) ""
  return shares

def textVector (b : Background α) (r : Reading) (e : String) : Row α :=
  b.vectors.mean (r.numbers b.vectors (b.library.trainingText e true))

def Weights.start (st : Settings α) (b : Background α) (r : Reading) (counts : Table String Int)
    (elements : List String) : Except Fault (Weights α) := do
  let total := counts.values.foldr (· + ·) 0
  if total = 0 ∧ !elements.isEmpty then throw .zeroDivision
  let size := b.vectors.size
  let wide := if st.mode = .concat then 2 * size else size
  return {
    contexts := elements.map fun e =>
      if st.contextsFromTexts then textVector b r e else st.rows.row (e ++ toString st.seed) size
    outputs := elements.map fun e =>
      if st.outputsFromTexts then
        let v := textVector b r e
        if st.mode = .concat then v ++ v else v
      else st.rows.row ("syn1r" ++ e ++ toString st.seed) wide
    biases := elements.map fun e => log (ofInt (counts.getD e 0) / ofInt total) }

def Learning.start (st : Settings α) (b : Background α) (counts : Table String Int) (elements : List String)
    (examples : Nat) : Except Fault (Learning α) := do
  let r : Reading := ⟨b.emptyWords, b.tokenizer, b.stemmers, st.lemmas, st.phraseLimit⟩
  let weights ← Weights.start st b r counts elements
  let shares ← sharesOf α counts elements
  return {
    model := ⟨elements, st.mode, r, b.vectors, weights⟩
    settings := st, background := b, shares := shares, total := examples * st.epochs }

def Learning.pass (parse : String → Except Fault Tree) (source : Nat → σ) (examples : List String)
    (st : Learning α) : Except Fault (Learning α) := examples.foldlM (Learning.follow parse source) st

def train (parse : String → Except Fault Tree) (source : Nat → σ) (st : Settings α) (b : Background α)
    (counts : Table String Int) (elements : List String) (examples : List String) : Except Fault (Learning α) := do
  let start ← Learning.start st b counts elements examples.length
  (List.replicate st.rounds examples).foldlM (fun l es => l.pass parse source es) start

end PlotAdvisor.Models.Elements
