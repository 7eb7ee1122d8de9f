import PlotAdvisor.Models.Productions.Weights

/-! Learning from pairs. The corpus is cut into jobs, each with a rate; in a job every partial tree moves the
weights so that what is below its parent becomes likelier than wrong entries.

* `jobsOf` - the jobs of pairs, in order, each with its rate.
* `Model.learn` - what one partial tree changes.
* `Model.train` - all jobs one after the other.
-/
set_option autoImplicit false

namespace PlotAdvisor.Models.Productions

open Program Scalar

variable {α : Type} [Scalar α]

/-! ## Jobs -/

structure Job (α : Type) where
  pairs : List Pair
  alpha : α

def sumOver {β : Type} (f : β → Nat) : List β → Nat
  | [] => 0
  | x :: xs => f x + sumOver f xs

def treeCount (ps : List Pair) : Nat := sumOver (fun p => p.tree.count) ps

/-- What the rate falls with: the pairs that have left, or their partial trees, out of a number that is expected. -/
inductive Course where
  | pairs (expected : Int)
  | trees (expected : Int)

namespace Course

def expected : Course → Int
  | .pairs n => n
  | .trees n => n

def advance : Course → List Pair → Nat
  | .pairs _, ps => ps.length
  | .trees _, ps => treeCount ps

end Course

/-- A job that is being filled, in reverse, with its number of partial trees; the rate that it will have, and
how far the jobs before it have brought the course. -/
structure Filling (α : Type) where
  pairs : List Pair := []
  size : Int := 0
  alpha : α
  left : Nat := 0

/-- The rate falls with the share that has left. -/
def Filling.submit (st : Settings α) (course : Course) (f : Filling α) : Job α × Filling α :=
  let job : Job α := ⟨f.pairs.reverse, f.alpha⟩
  if less st.leastAlpha f.alpha then
    let left := f.left + course.advance f.pairs
    let progress : α := ofInt left / ofInt course.expected
    let next := st.alpha - (st.alpha - st.leastAlpha) * progress
    (job, { alpha := maxOf st.leastAlpha next, left := left })
  else (job, { alpha := f.alpha, left := f.left })

def jobsFrom (st : Settings α) (course : Course) (f : Filling α) : List Pair → List (Job α)
  | [] => if f.pairs.isEmpty then [] else [⟨f.pairs.reverse, f.alpha⟩]
  | p :: ps =>
    let size : Int := p.tree.count
    if f.size + size ≤ st.batch then
      jobsFrom st course { f with pairs := p :: f.pairs, size := f.size + size } ps
    else
      let (job, f) := f.submit st course
      job :: jobsFrom st course { f with pairs := [p], size := size } ps

def jobsOf (st : Settings α) (course : Course) (pairs : List Pair) : List (Job α) :=
  jobsFrom st course { alpha := st.alpha } pairs

def repeated (st : Settings α) (pairs : List Pair) : List Pair :=
  (List.replicate (max st.rounds 1).toNat pairs).flatten

/-- The jobs of a corpus that is gone through several times. -/
def jobs (st : Settings α) (pairs : List Pair) : List (Job α) :=
  let all := repeated st pairs
  jobsOf st (.pairs all.length) all

/-! ## One step -/

def wrongEntries {σ : Type} [Draws σ] (α : Type) [Scalar α] (p : Production) (negative : Int) (right : Nat)
    (g : σ) : Except Fault (List Nat × σ) :=
  if p.isDrawn negative then do
    let (ws, g) ← drawWrong (p.shares α) (· != right - p.offset) Generator.period negative.toNat [] g
    return (ws.map (· + p.offset), g)
  else .ok (p.entries.filter (· ≠ right), g)

/-- The labels of a right entry and of the wrong ones, as many as are ever learned from at once. -/
def labelsFor (negative : Int) : Except Fault (List α) :=
  let count := negative + 1 + smallVocabulary
  if count < 0 then .error (.badValue "negative dimensions are not allowed")
  else if count = 0 then .error .outOfRange
  else .ok (one :: List.replicate (count.toNat - 1) zero)

def firstLabels (labels : List α) (count : Nat) : Except Fault (List α) :=
  match labels.take count with
  | [label] => .ok (List.replicate count label)
  | first =>
    if first.length = count then .ok first
    else .error (.badValue ("operands could not be broadcast together with shapes (" ++ toString first.length ++
      ",) (" ++ toString count ++ ",) "))

/-- The rows that are asked for must be there. -/
def Weights.reach (w : Weights α) (c : Context) (entries : List Nat) : Except Fault Unit :=
  if c.inner.all (· < w.inner.length) && c.terminals.all (· < w.terminals.length) &&
      c.words.all (· < w.words.length) && entries.all (· < w.entries.length) &&
      entries.all (· < w.biases.length) then .ok ()
  else .error .outOfRange

def Weights.learn (st : Settings α) (c : Context) (right : Nat) (wrong : List Nat) (labels : List α) (alpha : α)
    (w : Weights α) : Weights α :=
  let (known, said) := c.views st.size w
  let h := joined st.additive known said
  let entries := right :: wrong
  let rows := rowsAt w.entries entries
  let outputs := entries.map fun r => logistic (dot h (rowAt w.entries r) + itemAt w.biases r)
  let g := List.zipWith (fun label f => (label - f) * alpha) labels outputs
  let back := sumRows st.size (List.zipWith scaleRow g rows)
  let backKnown := if st.additive then back else mulRows back said
  let backSaid := if st.additive then back else mulRows back known
  { inner := addAt w.inner c.inner (w.innerMarks.map fun m => mulRows m backKnown)
    terminals := addAt w.terminals c.terminals (w.terminalMarks.map fun m => mulRows m backKnown)
    words := addAt w.words c.words (c.words.map fun _ => backSaid.map (· / ofInt c.words.length))
    innerMarks := List.zipWith addRows w.innerMarks ((rowsAt w.inner c.inner).map (mulRows · backKnown))
    terminalMarks :=
      List.zipWith addRows w.terminalMarks ((rowsAt w.terminals c.terminals).map (mulRows · backKnown))
    entries := addAt w.entries entries (g.map (scaleRow · h))
    biases := addItemsAt w.biases entries g }

def known {β : Type} (s : Symbol) (x : Option β) : Except Fault β := orFault x (.noKey s.render)

def Vocabulary.context (v : Vocabulary) (m : Memory) (words : List Nat) (t : PartialTree) :
    Except Fault Context := do
  let terminals ← t.terminals.reverse.mapM fun s => known s.simple (v.terminalNumber? s.simple)
  let inner ← t.ancestors.mapM fun s => known s.simple (v.innerNumber? s.simple)
  return ⟨padded m.ancestors inner, padded m.terminals terminals, words⟩

def Model.learn {σ : Type} [Draws σ] (m : Model α) (words : List Nat) (alpha : α) (t : PartialTree) (g : σ) :
    Except Fault (Model α × σ) := do
  let v := m.vocabulary
  let c ← v.context m.settings.memory words t
  let parent := t.parent.simple
  let p ← known parent (v.production? parent)
  let right ← known parent (p.entry? t.children.simple)
  let (wrong, g) ← wrongEntries α p m.settings.negative right g
  if wrong.isEmpty then return (m, g)
  c.check m.weights
  m.weights.reach c (right :: wrong)
  let labels ← firstLabels (← labelsFor m.settings.negative) (wrong.length + 1)
  return ({ m with weights := m.weights.learn m.settings c right wrong labels alpha }, g)

def Model.learnPair {σ : Type} [Draws σ] (alpha : α) (st : Model α × σ) (p : Pair) :
    Except Fault (Model α × σ) := do
  let (m, g) := st
  let (words, g) := m.vocabulary.wordsOf α m.settings.words.nullWord p.utterance g
  if words.isEmpty then return (m, g)
  let (ts, g) := Draws.arrange (p.tree.partialTrees m.settings.memory) g
  ts.foldlM (fun (m, g) t => m.learn words alpha t g) (m, g)

def Model.work {σ : Type} [Draws σ] (st : Model α × σ) (j : Job α) : Except Fault (Model α × σ) :=
  j.pairs.foldlM (Model.learnPair j.alpha) st

def Model.train {σ : Type} [Draws σ] (m : Model α) (pairs : List Pair) (g : σ) :
    Except Fault (Model α × σ) := do
  let _ ← (labelsFor m.settings.negative : Except Fault (List α))
  if m.vocabulary.words.isEmpty || m.vocabulary.productions.isEmpty then
    throw (.stuck "you must first build vocabulary before training the model")
  (jobs m.settings pairs).foldlM Model.work (m, g)

end PlotAdvisor.Models.Productions
