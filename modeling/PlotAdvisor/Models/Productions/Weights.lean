import PlotAdvisor.Models.Productions.Vocabulary

/-! What the productions model has learned: a vector for each symbol, word and production entry, marks that
weigh symbols by their distance, and a bias for each production entry. -/
set_option autoImplicit false

namespace PlotAdvisor.Models.Productions

open Program Scalar

structure Settings (α : Type) where
  size : Nat
  alpha : α
  leastAlpha : α
  words : WordRules α
  seed : Int
  negative : Int
  rounds : Int
  /-- How many partial trees are learned from at one rate. -/
  batch : Int
  /-- Whether what is known about program and utterance is added; else it is multiplied. -/
  additive : Bool
  memory : Memory
  rows : StartRows α

structure Weights (α : Type) where
  inner : Matrix α
  terminals : Matrix α
  words : Matrix α
  innerMarks : Matrix α
  terminalMarks : Matrix α
  entries : Matrix α
  biases : Row α

structure Model (α : Type) where
  settings : Settings α
  vocabulary : Vocabulary
  weights : Weights α

variable {α : Type} [Scalar α]

/-- Up to how many entries more than asked for all of them are taken as wrong ones. -/
def smallVocabulary : Int := 20

/-- Whether wrong entries below this symbol are drawn. -/
def Production.isDrawn (p : Production) (negative : Int) : Bool :=
  decide (negative + smallVocabulary < (p.children.length : Int))

def Production.shares (α : Type) [Scalar α] (p : Production) : List Int :=
  cumulativeShares α (p.children.map Prod.snd)

def startOfSymbols (st : Settings α) (ss : List Symbol) : Matrix α :=
  ("None" :: ss.map Symbol.render).map fun s => st.rows.row (s ++ toString st.seed) st.size

def startOfMarks (size : Nat) (count : Int) : Except Fault (Matrix α) :=
  if count < 0 then .error (.badValue "negative dimensions are not allowed")
  else .ok (List.replicate count.toNat (List.replicate size (one / ofInt count)))

/-- The logarithms of the shares of the entries below a symbol. -/
def startOfBiases (p : Production) : Row α :=
  let total : Nat := (p.children.map Prod.snd).foldr (· + ·) 0
  p.children.map fun c => log (ofInt c.2 / ofInt total)

def Weights.start (st : Settings α) (v : Vocabulary) : Except Fault (Weights α) := do
  return {
    inner := startOfSymbols st v.inner
    terminals := startOfSymbols st v.terminals
    words := (v.words.take v.wordCount).map fun w => st.rows.row (w.text ++ toString st.seed) st.size
    innerMarks := ← startOfMarks st.size st.memory.ancestors
    terminalMarks := ← startOfMarks st.size st.memory.terminals
    entries := (List.range v.entryCount).map fun i =>
      st.rows.row ("syn1r" ++ toString i ++ toString st.seed) st.size
    biases := v.productions.flatMap startOfBiases }

def Model.start {σ : Type} [Draws σ] (st : Settings α) (pairs : List Pair) (g : σ) :
    Except Fault (Model α × σ) := do
  let (v, g) := Vocabulary.ofPairs st.words st.memory pairs g
  for p in v.productions do
    if p.isDrawn st.negative then ensure (p.shares α |>.getLast? |>.all (· == (shareDomain : Int))) ""
  return (⟨st, v, ← Weights.start st v⟩, g)

/-! ## What a partial tree shows -/

/-- The numbers that stand for the surroundings of a part and for the words of an utterance. -/
structure Context where
  inner : List Nat
  terminals : List Nat
  words : List Nat

def padded (count : Int) (ns : List Nat) : List Nat := ns ++ List.replicate (count.toNat - ns.length) 0

/-- There must be a mark for each number. -/
def Context.check (c : Context) (w : Weights α) : Except Fault Unit :=
  ensure (c.inner.length == w.innerMarks.length && c.terminals.length == w.terminalMarks.length) ""

/-- What is known about the program, and about the utterance. -/
def Context.views (c : Context) (size : Nat) (w : Weights α) : Row α × Row α :=
  let known := addRows (sumRows size (List.zipWith mulRows (rowsAt w.inner c.inner) w.innerMarks))
    (sumRows size (List.zipWith mulRows (rowsAt w.terminals c.terminals) w.terminalMarks))
  (known, meanRows size (rowsAt w.words c.words))

def joined (additive : Bool) (known said : Row α) : Row α :=
  if additive then addRows known said else mulRows known said

/-- The logarithms of the weights of production entries, up to a common summand. -/
def Model.outputs (m : Model α) (c : Context) (entries : List Nat) : Row α :=
  let (known, said) := c.views m.settings.size m.weights
  let h := joined m.settings.additive known said
  entries.map fun r => dot h (rowAt m.weights.entries r) + itemAt m.weights.biases r

end PlotAdvisor.Models.Productions
