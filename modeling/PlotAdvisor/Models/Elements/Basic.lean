import PlotAdvisor.Advice.Pruning
import PlotAdvisor.Documentation.Library
import PlotAdvisor.Models.Vectors.Words

/-! The model of elements: for a query and the elements that are in use it scores every element.

* `Model.hidden` - what query and context say together.
* `Model.scoreAll`, `Model.score` - the scores of all elements, and of some.
-/
set_option autoImplicit false

namespace PlotAdvisor.Models.Elements

open Scalar Vectors

/-- How the vectors of context and query are joined. -/
inductive Mode where
  | additive
  | multiply
  | concat
  deriving DecidableEq, Inhabited

def Mode.join {α : Type} [Scalar α] (m : Mode) (p l : Row α) : Row α :=
  match m with
  | .additive => addRows p l
  | .multiply => mulRows p l
  | .concat => p ++ l

structure Weights (α : Type) where
  contexts : Matrix α
  /-- The vectors of elements as answers. -/
  outputs : Matrix α
  biases : Row α

def outputsOf {α : Type} [Scalar α] (h : Row α) (rows : Matrix α) (biases : Row α) : Row α :=
  addRows (rows.map (dot h)) biases

structure Model (α : Type) where
  elements : List String
  mode : Mode
  reading : Reading
  vectors : WordVectors α
  weights : Weights α

namespace Model

variable {α : Type} [Scalar α]

def number? (m : Model α) (e : String) : Option Nat :=
  ((m.elements.zipIdx.reverse).find? fun x => x.1 == e).map Prod.snd

def numbers (m : Model α) (used : List String) : List Nat := (used.filterMap m.number?).eraseDups

def contextMean (m : Model α) (numbers : List Nat) : Row α :=
  if numbers.isEmpty then zeros m.vectors.size
  else meanRows m.vectors.size (rowsAt m.weights.contexts numbers)

def hidden (m : Model α) (query : String) (used : List String) : Row α :=
  m.mode.join (m.contextMean (m.numbers used)) (m.vectors.mean (m.reading.numbers m.vectors query))

def output (m : Model α) (h : Row α) (r : Nat) : α := dot h (rowAt m.weights.outputs r) + itemAt m.weights.biases r

def scoreAll (m : Model α) (query : String) (used : List String) : List α :=
  let h := m.hidden (Text.lower query) used
  outputsOf h m.weights.outputs m.weights.biases

def score (m : Model α) (query : String) (used candidates : List String) : List (String × α) :=
  let h := m.hidden (Text.lower query) used
  let known := candidates.filter fun c => (m.number? c).isSome
  let places := known.filterMap m.number?
  known.zip (outputsOf h (rowsAt m.weights.outputs places) (itemsAt m.weights.biases places))

/-- The elements by falling score, and by falling name where scores are equal. -/
def ranked (m : Model α) (query : String) (used : List String) : List (String × α) :=
  let scored := m.elements.zip (m.scoreAll query used)
  scored.mergeSort fun a b => less b.2 a.2 || (!less a.2 b.2 && decide (b.1 ≤ a.1))

end Model

/-! ## Suggestions -/

open Advice

def suggestionLimit : Nat := 50

/-- The best elements that fit what is in use. -/
def Model.suggest (m : Model Float) (s : Setting) (query : String) : List Item :=
  (prune s ((m.ranked query s.used).map fun (e, x) => ⟨e, .real x⟩)).take suggestionLimit

end PlotAdvisor.Models.Elements
