import PlotAdvisor.Models.Vectors.Words

/-! The centroid of a text: the mean of the vectors of its words, rare words weighing more. -/
set_option autoImplicit false

namespace PlotAdvisor.Models.Vectors

open Wording Scalar

inductive WordForm where
  | written
  /-- Without its ending. -/
  | cut
  | base
  deriving DecidableEq, Inhabited

def WordForm.apply (f : WordForm) (st : Stemmers) (w : String) : String :=
  match f with
  | .written => w
  | .cut => st.cutting.getD w w
  | .base => st.base.getD w w

structure Lookup where
  form : WordForm
  /-- How many words a phrase is asked to have at most; phrases are looked for from two on. -/
  longest : Int
  tokenizer : Tokenizer
  stemmers : Stemmers
  deriving Inhabited

namespace Lookup

variable {α : Type}

def tokens (l : Lookup) (text : String) : List String :=
  (l.tokenizer.tokens [] text).map (l.form.apply l.stemmers)

def words (l : Lookup) (v : WordVectors α) (text : String) : List String :=
  withPhrases v.words.contains l.longest (l.tokens text)

variable [Scalar α]

def numbers (l : Lookup) (v : WordVectors α) (text : String) : List Nat :=
  match (l.words v text).filterMap v.number? with
  | [] => [0]
  | ns => ns

end Lookup

/-! ## Rare words -/

variable {α : Type} [Scalar α]

def rarities (l : Lookup) (v : WordVectors α) (texts : List String) : List (Option α) :=
  let found := texts.map (l.numbers v)
  (List.range v.rows.length).map fun i =>
    match (found.filter fun ns => ns.contains i).length with
    | 0 => none
    | n => some (log (ofInt texts.length / ofInt n))

/-- What stands for the rarity of a word that was never met. -/
def unmetRarity : Int := 5

def leastRarity : Int := 2

/-- The weight of a word: common words have none. -/
def weightOf (rarity : Option α) : α :=
  let r := rarity.getD (ofInt unmetRarity)
  if less (ofInt leastRarity) r then r else zero

def centroid (l : Lookup) (v : WordVectors α) (rare : Option (List (Option α))) (text : String) : Row α :=
  let ns := l.numbers v text
  let weights : List α :=
    match rare with
    | some rs => ns.map fun i => weightOf (rs.getD i none)
    | none => ns.map fun _ => one
  let total := sumRows v.size (List.zipWith scaleRow weights (rowsAt v.rows ns))
  unitRow (total.map (· / ofInt ns.length))

end PlotAdvisor.Models.Vectors
