import PlotAdvisor.Wording.Lemmas
import PlotAdvisor.Models.Linear

/-! Words with their vectors, and the words of a query. -/
set_option autoImplicit false

namespace PlotAdvisor.Models.Vectors

open Wording

structure WordVectors (α : Type) where
  words : List String
  rows : Matrix α
  size : Nat
  nullWord : Bool
  deriving Inhabited

namespace WordVectors

variable {α : Type} [Scalar α]

def number? (v : WordVectors α) (w : String) : Option Nat :=
  ((v.words.zipIdx.reverse).find? fun e => e.1 == w).map Prod.snd

def knows (v : WordVectors α) (w : String) : Bool := v.words.contains w

def mean (v : WordVectors α) (numbers : List Nat) : Row α :=
  if numbers.isEmpty then zeros v.size else meanRows v.size (rowsAt v.rows numbers)

end WordVectors

structure Reading where
  emptyWords : List String
  tokenizer : Tokenizer
  stemmers : Stemmers
  lemmas : Bool
  /-- How many words a phrase is asked to have at most; phrases are looked for from two on. -/
  longest : Int
  deriving Inhabited

/-- How many words a phrase has at most, whatever is asked for. -/
def phraseLimit : Int := 5

def withPhrases (known : String → Bool) (longest : Int) (ts : List String) : List String :=
  if 1 < longest then (ts ++ Wording.phrases known .empty [] phraseLimit (Text.join " " ts)).eraseDups else ts

def Reading.tokens {α : Type} [Scalar α] (r : Reading) (v : WordVectors α) (query : String) : List String :=
  let ts := r.tokenizer.tokens [("-", " ")] query
  if r.lemmas then ts.map (r.stemmers.lemmaIn v.knows) else ts

def Reading.words {α : Type} [Scalar α] (r : Reading) (v : WordVectors α) (query : String) : List String :=
  (withPhrases v.knows r.longest (r.tokens v query)).filter fun t => !r.emptyWords.contains t

def Reading.numbers {α : Type} [Scalar α] (r : Reading) (v : WordVectors α) (query : String) : List Nat :=
  let found := (r.words v query).filterMap v.number?
  if found.isEmpty && v.nullWord then [0] else found

end PlotAdvisor.Models.Vectors
