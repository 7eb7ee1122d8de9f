import PlotAdvisor.Models.Elements.Training

/-! What the programs find around them: texts, values saved by earlier runs, vectors of words, a trained
model, and tables of examples. Each program takes the parts it needs, in the order in which it needs them, so
that the first part that is missing or out of order is the one it stops at. -/
set_option autoImplicit false

namespace PlotAdvisor

open Knowledge Models Documentation

structure Sample where
  function : String
  code : String
  picture : Option String
  deriving Inhabited

structure World where
  sources : Sources
  saved : Saved
  /-- All texts, by path. -/
  files : Table String String
  vectors : Option (Vectors.WordVectors Float)
  trained : List String → Wording.Tokenizer → Wording.Stemmers → Vectors.WordVectors Float →
    Option (Elements.Model Float)
  tokenizer : Wording.Tokenizer
  stemmers : Wording.Stemmers
  samples : List Sample
  located : Table String String

namespace World

def base (w : World) : Except Fault Base := Base.ofSources w.sources w.saved.elementCounts

def library (w : World) : Except Fault Library := do
  let _ ← w.base
  Library.ofSources w.sources

def emptyWords (w : World) : List String := Wording.emptyWords w.sources

def plotting (w : World) : Except Fault Plotting := readPlotting w.sources

def wordVectors (w : World) : Except Fault (Vectors.WordVectors Float) := orFault w.vectors .noFile

def model (w : World) : Except Fault (Elements.Model Float) := do
  orFault (w.trained w.emptyWords w.tokenizer w.stemmers (← w.wordVectors)) .noFile

def background (w : World) : Except Fault (Elements.Background Float) := do
  let b ← w.base
  return ⟨← Library.ofSources w.sources, b.normalizer, ← w.wordVectors, w.emptyWords, w.tokenizer, w.stemmers⟩

def read (w : World) (path : String) : Except Fault String := orFault (w.files.get? path) .noFile

end World

end PlotAdvisor
