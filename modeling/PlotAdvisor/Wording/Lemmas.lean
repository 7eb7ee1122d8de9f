import PlotAdvisor.Knowledge.Sources

/-! Words, their base forms and phrases of them. A tokenizer cuts texts into sentences. A stemmer is a table of the words
it changes. -/
set_option autoImplicit false

namespace PlotAdvisor.Wording

/-- Two stemmers: one that cuts endings and one that finds the base form. -/
structure Stemmers where
  cutting : Table String String
  base : Table String String
  deriving Inhabited

/-- Cuts a text into sentences, in each of which blanks part the words. Some parts of the text are replaced before. -/
structure Tokenizer where
  sentences : List (String × String) → String → List String

instance : Inhabited Tokenizer := ⟨⟨fun _ _ => []⟩⟩

def Tokenizer.tokens (t : Tokenizer) (replacements : List (String × String)) (text : String) : List String :=
  Text.words (Text.join " " (t.sentences replacements text))

namespace Stemmers

/-- The cut form if it is known, else the word without `ing` if that is known, else the base form. -/
def lemmaIn (st : Stemmers) (known : String → Bool) (w : String) : String :=
  let cut := st.cutting.getD w w
  if known cut then cut
  else
    let next := if Text.endsWith w "ing" then String.ofList (w.toList.take (w.length - 3)) else cut
    if known next then next else st.base.getD w w

end Stemmers

def asciiMarks : List String :=
  "!\"#$%&'()*+,-./:;<=>?@[\\]^_`\x7b|\x7d~".toList.map fun c => String.ofList [c]

/-- The words that carry no meaning: those of the lines that are no comments, and the punctuation marks. -/
def emptyWords (s : Knowledge.Sources) : List String :=
  let lines := (Text.Chars.splitOn ['\n'] s.emptyWords.toList)
  let lines := if lines.getLast? == some [] then lines.dropLast else lines
  let words := lines.flatMap fun l =>
    if l.head? == some '#' then [] else Text.splitOn (String.ofList (Text.Chars.trim l)) ", "
  (words ++ asciiMarks).eraseDups

/-! Cutting a sentence into known phrases: at each word the longest known run of words that starts there is
taken, and a word that starts none is left out. -/

def longestPhrase (known : String → Bool) (words : List String) : Nat → Option (String × Nat)
  | 0 => none
  | n + 1 =>
    let phrase := Text.join "_" (words.take (n + 1))
    if known phrase then some (phrase, n + 1) else longestPhrase known words n

def phrasesFrom (known : String → Bool) (limit : Nat) : Nat → List String → List String
  | _, [] => []
  | skip + 1, _ :: ws => phrasesFrom known limit skip ws
  | 0, w :: ws =>
    match longestPhrase known (w :: ws) (min limit (w :: ws).length) with
    | some (phrase, n) => phrase :: phrasesFrom known limit (n - 1) ws
    | none => phrasesFrom known limit 0 ws

def phrases (known : String → Bool) (replacement : Table String String) (leftOut : List String)
    (limit : Int) (text : String) : List String :=
  let words := (Text.words text).map fun w => replacement.getD w w
  (phrasesFrom known limit.toNat 0 words).filter fun p => !leftOut.contains p

end PlotAdvisor.Wording
