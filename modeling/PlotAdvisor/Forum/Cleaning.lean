import PlotAdvisor.Forum.Post
import PlotAdvisor.Text.LowerCase

/-! Texts of posts without markup, cut into words.

1. Elements of code are taken out, with all that is in them.
2. The markup that is left is taken out, twice.
3. Words are put one blank apart; quotes before words, double points after words and slashes between words are
   set off by blanks.
4. Everything is put in lower case.
-/
set_option autoImplicit false

namespace PlotAdvisor.Forum

open Text

/-! ## Taking out elements -/

def afterPattern? : List Char → List Char → Option (List Char)
  | [], cs => some cs
  | _ :: _, [] => none
  | p :: ps, c :: cs => if p == '.' || p == c then afterPattern? ps cs else none

def afterFirst? (pattern : List Char) : List Char → Option (List Char)
  | [] => afterPattern? pattern []
  | c :: cs =>
    match afterPattern? pattern (c :: cs) with
    | some rest => some rest
    | none => afterFirst? pattern cs

def afterElement? (tag : List Char) (cs : List Char) : Option (List Char) := do
  let rest ← afterPattern? ('<' :: tag) cs
  let rest ← afterFirst? ['>'] rest
  afterFirst? ('<' :: '/' :: tag ++ ['>']) rest

def withoutElements (tag : List Char) : Nat → List Char → List Char
  | _, [] => []
  | skip + 1, _ :: cs => withoutElements tag skip cs
  | 0, c :: cs =>
    match afterElement? tag (c :: cs) with
    | some rest => withoutElements tag (cs.length - rest.length) cs
    | none => c :: withoutElements tag 0 cs

def stripElements (tag text : String) : String := String.ofList (withoutElements tag.toList 0 text.toList)

def stripCode (text : String) : String := stripElements "code" text

/-! ## Words -/

/-- A quote before three letters stands alone. -/
def splitQuotes : List Char → List Char
  | [] => []
  | '\'' :: a :: b :: c :: rest =>
    if isWordChar a && isWordChar b && isWordChar c then '\'' :: ' ' :: splitQuotes (a :: b :: c :: rest)
    else '\'' :: splitQuotes (a :: b :: c :: rest)
  | c :: rest => c :: splitQuotes rest

/-- Double points after a letter stand alone. -/
def splitPoints : List Char → List Char
  | [] => []
  | c :: '.' :: '.' :: rest =>
    if isWordChar c then c :: ' ' :: '.' :: '.' :: splitPoints rest else c :: splitPoints ('.' :: '.' :: rest)
  | c :: rest => c :: splitPoints rest

/-- A slash between letters stands alone; a letter is next to one such slash only. -/
def splitSlashes : List Char → List Char
  | [] => []
  | c :: '/' :: d :: rest =>
    if isWordChar c && isWordChar d then c :: ' ' :: '/' :: ' ' :: d :: splitSlashes rest
    else c :: splitSlashes ('/' :: d :: rest)
  | c :: rest => c :: splitSlashes rest

def tokenized (text : String) : String :=
  String.ofList (splitSlashes (splitPoints (splitQuotes (join " " (words text)).toList)))

def cleaned (plain : String → String) (text : String) : String :=
  lower (tokenized (plain (plain (stripCode text))))

def Thread.cleaned (plain : String → String) (t : Thread) : Except Fault String := do
  let parts ← (t.title :: t.body :: t.answers.map Answer.body).mapM fun p => orFault p .wrongKind
  return trim (Forum.cleaned plain (join "\n" parts))

end PlotAdvisor.Forum
