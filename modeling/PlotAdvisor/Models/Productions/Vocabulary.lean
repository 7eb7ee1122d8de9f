import PlotAdvisor.Models.Generator
import PlotAdvisor.Program.Part
import PlotAdvisor.Table

/-! The vocabulary of pairs of an utterance and a program: the words of the utterances, the symbols of the
programs, and the productions, that is, what was met below each symbol and how often.

* `Vocabulary.ofPairs` - the vocabulary of a corpus.
* `Vocabulary.wordsOf` - the words of an utterance; frequent words may be left out by a draw.
-/
set_option autoImplicit false

namespace PlotAdvisor.Models.Productions

open Program Scalar

/-- What was said about a program. -/
structure Pair where
  utterance : String
  tree : Part
  deriving Inhabited

structure Word where
  text : String
  count : Nat
  /-- How likely the word is kept, in parts of `2^32`. -/
  keep : Int
  deriving Inhabited

/-- What was met below a symbol, and how often; the entries have consecutive numbers from `offset` on. -/
structure Production where
  parent : Symbol
  offset : Nat
  children : List (Below × Nat)
  deriving Inhabited

structure Vocabulary where
  inner : List Symbol
  /-- The values; number zero stands for none. -/
  terminals : List Symbol
  words : List Word
  productions : List Production
  deriving Inhabited

/-! ## Words -/

/-- Word counts while reading, and the count up to which words go when there are too many. -/
structure WordCounts where
  counts : Table String Nat := .empty
  least : Nat := 1

def WordCounts.add (limit : Option Int) (w : WordCounts) (utterance : String) : WordCounts :=
  let counts := (Text.words utterance).foldl Table.count w.counts
  match limit with
  | some n =>
    if n ≠ 0 ∧ n < (counts.size : Int) then ⟨⟨counts.entries.filter fun e => w.least < e.2⟩, w.least + 1⟩
    else ⟨counts, w.least⟩
  | none => ⟨counts, w.least⟩

/-- The whole of a word's share. -/
def keepAlways : Nat := Nat.pow 2 32

def rareCount {α : Type} [Scalar α] (sample : Option α) (total : Nat) : α :=
  match sample with
  | none => ofInt total
  | some s =>
    if !less s zero && !less zero s then ofInt total
    else if less s one then s * ofInt total
    else ofInt (trunc (s * (ofInt 3 + sqrt (ofInt 5)) / ofInt 2))

def keepOf {α : Type} [Scalar α] (threshold : α) (count : Nat) : Int :=
  let v : α := ofInt count
  let p := (sqrt (v / threshold) + one) * (threshold / v)
  nearest ((if less p one then p else one) * ofInt keepAlways)

structure WordRules (α : Type) where
  leastCount : Option Int
  limit : Option Int
  sample : Option α
  sorted : Bool
  nullWord : Bool

def nullWord : Word := ⟨"\x00", 1, 0⟩

def wordsOfCorpus {α : Type} [Scalar α] (rules : WordRules α) (utterances : List String) : List Word :=
  let met := (utterances.foldl (WordCounts.add rules.limit) {}).counts
  let kept := met.entries.filter fun e => decide (rules.leastCount.getD 0 ≤ (e.2 : Int))
  let threshold : α := rareCount rules.sample ((kept.map Prod.snd).foldr (· + ·) 0)
  let words := kept.map fun e => (⟨e.1, e.2, keepOf threshold e.2⟩ : Word)
  let words := if rules.sorted then words.mergeSort fun a b => decide (b.count ≤ a.count) else words
  if rules.nullWord then words ++ [nullWord] else words

/-! ## Symbols and productions -/

/-- What is below a symbol comes as one symbol before several; several go part by part. -/
def lessAll : List Symbol → List Symbol → Bool
  | [], [] => false
  | [], _ :: _ => true
  | _ :: _, [] => false
  | a :: as, b :: bs => if a.same b then lessAll as bs else a.less b

def lessBelow : Below → Below → Bool
  | .one a, .one b => a.less b
  | .one _, .many _ => true
  | .many _, .one _ => false
  | .many as, .many bs => lessAll as bs

def countBelow (b : Below) : List (Below × Nat) → List (Below × Nat)
  | [] => [(b, 1)]
  | (c, n) :: rest => if c.same b then (c, n + 1) :: rest else (c, n) :: countBelow b rest

def countUnder (parent : Symbol) (b : Below) :
    List (Symbol × List (Below × Nat)) → List (Symbol × List (Below × Nat))
  | [] => [(parent, [(b, 1)])]
  | (p, cs) :: rest =>
    if p.same parent then (p, countBelow b cs) :: rest else (p, cs) :: countUnder parent b rest

def numbered : Nat → List (Symbol × List (Below × Nat)) → List Production
  | _, [] => []
  | offset, (p, cs) :: rest => ⟨p, offset, cs⟩ :: numbered (offset + cs.length) rest

def sortedChildren (cs : List (Below × Nat)) : List (Below × Nat) :=
  let isOne (c : Below × Nat) : Bool := match c.1 with | .one _ => true | .many _ => false
  let sort := Sorting.sortBy fun (a b : Below × Nat) => lessBelow a.1 b.1
  sort (cs.filter isOne) ++ sort (cs.filter fun c => !isOne c)

def productionsOf (ts : List PartialTree) : List Production :=
  let met := ts.foldl (fun met t => countUnder t.parent.simple t.children.simple met) []
  let sorted := Sorting.sortBy (fun (a b : Symbol × List (Below × Nat)) => a.1.less b.1) met
  numbered 0 (sorted.map fun e => (e.1, sortedChildren e.2))

def sortedSymbols (ss : List Symbol) : List Symbol :=
  Sorting.sortBy Symbol.less (Symbol.distinct (ss.map Symbol.simple))

/-- The partial trees of all programs, those of each program in an order that is drawn. -/
def drawTrees {σ : Type} [Draws σ] (m : Memory) : List Pair → σ → List PartialTree × σ
  | [], g => ([], g)
  | p :: ps, g =>
    let (ts, g) := Draws.arrange (p.tree.partialTrees m) g
    let (more, g) := drawTrees m ps g
    (ts ++ more, g)

namespace Vocabulary

def ofTrees {α : Type} [Scalar α] (rules : WordRules α) (utterances : List String) (ts : List PartialTree) :
    Vocabulary where
  inner := sortedSymbols (ts.map (·.parent))
  terminals := sortedSymbols (ts.flatMap (·.terminals))
  words := wordsOfCorpus rules utterances
  productions := productionsOf ts

def ofPairs {α : Type} [Scalar α] {σ : Type} [Draws σ] (rules : WordRules α) (m : Memory) (pairs : List Pair)
    (g : σ) : Vocabulary × σ :=
  let (ts, g) := drawTrees m pairs g
  (ofTrees rules (pairs.map (·.utterance)) ts, g)

def numberIn? (ss : List Symbol) (s : Symbol) : Option Nat :=
  (ss.findIdx? fun t => t.same s).map (· + 1)

def innerNumber? (v : Vocabulary) (s : Symbol) : Option Nat := numberIn? v.inner s

def terminalNumber? (v : Vocabulary) (s : Symbol) : Option Nat := numberIn? v.terminals s

def production? (v : Vocabulary) (parent : Symbol) : Option Production :=
  v.productions.find? fun p => p.parent.same parent

def entryCount (v : Vocabulary) : Nat := (v.productions.map fun p => p.children.length).foldr (· + ·) 0

def wordNumber? (v : Vocabulary) (w : String) : Option (Nat × Word) :=
  (v.words.zipIdx.reverse.find? fun e => e.1.text == w).map fun e => (e.2, e.1)

def wordCount (v : Vocabulary) : Nat := (v.words.map Word.text).eraseDups.length

def wordsOf (α : Type) [Scalar α] {σ : Type} [Draws σ] (v : Vocabulary) (nullWord : Bool) (utterance : String)
    (g : σ) : List Nat × σ :=
  let (kept, g) := ((Text.words utterance).filterMap v.wordNumber?).foldl (fun (kept, g) (i, w) =>
    let (x, g) := Draws.unit g
    let keep : Bool := less (x * ofInt keepAlways : α) (ofInt w.keep)
    (if keep then i :: kept else kept, g)) (([] : List Nat), g)
  (if kept.isEmpty && nullWord then [0] else kept.reverse, g)

end Vocabulary

def Production.entry? (p : Production) (b : Below) : Option Nat :=
  (p.children.findIdx? fun c => c.1.same b).map (· + p.offset)

/-- The numbers of all that is below a symbol. -/
def Production.entries (p : Production) : List Nat := (List.range p.children.length).map (· + p.offset)

end PlotAdvisor.Models.Productions
