import PlotAdvisor.Command.Outcome
import PlotAdvisor.Elements.CoOccurrence
import PlotAdvisor.Mining.Calls
import PlotAdvisor.Mining.Examples

/-! The commands that mine the examples.

* `pairsCommand` - counts elements that occur together.
* `countCommand` - counts elements and the values that are given for them.
* `positionsCommand` - averages the positions of functions.
-/
set_option autoImplicit false

namespace PlotAdvisor.Mining

open Command Elements Knowledge Program Storage

def progressStep : Nat := 1000

/-- Goes through examples with a state: every example changes it, and every thousandth is told before. -/
def survey {σ : Type} (visit : σ → String → σ) (progress : Nat → σ → String) :
    Nat → σ → List Happening → Except Fault (Nat × σ × String)
  | n, s, [] => .ok (n, s, "")
  | n, s, .told t :: rest => do
    let (n, s, said) ← survey visit progress n s rest
    return (n, s, t ++ said)
  | n, s, .code c :: rest => do
    let telling := if (n + 1) % progressStep = 0 then progress (n + 1) s else ""
    let (n, s, said) ← survey visit progress (n + 1) (visit s c) rest
    return (n, s, telling ++ said)
  | _, _, .failed f :: _ => .error f

def keptLine (folder name : String) : String :=
  Cabinet.savedLine ((⟨folder, .empty⟩ : Cabinet Unit).fileName name)

/-! ## Elements that occur together -/

/-- How many lines apart elements may be. -/
def pairWindow : Int := 20

abbrev PairState := Names × Table (String × String) Nat

def visitPairs (n : Normalizer) (parse : String → Except Fault Tree) (s : PairState) (code : String) : PairState :=
  match parse code with
  | .error _ => s
  | .ok t =>
    let (names, uses) := extract false s.1 t
    (names, (coOccurrences n pairWindow uses).foldl Table.count s.2)

def pairsCommand (n : Normalizer) (parse : String → Except Fault Tree) (s : Saved) :
    Except Fault (Outcome × Table (String × String) Nat) := do
  let (_, (_, counts), said) ← survey (visitPairs n parse)
    (fun k (st : PairState) => toString k ++ " ... unique_cokes=" ++ toString st.2.size ++ "\n")
    0 (sessionTable, .empty) (examples false s)
  return ({ out := said ++ keptLine "models/output/backup" "coke_0329" }, counts)

/-! ## Elements and their values -/

structure ElementTally where
  names : Names := sessionTable
  /-- Elements as they are written. -/
  all : Table String Nat := .empty
  plotting : Table String Nat := .empty
  values : Table String (Table String Nat) := .empty
  unparsable : Nat := 0

def tallyUse (n : Normalizer) (names : Names) (t : ElementTally) (u : Use) : ElementTally :=
  let t := { t with all := t.all.count u.id }
  match plottingId? n u.id with
  | none => t
  | some id =>
    let t := { t with plotting := t.plotting.count id }
    match u.value.bind (countable names n) with
    | some v => { t with values := t.values.alter id .empty fun vs => vs.count v }
    | none => t

def visitElements (n : Normalizer) (parse : String → Except Fault Tree) (t : ElementTally) (code : String) :
    ElementTally :=
  match parse code with
  | .error _ => { t with unparsable := t.unparsable + 1 }
  | .ok tree =>
    let (names, uses) := extract false t.names tree
    uses.foldl (tallyUse n names) { t with names := names }

def countCommand (n : Normalizer) (parse : String → Except Fault Tree) (s : Saved) :
    Except Fault (Outcome × ElementTally) := do
  let (count, t, said) ← survey (visitElements n parse) (fun k _ => toString k ++ " ...\n") 0 {} (examples false s)
  let folder := "experimental/code_suggest/output/backup"
  let report := "Processed " ++ toString count ++ " code examples\nThere are " ++ toString t.all.size ++
    " unique elements\nThere are " ++ toString t.plotting.size ++ " unique pyplot elements\n" ++
    (if t.unparsable = 0 then "" else "synax_error_files: " ++ toString t.unparsable ++ "\n") ++
    keptLine folder "elem_counts_0404" ++ keptLine folder "elem_pyplot_counts_0404" ++
    keptLine folder "elem_pyplot_value_counts_0404"
  return ({ out := said ++ report }, t)

/-! ## Average positions -/

/-- How many calls a program must have for its positions to count. -/
def leastCalls : Nat := 3

abbrev PositionSums (α : Type) := Table String (α × Nat)

variable {α : Type} [Scalar α]

def positionsIn (known : String → Bool) (program : Tree) : List (String × α) :=
  let calls := callNodes program
  if calls.length < leastCalls then []
  else
    let fs := (calls.filterMap calledName).filter known
    fs.zipIdx.map fun (f, i) => (f, Scalar.ofInt i / Scalar.ofInt fs.length)

def averagePositions (known : String → Bool) (parse : String → Except Fault Tree) (codes : List String) :
    Table String α :=
  let sums : PositionSums α := codes.foldl (fun sums code =>
    match parse code with
    | .error _ => sums
    | .ok t => (positionsIn known t).foldl (fun s (f, x) =>
        s.alter f (Scalar.zero, 0) fun (total, n) => (total + x, n + 1)) sums) .empty
  sums.mapValues fun (total, n) => total / Scalar.ofInt n

def positionsCommand (docs : Docs) (parse : String → Except Fault Tree) (s : Saved) :
    Except Fault (Outcome × Table String Float) := do
  let empty : Cabinet (List String) := ⟨"experimental/code_suggest", .empty⟩
  let cabinet := match s.answerCodes with
    | some codes => (empty.save "all_codes" codes).1
    | none => empty
  let (codes, restored) ← cabinet.load "all_codes"
  let averages : Table String Float := averagePositions docs.functions.contains parse codes
  return ({ out := restored ++ "There are " ++ toString codes.length ++ " code examples in total\n" ++
      "Extracted average positions for " ++ toString averages.size ++ " functions\n" ++
      keptLine "demo/data" "pos_ave" }, averages)

end PlotAdvisor.Mining
