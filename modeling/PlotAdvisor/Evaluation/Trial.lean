import PlotAdvisor.Command.Outcome
import PlotAdvisor.Elements.Context
import PlotAdvisor.Models.Elements.Basic

/-! Trials of a model on cases: the rank of what is expected, the cases, and the report on many of them. A command shows
the best elements for a query in one of the known programs. -/
set_option autoImplicit false

/-! ## The rank of an expected element among advice

The expected elements of an answer are kept, so that they
are worked out once for a program and an answer. -/

namespace PlotAdvisor.Evaluation

open Advice Elements

def expectedIn (n : Normalizer) (answer : String) : List String :=
  ((Text.words answer).map n.simplify).eraseDups

/-- Expected elements by program and answer. -/
abbrev Kept := Table (String × String) (List String)

def expected (n : Normalizer) (kept : Kept) (code answer : String) : List String × Kept :=
  match kept.get? (code, answer) with
  | some es => (es, kept)
  | none =>
    let es := expectedIn n answer
    (es, kept.set (code, answer) es)

def rankOf (expected : List String) (items : List Item) : Nat :=
  match items.findIdx? fun i => expected.contains i.element with
  | some i => i + 1
  | none => 0

structure Note where
  rank : Nat
  item : Item
  isExpected : Bool

def notes (expected : List String) (items : List Item) : List Note :=
  items.zipIdx.map fun (i, k) => ⟨k + 1, i, expected.contains i.element⟩

end PlotAdvisor.Evaluation

/-! ## Cases to evaluate a model on

A case is a query, the element that is expected for it, and the situation. -/

namespace PlotAdvisor.Evaluation

open Elements Program

inductive Situation where
  | program (name : String)
  | using (elements : List String)
  /-- Anything else tells nothing. -/
  | other
  deriving Inhabited

structure Case where
  expected : String
  query : String
  situation : Situation
  deriving Inhabited

def handCases : List (String × String × String) := [
  ("plt.bar@color", "change bar color", "bar"),
  ("plt.title", "add title", "bar"),
  ("plt.xlabel", "add label to x-axis", "bar"),
  ("plt.bar@hatch", "add hatching", "bar"),
  ("plt.bar@hatch", "fill pattern", "bar"),
  ("plt.ylabel", "", "bar"),
  ("plt.title@bbox@facecolor", "change color of title background", "pie"),
  ("plt.pie@explode", "explode", "pie"),
  ("plt.pie@explode", "separate a piece of pie", "pie"),
  ("plt.pie@explode", "explode pie", "pie"),
  ("plt.title@bbox", "title bounding box", "pie"),
  ("plt.title@bbox@pad", "title bounding box padding", "pie"),
  ("plt.title@bbox@pad", "title size", "pie"),
  ("plt.title@bbox@facecolor", "title background color", "pie"),
  ("plt.grid", "add grid line", "bar"),
  ("plt.grid", "add grid lines", "bar"),
  ("plt.grid", "add grid", "bar"),
  ("plt.grid", "add grids", "bar"),
  ("plt.grid", "add gridlines", "bar"),
  ("plt.plot@linewidth", "thickness", "line"),
  ("plt.plot@linewidth", "line thickness", "line"),
  ("plt.plot@linewidth", "thick", "line"),
  ("plt.plot@linewidth", "wide", "line"),
  ("plt.xkcd", "fancy style", "line")]

/-- The written cases that are none of those looked at by hand, and how many of the others there were. -/
def readCases (s : Knowledge.Sources) : Except Fault (List (String × String × String) × Nat) := do
  let rows ← ((Csv.read s.expectations).drop 1).mapM Csv.four
  let cases := rows.map fun (program, query, expected, _) => (expected, query, program)
  let (again, new) := cases.partition handCases.contains
  return (new, again.length)

def Case.ofTexts : String × String × String → Case
  | (expected, query, program) => ⟨expected, query, .program program⟩

def programFiles : List (String × String) := [
  ("bar", "demo/code-samples/user-study/task1.py"),
  ("pie", "demo/code-samples/user-study/task2.py"),
  ("line", "demo/code-samples/user-study/practice.py"),
  ("empty", "demo/code-samples/empty.py"),
  ("eval3", "demo/code-samples/eval3.py"),
  ("line_video", "demo/code-samples/demo_video_linechart.py")]

structure Desk where
  normalizer : Normalizer
  read : String → Except Fault String
  parse : String → Except Fault Tree

def Situation.used (d : Desk) (names : Names) : Situation → Except Fault (List String × Names)
  | .program name => do
    let file ← orFault (programFiles.lookup name) (.noKey (Text.quoted name))
    let code ← d.read file
    if Text.trim code == "" then return ([], names)
    let (c, names) := Context.ofTree d.normalizer names (← d.parse code)
    return (c.used, names)
  | .using elements => .ok (elements, names)
  | .other => .error .wrongKind

end PlotAdvisor.Evaluation

/-! ## Trials -/

namespace PlotAdvisor.Evaluation

open Advice Models
open PlotAdvisor.Elements (Names)

structure Trial where
  rank : Nat
  first : List String
  items : List Item

def firstCount : Nat := 10

def trialOf (expected : String) (items : List Item) : Trial :=
  let elements := items.map Item.element
  match elements.idxOf? expected with
  | some i => ⟨i + 1, (elements.take (i + 1)).take firstCount, items⟩
  | none => ⟨0, elements.take firstCount, items⟩

structure Bench where
  desk : Desk
  model : Elements.Model Float
  counts : Table String Int
  drawing : List String
  prunes : Bool

def Bench.trial (b : Bench) (names : Names) (c : Case) : Except Fault (Trial × Names) := do
  let (used, names) ← c.situation.used b.desk names
  let items := (b.model.ranked c.query used).map fun (e, x) => (⟨e, .real x⟩ : Item)
  return (trialOf c.expected (if b.prunes then prune ⟨used, b.counts, b.drawing⟩ items else items), names)

def Bench.ranks (b : Bench) (names : Names) : List Case → Except Fault (List (Nat × String))
  | [] => .ok []
  | c :: rest => do
    let (t, names) ← b.trial names c
    return (t.rank, c.query) :: (← b.ranks names rest)

/-! ## The report -/

/-- A worse rank: an element that is not there is worst. -/
def isBetter (a b : Nat) : Bool := if a == 0 then false else b == 0 || decide (a < b)

def rankLine (r : Nat × String) : String := "Rank: " ++ Text.padStart 5 (toString r.1) ++ "   " ++ r.2 ++ "\n"

def share (n : Nat) (total : Nat) : String := Decimal.fixed 6 (Decimal.ofInt n / Decimal.ofInt total)

def shownCount : Nat := 15

def report (rs : List (Nat × String)) : Except Fault String := do
  let ranks := rs.map Prod.fst
  let total := ranks.length
  if total = 0 then .error .zeroDivision
  let reciprocal := ranks.foldl (fun x (r : Nat) => if r = 0 then x else x + 1.0 / Decimal.ofInt r) 0.0
  let sorted := Sorting.falling (fun a b => isBetter a.1 b.1) rs
  return "\n[Mean Rank]: " ++ share (ranks.foldr (· + ·) 0) total ++
    "\n[MRR]: " ++ Decimal.fixed 6 (reciprocal / Decimal.ofInt total) ++
    "\n[Perfect Ranks]: " ++ share (ranks.filter (· == 1)).length total ++
    "\n[Good Ranks]: " ++ share (ranks.filter fun r => 0 < r && r ≤ 5).length total ++
    "\n\nWorst ranks:\n" ++ String.join ((sorted.take shownCount).map rankLine) ++
    "\nBest ranks:\n" ++ String.join ((sorted.reverse.take shownCount).map rankLine)

/-! ## Checking one query -/

def checkedCount : Nat := 20

/-- The best elements for a query, each with its score before it. -/
def Trial.shown (t : Trial) : String :=
  String.join ((t.items.take checkedCount).map fun i =>
    Decimal.fixed 6 i.score.toFloat ++ "\t" ++ i.element ++ "\n")

def checkUsage : String := "\n  Usage:\n\n    check_bimodal file \"query\"\n\n  \n"

def checkedPrograms : List String := ["bar", "pie", "line"]

def checkedModel : String := "models/output/bi2-0410-d.model"

def loadedLines (file : String) : String :=
  "@@@ PLEASE CHECK WHICH FILE IS BEING TESTED ... @@@\n@@@ MODEL_FILE: " ++ file ++ " @@@\n"

/-- The bench is made only once the arguments are found to be in order. -/
def checkCommand (bench : Unit → Except Fault Bench) : List String → Except Fault Command.Outcome
  | name :: query :: _ =>
    if !checkedPrograms.contains name then .ok { exit := 1, out := "unrecognized file id\n" }
    else do
      let (t, _) ← (← bench ()).trial Elements.sessionTable ⟨"", query, .program name⟩
      return { out := loadedLines checkedModel ++ t.shown }
  | _ => .ok { exit := 1, out := checkUsage }

end PlotAdvisor.Evaluation
