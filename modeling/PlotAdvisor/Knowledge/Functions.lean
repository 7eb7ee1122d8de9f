import PlotAdvisor.Knowledge.Sources
import PlotAdvisor.Sorting
import PlotAdvisor.Text.LowerCase

/-! What is known of functions: the names that the plotting module defines, and the utterances that
describe functions and their arguments. -/
set_option autoImplicit false

namespace PlotAdvisor.Knowledge

def definedFunctions (source : String) : List String :=
  (Text.fieldsAtNewline source).filterMap fun line =>
    (Text.Chars.dropStart? "def ".toList (Text.Chars.trim line.toList)).map fun rest =>
      String.ofList (rest.takeWhile (· != '('))

abbrev Counter := Table String Nat

/-- The most frequent keys, joined, in lower case. -/
def mostPopular (c : List (String × Int)) : Except Fault String :=
  match c with
  | [] => .error (.badValue "max() arg is an empty sequence")
  | e :: es =>
    let most := es.foldl (fun m e => max m e.2) e.2
    .ok (Text.lower (Text.join " " ((c.filter fun e => e.2 == most).map Prod.fst)))

structure Docs where
  functions : Table String String
  arguments : Table (String × String) String
  deriving Inhabited

/-- How the tables of utterances are read. -/
structure DocsReading where
  lastNameOnly : Bool := true
  /-- Only the first fifteen words of an utterance count. -/
  shorten : Bool := true

namespace DocsReading

def name (r : DocsReading) (full : String) : String :=
  if r.lastNameOnly then Text.lastPart full "." else full

def utterance (r : DocsReading) (u : String) : String :=
  let first := (Text.splitOnce u "|||").1
  if r.shorten then Text.join " " ((Text.words first).take 15) else first

end DocsReading

/-- Counts the utterances of each key and keeps the most popular. -/
def settle {κ : Type} [BEq κ] (met : List (κ × String)) : Except Fault (Table κ String) := do
  let counted : Table κ Counter :=
    met.foldl (fun t e => t.alter e.1 Table.empty fun c => c.count e.2) Table.empty
  let entries ← counted.entries.mapM fun e => do
    return (e.1, ← mostPopular (e.2.entries.map fun u => (u.1, (u.2 : Int))))
  return ⟨entries⟩

def describedFunctions (s : Sources) : Except Fault (List String) := do
  return (← ((Csv.read s.functionDocs).drop 1).mapM Csv.two).map Prod.fst

/-- Reads both tables; their first rows are headings. -/
def readDocs (s : Sources) (r : DocsReading) : Except Fault Docs := do
  let fs ← ((Csv.read s.functionDocs).drop 1).mapM Csv.two
  let as ← ((Csv.read s.argumentDocs).drop 1).mapM Csv.three
  let functions ← settle (fs.map fun (f, u) => (r.name f, r.utterance u))
  let arguments ← settle (as.map fun (f, a, u) => ((r.name f, a), r.utterance u))
  return ⟨functions, arguments⟩

/-! ## The functions of the plotting module by what they are for

Those whose description begins with
plotting, making or drawing draw something, the others change what is drawn. -/

/-- The summary: functions with their descriptions in lower case; those without are left out. -/
def readSummary (s : Sources) : Except Fault (Table String String) := do
  let rows ← ((Csv.read s.plottingSummary).drop 1).mapM Csv.two
  let told := rows.filter fun r => r.2 != ""
  return (Table.ofList told).mapValues Text.lower

def isDrawing (description : String) : Bool :=
  ["plot", "make", "draw"].contains (Text.slice description 0 4)

structure Plotting where
  drawing : List String
  other : List String
  deriving Inhabited

def readPlotting (s : Sources) : Except Fault Plotting := do
  let summary ← readSummary s
  let drawing := Sorting.sortTexts ((summary.entries.filter fun e => isDrawing e.2).map Prod.fst)
  return ⟨drawing, summary.keys.filter fun f => !drawing.contains f⟩

end PlotAdvisor.Knowledge
