import PlotAdvisor.Documentation.Library
import PlotAdvisor.Models.Vectors.Centroid

/-! Ranking elements by how close their documentation is to a query. The scores may be raised for elements
that are in use or frequent, and once more for elements that often occur with those in use. -/
set_option autoImplicit false

namespace PlotAdvisor.Models.Vectors

open Scalar

/-- Elements with the centroids of their documentation. -/
structure ElementIndex (α : Type) where
  rare : List (Option α)
  elements : List String
  rows : Matrix α
  deriving Inhabited

variable {α : Type} [Scalar α]

def ElementIndex.make (l : Lookup) (v : WordVectors α) (docs : Knowledge.Docs)
    (library : Documentation.Library) (elements : List String) : Except Fault (ElementIndex α) := do
  let rare := rarities l v (docs.functions.values ++ docs.arguments.values)
  let elements := Sorting.sortTexts elements
  ensure (!elements.isEmpty) ""
  return ⟨rare, elements, elements.map fun e => centroid l v (some rare) (library.trainingText e true)⟩

structure ElementRanker (α : Type) where
  lookup : Lookup
  vectors : WordVectors α
  index : ElementIndex α
  counts : Table String Int
  raises : Bool
  together : Option (Table (String × String) Int)

namespace ElementRanker

def queryRow (r : ElementRanker α) (query : String) : Row α :=
  centroid r.lookup r.vectors (some r.index.rare) (Text.lower query)

/-- The logarithm of a number with ten more. -/
def smoothed (x : α) : Except Fault α :=
  let y := x + ofInt 10
  if atMost y zero then .error (.badValue "math domain error") else .ok (log y)

def raised (r : ElementRanker α) (used : List String) (element : String) (score : α) : Except Fault α := do
  let score :=
    if used.contains element then score * ofInt 2
    else if used.isEmpty || used.any (Text.startsWith element ·) then score * decimal 15 1
    else score
  return score * (← smoothed (ofInt (r.counts.getD element 0)))

/-- Frequent elements pass, arguments only with their function in use. -/
def passes (r : ElementRanker α) (used : List String) (element : String) : Bool :=
  decide (10 ≤ r.counts.getD element 0) &&
    (!Text.has element "@" || used.contains (Text.splitOnce element "@").1)

/-- How often two elements occur together, in either order. -/
def pairCount (pairs : Table (String × String) Int) (x y : String) : Int :=
  match pairs.get? (x, y) with
  | some n => n
  | none => pairs.getD (y, x) 0

/-- The counts are a plain table, in which an element in use without a count is a missing key. Counts that take such an
element as zero are meant by a table with an entry for it. -/
def share (r : ElementRanker α) (pairs : Table (String × String) Int) (element other : String) : Except Fault α := do
  let n ← orFault (r.counts.get? other) (.noKey (Text.quoted other))
  if n + 1 = 0 then .error .zeroDivision
  else return ofInt (pairCount pairs element other) / ofInt (n + 1)

def scaled (r : ElementRanker α) (pairs : Table (String × String) Int) (used : List String) :
    α → List (String × α) → Except Fault (List (String × α))
  | _, [] => .ok []
  | total, (e, x) :: rest => do
    let total ← used.foldlM (fun t u => do return t + (← r.share pairs e u)) total
    return (e, x * (← smoothed total)) :: (← r.scaled pairs used total rest)

def byScore (xs : List (String × α)) : List (String × α) :=
  Sorting.falling (fun a b => less a.2 b.2) xs

def limit : Nat := 100

def candidates (r : ElementRanker α) (query : String) (used : List String) : Except Fault (List (String × α)) := do
  let q := r.queryRow query
  let scored ← (r.index.elements.zip r.index.rows).mapM fun (e, row) => do
    return (e, ← if r.raises then r.raised used e (dot q row) else pure (dot q row))
  return ((byScore scored).filter fun x => r.passes used x.1).take limit

def suggest (r : ElementRanker α) (query : String) (used : List String) : Except Fault (List (String × α)) := do
  let best ← r.candidates query used
  match r.together with
  | none => return byScore best
  | some pairs => return byScore (← r.scaled pairs used zero best)

def score (r : ElementRanker α) (query : String) (candidates : List String) : List (String × α) :=
  let q := r.queryRow query
  candidates.filterMap fun c =>
    ((r.index.elements.zip r.index.rows).lookup c).map fun row => (c, dot q row)

end ElementRanker

end PlotAdvisor.Models.Vectors
