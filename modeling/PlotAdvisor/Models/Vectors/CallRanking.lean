import PlotAdvisor.Mining.Calls
import PlotAdvisor.Models.Vectors.Centroid

/-! Ranking functions and arguments by how close they are to a query. Each is represented by the vector of
its own name or, where utterances are given, by the centroid of those that describe it.

* `CallRanker.functions` - functions, or the calls of a program, by falling score.
* `CallRanker.arguments` - arguments of a function by falling score.
-/
set_option autoImplicit false

namespace PlotAdvisor.Models.Vectors

open Scalar Mining Program
open PlotAdvisor.Elements (callNodes)

structure ToldCalls (α : Type) where
  rare : List (Option α)
  functions : Table String (Row α)
  arguments : Table String (Table String (Row α))

structure CallRanker (α : Type) where
  lookup : Lookup
  vectors : WordVectors α
  told : Option (ToldCalls α)

variable {α : Type} [Scalar α]

/-- The centroids for utterances, of which functions must have some. -/
def ToldCalls.ofDocs (l : Lookup) (v : WordVectors α) (docs : Knowledge.Docs) : Except Fault (ToldCalls α) := do
  let rare := rarities l v (docs.functions.values ++ docs.arguments.values)
  ensure (docs.functions.size != 0) ""
  let place (s : String) : Row α := centroid l v (some rare) s
  return {
    rare
    functions := ⟨docs.functions.entries.map fun (f, u) => (f, place (u ++ " " ++ f))⟩
    arguments := docs.arguments.entries.foldl (fun t ((f, a), u) =>
      t.alter f .empty fun as => as.set a (place (Text.join " " [u, a, docs.functions.getD f "", f]))) .empty }

namespace CallRanker

def make (l : Lookup) (v : WordVectors α) (docs : Option Knowledge.Docs) : Except Fault (CallRanker α) := do
  let v := { v with rows := unitRows v.rows }
  match docs with
  | none => return ⟨l, v, none⟩
  | some docs => return ⟨l, v, some (← ToldCalls.ofDocs l v docs)⟩

def centroid (r : CallRanker α) (text : String) : Row α :=
  Vectors.centroid r.lookup r.vectors (r.told.map ToldCalls.rare) text

def named (r : CallRanker α) (name : String) : Row α :=
  match r.vectors.number? name with
  | some i => rowAt r.vectors.rows i
  | none => zeros r.vectors.size

def callScore (r : CallRanker α) (t : ToldCalls α) (q : Row α) (call : Tree) : Option α :=
  (calledName call).bind fun f => (t.functions.get? f).map fun row =>
    let ofArgument (a : Option String) : Row α :=
      (a.bind fun a => (t.arguments.getD f .empty).get? a).getD (zeros r.vectors.size)
    largest (dot q row) ((keywordsOf call).map fun a => dot q (ofArgument a))

/-- From the best to the worst; what has no score counts as zero. -/
def byScore {β : Type} (xs : List (β × Option α)) : List (β × Option α) :=
  Sorting.falling (fun a b => less (a.2.getD zero) (b.2.getD zero)) xs

def functions (r : CallRanker α) (query : String) (names : List String) (program : Option Tree) :
    Except Fault (List (Option String × Option α)) := do
  let q := r.centroid (Text.lower query)
  match r.told, program with
  | some t, some p => return byScore ((callNodes p).map fun c => (calledName c, r.callScore t q c))
  | some t, none =>
    let scored ← names.mapM fun f => do
      return (some f, some (dot q (← orFault (t.functions.get? f) (.noKey (Text.quoted f)))))
    return byScore scored
  | none, _ => return byScore (names.map fun f => (some f, some (dot q (r.named f))))

def arguments (r : CallRanker α) (query function : String) (names : List String) :
    Except Fault (List (String × Option α)) := do
  let q := r.centroid (Text.lower query)
  let rows ← names.mapM fun a => do
    match r.told with
    | none => return (a, some (dot q (r.named a)))
    | some t =>
      let known ← orFault (t.arguments.get? function) (.broken function)
      return (a, some (dot q (known.getD a (zeros r.vectors.size))))
  return byScore rows

def label (r : CallRanker α) (name : String) : String :=
  name ++ if r.told.isSome then "_func_as_seq" else "_func_as_term"

end CallRanker

end PlotAdvisor.Models.Vectors
