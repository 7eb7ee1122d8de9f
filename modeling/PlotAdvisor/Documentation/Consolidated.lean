import PlotAdvisor.Documentation.Borrowed

/-! Utterances for functions and for their arguments, from rows that were found and from references between
functions.

* Rows with and without an argument are kept as they are.
* A reference to a setter gives its utterances to the argument that it sets.
* A reference to a function with arguments gives the utterances of those arguments.
* A reference to a class gives the utterances of its setters, as far as they have arguments themselves.
-/
set_option autoImplicit false

namespace PlotAdvisor.Documentation

structure Mapping where
  function : String
  argument : Option String
  utterance : String
  deriving DecidableEq, Inhabited

structure Reference where
  function : String
  target : String
  deriving DecidableEq, Inhabited

/-- Different utterances by key, in the order in which they were met. -/
abbrev Utterances (κ : Type) := Table κ (List String)

def Utterances.add {κ : Type} [BEq κ] (t : Utterances κ) (k : κ) (us : List String) : Utterances κ :=
  t.alter k [] fun have_ => us.foldl (fun out u => if out.contains u then out else out ++ [u]) have_

def Utterances.gain {κ : Type} [BEq κ] (t : Utterances κ) (k : κ) : Option (List String) → Utterances κ
  | none => t
  | some us => Utterances.add t k us

def Utterances.written {κ : Type} (t : Utterances κ) : Table κ String := t.mapValues (Text.join "|||")

structure Consolidated where
  functions : Utterances String
  arguments : Utterances (String × String)

def collect {κ : Type} [BEq κ] (key : Mapping → Option κ) (rows : List Mapping) : Utterances κ :=
  rows.foldl (fun t r =>
    match key r with
    | none => t
    | some k => Utterances.add t k [r.utterance]) .empty

def functionRows : List Mapping → Utterances String :=
  collect fun r => if r.argument.isNone then some r.function else none

def argumentRows : List Mapping → Utterances (String × String) :=
  collect fun r => r.argument.map fun a => (r.function, a)

/-- Functions with the arguments that rows name, and classes with those of their functions that have any. -/
structure Index where
  arguments : Table String (List String)
  methods : Table String (List String)

def Index.ofArguments (t : Utterances (String × String)) : Index :=
  let arguments : Table String (List String) := t.keys.foldl (fun m (f, a) => m.push f a) .empty
  ⟨arguments, arguments.keys.foldl (fun m f => m.push (classOf f) f) .empty⟩

def applyReference (functions : Utterances String) (index : Index) (t : Utterances (String × String))
    (r : Reference) : Utterances (String × String) :=
  match propertyOf? r.target with
  | some property => Utterances.gain t (r.function, property) (functions.get? r.target)
  | none =>
    match index.arguments.get? r.target with
    | some as => as.foldl (fun t a => Utterances.gain t (r.function, a) (t.get? (r.target, a))) t
    | none =>
      ((index.methods.getD r.target []).filterMap fun m => (propertyOf? m).map fun p => (m, p)).foldl
        (fun t (m, p) => Utterances.gain t (r.function, p) (functions.get? m)) t

def countLine (n : Nat) (rest : String) : String := toString n ++ " entries in " ++ rest ++ "\n"

def consolidate (rows : List Mapping) (references : List Reference) : Consolidated × String :=
  let functions := functionRows rows
  let own := argumentRows rows
  let all := references.foldl (applyReference functions (Index.ofArguments own)) own
  (⟨functions, all⟩,
    countLine functions.size "fu_map after applying RULE 1" ++
    countLine own.size "fau_map after applying RULE 2" ++
    countLine all.size "fau_map after 1 times applying Rule 3" ++
    countLine all.size "fau_map after 2 times applying Rule 3")

end PlotAdvisor.Documentation
