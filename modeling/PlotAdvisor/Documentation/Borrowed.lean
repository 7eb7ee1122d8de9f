import PlotAdvisor.Elements.Normalizer
import PlotAdvisor.Text.Quoted

/-! Documentation that elements borrow from others. An additional reference says that a function, or an
argument, takes over the properties of a class or the keywords of a function: as keywords if it is a
function, and as keys of a table if it is an argument. Three rounds are made; in the first, references of a
borrowed property are added for the keyword that borrows it. -/
set_option autoImplicit false

namespace PlotAdvisor.Documentation

/-! ## The parts of a dotted function name: the method and the class that owns it -/

def methodOf (function : String) : String := Text.lastPart function "."

/-- What stands behind `set_` in the name of a method. -/
def setterOf? (function : String) : Option String :=
  (Text.Chars.dropStart? "set_".toList (methodOf function).toList).map String.ofList

/-- The property that a method sets; a name is needed. -/
def propertyOf? (function : String) : Option String := (setterOf? function).filter (· != "")

def classOf (function : String) : String := Text.join "." (Text.splitOn function ".").dropLast

/-! ## Borrowing -/

open Elements Knowledge

structure Borrowing where
  element : String
  target : String
  kind : String
  deriving DecidableEq, Inhabited

inductive Level where
  | argument
  | key
  deriving DecidableEq

def Borrowing.level (r : Borrowing) : Level := if Text.has (lengthen r.element) "@" then .key else .argument

/-- Documentation in one version, full or shortened. -/
structure Book extends Docs where
  keys : Table (String × String) String := .empty
  deriving Inhabited

namespace Book

def ofDocs (d : Docs) : Book := { d with }

def function (b : Book) (f : String) : Except Fault String := orFault (b.functions.get? f) (.noKey (Text.quoted f))

def argument (b : Book) (k : String × String) : Except Fault String :=
  orFault (b.arguments.get? k) (.noKey ("(" ++ Text.quoted k.1 ++ ", " ++ Text.quoted k.2 ++ ")"))

def page (b : Book) : Level → Table (String × String) String
  | .argument => b.arguments
  | .key => b.keys

def put (b : Book) (level : Level) (k : String × String) (u : String) : Book :=
  match level with
  | .argument => { b with arguments := b.arguments.set k u }
  | .key => { b with keys := b.keys.set k u }

end Book

/-- All documentation, while it is borrowed. -/
structure Books where
  full : Book
  short : Book
  argumentsOf : Table String (List String)
  functionsOf : Table String (List String)
  borrowings : Table String (List Borrowing)
  complaints : List String := []

namespace Books

def complain (b : Books) (target shown what : String) : Books :=
  { b with complaints := b.complaints ++
      ["ERROR in addition_ref.csv: " ++ target ++ " (" ++ shown ++ ") not a seen " ++ what] }

def enter (b : Books) (level : Level) (k : String × String) (u v : String) : Books :=
  { b with full := b.full.put level k u, short := b.short.put level k v }

def take (b : Books) (level : Level) (k : String × String) (found : Book → Except Fault String) :
    Except Fault Books := do
  let u ← found b.full
  let v ← found b.short
  return b.enter level k u v

def addBorrowing (b : Books) (r : Borrowing) : Books :=
  { b with borrowings := b.borrowings.alter r.element [] fun rs => if rs.contains r then rs else rs ++ [r] }

def followSetter (n : Normalizer) (setter element property : String) (b : Books) : Books :=
  (b.borrowings.getD (n.simplify setter) []).foldl (fun b r =>
    b.addBorrowing { r with element := element ++ "@" ++ property }) b

def borrowProperties (n : Normalizer) (level : Level) (follow : Bool) (source target element : String) (b : Books) :
    Except Fault Books :=
  (b.functionsOf.getD target []).foldlM (fun b f =>
    match propertyOf? f with
    | none => return b
    | some p => do
      if (b.full.page level).contains (source, p) then return b
      let b ← b.take level (source, p) (·.function f)
      return if follow then b.followSetter n f element p else b) b

def borrowArguments (level : Level) (source target : String) (b : Books) : Except Fault Books :=
  (b.argumentsOf.getD target []).foldlM (fun b a =>
    if (b.full.page level).contains (source, a) then return b
    else b.take level (source, a) (·.argument (target, a))) b

/-- Carries out one reference. References of setters are followed in the first round, for functions. -/
def borrow (n : Normalizer) (first : Bool) (b : Books) (r : Borrowing) : Except Fault Books := do
  let source := lengthen r.element
  let target := lengthen r.target
  if r.kind == "property_as_keyword" then
    if !b.functionsOf.contains target then return b.complain target r.target "class in fu.csv"
    b.borrowProperties n r.level (first && r.level == .argument) source target r.element
  else
    ensure (r.kind == "keyword_as_keyword") r.kind
    if !b.argumentsOf.contains target then return b.complain target r.target "func in fau.csv"
    b.borrowArguments r.level source target

/-- Carries out the references of all elements that have some at its start. -/
def round (n : Normalizer) (first : Bool) (b : Books) : Except Fault Books :=
  b.borrowings.keys.foldlM (fun b element =>
    (b.borrowings.getD element []).foldlM (borrow n first) b) b

def rounds (n : Normalizer) (b : Books) : Except Fault Books := do
  (← (← b.round n true).round n false).round n false

def start (full short : Docs) (given : List Borrowing) : Books :=
  given.foldl addBorrowing {
    full := .ofDocs full
    short := .ofDocs short
    argumentsOf := full.arguments.keys.foldl (fun t (f, a) => t.push f a) .empty
    functionsOf := full.functions.keys.foldl (fun t f => t.push (classOf f) f) .empty
    borrowings := .empty }

end Books

structure Utterance where
  full : String
  short : String
  deriving DecidableEq, Inhabited

structure Borrowed where
  functions : Table String Utterance
  arguments : Table (String × String) Utterance
  keys : Table (String × String) Utterance := .empty
  argumentsOf : Table String (List String)
  functionsOf : Table String (List String)
  borrowings : Table String (List Borrowing)
  complaints : List String := []

def paired {κ : Type} [BEq κ] (full short : Table κ String) : Table κ Utterance :=
  ⟨full.entries.map fun (k, u) => (k, ⟨u, short.getD k ""⟩)⟩

def Books.borrowed (b : Books) : Borrowed where
  functions := paired b.full.functions b.short.functions
  arguments := paired b.full.arguments b.short.arguments
  keys := paired b.full.keys b.short.keys
  argumentsOf := b.argumentsOf
  functionsOf := b.functionsOf
  borrowings := b.borrowings
  complaints := b.complaints

def rowsUnder (heading : List String) (text : String) : Except Fault (List (List String)) :=
  match Csv.read text with
  | [] => .error .exhausted
  | first :: rows => do
    ensure (first == heading) ""
    if rows.all fun r => r.length == heading.length then return rows else .error .wrongKind

/-- All that is known about elements besides their own entries. -/
structure Base where
  normalizer : Normalizer
  returnTypes : Table String String
  additional : Table String String
  counts : Table String Int
  borrowed : Borrowed

def readBorrowings (s : Sources) : Except Fault (List Borrowing) := do
  let rows ← rowsUnder ["elem_id", "ref", "type"] s.furtherReferences
  return rows.filterMap fun r =>
    match r with
    | [e, t, k] => some ⟨e, t, k⟩
    | _ => none

def Base.ofSources (s : Sources) (counts : Table String Int) : Except Fault Base := do
  let short ← readDocs s { lastNameOnly := false, shorten := true }
  let full ← readDocs s { lastNameOnly := false, shorten := false }
  let normalizer ← Normalizer.ofSources s
  let types ← (Csv.read s.returnTypes).mapM Csv.two
  let additional ← rowsUnder ["elem_id", "doc"] s.furtherDocs
  let start := Books.start full short (← readBorrowings s)
  return {
    normalizer := normalizer
    returnTypes := Table.ofList (types.map fun (f, t) => (f, lengthen t))
    additional := Table.ofList (additional.filterMap fun r =>
      match r with
      | [e, d] => some (e, d)
      | _ => none)
    counts := counts
    borrowed := (← start.rounds normalizer).borrowed }

end PlotAdvisor.Documentation
