import PlotAdvisor.Elements.Extraction
import PlotAdvisor.Elements.Normalizer

/-! What calls tell: the name of the function, the keywords, and the values given for them. A tuple, a list or a
dictionary is told by its program text, which `unparse` gives. -/
set_option autoImplicit false

namespace PlotAdvisor.Mining

open Program Elements

def calledName (call : Tree) : Option String :=
  let f := call.field "func"
  if f.kind == "Attribute" then f.fieldText? "attr"
  else if f.kind == "Name" then f.fieldText? "id"
  else none

def keywordsOf (call : Tree) : List (Option String) :=
  (call.fieldItems "keywords").map fun kw => kw.fieldText? "arg"

def valueText (unparse : Tree → String) (t : Tree) : Option String :=
  if t.isNumber || t.isText then t.literal?.map Literal.render
  else if t.kind == "Name" then t.fieldText? "id"
  else if ["Tuple", "Dict", "List"].contains t.kind then some (Text.trim (unparse t))
  else none

def keywordValues (unparse : Tree → String) (call : Tree) : List (Option String × String) :=
  (call.fieldItems "keywords").filterMap fun kw =>
    (valueText unparse (kw.field "value")).map fun v => (kw.fieldText? "arg", v)

/-! ## Called names -/

/-- The known functions that a program calls, and the known keywords of each. A function that is called more
than once has the keywords of its last call. -/
structure CalledNames where
  functions : List String
  arguments : Table String (List (Option String))

def CalledNames.add (functions : List String) (arguments : List (String × Option String)) (c : CalledNames)
    (call : Tree) : CalledNames :=
  match calledName call with
  | some f =>
    if functions.contains f then
      ⟨c.functions ++ [f], c.arguments.set f ((keywordsOf call).filter fun k => arguments.contains (f, k))⟩
    else c
  | none => c

def calledNames (functions : List String) (arguments : List (String × Option String)) (program : Tree) :
    CalledNames :=
  (callNodes program).foldl (CalledNames.add functions arguments) ⟨[], .empty⟩

/-! ## Countable values -/

mutual

def countable (names : Names) (n : Normalizer) : Tree → Option String
  | .node "Constant" _ fields =>
    match fields.lookup "value" with
    | some (.lit (.int i)) => some (Literal.int i).render
    | some (.lit (.real w)) => some w
    | some (.lit (.imaginary w)) => some w
    | some (.lit (.text s)) => some (Literal.text s).render
    | _ => none
  | .node "Name" _ fields =>
    match fields.lookup "id" with
    | some (.lit (.text s)) =>
      if s == "True" || s == "False" then some s
      else (names.get? s).map fun e => "$" ++ n.simplify e
    | _ => none
  | .node "Tuple" _ fields =>
    match countableInFields names n fields with
    | [] => none
    | parts => some ("(" ++ Text.join ", " parts ++ ")")
  | .node "List" _ fields =>
    match countableInFields names n fields with
    | [] => none
    | parts => some ("[" ++ Text.join ", " parts ++ "]")
  | _ => none

def countableInFields (names : Names) (n : Normalizer) : List (String × Tree) → List String
  | [] => []
  | ("elts", .list ts) :: _ => countableInItems names n ts
  | _ :: rest => countableInFields names n rest

def countableInItems (names : Names) (n : Normalizer) : List Tree → List String
  | [] => []
  | t :: rest =>
    match countable names n t with
    | some s => s :: countableInItems names n rest
    | none => countableInItems names n rest

end

/-! ## Counting over many programs -/

/-- A program that imports a plotting module in one of the usual ways. -/
def usesPlotting (code : String) : Bool :=
  ["from matplotlib", "import matplotlib", "from pylab", "import pylab"].any fun s => Text.has code s

/-- Counts of functions, keywords and values: a key is a function, a function with a keyword, or both with
a value. -/
abbrev UseCounts := Table (List (Option String)) Nat

def countCall (unparse : Tree → String) (known : List String) (found : Bool × UseCounts) (call : Tree) :
    Bool × UseCounts :=
  match calledName call with
  | none => found
  | some f =>
    if known.contains f then
      (true, (keywordValues unparse call).foldl
        (fun counts e => (counts.count [some f, e.1]).count [some f, e.1, some e.2]) (found.2.count [some f]))
    else found

def countUses (unparse : Tree → String) (known : List String) (counts : UseCounts) (program : Tree) :
    Bool × UseCounts :=
  (callNodes program).foldl (countCall unparse known) (false, counts)

section
variable (parse : String → Except Fault Tree) (unparse : Tree → String)

def countCode (known : List String) (counts : UseCounts) (code : String) :
    Except Fault Bool × UseCounts :=
  match parse code with
  | .error f => (.error f, counts)
  | .ok t =>
    let (useful, counts) := countUses unparse known counts t
    (.ok useful, counts)

def countCodes (known codes : List String) : UseCounts :=
  codes.foldl (fun counts code => (countCode parse unparse known counts code).2) .empty

end

end PlotAdvisor.Mining
