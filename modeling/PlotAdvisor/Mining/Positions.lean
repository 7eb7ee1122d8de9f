import PlotAdvisor.Mining.Calls

/-! Where to insert a call. Each function has an average position in programs; a line is a good place for a
function if the calls before it usually come earlier and those from it on usually come later. -/
set_option autoImplicit false

namespace PlotAdvisor.Mining

open Program Elements Scalar

abbrev Positions (α : Type) := Table String α

variable {α : Type}

def placedCall? (ps : Positions α) (call : Tree) : Option (String × Int) :=
  match calledName call with
  | some f => if ps.contains f then some (f, (call.start?.map Place.line).getD 0) else none
  | none => none

def placedCalls (ps : Positions α) (program : Tree) : List (String × Int) :=
  (callNodes program).filterMap (placedCall? ps)

/-- The number of lines of a text; after a newline at its end there is one more. -/
def countLines (code : String) : Int := (Text.splitOn code "\n").length

variable [Scalar α]

def scoreAt (line : Int) (calls : List (α × Int)) : α :=
  calls.foldl (fun score (gap, l) =>
    if (less zero gap && decide (l < line)) || (less gap zero && decide (line ≤ l)) then score + magnitude gap
    else score - magnitude gap) (decimal 0 0)

def insertionLines (ps : Positions α) (code : String) (program : Tree) (f : String) : List (Int × α) :=
  let calls := placedCalls ps program
  let lines := calls.map Prod.snd ++ [countLines code]
  match ps.get? f with
  | none => lines.map fun l => (l, zero)
  | some mine =>
    let gaps := calls.map fun (g, l) => (mine - ps.getD g zero, l)
    lines.map fun l => (l, scoreAt l gaps)

/-- The same for a text; a text that is no program has no such line. -/
def insertionLinesIn (ps : Positions α) (parse : String → Except Fault Tree) (code f : String) : List (Int × α) :=
  match parse code with
  | .ok t => insertionLines ps code t f
  | .error _ => []

/-- Whether one place is worse than another: by the score, then by the line. -/
def isWorse (a b : Int × α) : Bool := less a.2 b.2 || (!less b.2 a.2 && decide (a.1 < b.1))

def bestPlace : List (Int × α) → Int
  | [] => 9999
  | p :: ps => (ps.foldl (fun best q => if isWorse best q then q else best) p).1

end PlotAdvisor.Mining
