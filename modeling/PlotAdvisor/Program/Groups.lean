import PlotAdvisor.Fault
import PlotAdvisor.Text.Basic

/-! The lines of a program text in groups, each of which can be run on its own.

* `lineGroups` - the groups, the first lines first.
* `textBetween` - the text between two places of a group.
-/
set_option autoImplicit false

namespace PlotAdvisor.Program

/-- Lines that belong together, and the number of lines before them. -/
structure LineGroup where
  first : Nat
  lines : List String
  deriving Inhabited

def LineGroup.padded (g : LineGroup) : List String := List.replicate g.first "" ++ g.lines

/-- Leaves one of several line ends in a row. -/
def joinBreaks : List Char → List Char
  | '\n' :: '\n' :: cs => joinBreaks ('\n' :: cs)
  | c :: cs => c :: joinBreaks cs
  | [] => []

def trialText (lines : List String) : String :=
  String.ofList (Text.Chars.trimEnd (joinBreaks (Text.join "\n" lines).toList))

/-- Whether a line begins a new statement: it is there, and not blank at its start. -/
def beginsAnew : Option String → Bool
  | none => true
  | some l =>
    match l.toList with
    | [] => false
    | c :: _ => !(c == ' ' || c == '\t')

def triedText (lines : List String) (next : Option String) : String :=
  if beginsAnew next then trialText lines ++ "\n" else trialText lines

section
variable {m : Type → Type} [Monad m]

def groupsFrom (isComplete : String → m Bool) : Nat → List String → List String → m (List LineGroup)
  | _, _, [] => pure []
  | first, held, l :: rest => do
    let held := held ++ [l]
    if trialText held == "" then groupsFrom isComplete (first + 1) (held.drop 1) rest
    else if ← isComplete (triedText held rest.head?) then
      return ⟨first, held⟩ :: (← groupsFrom isComplete (first + held.length) [] rest)
    else groupsFrom isComplete first held rest

/-- The lines of a program text without blanks at their ends. -/
def strippedLines (code : String) : List String := (Text.splitOn code "\n").map Text.trimEnd

def lineGroups (isComplete : String → m Bool) (code : String) : m (List LineGroup) :=
  groupsFrom isComplete 0 [] (strippedLines code)

end

/-! ## Text of a group -/

/-- The item at a place, which counts from the end when it is negative. -/
def itemFrom {α : Type} (xs : List α) (i : Int) : Except Fault α :=
  let at_ : Int := if i < 0 then i + xs.length else i
  if at_ < 0 then .error .outOfRange else orFault xs[at_.toNat]? .outOfRange

def textBetween (lines : List String) (first stop col endCol : Int) : Except Fault String :=
  if first = stop - 1 then do return Text.slice (← itemFrom lines first) col endCol
  else if first < stop - 1 then do
    let head ← itemFrom lines first
    let last ← itemFrom lines (stop - 1)
    return Text.join "\n" ([Text.slice head col head.length] ++
      Text.Chars.slice lines (first + 1) (stop - 1) ++ [Text.slice last 0 endCol])
  else .error (.badValue s!"Invalid line_offset={first}, end_line_offset={stop}")

end PlotAdvisor.Program
