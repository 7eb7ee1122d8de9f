import PlotAdvisor.Command.Outcome
import PlotAdvisor.Fault
import PlotAdvisor.Program.Tree

/-! Trees laid out as text: one line for each item of a list that is not empty, indented by its depth. -/
set_option autoImplicit false

namespace PlotAdvisor.Program

structure DumpStyle where
  named : Bool := true
  places : Bool := false
  indent : String := "  "

namespace Tree

mutual

def layOut (style : DumpStyle) (level : Nat) : Tree → String
  | .node kind span fields =>
    let shown := layOutFields style level fields
    let places :=
      match style.places, span with
      | true, some s =>
        let written (name : String) (n : Int) : String :=
          (if style.named then name ++ "=" else "") ++ toString n
        [written "lineno" s.start.line, written "col_offset" s.start.col, written "end_lineno" s.stop.line,
          written "end_col_offset" s.stop.col]
      | _, _ => []
    kind ++ "(" ++ Text.join ", " (shown ++ places) ++ ")"
  | .list [] => "[]"
  | .list (t :: ts) =>
    let lines := layOutItems style level (t :: ts)
    Text.join "\n" (["["] ++ lines ++ [Text.repeated style.indent (level + 1) ++ "]"])
  | .lit v => v.render

def layOutFields (style : DumpStyle) (level : Nat) : List (String × Tree) → List String
  | [] => []
  | (name, t) :: rest =>
    ((if style.named then name ++ "=" else "") ++ layOut style level t) :: layOutFields style level rest

def layOutItems (style : DumpStyle) (level : Nat) : List Tree → List String
  | [] => []
  | t :: rest =>
    (Text.repeated style.indent (level + 2) ++ layOut style (level + 2) t ++ ",") ::
      layOutItems style level rest

end

def dump (style : DumpStyle) (t : Tree) : String := t.layOut style 0

end Tree

def readingModes : List String := ["exec", "eval", "single", "func_type"]

/-- A mode that is not known is refused before the text is looked at. -/
def checkMode (mode : String) : Except Fault Unit :=
  if readingModes.contains mode then .ok ()
  else .error (.badValue "compile() mode must be 'exec', 'eval', 'single' or 'func_type'")

/-! ## Commands on program texts: laying out the trees of files, and a check of ranges -/

open Command

def dumpHeading (file : String) : String :=
  let line := Text.repeated "=" 50 ++ "\n"
  line ++ "AST tree for " ++ file ++ "\n" ++ line

def dumpCommand (read : String → Except Fault String) (parse : String → Except Fault Tree) (files : List String) :
    Except Fault Outcome := do
  let shown ← files.mapM fun f => do
    let t ← parse (← read f)
    return dumpHeading f ++ t.dump { places := true } ++ "\n\n"
  return { out := String.join shown }

def rangeCommand : Outcome :=
  let s := Span.of 1 0 1 10
  { out := if s.properlyCovers s then "True\n" else "False\n" }

end PlotAdvisor.Program
