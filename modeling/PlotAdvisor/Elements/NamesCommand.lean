import PlotAdvisor.Command.Outcome
import PlotAdvisor.Elements.Extraction
import PlotAdvisor.Knowledge.Functions

/-! The command that works out what names stand for in a plotting session, from the texts of the plotting and
interactive modules, and writes it down as a program. -/
set_option autoImplicit false

namespace PlotAdvisor.Elements

open Command Program

def importsOf (functions : List String) : String :=
  Text.join "\n" (functions.map fun f => "from matplotlib.pyplot import " ++ f)

/-- A table as it is written in a program, an entry a line. -/
def writtenNames (names : Names) : String :=
  let entries := names.entries.map fun (k, v) => Text.quoted k ++ ": " ++ Text.quoted v
  "\"\"\" Automatically generated by default_varmap_gen.py. \"\"\"\n" ++
    Text.replace ("default_var_map = \x7b" ++ Text.join ", " entries ++ "\x7d\n") ", " ",\n    "

def namesCommand (parse : String → Except Fault Tree) (plotting interactive : String) : Except Fault Outcome := do
  let bound (text : String) : Except Fault Names := do return (extract true .empty (← parse text)).1
  let first ← bound plotting
  let second ← bound interactive
  let third ← bound (importsOf (Knowledge.definedFunctions plotting))
  let all := Table.ofList (first.entries ++ second.entries ++ third.entries)
  let written := (all.set "plt" "matplotlib.pyplot").set "PLT" "matplotlib.pyplot"
  return {
    out := String.join ([first, second, third, all].map fun t => toString t.size ++ "\n")
    files := Table.ofList [("models/default_varmap.py", writtenNames written)] }

end PlotAdvisor.Elements
