import PlotAdvisor.Text.Basic

/-! What the service around the assistant does: it shows faults on its pages, and looks whether an address number is
free and a page can be reached before it starts. -/
set_option autoImplicit false

namespace PlotAdvisor.Assistant

/-- A trace of a fault as a page shows it. It begins where the user's program comes in, and the marks of that
program, which has no file, are left out. -/
def packTrace (trace title : String) : String :=
  let shown :=
    match Text.find? trace "File \"<string>\"" with
    | some i =>
      let own := Text.slice trace i trace.length
      Text.replace (Text.replace own ", in <module>\n" "\n") "File \"<string>\", " ""
    | none => trace
  title ++ ":<br><pre>" ++ shown ++ "</pre>"

def addressProblem? (used : List Int) (number : Int) : Option String :=
  if used.contains number then some ("Port " ++ toString number ++ " is in use!") else none

def isReachable (pages : List String) (address : String) : Bool := pages.contains address

end PlotAdvisor.Assistant
