import PlotAdvisor.Table

/-! How a run of a command ends: with a code, what it wrote to its two streams, and the files it wrote. -/
set_option autoImplicit false

namespace PlotAdvisor.Command

structure Outcome where
  exit : Int := 0
  out : String := ""
  err : String := ""
  files : Table String String := .empty
  deriving Inhabited

namespace Outcome

/-- A command that is called in a way it does not understand. -/
def misuse (usage name message : String) : Outcome :=
  { exit := 2, err := usage ++ name ++ ": error: " ++ message ++ "\n" }

end Outcome

end PlotAdvisor.Command
