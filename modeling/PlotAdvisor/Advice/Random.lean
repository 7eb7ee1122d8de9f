import PlotAdvisor.Advice.Pruning
import PlotAdvisor.Models.Generator

/-! Advice at random, to measure other advice against. -/
set_option autoImplicit false

namespace PlotAdvisor.Advice

open Models

def randomCount : Nat := 50

def randomAdvice {σ : Type} [Draws σ] (mode : String) (all : List String) (g : σ) : Except Fault (List Item × σ) := do
  match mode with
  | "all" =>
    let (es, g) ← Draws.sample all randomCount g
    return (es.map fun e => ⟨e, .int 0⟩, g)
  | "used_only" | "used_extend" => .error .wrongKind
  | mode => .error (.badValue ("Unrecognized mode: " ++ mode))

def randomLabel : String := "RANDOM"

end PlotAdvisor.Advice
