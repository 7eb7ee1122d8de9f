import PlotAdvisor.Evaluation.Trial
import PlotAdvisor.Program.Exchange
import PlotAdvisor.World.Basic

/-! How evaluations are exchanged. -/
set_option autoImplicit false

namespace PlotAdvisor.Evaluation

open Program

instance : FromDatum Situation := ⟨fun d =>
  match d with
  | .text name => some (.program name)
  | .list items => (items.mapM fromDatum).map Situation.using
  | _ => some .other⟩

instance : FromDatum Case := ⟨fun d => do
  let (e, q, s) ← (fromDatum d : Option (String × String × Situation))
  return ⟨e, q, s⟩⟩

def deskOf (w : World) (p : Parses) : Except Fault Desk := do
  return ⟨← Elements.Normalizer.ofSources w.sources, w.read, p.marked⟩

def benchOf (w : World) (p : Parses) (prunes : Bool) : Except Fault Bench := do
  return ⟨← deskOf w p, ← w.model, w.saved.elementCounts, (← w.plotting).drawing, prunes⟩

def logRow (rank : Nat) (answer : String) (n : Note) : Datum :=
  toDatum (1, "q", "RANDOM", n.item.element, n.rank, (if n.isExpected then 1 else 0), n.item.score, rank, answer)

end PlotAdvisor.Evaluation
