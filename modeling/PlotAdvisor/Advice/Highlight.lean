import PlotAdvisor.Advice.Pruning

/-! Weights for highlighting. Scores are stretched by their rank, turned into weights by the exponential,
and brought close to the largest weight where the score is close to the largest score. -/
set_option autoImplicit false

namespace PlotAdvisor.Advice

open Scalar

variable {α κ : Type} [Scalar α] [BEq κ]

def rankOf (scores : List α) (s : α) : Nat := (scores.filter fun t => !less s t).length

def stretched (scores : List α) (s : α) : α :=
  ofInt (Nat.pow (rankOf scores s * 2 / scores.length) 3) * s

/-- The weight of a score that lies `gap` below the largest, given the largest weight. -/
def raised (top gap own : α) : α :=
  let down (factor : α) : α := maxOf (top - gap * factor) zero
  if less gap (decimal 1 1) then down (decimal 5 1)
  else if less gap (decimal 2 1) then down (decimal 20 1)
  else if less gap (decimal 3 1) then down (decimal 30 1)
  else own

def topScore : List α → α
  | [] => zero
  | x :: xs => xs.foldl (fun m y => if less y m then m else y) x

def topWeight : List α → α
  | [] => zero
  | x :: xs => xs.foldl maxOf x

/-- The weights of scored things before they are raised. -/
def weights (items : List (κ × α)) : Table κ α :=
  let scores := items.map Prod.snd
  let scaled : Table κ α := Table.ofList (items.map fun i => (i.1, stretched scores i.2))
  let total := sum (scaled.values.map exp)
  scaled.mapValues fun v => minOf one (exp v / total * ofInt 2)

/-- The weights of scored things, in the same order. -/
def highlight (items : List (κ × α)) : List (κ × α) :=
  let ws := weights items
  let top := topWeight ws.values
  let best := topScore (items.map Prod.snd)
  let scoreOf : Table κ α := Table.ofList items
  items.map fun i => (i.1, raised top (best - scoreOf.getD i.1 zero) (ws.getD i.1 zero))

end PlotAdvisor.Advice
