import PlotAdvisor.Elements.Extraction
import PlotAdvisor.Elements.Normalizer

/-! Elements that occur together: two different elements of the plotting module whose lines are less than a
window apart. -/
set_option autoImplicit false

namespace PlotAdvisor.Elements

def plottingId? (n : Normalizer) (id : String) : Option String :=
  let id := n.simplify id
  if Text.startsWith id "plt." then some id else none

def linesOf (n : Normalizer) (uses : List Use) : Option (List (List String)) :=
  let kept := uses.filterMap fun u => (plottingId? n u.id).map fun id => (u.line, id)
  match kept with
  | [] => none
  | _ =>
    let last := kept.foldl (fun m e => max m e.1) (-1)
    some ((List.range (last + 1).toNat).map fun (i : Nat) =>
      (kept.filter fun e => e.1 == Int.ofNat i).map Prod.snd)

/-- The two in order; nothing when they are the same. -/
def ordered (x y : String) : Option (String × String) :=
  if x == y then none else if x < y then some (x, y) else some (y, x)

def pairsBetween (here there : List String) : List (String × String) :=
  here.flatMap fun x => there.filterMap fun y => ordered x y

def pairsOf (window : Int) : List (List String) → List (String × String)
  | [] => []
  | here :: later =>
    ((here :: later).take window.toNat).flatMap (pairsBetween here) ++ pairsOf window later

def coOccurrences (n : Normalizer) (window : Int) (uses : List Use) : List (String × String) :=
  pairsOf window ((linesOf n uses).getD [])

end PlotAdvisor.Elements
