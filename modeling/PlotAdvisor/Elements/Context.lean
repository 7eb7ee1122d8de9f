import PlotAdvisor.Elements.Extraction
import PlotAdvisor.Elements.Normalizer

/-! The context that a program gives to a query: its uses of elements, with their ids in normal form. -/
set_option autoImplicit false

namespace PlotAdvisor.Elements

open Program

structure Context where
  uses : List Use
  deriving Inhabited

namespace Context

/-- The ids of the elements in use, in the order of the text. -/
def used (c : Context) : List String := c.uses.map Use.id

def ofTree (n : Normalizer) (names : Names) (t : Tree) : Context × Names :=
  let (names, uses) := extract false names t
  (⟨uses.map fun u => { u with id := n.simplify u.id }⟩, names)

end Context

end PlotAdvisor.Elements
