import PlotAdvisor.Fault
import PlotAdvisor.Text.Basic

/-! The documented name of a method. A method may be documented for its class or for one of the classes
that it comes from, and there may be hidden modules in the path of a class. -/
set_option autoImplicit false

namespace PlotAdvisor.Elements

structure ClassInfo where
  name : String
  module : String
  bases : List Nat
  deriving Inhabited

def ClassInfo.path (c : ClassInfo) : String := c.module ++ "." ++ c.name

/-! ## Orders -/

def nextHead (orders : List (List Nat)) : Option Nat :=
  (orders.filterMap List.head?).find? fun h => orders.all fun o => !(o.drop 1).contains h

def mergeOrders : Nat → List (List Nat) → Option (List Nat)
  | 0, orders => if orders.all List.isEmpty then some [] else none
  | fuel + 1, orders =>
    if orders.all List.isEmpty then some []
    else do
      let h ← nextHead orders
      let rest ← mergeOrders fuel (orders.map fun o => if o.head? == some h then o.drop 1 else o)
      return h :: rest

/-- The order of the class of number `i`, given those of the classes before it. -/
def linearize (known : List (List Nat)) (i : Nat) (bases : List Nat) : Option (List Nat) := do
  if !(bases.eraseDups.length == bases.length) then none
  let above ← bases.mapM fun b => known[b]?
  let orders := above ++ [bases]
  return i :: (← mergeOrders ((orders.map List.length).foldr (· + ·) 0) orders)

def ordersOf (classes : List ClassInfo) : Except Fault (List (List Nat)) :=
  classes.zipIdx.foldlM (fun known (c, i) => do
    return known ++ [← orFault (linearize known i c.bases) .wrongKind]) []

/-! ## Names -/

def openPath (path : String) : String :=
  let parts := Text.splitOn path "."
  Text.join "." (parts.dropLast.filter fun p => !Text.startsWith p "_") ++ "." ++ (parts.getLast?).getD ""

def searchName (documented : List String) (classes : List ClassInfo) (method : String) :
    Nat → List Nat → List Nat → Option String
  | 0, _, _ => none
  | _ + 1, _, [] => none
  | fuel + 1, seen, i :: waiting =>
    if seen.contains i then searchName documented classes method fuel seen waiting
    else
      let c := (classes[i]?).getD default
      let name := c.path ++ "." ++ method
      if documented.contains name then some name
      else if documented.contains (openPath name) then some (openPath name)
      else
        let seen := i :: seen
        searchName documented classes method fuel seen (waiting ++ c.bases.filter fun b => !seen.contains b)

def searchFuel (classes : List ClassInfo) : Nat := (classes.map fun c => c.bases.length).foldr (· + ·) 2

def compatibleName (documented : List String) (classes : List ClassInfo) (i : Nat) (method : String) :
    String × String :=
  let own := ((classes[i]?).getD default).path ++ "." ++ method
  match searchName documented classes method (searchFuel classes) [] [i] with
  | some name => (name, "")
  | none =>
    (own, if Text.startsWith own "matplotlib" then
      "\n  ** Failed to find API-compatible name for " ++ own ++ "\n\n" else "")

end PlotAdvisor.Elements
