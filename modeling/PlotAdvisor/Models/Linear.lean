import PlotAdvisor.Scalar

/-! Rows and matrices. A matrix is a list of rows.

* `addAt` - adds to the rows at several places at once; of two additions at one place the last counts.
* `cumulativeShares` - a table for drawing things in proportion to their counts.
-/
set_option autoImplicit false

namespace PlotAdvisor.Models

open Scalar

variable {α : Type} [Scalar α]

abbrev Row (α : Type) := List α

abbrev Matrix (α : Type) := List (List α)

def zeros (n : Nat) : Row α := List.replicate n zero

def addRows (a b : Row α) : Row α := List.zipWith (· + ·) a b

def mulRows (a b : Row α) : Row α := List.zipWith (· * ·) a b

def scaleRow (c : α) (a : Row α) : Row α := a.map (c * ·)

def dot (a b : Row α) : α := sum (mulRows a b)

def sumRows (size : Nat) (rows : Matrix α) : Row α := rows.foldl addRows (zeros size)

def meanRows (size : Nat) (rows : Matrix α) : Row α :=
  (sumRows size rows).map (· / ofInt rows.length)

def rowAt (m : Matrix α) (i : Nat) : Row α := m.getD i []

def rowsAt (m : Matrix α) (places : List Nat) : Matrix α := places.map (rowAt m)

def itemAt (r : Row α) (i : Nat) : α := r.getD i zero

def itemsAt (r : Row α) (places : List Nat) : Row α := places.map (itemAt r)

def addAt (m : Matrix α) (places : List Nat) (more : Matrix α) : Matrix α :=
  (places.zip more).foldl (fun out p => out.set p.1 (addRows (rowAt m p.1) p.2)) m

def addItemsAt (r : Row α) (places : List Nat) (more : Row α) : Row α :=
  (places.zip more).foldl (fun out p => out.set p.1 (itemAt r p.1 + p.2)) r

def norm (r : Row α) : α := sqrt (sum (r.map fun x => x * x))

def unitRow (r : Row α) : Row α :=
  let n := norm r
  if atMost n zero then r else r.map (· / n)

def unitRows (m : Matrix α) : Matrix α := m.map fun r => r.map (· / norm r)

def largest (x : α) (xs : List α) : α :=
  xs.foldl (fun m y => if less m y || !atMost y y then y else m) x

/-! ## Cumulative tables -/

def runningSums (xs : List α) : List α :=
  (xs.foldl (fun (done, total) x => ((total + x) :: done, total + x)) (([] : List α), zero)).1.reverse

/-- The first place whose item is not smaller. -/
def searchSorted {β : Type} (less : β → β → Bool) (table : List β) (x : β) : Nat :=
  (table.takeWhile fun t => less t x).length

def shareDomain : Nat := Nat.pow 2 31 - 1

def cumulativeShares (α : Type) [Scalar α] (counts : List Nat) : List Int :=
  let powers : List α := counts.map fun (n : Nat) => pow (ofInt n) (decimal 75 2)
  let total := sum powers
  (runningSums (powers.map (· / total))).map fun x => nearest (x * ofInt shareDomain)

def drawnPlace (table : List Int) (n : Nat) : Nat :=
  searchSorted (fun a b => decide (a < b)) table n

end PlotAdvisor.Models
