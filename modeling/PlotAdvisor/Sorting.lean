/-! Sorting by a comparison that need not be an order. A short list is sorted by binary insertion behind
its first run, so that the result is fixed by the comparisons alone; a long list is merged. Where the
comparison is a strict weak order both give the stable sorted list. -/
set_option autoImplicit false

namespace PlotAdvisor.Sorting

variable {α : Type}

def firstRun (less : α → α → Bool) (falling : Bool) : α → List α → List α × List α
  | _, [] => ([], [])
  | prev, x :: xs =>
    if less x prev == falling then
      let (run, rest) := firstRun less falling x xs
      (x :: run, rest)
    else ([], x :: xs)

def placeFor (less : α → α → Bool) (x : α) (sorted : Array α) : Nat → Nat → Nat → Nat
  | 0, lo, _ => lo
  | fuel + 1, lo, hi =>
    if lo < hi then
      let mid := (lo + hi) / 2
      match sorted[mid]? with
      | some y => if less x y then placeFor less x sorted fuel lo mid
                  else placeFor less x sorted fuel (mid + 1) hi
      | none => lo
    else lo

def insertInto (less : α → α → Bool) (sorted : List α) (x : α) : List α :=
  let i := placeFor less x sorted.toArray sorted.length 0 sorted.length
  sorted.take i ++ x :: sorted.drop i

def insertion (less : α → α → Bool) (xs : List α) : List α :=
  match xs with
  | a :: b :: rest =>
    let falling := less b a
    let (run, rest) := firstRun less falling a (b :: rest)
    let start := if falling then (a :: run).reverse else a :: run
    rest.foldl (insertInto less) start
  | xs => xs

def sortBy (less : α → α → Bool) (xs : List α) : List α :=
  if xs.length < 64 then insertion less xs else xs.mergeSort fun a b => !less b a

/-- Sorts from the largest to the smallest; equal items keep their order. -/
def falling (less : α → α → Bool) (xs : List α) : List α := (sortBy less xs.reverse).reverse

def sortTexts (xs : List String) : List String := xs.mergeSort fun a b => decide (a ≤ b)

def sortOn (key : α → String) (xs : List α) : List α :=
  xs.mergeSort fun a b => decide (key a ≤ key b)

/-- Texts part by part. -/
def lexLe : List String → List String → Bool
  | [], _ => true
  | _ :: _, [] => false
  | a :: as, b :: bs => if a == b then lexLe as bs else decide (a ≤ b)

def sortOnTexts (key : α → List String) (xs : List α) : List α :=
  xs.mergeSort fun a b => lexLe (key a) (key b)

end PlotAdvisor.Sorting
