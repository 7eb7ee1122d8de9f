import PlotAdvisor.Fault
import PlotAdvisor.Models.Linear

/-! Pseudo-random numbers.

* `Draws` - a source of numbers, one after the other, and of orders of lists.
* `Generator` - the source whose state is replaced by an affine function of it modulo `2^31`, and which leaves lists in
  their order.
-/
set_option autoImplicit false

namespace PlotAdvisor.Models

class Draws (σ : Type) where
  next : σ → Nat × σ
  arrange {β : Type} : List β → σ → List β × σ
  arrange_perm {β : Type} (xs : List β) (g : σ) : (arrange xs g).1.Perm xs

structure Generator where
  state : Nat
  deriving DecidableEq, Inhabited

namespace Generator

def period : Nat := Nat.pow 2 31

def ofSeed (seed : Int) : Generator := ⟨(seed % (period : Int)).toNat⟩

def next (g : Generator) : Nat × Generator :=
  let x := (1103515245 * g.state + 12345) % period
  (x, ⟨x⟩)

instance : Draws Generator := ⟨next, Prod.mk, fun xs _ => .refl xs⟩

end Generator

namespace Draws

variable {σ : Type} [Draws σ]

/-- A number from zero up to, but not including, one. -/
def unit {α : Type} [Scalar α] (g : σ) : α × σ :=
  let (x, g) := next g
  (Scalar.ofInt x / Scalar.ofInt Generator.period, g)

def below (g : σ) (bound : Nat) : Nat × σ :=
  let (x, g) := next g
  (x % bound, g)

def shuffleFrom {α : Type} : Nat → Array α → σ → Array α × σ
  | 0, xs, g => (xs, g)
  | k + 1, xs, g =>
    let (j, g) := below g (k + 2)
    shuffleFrom k (xs.swapIfInBounds (k + 1) j) g

def shuffle {α : Type} (xs : List α) (g : σ) : List α × σ :=
  let (ys, g) := shuffleFrom (xs.length - 1) xs.toArray g
  (ys.toList, g)

/-- The first of the shuffled items; there must be as many. -/
def sample {α : Type} (xs : List α) (count : Nat) (g : σ) : Except Fault (List α × σ) :=
  if xs.length < count then .error (.badValue "Sample larger than population or is negative")
  else
    let (ys, g) := shuffle xs g
    .ok (ys.take count, g)

end Draws

/-- Draws places until so many are accepted; there may never be as many. -/
def drawWrong {σ : Type} [Draws σ] (table : List Int) (accepts : Nat → Bool) :
    Nat → Nat → List Nat → σ → Except Fault (List Nat × σ)
  | _, 0, done, g => .ok (done.reverse, g)
  | 0, _ + 1, _, _ => .error .unending
  | fuel + 1, count + 1, done, g =>
    let (n, g) := Draws.below g (table.getLast?.getD 1).toNat
    let w := drawnPlace table n
    if accepts w then drawWrong table accepts fuel count (w :: done) g
    else drawWrong table accepts fuel (count + 1) done g

/-- The row of a length that starts what a text names. -/
structure StartRows (α : Type) where
  row : String → Nat → Row α
  length_row : ∀ text size, (row text size).length = size

instance {α : Type} [Scalar α] : Inhabited (StartRows α) :=
  ⟨⟨fun _ size => List.replicate size Scalar.zero, fun _ _ => List.length_replicate⟩⟩

end PlotAdvisor.Models
