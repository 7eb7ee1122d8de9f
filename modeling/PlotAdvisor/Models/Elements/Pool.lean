import PlotAdvisor.Models.Elements.Training

/-! Training by several workers at once. In each round the examples are handed out in portions. A worker that has
nothing on its desk takes the next portion and learns from one example of it after the other, while the others go
through theirs. The next round begins when every desk is empty and no portion is left.

* `Pool.turn?` - a turn of one of the workers, if it need not wait.
* `rounds?` - rounds one after the other, in whatever order the workers get their turns.
-/
set_option autoImplicit false

namespace PlotAdvisor.Models.Elements

structure Pool (σ : Type) where
  /-- The portions that nobody has taken. -/
  waiting : List (List String)
  desks : List (List String)
  state : σ
  /-- The examples that were learned from, in order. -/
  calls : List String

inductive Turn where
  | take (worker : Nat)
  | learn (worker : Nat)
  deriving DecidableEq, Repr

section Rounds

variable {σ : Type}

namespace Pool

def start (workers : Nat) (portions : List (List String)) (s : σ) : Pool σ :=
  ⟨portions, List.replicate workers [], s, []⟩

def take? (w : Nat) (p : Pool σ) : Option (Pool σ) :=
  match p.desks[w]?, p.waiting with
  | some [], portion :: rest => some { p with waiting := rest, desks := p.desks.set w portion }
  | _, _ => none

/-- A call that fails is no turn, for then training fails. -/
def learn? (call : σ → String → Except Fault σ) (w : Nat) (p : Pool σ) : Option (Pool σ) :=
  match p.desks[w]? with
  | some (code :: rest) =>
    match call p.state code with
    | .ok s => some { p with desks := p.desks.set w rest, state := s, calls := p.calls ++ [code] }
    | .error _ => none
  | _ => none

def turn? (call : σ → String → Except Fault σ) (p : Pool σ) : Turn → Option (Pool σ)
  | .take w => p.take? w
  | .learn w => p.learn? call w

def run? (call : σ → String → Except Fault σ) (p : Pool σ) (turns : List Turn) : Option (Pool σ) :=
  turns.foldlM (turn? call) p

def isDone (p : Pool σ) : Bool := p.waiting.isEmpty && p.desks.all List.isEmpty

end Pool

def rounds? (call : σ → String → Except Fault σ) (workers : Nat) (portions : List (List String)) :
    List (List Turn) → σ → Option (List String × σ)
  | [], s => some ([], s)
  | turns :: more, s => do
    let p ← (Pool.start workers portions s).run? call turns
    if p.isDone then
      let (calls, s) ← rounds? call workers portions more p.state
      return (p.calls ++ calls, s)
    else none

end Rounds

def Settings.workers {α : Type} (st : Settings α) (processors : Nat) : Nat := (st.threads.map Int.toNat).getD processors

/-- What training comes to: workers share the portions once for each epoch, one alone goes through the examples in
their order. -/
inductive Outcome {α σ : Type} [Scalar α] [Draws σ] (parse : String → Except Fault Program.Tree) (source : Nat → σ)
    (st : Settings α) (b : Background α) (counts : Table String Int) (elements : List String) (processors : Nat)
    (portions : List (List String)) : List String → Learning α → Prop
  | shared {start l : Learning α} {turns : List (List Turn)} {calls : List String} : st.isShared = true →
      Learning.start st b counts elements portions.flatten.length = .ok start → turns.length = st.epochs.toNat →
      rounds? (Learning.follow parse source) (st.workers processors) portions turns start = some (calls, l) →
      Outcome parse source st b counts elements processors portions calls l
  | alone {start l : Learning α} : st.isShared = false →
      Learning.start st b counts elements portions.flatten.length = .ok start →
      start.pass parse source portions.flatten = .ok l →
      Outcome parse source st b counts elements processors portions portions.flatten l

end PlotAdvisor.Models.Elements
