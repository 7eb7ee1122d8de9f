import PlotAdvisor.Models.Productions.Training

/-! Training by several workers at once. One thread puts the jobs of a corpus into a queue, and behind them one end
mark for each worker. A worker takes jobs until it meets an end mark; it reports on every job, and it passes the
end mark on to the queue of reports. The collector adds the reports up until it has met an end mark for each
worker. Either queue has room for some items only, and a thread that finds it full, or empty, waits.

* `Crew.move?` - a move of one of the threads, if it need not wait.
* `Crew.run?` - moves one after the other, in whatever order the threads get their turns.
-/
set_option autoImplicit false

namespace PlotAdvisor.Models.Productions

open Program

variable {α : Type}

/-- What a worker reports on a job: how many pairs it had, how many of its partial trees were learned from, and how
many it had. -/
structure Report where
  examples : Nat
  trained : Nat
  raw : Nat
  deriving DecidableEq, Repr

def Job.report (j : Job α) (trained : Nat) : Report :=
  ⟨j.pairs.length, trained, sumOver (fun p => p.tree.count) j.pairs⟩

inductive Worker (α : Type) where
  | idle
  | busy (job : Job α)
  | leaving
  | gone

structure Totals where
  jobs : Nat := 0
  examples : Nat := 0
  trained : Nat := 0
  raw : Nat := 0
  deriving DecidableEq, Repr

def Totals.add (t : Totals) (r : Report) : Totals :=
  ⟨t.jobs + 1, t.examples + r.examples, t.trained + r.trained, t.raw + r.raw⟩

/-- The room in the queues; zero stands for no limit. -/
structure Rooms where
  jobs : Nat
  reports : Nat

namespace Rooms

def ofFactor (factor workers : Nat) : Rooms := ⟨factor * workers, (factor + 1) * workers⟩

/-- Whether another item fits in besides those that are there. -/
def admits (room taken : Nat) : Bool := room == 0 || decide (taken < room)

end Rooms

structure Crew (α : Type) where
  pending : List (Option (Job α))
  queue : List (Option (Job α))
  workers : List (Worker α)
  reports : List (Option Report)
  /-- How many end marks the collector still waits for. -/
  awaited : Nat
  totals : Totals
  begun : List (Job α)
  reported : List (Job α × Report)
  added : List Report

inductive Move where
  | put
  | take (worker : Nat)
  | report (worker trained : Nat)
  | collect
  deriving DecidableEq, Repr

namespace Crew

def start (workers : Nat) (js : List (Job α)) : Crew α where
  pending := js.map some ++ List.replicate workers none
  queue := []
  workers := List.replicate workers .idle
  reports := []
  awaited := workers
  totals := {}
  begun := []
  reported := []
  added := []

def put? (rooms : Rooms) (c : Crew α) : Option (Crew α) :=
  match c.pending with
  | [] => none
  | x :: rest =>
    if Rooms.admits rooms.jobs c.queue.length then some { c with pending := rest, queue := c.queue ++ [x] }
    else none

def take? (w : Nat) (c : Crew α) : Option (Crew α) :=
  match c.workers[w]?, c.queue with
  | some .idle, some j :: rest =>
    some { c with queue := rest, workers := c.workers.set w (.busy j), begun := c.begun ++ [j] }
  | some .idle, none :: rest => some { c with queue := rest, workers := c.workers.set w .leaving }
  | _, _ => none

def report? (rooms : Rooms) (w trained : Nat) (c : Crew α) : Option (Crew α) :=
  if Rooms.admits rooms.reports c.reports.length then
    match c.workers[w]? with
    | some (.busy j) =>
      some { c with
        workers := c.workers.set w .idle
        reports := c.reports ++ [some (j.report trained)]
        reported := c.reported ++ [(j, j.report trained)] }
    | some .leaving => some { c with workers := c.workers.set w .gone, reports := c.reports ++ [none] }
    | _ => none
  else none

def collect? (c : Crew α) : Option (Crew α) :=
  if c.awaited = 0 then none
  else
    match c.reports with
    | [] => none
    | some r :: rest => some { c with reports := rest, totals := c.totals.add r, added := c.added ++ [r] }
    | none :: rest => some { c with reports := rest, awaited := c.awaited - 1 }

def move? (rooms : Rooms) (c : Crew α) : Move → Option (Crew α)
  | .put => c.put? rooms
  | .take w => c.take? w
  | .report w trained => c.report? rooms w trained
  | .collect => c.collect?

def run? (rooms : Rooms) (c : Crew α) (moves : List Move) : Option (Crew α) := moves.foldlM (move? rooms) c

end Crew

end PlotAdvisor.Models.Productions
