import PlotAdvisor.Messages.Value
import PlotAdvisor.Numeric

/-! What workers do: tasks with a time limit, and a counter that several workers share.

* `Counter` - has 32 bits and starts again at the least number.
* `runLimited` - runs a task. A task is a value: it takes as many seconds as the value says and gives the value with its
  square.
-/
set_option autoImplicit false

namespace PlotAdvisor.Running

open Messages

/-! ## Counters -/

structure Counter where
  count : BitVec 32
  /-- What stands before the number when the counter is shown; some labels cannot be shown. -/
  label : Except Fault (Option String) := .ok none

namespace Counter

def ofInt (n : Int) (label : Except Fault (Option String)) : Counter := ⟨BitVec.ofInt 32 n, label⟩

def value (c : Counter) : Int := c.count.toInt

def increment (c : Counter) : Counter := { c with count := c.count + 1 }

def render (c : Counter) : Except Fault String := do
  match ← c.label with
  | some l => return l ++ ": " ++ toString c.value
  | none => return toString c.value

end Counter

/-! ## Tasks -/

def numberOf? : Value → Option Numeric
  | .bool b => some (.int (if b then 1 else 0))
  | .int n => some (.int n)
  | .real x => some (.real x)
  | _ => none

/-- How long a task takes. One that cannot wait, since its value is negative or no number, takes no time. -/
def duration (task : Value) : Numeric :=
  match numberOf? task with
  | some n => if Scalar.less n (.int 0) then .int 0 else n
  | none => .int 0

def result (task : Value) : Except Fault Value :=
  match numberOf? task with
  | some n =>
    match n * n with
    | .int m => .ok (.table [(task, .int m)])
    | .real x => .ok (.table [(task, .real x)])
  | none => .error .endOfInput

def runLimited (limit : Numeric) (task : Value) : Except Fault Value :=
  if Scalar.less limit (duration task) then .ok .none else result task

def trialTasks : List Int := [1, 2, 4, 1, 8, 2]

def trialLimit : Numeric := .int 3

def trialRun : Except Fault String := do
  return (Value.list (← trialTasks.mapM fun n => runLimited trialLimit (.int n))).render ++ "\n"

end PlotAdvisor.Running
