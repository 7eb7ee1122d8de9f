import PlotAdvisor.Running.ProgressBar
import PlotAdvisor.Running.Workers

/-! How counters and progress bars are exchanged. -/
set_option autoImplicit false

namespace PlotAdvisor.Running

def startOf : Datum → Except Fault Int
  | .int n => .ok n
  | .bool b => .ok (if b then 1 else 0)
  | _ => .error .wrongKind

def labelOf (d : Datum) : Except Fault (Option String) :=
  match d with
  | .text s => .ok (if s == "" then none else some s)
  | d => if d.truthy then .error .wrongKind else .ok none

def Counter.ofData : List Datum → Except Fault Counter
  | [] => .ok (.ofInt 0 (.ok none))
  | [n] => do return .ofInt (← startOf n) (.ok none)
  | [n, l] => do return .ofInt (← startOf n) (labelOf l)
  | _ => .error .wrongKind

def Counter.answer (c : Counter) (question : Datum) : Except Fault Datum × Counter :=
  match question with
  | .text "inc" => (.ok .null, c.increment)
  | .text "value" => (.ok (toDatum c.value), c)
  | .text "get" => (.ok (toDatum c.increment.value), c.increment)
  | .text "repr" => (toDatum <$> c.render, c)
  | _ => (.error .wrongKind, c)

def itemsOf : Datum → Except Fault (List Datum)
  | .list ds => .ok ds
  | .text s => .ok (s.toList.map fun c => .text c.toString)
  | .object fs => .ok (fs.map fun f => .text f.1)
  | _ => .error .wrongKind

def ProgressBar.ofData (items size : Datum) (clock : List Float) : Except Fault (ProgressBar Datum) := do
  let items ← itemsOf items
  let size : Numeric ← if size.truthy then size.as Numeric else pure (.int items.length)
  ProgressBar.start items size clock

def ProgressBar.answer (b : ProgressBar Datum) : Except Fault Datum × ProgressBar Datum :=
  match b.next with
  | (.error f, b) => (.error f, b)
  | (.ok x, b) => (.ok (toDatum (x, b.current, b.shown, b.nextCount, b.nextTime)), b)

end PlotAdvisor.Running
