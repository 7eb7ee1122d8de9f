import PlotAdvisor.Numeric

/-! A progress bar around a list of items. It shows how many items have been taken: for the last item, for
items before the next count that is due, and when a second has passed. -/
set_option autoImplicit false

namespace PlotAdvisor.Running

/-- A bar; `clock` are the times that are read next. -/
structure ProgressBar (α : Type) where
  rest : List α
  size : Numeric
  current : Int := 0
  shown : Int := 0
  nextCount : Float
  nextTime : Float
  clock : List Float

namespace ProgressBar

variable {α : Type}

/-- How long, in seconds, the bar stands still at most. -/
def reportInterval : Float := 1.0

/-- After what share of the items a count is due. -/
def reportShare : Float := 0.01

def countInterval (size : Numeric) : Float := reportShare * size.toFloat

def start (items : List α) (size : Numeric) : List Float → Except Fault (ProgressBar α)
  | [] => .error .exhausted
  | now :: clock =>
    .ok { rest := items, size := size, nextCount := countInterval size, nextTime := now + reportInterval
          clock := clock }

/-- Shows the count; it reads the clock once. -/
def report (b : ProgressBar α) : Except Fault Unit × ProgressBar α :=
  let b := { b with shown := b.current }
  match b.clock with
  | [] => (.error .exhausted, b)
  | now :: clock =>
    (.ok (), { b with nextTime := now + reportInterval, clock := clock
                      nextCount := Decimal.ofInt b.current + countInterval b.size })

def isCountDue (b : ProgressBar α) : Bool :=
  (!Scalar.less (.int b.current) b.size && !Scalar.less b.size (.int b.current)) ||
    Decimal.ofInt b.current ≤ b.nextCount

def reportIfDue (b : ProgressBar α) : Except Fault Unit × ProgressBar α :=
  if b.isCountDue then b.report
  else
    match b.clock with
    | [] => (.error .exhausted, b)
    | now :: clock =>
      let b := { b with clock := clock }
      if b.nextTime ≤ now then b.report else (.ok (), b)

def next (b : ProgressBar α) : Except Fault α × ProgressBar α :=
  match reportIfDue { b with current := b.current + 1 } with
  | (.error f, b) => (.error f, b)
  | (.ok _, b) =>
    match b.rest with
    | [] => (.error .exhausted, b)
    | x :: rest => (.ok x, { b with rest := rest })

end ProgressBar

end PlotAdvisor.Running
