import PlotAdvisor.Sketch.Scripts

/-! How sketches are exchanged. -/
set_option autoImplicit false

namespace PlotAdvisor.Sketch

def shownNumbers : Nat := 64

def gridDatum (rows : List (List Float)) : Datum :=
  let all := rows.flatten
  if all.length ≤ shownNumbers then toDatum rows
  else
    .object [("shape", toDatum [rows.length, (rows.head?.map List.length).getD 0]),
      ("sum", toDatum (all.foldl (· + ·) 0.0)), ("first", toDatum (all.headD 0.0)),
      ("last", toDatum (all.getLastD 0.0))]

mutual

def thingDatum : Thing → Datum
  | .truth b => .bool b
  | .number n => toDatum n
  | .text s => .text s
  | .list ts => .list (thingData ts)
  | .table es => .object [("dict", .list (entryData es))]
  | .grid rows => gridDatum rows
  | .object name => .object [("obj", .text name)]

def thingData : List Thing → List Datum
  | [] => []
  | t :: ts => thingDatum t :: thingData ts

def entryData : List (String × Thing) → List Datum
  | [] => []
  | (k, t) :: rest => .list [.text k, thingDatum t] :: entryData rest

end

instance : ToDatum Entry := ⟨fun e =>
  match e with
  | .call name args kw => .list [.text "call", .text name, .list (thingData args), .list (entryData kw)]
  | .set name v => .list [.text "set", .text name, thingDatum v]
  | .setItem name k v => .list [.text "setitem", .text name, thingDatum k, thingDatum v]
  | .seed n => .list [.text "seed", .int n]⟩

instance : FromDatum Outcome := ⟨fun d =>
  match d with
  | .object _ => (d.get? Nat "objs").map Outcome.objects
  | d => (fromDatum d).map Outcome.numbers⟩

def Scenario.ofDatum (outcomes random : Datum) : Scenario :=
  ⟨outcomes.table, (fromDatum random).getD []⟩

end PlotAdvisor.Sketch
