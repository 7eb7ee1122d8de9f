import PlotAdvisor.Csv
import PlotAdvisor.Numeric
import PlotAdvisor.Text.Quoted

/-! Drawing on a recorder. A script draws by what it does to objects: it takes their attributes and items,
calls them and sets them. The recorder writes down every call and every setting.

* `Thing` - the values of scripts; an object has nothing but a name.
* `Script` - what scripts are: they read a `Scenario`, write a `Recording`, and can end with a fault.
* `Thing.attr`, `Thing.item`, `Thing.call`, `Thing.setAttr`, `Thing.setItem` - what is done to objects.

The name of an object tells where it comes from: an attribute of an object is named after it with a point, an
item with the key in brackets, and the result of the call that is entry `n` of the log is `#n`. -/
set_option autoImplicit false

namespace PlotAdvisor.Sketch

inductive Thing where
  | truth (b : Bool)
  | number (n : Numeric)
  | text (s : String)
  | list (items : List Thing)
  | table (entries : List (String × Thing))
  | grid (rows : List (List Float))
  | object (name : String)
  deriving Inhabited

namespace Thing

instance (n : Nat) : OfNat Thing n := ⟨.number (.int n)⟩
instance : OfScientific Thing := ⟨fun m s e => .number (.real (OfScientific.ofScientific m s e))⟩
instance : Coe Int Thing := ⟨fun n => .number (.int n)⟩
instance : Coe Float Thing := ⟨fun x => .number (.real x)⟩
instance : Coe Numeric Thing := ⟨.number⟩
instance : Coe String Thing := ⟨.text⟩
instance : Coe Bool Thing := ⟨.truth⟩
instance : Coe (List Thing) Thing := ⟨.list⟩

def ints (ns : List Int) : Thing := .list (ns.map fun n => .number (.int n))

def reals (xs : List Float) : Thing := .list (xs.map fun x => .number (.real x))

def texts (ss : List String) : Thing := .list (ss.map .text)

end Thing

inductive Entry where
  | call (name : String) (args : List Thing) (keywords : List (String × Thing))
  | set (name : String) (value : Thing)
  | setItem (name : String) (key value : Thing)
  | seed (n : Int)
  deriving Inhabited

/-- What a call or an attribute gives in place of an object. -/
inductive Outcome where
  | numbers (ns : List Numeric)
  | objects (count : Nat)
  deriving Inhabited

def Outcome.thing (name : String) : Outcome → Thing
  | .numbers ns => .list (ns.map .number)
  | .objects count => .list ((List.range count).map fun i => .object (name ++ "[" ++ toString i ++ "]"))

/-- What a script meets: the outcomes of calls by the last part of their names and of attributes by their names
after a point, and random numbers, which start again at their end. -/
structure Scenario where
  outcomes : Table String Outcome
  random : List Float

structure Recording where
  log : Array Entry := #[]
  taken : Nat := 0

abbrev Script := ReaderT Scenario (ExceptT Fault (StateM Recording))

def note (e : Entry) : Script Unit := modify fun r => { r with log := r.log.push e }

namespace Thing

def keyText : Thing → String
  | .text s => Text.quoted s
  | .number n => n.render
  | _ => ""

def attr (t : Thing) (name : String) : Script Thing := do
  match t with
  | .object owner =>
    let own := owner ++ "." ++ name
    match (← read).outcomes.get? ("." ++ name) with
    | some o => return o.thing own
    | none => return .object own
  | _ => throw .noAttribute

def item (t key : Thing) : Script Thing := do
  match t, key with
  | .object owner, key => return .object (owner ++ "[" ++ key.keyText ++ "]")
  | .list ts, .number (.int i) =>
    let place := if i < 0 then i + ts.length else i
    if place < 0 then throw .outOfRange
    match ts[place.toNat]? with
    | some x => return x
    | none => throw .outOfRange
  | _, _ => throw .wrongKind

def call (t : Thing) (args : List Thing) (keywords : List (String × Thing) := []) : Script Thing := do
  match t with
  | .object name =>
    let result := "#" ++ toString (← get).log.size
    note (.call name args keywords)
    match (← read).outcomes.get? (Text.lastPart name ".") with
    | some o => return o.thing result
    | none => return .object result
  | _ => throw .wrongKind

def invoke (t : Thing) (name : String) (args : List Thing) (keywords : List (String × Thing) := []) :
    Script Thing := do
  (← t.attr name).call args keywords

def setAttr (t : Thing) (name : String) (value : Thing) : Script Unit := do
  match t with
  | .object owner => note (.set (owner ++ "." ++ name) value)
  | _ => throw .noAttribute

def setItem (t key value : Thing) : Script Unit := do
  match t with
  | .object name => note (.setItem name key value)
  | _ => throw .wrongKind

/-- The items of what can be gone through; an object cannot. -/
def items : Thing → Script (List Thing)
  | .list ts => return ts
  | _ => throw .wrongKind

def unpack (t : Thing) (count : Nat) : Script (List Thing) := do
  let ts ← t.items
  if ts.length = count then return ts else throw (Csv.wrongCount count ts.length)

/-- What can be calculated with. -/
def value : Thing → Script Numeric
  | .number n => return n
  | _ => throw .wrongKind

end Thing

/-- Half of a number; that of an integer is rounded down. -/
def half : Numeric → Numeric
  | .int n => .int (n.fdiv 2)
  | .real x => .real (x / 2.0)

def seedRandom (n : Int) : Script Unit := note (.seed n)

def random (count : Nat) : Script (List Float) := do
  let source := (← read).random
  if source.isEmpty then throw .zeroDivision
  let first := (← get).taken
  modify fun r => { r with taken := first + count }
  return (List.range count).map fun i => source.getD ((first + i) % source.length) 0.0

/-! ## Runs -/

def run (s : Scenario) (script : Script Unit) : Except Fault Unit × List Entry :=
  let (ended, r) := ((script.run s).run).run {}
  (ended, r.log.toList)

/-! ## The modules that scripts start from -/

def library : Thing := .object "matplotlib"
def plot : Thing := .object "plt"
def colorMaps : Thing := .object "cm"
def functions : Thing := .object "mlab"

end PlotAdvisor.Sketch
