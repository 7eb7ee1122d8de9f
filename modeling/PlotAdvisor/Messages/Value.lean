import PlotAdvisor.Datum.Exchange
import PlotAdvisor.Text.Quoted

/-! Values that a debugger and its front end exchange: nothing, truth values, numbers, text, lists,
tuples, tables, and records of named attributes.

* `Value.render` writes a value as program text, `Value.plain` as text for people.
* `Value.same` is equality as the language has it: numbers of different kinds are compared by size.
-/
set_option autoImplicit false

namespace PlotAdvisor.Messages

inductive Value where
  | none
  | bool (b : Bool)
  | int (n : Int)
  | real (x : Float)
  | text (points : List Nat)
  | list (items : List Value)
  | tuple (items : List Value)
  | table (entries : List (Value × Value))
  | record (cls : String) (attributes : List (String × Value))
  deriving Inhabited

namespace Value

def ofString (s : String) : Value := .text (s.toList.map Char.toNat)

def className : Value → String
  | .none => "NoneType"
  | .bool _ => "bool"
  | .int _ => "int"
  | .real _ => "float"
  | .text _ => "str"
  | .list _ => "list"
  | .tuple _ => "tuple"
  | .table _ => "dict"
  | .record cls _ => cls

/-! ## Written form -/

mutual

def render : Value → String
  | .none => "None"
  | .bool b => if b then "True" else "False"
  | .int n => toString n
  | .real x => Decimal.render x
  | .text points => String.ofList (Text.quotedPoints points)
  | .list items => "[" ++ Text.join ", " (renderItems items) ++ "]"
  | .tuple [v] => "(" ++ v.render ++ ",)"
  | .tuple items => "(" ++ Text.join ", " (renderItems items) ++ ")"
  | .table entries => "\x7b" ++ Text.join ", " (renderEntries entries) ++ "\x7d"
  | .record cls attributes => cls ++ "(" ++ Text.join ", " (renderAttributes attributes) ++ ")"

def renderItems : List Value → List String
  | [] => []
  | v :: vs => v.render :: renderItems vs

def renderEntries : List (Value × Value) → List String
  | [] => []
  | (k, v) :: rest => (k.render ++ ": " ++ v.render) :: renderEntries rest

def renderAttributes : List (String × Value) → List String
  | [] => []
  | (name, v) :: rest => (name ++ "=" ++ v.render) :: renderAttributes rest

end

def plain : Value → List Nat
  | .text points => points
  | .record cls attributes =>
    let sorted := attributes.mergeSort fun a b => decide (a.1 ≤ b.1)
    let shown := sorted.map fun a =>
      let points := match a.2 with
        | .text points => points
        | v => v.render.toList.map Char.toNat
      a.1 ++ "=" ++ String.ofList (Text.quotedPoints points)
    (cls ++ "(" ++ Text.join ", " shown ++ ")").toList.map Char.toNat
  | v => v.render.toList.map Char.toNat

/-! ## Equality -/

/-- A number as an exact fraction: its size is `num / den`. -/
def size? : Value → Option (Int × Nat)
  | .bool b => some (if b then 1 else 0, 1)
  | .int n => some (n, 1)
  | .real x =>
    match Decimal.decode x with
    | .finite negative m q =>
      let (n, d) := Decimal.fractionOf m q
      some (if negative then -(n : Int) else n, d)
    | _ => Option.none
  | _ => Option.none

def isNumber : Value → Bool
  | .bool _ => true
  | .int _ => true
  | .real _ => true
  | _ => false

def sameNumber (a b : Value) : Bool :=
  match a, b with
  | .real x, .real y => x == y
  | a, b =>
    match a.size?, b.size? with
    | some (m, d), some (n, e) => m * e == n * d
    | _, _ => false

mutual

def sameUpTo : Nat → Value → Value → Bool
  | 0, _, _ => false
  | fuel + 1, a, b =>
    match a, b with
    | .none, .none => true
    | .text p, .text q => p == q
    | .list xs, .list ys => sameItems fuel xs ys
    | .tuple xs, .tuple ys => sameItems fuel xs ys
    | .table xs, .table ys => xs.length == ys.length && sameEntries fuel xs ys
    | .record c xs, .record d ys => c == d && xs.length == ys.length && sameAttributes fuel xs ys
    | a, b => a.isNumber && b.isNumber && sameNumber a b

def sameItems : Nat → List Value → List Value → Bool
  | 0, _, _ => false
  | _ + 1, [], [] => true
  | fuel + 1, x :: xs, y :: ys => sameUpTo fuel x y && sameItems fuel xs ys
  | _ + 1, _, _ => false

def sameEntries : Nat → List (Value × Value) → List (Value × Value) → Bool
  | 0, _, _ => false
  | _ + 1, [], _ => true
  | fuel + 1, (k, v) :: rest, ys =>
    (match ys.find? fun e => sameUpTo fuel k e.1 with
      | some e => sameUpTo fuel v e.2
      | Option.none => false) && sameEntries fuel rest ys

def sameAttributes : Nat → List (String × Value) → List (String × Value) → Bool
  | 0, _, _ => false
  | _ + 1, [], _ => true
  | fuel + 1, (name, v) :: rest, ys =>
    (match ys.find? fun e => e.1 == name with
      | some e => v.className == e.2.className && sameUpTo fuel v e.2
      | Option.none => false) && sameAttributes fuel rest ys

end

mutual

/-- A bound on the steps that comparing a value takes. -/
def weight : Value → Nat
  | .list items => 1 + weightItems items
  | .tuple items => 1 + weightItems items
  | .table entries => 1 + weightEntries entries
  | .record _ attributes => 1 + weightAttributes attributes
  | _ => 1

def weightItems : List Value → Nat
  | [] => 1
  | v :: vs => 1 + v.weight + weightItems vs

def weightEntries : List (Value × Value) → Nat
  | [] => 1
  | (k, v) :: rest => 1 + k.weight + v.weight + weightEntries rest

def weightAttributes : List (String × Value) → Nat
  | [] => 1
  | (_, v) :: rest => 1 + v.weight + weightAttributes rest

end

def same (a b : Value) : Bool := sameUpTo (a.weight + b.weight + 1) a b

def tableOf (entries : List (Value × Value)) : List (Value × Value) :=
  entries.foldl (fun done e =>
    if done.any fun d => d.1.same e.1 then
      done.map fun d => if d.1.same e.1 then (d.1, e.2) else d
    else done ++ [e]) []

/-! ## Exchange -/

mutual

def ofDatum : Datum → Value
  | .null => .none
  | .bool b => .bool b
  | .int n => .int n
  | .decimal m e => .real (Datum.floatOf m e)
  | .text s => .ofString s
  | .points codes => .text codes
  | .list items => .list (ofItems items)
  | .object [("tuple", .list items)] => .tuple (ofItems items)
  | .object [("dict", .list entries)] => .table (tableOf (ofEntries entries))
  | .object _ => .none

def ofItems : List Datum → List Value
  | [] => []
  | d :: ds => ofDatum d :: ofItems ds

def ofEntries : List Datum → List (Value × Value)
  | [] => []
  | .list [k, v] :: rest => (ofDatum k, ofDatum v) :: ofEntries rest
  | _ :: rest => ofEntries rest

end

instance : FromDatum Value := ⟨fun d => some (ofDatum d)⟩

end Value

inductive LiteralNode where
  | name (id : String)
  | text (points : List Nat)

def Value.literal (v : Value) : Except Fault LiteralNode :=
  match v with
  | .none => .ok (.name "None")
  | .bool b => .ok (.name (if b then "True" else "False"))
  | .text points => .ok (.text points)
  | v => .error (.unsupported
      ("only None, bool and str supported at the moment, not <class '" ++ v.className ++ "'>"))

end PlotAdvisor.Messages
