import PlotAdvisor.Datum.Reader
import PlotAdvisor.Decimal.Shortest
import PlotAdvisor.Fault
import PlotAdvisor.Program.Tree
import PlotAdvisor.Sorting

/-! Symbols: what a part of a tree is without its surroundings - a class of nodes, the name of a field, or
a literal value.

* `Symbol.same`, `Symbol.less` - equality and comparison; values of kinds that cannot be compared are
  compared by their written form.
-/
set_option autoImplicit false

namespace PlotAdvisor.Program

inductive Symbol where
  | node (kind : String)
  | field (name : String)
  | content (value : Literal)
  deriving DecidableEq, Inhabited, Repr

namespace Literal

def plain : Literal → String
  | .text s => s
  | v => v.render

/-- Text outside ASCII is taken as unknown. -/
def simple : Literal → Literal
  | .text s => .text (if s.toList.all fun c => c.toNat < 128 then s else "UNK")
  | v => v

def floatOfText (w : String) : Float :=
  match w with
  | "inf" => 1.0 / 0.0
  | "-inf" => -1.0 / 0.0
  | "nan" => 0.0 / 0.0
  | _ =>
    match Datum.readNumber w.toList with
    | some (.int n, _) => Decimal.ofInt n
    | some (.decimal m e, _) => Datum.floatOf m e
    | _ => 0.0

inductive Size where
  | below
  | at (num : Int) (den : Nat)
  | above
  deriving DecidableEq

def size? : Literal → Option Size
  | .bool b => some (.at (if b then 1 else 0) 1)
  | .int n => some (.at n 1)
  | .real w =>
    match Decimal.decode (floatOfText w) with
    | .notANumber => Option.none
    | .infinite negative => some (if negative then .below else .above)
    | .finite negative m q =>
      let (n, d) := Decimal.fractionOf m q
      some (.at (if negative then -(n : Int) else n) d)
  | _ => Option.none

def Size.less : Size → Size → Bool
  | .below, .below => false
  | .below, _ => true
  | .above, _ => false
  | _, .above => true
  | .at .., .below => false
  | .at m d, .at n e => decide (m * e < n * d)

def Size.same : Size → Size → Bool
  | .below, .below => true
  | .above, .above => true
  | .at m d, .at n e => m * e == n * d
  | _, _ => false

/-- Equality of values: numbers by size, an imaginary zero being zero. -/
def same (a b : Literal) : Bool :=
  let a := if a == .imaginary "0j" then .int 0 else a
  let b := if b == .imaginary "0j" then .int 0 else b
  match a.size?, b.size? with
  | some x, some y => x.same y
  | _, _ => a == b

def bytesFrom : List Char → List Nat
  | '\\' :: 'x' :: a :: b :: rest => (Datum.hexNumber [a, b]).getD 0 :: bytesFrom rest
  | '\\' :: 't' :: rest => 9 :: bytesFrom rest
  | '\\' :: 'n' :: rest => 10 :: bytesFrom rest
  | '\\' :: 'r' :: rest => 13 :: bytesFrom rest
  | '\\' :: c :: rest => c.toNat :: bytesFrom rest
  | c :: rest => c.toNat :: bytesFrom rest
  | [] => []

def bytesOf (written : String) : List Nat := bytesFrom (written.toList.drop 2).dropLast

/-- Comparison where the kinds allow it. -/
def less? (a b : Literal) : Option Bool :=
  match a, b with
  | .text s, .text t => some (decide (s < t))
  | .bytes s, .bytes t => some (decide (bytesOf s < bytesOf t))
  | a, b =>
    match a.size?, b.size? with
    | some x, some y => some (x.less y)
    | _, _ => Option.none

end Literal

namespace Symbol

def render : Symbol → String
  | .node kind => "NODE_" ++ kind
  | .field name => "FIELD_" ++ name
  | .content v => v.plain

def simple : Symbol → Symbol
  | .content v => .content v.simple
  | s => s

def ofContent (v : Literal) : Except Fault Symbol :=
  if v = .none then
    .error (.badValue "Either node_type, or field_name, or content must be specified.")
  else .ok (simple (.content v))

def same : Symbol → Symbol → Bool
  | .content a, .content b => a.same b
  | a, b => a == b

def less : Symbol → Symbol → Bool
  | .content a, .content b =>
    if a.same b then false
    else (a.less? b).getD (decide (a.render ++ ")" < b.render ++ ")"))
  | .content _, _ => true
  | .field _, .content _ => false
  | .field a, .field b => decide (a < b)
  | .field _, .node _ => true
  | .node a, .node b => decide (a < b)
  | .node _, _ => false

def sameAll : List Symbol → List Symbol → Bool
  | [], [] => true
  | a :: as, b :: bs => a.same b && sameAll as bs
  | _, _ => false

def distinct (ss : List Symbol) : List Symbol :=
  ss.foldl (fun done s => if done.any fun d => d.same s then done else done ++ [s]) []

def renderTuple (ss : List Symbol) : String :=
  match ss with
  | [s] => "(" ++ s.render ++ ",)"
  | _ => "(" ++ Text.join ", " (ss.map render) ++ ")"

end Symbol

end PlotAdvisor.Program
