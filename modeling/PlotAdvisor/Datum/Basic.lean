import PlotAdvisor.Text.Basic

/-! Data as it is exchanged: nothing, truth values, numbers, text, lists and objects with named
fields. A number with a point or an exponent is kept apart from an integer. Text that holds a
surrogate on its own is kept as code points. -/
set_option autoImplicit false

namespace PlotAdvisor

inductive Datum where
  | null
  | bool (b : Bool)
  | int (n : Int)
  | decimal (mantissa : Int) (exponent : Int)
  | text (s : String)
  | points (codes : List Nat)
  | list (items : List Datum)
  | object (fields : List (String × Datum))
  deriving Inhabited

namespace Datum

def field (d : Datum) (name : String) : Datum :=
  match d with
  | .object fields => ((fields.find? fun f => f.1 == name).map Prod.snd).getD .null
  | _ => .null

def hasField (d : Datum) (name : String) : Bool :=
  match d with
  | .object fields => fields.any fun f => f.1 == name
  | _ => false

def floatOf (m e : Int) : Float :=
  let size :=
    if e < 0 then Float.ofScientific m.natAbs true e.natAbs
    else Float.ofScientific m.natAbs false e.natAbs
  if m < 0 then -size else size

def joinSurrogates : List Nat → List Nat
  | hi :: lo :: rest =>
    if 0xd800 ≤ hi ∧ hi < 0xdc00 ∧ 0xdc00 ≤ lo ∧ lo < 0xe000 then
      (0x10000 + (hi - 0xd800) * 0x400 + (lo - 0xdc00)) :: joinSurrogates rest
    else hi :: joinSurrogates (lo :: rest)
  | codes => codes

def ofPoints (codes : List Nat) : Datum :=
  if codes.all fun n => decide (Nat.isValidChar n) then .text (String.ofList (codes.map Char.ofNat))
  else .points codes

end Datum

end PlotAdvisor
