import PlotAdvisor.Datum.Basic
import PlotAdvisor.Decimal.Fixed
import PlotAdvisor.Fault
import PlotAdvisor.Table

/-! How the types of the library are exchanged: `ToDatum` says how a value is written and
`FromDatum` how it is read. A tuple is a list of its parts; a measured number is text in millionths. -/
set_option autoImplicit false

namespace PlotAdvisor

class ToDatum (α : Type) where
  toDatum : α → Datum

export ToDatum (toDatum)

/-- The items that a value contributes to the tuple it ends. -/
class ToRow (α : Type) where
  row : α → List Datum

instance (priority := low) {α : Type} [ToDatum α] : ToRow α := ⟨fun a => [toDatum a]⟩

instance {α β : Type} [ToDatum α] [ToRow β] : ToRow (α × β) :=
  ⟨fun p => toDatum p.1 :: ToRow.row p.2⟩

instance {α β : Type} [ToDatum α] [ToRow β] : ToDatum (α × β) := ⟨fun p => .list (ToRow.row p)⟩

instance : ToDatum Datum := ⟨id⟩
instance : ToDatum Unit := ⟨fun _ => .null⟩
instance : ToDatum Bool := ⟨.bool⟩
instance : ToDatum Nat := ⟨fun n => .int n⟩
instance : ToDatum Int := ⟨.int⟩
instance : ToDatum String := ⟨.text⟩
instance : ToDatum Float := ⟨fun x => .text (Decimal.millionths x)⟩
instance {α : Type} [ToDatum α] : ToDatum (List α) := ⟨fun xs => .list (xs.map toDatum)⟩
instance {α : Type} [ToDatum α] : ToDatum (Array α) := ⟨fun xs => .list (xs.toList.map toDatum)⟩

instance {α : Type} [ToDatum α] : ToDatum (Option α) :=
  ⟨fun x => (x.map toDatum).getD .null⟩

class FromDatum (α : Type) where
  fromDatum : Datum → Option α

export FromDatum (fromDatum)

instance : FromDatum Datum := ⟨some⟩

instance : FromDatum Bool := ⟨fun d =>
  match d with
  | .bool b => some b
  | .int n => some (n != 0)
  | _ => none⟩

instance : FromDatum Int := ⟨fun d =>
  match d with
  | .int n => some n
  | .bool b => some (if b then 1 else 0)
  | _ => none⟩

instance : FromDatum Nat := ⟨fun d =>
  match d with
  | .int n => if 0 ≤ n then some n.toNat else none
  | _ => none⟩

instance : FromDatum Float := ⟨fun d =>
  match d with
  | .int n => some (Decimal.ofInt n)
  | .decimal m e => some (Datum.floatOf m e)
  | .bool b => some (if b then 1.0 else 0.0)
  | _ => none⟩

instance : FromDatum String := ⟨fun d =>
  match d with
  | .text s => some s
  | .points codes => some (String.ofList (codes.map fun n =>
      if Nat.isValidChar n then Char.ofNat n else Char.ofNat 0xfffd))
  | _ => none⟩

instance {α : Type} [FromDatum α] : FromDatum (Option α) := ⟨fun d =>
  match d with
  | .null => some none
  | d => (fromDatum d).map some⟩

instance {α : Type} [FromDatum α] : FromDatum (List α) := ⟨fun d =>
  match d with
  | .list items => items.mapM fromDatum
  | _ => none⟩

instance {α : Type} [FromDatum α] : FromDatum (Array α) := ⟨fun d =>
  (fromDatum d : Option (List α)).map List.toArray⟩

class FromRow (α : Type) where
  fromRow : List Datum → Option α

instance (priority := low) {α : Type} [FromDatum α] : FromRow α := ⟨fun ds =>
  match ds with
  | [d] => fromDatum d
  | _ => none⟩

instance {α β : Type} [FromDatum α] [FromRow β] : FromRow (α × β) := ⟨fun ds =>
  match ds with
  | d :: rest => do return (← fromDatum d, ← FromRow.fromRow rest)
  | [] => none⟩

instance {α β : Type} [FromDatum α] [FromRow β] : FromDatum (α × β) := ⟨fun d =>
  match d with
  | .list items => FromRow.fromRow items
  | _ => none⟩

def tableOf? {ν : Type} [FromDatum ν] : Datum → Option (Table String ν)
  | .object fields => do
    return Table.ofList (← fields.mapM fun f => do return (f.1, ← fromDatum f.2))
  | _ => none

instance {ν : Type} [ToDatum ν] : ToDatum (Table String ν) :=
  ⟨fun t => .object (t.entries.map fun e => (e.1, toDatum e.2))⟩

instance {ν : Type} [FromDatum ν] : FromDatum (Table String ν) := ⟨tableOf?⟩

/-- What a question is answered by: one value, or an answer for each of several things. -/
inductive Reply where
  | one (d : Datum)
  | each (answers : List (Except Fault Datum))

namespace Datum

def items : Datum → List Datum
  | .list ds => ds
  | _ => []

/-- What a value counts as where yes or no is asked for. -/
def truthy : Datum → Bool
  | .null => false
  | .bool b => b
  | .int n => n != 0
  | .decimal m _ => m != 0
  | .text s => s != ""
  | .points _ => true
  | .list ds => !ds.isEmpty
  | .object fs => !fs.isEmpty

/-- The value read; one that does not fit is of the wrong kind. -/
def as (α : Type) [FromDatum α] (d : Datum) : Except Fault α := orFault (fromDatum d) .wrongKind

def texts (d : Datum) : List String := (fromDatum d).getD []

/-- A table of an object's fields; empty for anything else. -/
def table {α : Type} [FromDatum α] (d : Datum) : Table String α := (tableOf? d).getD .empty

def get? (α : Type) [FromDatum α] (d : Datum) (name : String) : Option α :=
  if d.hasField name then fromDatum (d.field name) else none

/-- The field of that name, read; it must be there and fit. -/
def require (α : Type) [FromDatum α] (d : Datum) (name : String) : Except Fault α := (d.field name).as α

/-- The field of that name, read, or a value to use when it is missing. -/
def getD {α : Type} [FromDatum α] (d : Datum) (name : String) (default : α) : α :=
  (d.get? α name).getD default

end Datum

end PlotAdvisor
