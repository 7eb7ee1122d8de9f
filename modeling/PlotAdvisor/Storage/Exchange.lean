import PlotAdvisor.Messages.Value
import PlotAdvisor.Storage.Cabinet

/-! Questions to a cabinet of values. -/
set_option autoImplicit false

namespace PlotAdvisor.Storage

open Messages

def nameOf? : Value → Option String
  | .text points => some (String.ofList (points.map Char.ofNat))
  | _ => none

def nameOf (v : Value) : Except Fault String := orFault (nameOf? v) .noAttribute

def isInFolder (folder file : String) : Bool :=
  match Text.Chars.dropStart? (folder ++ "/").toList file.toList with
  | some rest => !rest.contains '/'
  | none => false

def saveValue (s : Cabinet Value) (name value : Value) : Except Fault (Cabinet Value × String) := do
  match nameOf? name with
  | none => .error (.broken ("input name needs to be string, not <class '" ++ name.className ++ "'>"))
  | some n =>
    ensure (value.className != "NoneType") "input value must not be None"
    if !isInFolder s.folder (s.fileName n) then .error .noFile
    return s.save n value

def answer (s : Cabinet Value) : List Value → Except Fault (Value × Cabinet Value × String)
  | [.text q, name, value] => do
    if q != "save".toList.map Char.toNat then .error .wrongKind
    let (s, said) ← saveValue s name value
    return (.none, s, said)
  | [.text q, name] =>
    match String.ofList (q.map Char.ofNat) with
    | "load" => do
      let (v, said) ← s.load (← nameOf name)
      return (v, s, said)
    | "exists" => do return (.bool (s.has (← nameOf name)), s, "")
    | "file" => do return (.ofString (s.fileName (← nameOf name)), s, "")
    | _ => .error .wrongKind
  | _ => .error .wrongKind

end PlotAdvisor.Storage
