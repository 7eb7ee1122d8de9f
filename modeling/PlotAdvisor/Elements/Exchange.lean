import PlotAdvisor.Elements.Compatible
import PlotAdvisor.Elements.Extraction
import PlotAdvisor.Elements.Normalizer
import PlotAdvisor.Program.Exchange
import PlotAdvisor.Program.Groups

/-! How elements are exchanged, and the rules of the normalizer on values of any kind. -/
set_option autoImplicit false

namespace PlotAdvisor.Elements

open Program

def sortedPairs (t : Table String String) : Datum :=
  toDatum (Sorting.sortOnTexts (fun e => [e.1, e.2]) t.entries)

def sortedDoublePairs {ν : Type} [ToDatum ν] (t : Table (String × String) ν) : Datum :=
  toDatum ((Sorting.sortOnTexts (fun e => [e.1.1, e.1.2]) t.entries).map fun (k, v) => ([k.1, k.2], v))

def Use.row (u : Use) : Except Fault Datum := do
  return toDatum (u.id, u.line, u.node.kind, u.value.map Tree.kind, ← u.span, ← u.valueSpan)

def classOf : Datum → String
  | .null => "NoneType"
  | .bool _ => "bool"
  | .int _ => "int"
  | .decimal _ _ => "float"
  | .list _ => "list"
  | .object _ => "dict"
  | _ => "str"

/-- What the normalizer is asked to make of an id. -/
inductive Rule where
  | simplify
  | shorten
  /-- What an id stands for; the flag tells whether the result is simplified. -/
  | infer (simplified : Bool)
  | returned
  | lengthen
  | fromInteractive
  | fromCurrent

def Normalizer.apply (n : Normalizer) : Rule → Datum → Except Fault Datum
  | .simplify, .text id => .ok (toDatum (n.simplify id))
  | .shorten, .text id => .ok (toDatum (n.shorten id))
  | .infer simplified, .text id => toDatum <$> n.infer id simplified
  | .returned, .text id => toDatum <$> n.returned id
  | .lengthen, .text id => .ok (toDatum (lengthen id))
  | .fromInteractive, .text id => .ok (toDatum (fromInteractive n.functions id))
  | .fromCurrent, .text id => .ok (toDatum (fromCurrent n.functions id))
  | .simplify, v => .error (.broken ("<class '" ++ classOf v ++ "'>"))
  | .shorten, v | .infer _, v => .error (.broken (classOf v))
  | .returned, _ => .error (.broken "")
  | .lengthen, _ => .error .noAttribute
  | .fromInteractive, v | .fromCurrent, v => if v.truthy then .error .noAttribute else .ok v

/-! ## Functions by their place in a text and by their class -/

instance : FromDatum ClassInfo := ⟨fun d => do
  let (name, module, bases) ← (fromDatum d : Option (String × String × List Nat))
  return ⟨name, module, bases⟩⟩

def functionAnswer (documented : List String) (classes : List ClassInfo) :
    List Datum → Except Fault (Datum × String)
  | [.text "func_str", lines, .int first, .int stop, .int col, .int endCol] => do
    return (toDatum (← textBetween lines.texts first stop col endCol), "")
  | [.text "strip", .text path] => .ok (toDatum (openPath path), "")
  | [.text "compat", .int i, .text method] => do
    let i ← itemFrom (List.range classes.length) i
    let (name, said) := compatibleName documented classes i method
    return (toDatum name, said)
  | _ => .error .wrongKind

end PlotAdvisor.Elements
