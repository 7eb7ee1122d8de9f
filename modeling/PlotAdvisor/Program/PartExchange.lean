import PlotAdvisor.Program.Dump
import PlotAdvisor.Program.Exchange
import PlotAdvisor.Program.Sampling

/-! How parts of programs, their symbols and the styles of layouts are exchanged. -/
set_option autoImplicit false

namespace PlotAdvisor.Program

instance : FromDatum DumpStyle := ⟨fun d =>
  match d with
  | .object fields => fields.foldlM (fun st f =>
      match f with
      | ("annotate_fields", v) => some { st with named := v.truthy }
      | ("include_attributes", v) => some { st with places := v.truthy }
      | ("indent", .text v) => some { st with indent := v }
      | _ => none) {}
  | _ => some {}⟩

instance : ToDatum Symbol := ⟨fun s => toDatum s.render⟩

instance : ToDatum Below := ⟨fun b =>
  match b with
  | .one s => toDatum s
  | .many ss => toDatum ss⟩

instance : ToDatum PartialTree := ⟨fun t => toDatum (t.terminals, t.ancestors, t.parent, t.children)⟩

def Parses.part (p : Parses) (code : String) : Except Fault Part := do Part.ofTree (← p.tree code)

def memoryOf (d : Datum) : Except Fault Memory := do return ⟨← d.require Int "k", ← d.require Int "i"⟩

def nestedDatum : Part → Datum
  | .node kind ps => .list [toDatum (Part.node kind ps).symbol, .list (nestedItems ps)]
  | .many name ps => .list [toDatum (Part.many name ps).symbol, .list (nestedItems ps)]
  | .one name c => .list [toDatum (Part.one name c).symbol, nestedDatum c]
  | p => toDatum p.symbol
where
  nestedItems : List Part → List Datum
  | [] => []
  | p :: rest => nestedDatum p :: nestedItems rest

mutual

def fieldsDatum : Tree → Datum
  | .node kind _ fs => .list (toDatum kind :: fieldsDatumFields fs)
  | .list ts => .list (toDatum "list" :: fieldsDatumItems ts)
  | .lit v => toDatum v.render

def fieldsDatumFields : List (String × Tree) → List Datum
  | [] => []
  | (name, t) :: rest => .list [toDatum name, fieldsDatum t] :: fieldsDatumFields rest

def fieldsDatumItems : List Tree → List Datum
  | [] => []
  | t :: rest => fieldsDatum t :: fieldsDatumItems rest

end

def symbolOf (d : Datum) : Except Fault Symbol :=
  match d.items with
  | [.text "node", .text kind] =>
    if ((Tree.node "" none []).isA? kind).isSome then .ok (Symbol.node kind) else .error .noAttribute
  | [.text "field", .text name] => .ok (Symbol.field name)
  | [.text "content", .decimal m e] => .ok (.content (.real (Decimal.render (Datum.floatOf m e))))
  | [.text "content", v] => do Symbol.ofContent (← orFault (literalOf? v) .wrongKind)
  | _ => Symbol.ofContent .none

end PlotAdvisor.Program
