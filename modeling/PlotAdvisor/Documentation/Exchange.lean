import PlotAdvisor.Documentation.Consolidated
import PlotAdvisor.Documentation.Library

/-! How documentation is exchanged. -/
set_option autoImplicit false

namespace PlotAdvisor.Documentation

instance {κ : Type} [ToDatum κ] : ToDatum (Entry κ) := ⟨fun e =>
  toDatum (e.id, e.name, e.fullName, e.type, e.parent, e.returns, e.count, e.utterance, e.expanded)⟩

def pairedDatum (version : Utterance → String) (t : Table (String × String) Utterance) : Datum :=
  toDatum ((Sorting.sortOnTexts (fun e => [e.1.1, e.1.2]) t.entries).map fun (k, u) => ([k.1, k.2], version u))

def Borrowed.summary (b : Borrowed) : List (String × Datum) :=
  [("fau", pairedDatum Utterance.full b.arguments), ("fau_t", pairedDatum Utterance.short b.arguments),
    ("faku", pairedDatum Utterance.full b.keys), ("faku_t", pairedDatum Utterance.short b.keys),
    ("printed", toDatum (Sorting.sortTexts b.complaints)),
    ("classes", toDatum ((Sorting.sortOn Prod.fst b.functionsOf.entries).map fun (c, fs) =>
      (c, Sorting.sortTexts fs)))]

instance : FromDatum Mapping := ⟨fun d => do
  let (f, a, u) ← (fromDatum d : Option (String × Option String × String))
  return ⟨f, a, u⟩⟩

instance : FromDatum Reference := ⟨fun d => do
  let (f, t) ← (fromDatum d : Option (String × String))
  return ⟨f, t⟩⟩

def partsOf (text : String) : List String := Sorting.sortTexts (Text.splitOn text "|||")

def Consolidated.summary (c : Consolidated) : List (String × Datum) :=
  [("fu", toDatum ((Sorting.sortOn Prod.fst c.functions.written.entries).map fun (f, text) => (f, partsOf text))),
    ("fau", toDatum ((Sorting.sortOnTexts (fun e => [e.1.1, e.1.2]) c.arguments.written.entries).map
      fun ((f, a), text) => (f, a, partsOf text)))]

def Library.answer (l : Library) : List Datum → Except Fault Datum
  | [.text "elem", .text id] => .ok (toDatum (l.find? id))
  | [.text "children", .text id] => .ok (toDatum ((l.children id).map Entry.id))
  | [.text "parents", .text id] => .ok (toDatum (l.parents id))
  | [.text "guess", .text f] => .ok (toDatum (l.guess? f))
  | [.text "training", .text id, b] => .ok (toDatum (l.trainingText id b.truthy))
  | [.text "positional", .text id] => .ok (toDatum (isPositional id))
  | _ => .error .wrongKind

end PlotAdvisor.Documentation
