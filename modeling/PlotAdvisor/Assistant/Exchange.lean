import PlotAdvisor.Assistant.Requests
import PlotAdvisor.Program.Exchange

/-! How requests and their responses are exchanged. -/
set_option autoImplicit false

namespace PlotAdvisor.Assistant

open Program

def Setup.ofWorld (w : World) (p : Parses) : Except Fault Setup := do
  let library ← w.library
  let _ ← Knowledge.readDocs w.sources {}
  let normalizer ← Elements.Normalizer.ofSources w.sources
  return { normalizer := normalizer, library := library, model := ← w.model, plotting := ← w.plotting
           counts := w.saved.elementCounts, values := w.saved.valueCounts, positions := w.saved.positions
           samples := samplesByFunction w.samples, located := w.located, parse := p.tree, marked := p.marked
           digest := fun code => (hash code).toNat }

def fieldOf (d : Datum) (name : String) : Except Fault String :=
  orFault (d.get? String name) (.noKey (Text.quoted name))

def numberOf (d : Datum) (name : String) : Except Fault Int := do Text.readInt 10 (← fieldOf d name)

def Request.ofDatum (d : Datum) : Request where
  type := d.getD "type" ""
  code := d.getD "code" ""
  query := Text.lower (Text.trim (d.getD "query" ""))
  line := numberOf d "cursor_line"
  column := numberOf d "cursor_ch"
  element := fieldOf d "elem_id"

instance : ToDatum Sample := ⟨fun s => .object [("code", toDatum s.code), ("svg", toDatum s.picture)]⟩

instance : ToDatum Given := ⟨fun g =>
  .object ([("val", toDatum g.text)] ++
    match g.slot with
    | some s => [("key", toDatum s.name), ("elem_id", toDatum s.element)]
    | none => [])⟩

def Detail.fields (count : Int) : Detail → List (String × Datum)
  | .function inGallery signature examples =>
    [("count", toDatum count), ("mode", toDatum (if inGallery then "gallery" else "non_terminal")),
      ("signature", toDatum signature)] ++ (examples.map fun es => ("examples", toDatum es)).toList
  | .parameter given =>
    [("count", toDatum count), ("mode", .text "non_terminal"), ("used_val", toDatum given)]
  | .value => [("mode", .text "terminal")]

instance : ToDatum Choice := ⟨fun c =>
  .object ([("val", toDatum c.text), ("weight", toDatum c.weight), ("doc", toDatum c.doc),
    ("elem_id", toDatum c.element)] ++ c.detail.fields c.count)⟩

instance : ToDatum Choices := ⟨fun c =>
  match c with
  | .functions items =>
    .object [("name", .text "pyplot functions"), ("items", toDatum items), ("type", .text "functions"),
      ("elem_id", .text Setup.topModule)]
  | .values id items =>
    .object [("name", .text ("values of \"" ++ id ++ "\"")), ("items", toDatum items), ("type", .text "values"),
      ("elem_id", toDatum id)]
  | .parameters e id toInsert items places range =>
    .object ([("name", .text ("parameters of \"" ++ (if e.type == "func" then id else e.name) ++ "\"")),
      ("items", toDatum items), ("type", .text "parameters"), ("elem_id", toDatum id),
      ("elem_name", toDatum e.name), ("mother_elem_type", toDatum e.type), ("is_to_insert", toDatum toInsert)] ++
      (match places with
        | some ps => [("positions", toDatum ps), ("best_position", toDatum (Mining.bestPlace ps))]
        | none => []) ++
      (range.map fun r => ("mother_text_range", toDatum r)).toList)⟩

instance : ToDatum (Match Numeric) := ⟨fun m =>
  .object [("weight", toDatum m.weight), ("type", toDatum m.type), ("elem_id", toDatum m.element),
    ("lineno", toDatum (m.span.start.line - 1)), ("end_lineno", toDatum (m.span.stop.line - 1)),
    ("col_offset", toDatum m.span.start.col), ("end_col_offset", toDatum m.span.stop.col)]⟩

instance : ToDatum Summary := ⟨fun s =>
  .object [("name", toDatum (Text.replace s.entry.fullName "matplotlib." "")), ("elem_id", toDatum s.id),
    ("val", toDatum s.entry.name), ("docstring", toDatum s.doc), ("signature", toDatum s.signature),
    ("val_text_range", toDatum s.valueSpan), ("suggest", toDatum s.choices), ("type", toDatum s.entry.type)]⟩

def topGroup (functions : Choices) : Datum :=
  .object [("name", .text Setup.topModule), ("elem_id", .text Setup.topModule), ("val", .text Setup.topModule),
    ("suggest", toDatum functions)]

def Response.fields : Response → List (String × Datum)
  | .nothing => []
  | .matched ms => [("matches", toDatum ms)]
  | .summary groups functions => [("summary_groups", .list (groups.map toDatum ++ [topGroup functions]))]
  | .suggested choices => [("suggest", toDatum choices)]
  | .mode name => [("mode", .text name)]

def answerOf (trace : Fault → String) (type : String) (r : Except Fault Response) : Datum :=
  .object (("type", .text type) ::
    match r with
    | .ok r => r.fields
    | .error .unparsable => [("error", .text "syntax error")]
    | .error f => [("error", .text (trace f))])

def cursorRow (c : Elements.Context) (p : Place) : Except Fault Datum := do
  let rows ← (← usesAtPlace c p).mapM fun u => do return toDatum (u.id, ← u.span, ← u.valueSpan)
  return .list rows

end PlotAdvisor.Assistant
