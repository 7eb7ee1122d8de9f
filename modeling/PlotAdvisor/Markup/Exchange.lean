import PlotAdvisor.Markup.Document

/-! How the state of the writer is exchanged. -/
set_option autoImplicit false

namespace PlotAdvisor.Markup

def State.measures (s : State) : List Int :=
  let flag (b : Bool) : Int := if b then 1 else 0
  [s.quiet, s.due, s.written, flag s.atStart, flag s.space, s.quotes, flag s.pre, flag s.startPre, flag s.code,
    flag s.endsLine, flag s.afterList, s.styleDepth, s.emphasis, s.dropBlanks, flag s.inHeader, s.linkCount]

def State.summary (s : State) (first : Nat) : List (String × Datum) := [
  ("out", toDatum (s.chunks.toList.drop first)),
  ("st", toDatum s.measures),
  ("list", toDatum (s.lists.reverse.map fun l => (l.kind, l.number))),
  ("depth", toDatum [s.openLinks.length, s.elements.length, s.links.length]),
  ("abbr", .list [toDatum s.abbrTitle, toDatum s.abbrText,
    toDatum (s.abbrs.entries.mergeSort fun a b => decide (a.1 ≤ b.1))]),
  ("br", toDatum s.breakMark)]

def reports (c : Converter) : State → List (Option Event) → List (Except Fault Datum)
  | _, [] => []
  | s, some e :: rest =>
    match s.step c.settings c.spelling e with
    | .error f => [.error f]
    | .ok t => .ok (.object (t.summary s.chunks.size)) :: reports c t rest
  | s, none :: rest =>
    match s.close c.settings with
    | .error f => [.error f]
    | .ok t =>
      .ok (.object (s.summary s.chunks.size ++
        [("text", toDatum t.text), ("new", .object (t.summary s.chunks.size))])) :: reports c t rest

/-- Whether a text is among what is there: the names of fields, the items of a list, or the parts of a text. -/
def holds (t : Datum) (k : String) : Except Fault Bool :=
  match t with
  | .object _ => .ok (t.hasField k)
  | .list ds => .ok (ds.any fun d => (fromDatum d : Option String) == some k)
  | .text s => .ok (Text.has s k)
  | _ => .error .wrongKind

def blanksOf (s : String) : Datum := if s == "" || isOnlySpaces s then toDatum s else .bool false

end PlotAdvisor.Markup
