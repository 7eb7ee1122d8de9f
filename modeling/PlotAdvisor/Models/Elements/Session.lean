import PlotAdvisor.Models.Elements.Exchange

/-! Questions to the model of elements, some of which change it. -/
set_option autoImplicit false

namespace PlotAdvisor.Models.Elements

structure Session where
  model : Model Float
  library : Documentation.Library
  counts : Table String Int
  drawing : List String

namespace Session

def wordNumbers (s : Session) (text : String) : Option (List Nat) :=
  match s.model.reading.numbers s.model.vectors text with
  | [] => none
  | ns => some (ns.mergeSort fun a b => decide (a ≤ b))

/-- Answers a question, and gives what is left for the next. -/
def answer (s : Session) : List Datum → Except Fault (Datum × Session)
  | [.text "idxs", .text q] => .ok (toDatum (s.wordNumbers q), s)
  | [.text "h", .text q, used] => .ok (toDatum (s.model.hidden q used.texts), s)
  | [.text "score", .text q, used, cands] => .ok (toDatum (s.model.score q used.texts cands.texts), s)
  | [.text "scores", .text q, used] => .ok (toDatum (s.model.scoreAll q used.texts), s)
  | [.text "suggest", .text q, used] => .ok (toDatum (s.model.suggest ⟨used.texts, s.counts, s.drawing⟩ q), s)
  | [.text "init", .text e] =>
    let m := s.model
    .ok (toDatum (m.vectors.mean (m.reading.numbers m.vectors (s.library.trainingText e true))), s)
  | [.text "update", p, ws, right, wrong, alpha] => do
    let w ← s.model.learn ((fromDatum p).getD []) ((fromDatum ws).getD []) (← right.as _)
      ((fromDatum wrong).getD []) (← alpha.as _)
    return (.list (w.summary.map Prod.snd), { s with model := { s.model with weights := w } })
  | [.text "cum", rows] => do
    let rows ← rows.as (List (String × Int))
    let shares ← sharesOf Float (Table.ofList rows) (rows.map Prod.fst)
    return (toDatum shares, { s with model := { s.model with elements := rows.map Prod.fst } })
  | _ => .error .wrongKind

end Session

end PlotAdvisor.Models.Elements
