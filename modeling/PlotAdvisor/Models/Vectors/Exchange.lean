import PlotAdvisor.Models.Vectors.CallRanking
import PlotAdvisor.Models.Vectors.ElementRanking
import PlotAdvisor.Models.Vectors.File
import PlotAdvisor.World.Exchange

/-! Questions to the rankers that work on vectors of words, and their answers. -/
set_option autoImplicit false

namespace PlotAdvisor.Models.Vectors

open Program

def vectorsFile : String := "vectors-so-text-python-lemma.bin"

def nameOf (settings : Datum) : String :=
  match settings.getD "name" "" with
  | "" => vectorsFile
  | name => name

def rarityDatum (r : Option Float) : Datum := (r.map toDatum).getD (toDatum unmetRarity)

def scoreOrZero (s : Option Float) : Datum := (s.map toDatum).getD (.int 0)

def docsOf (functions : List (String × String)) (arguments : List (String × String × String)) : Knowledge.Docs :=
  ⟨Table.ofList functions, Table.ofList (arguments.map fun (f, a, u) => ((f, a), u))⟩

def CallRanker.ofDatum (w : World) (d : Datum) : Except Fault (CallRanker Float) := do
  let cfg := d.field "cfg"
  let l : Lookup :=
    ⟨if cfg.getD "use_stem" false then .cut else .written, cfg.getD "maxngram" 1, w.tokenizer, w.stemmers⟩
  let docs := (d.get? (List (String × String)) "fu").map fun fu => docsOf fu (d.getD "fau" [])
  CallRanker.make l (← w.wordVectors) docs

def CallRanker.answer (r : CallRanker Float) (parse : String → Except Fault Tree) : List Datum → Except Fault Datum
  | [.text "words", .text q] =>
    .ok (toDatum ((r.lookup.numbers r.vectors q).mergeSort fun a b => decide (a ≤ b)))
  | [.text "bow", .text q] => .ok (toDatum (r.centroid q))
  | [.text "idf", docs] => .ok (toDatum ((rarities r.lookup r.vectors ((fromDatum docs).getD [])).map rarityDatum))
  | [.text "funcs", .text q, names, code] => do
    let program ← match code with
      | .text c => some <$> parse c
      | _ => pure none
    return toDatum ((← r.functions q ((fromDatum names).getD []) program).map fun (f, s) => (f, scoreOrZero s))
  | [.text "args", .text q, .text f, names] => do
    return toDatum ((← r.arguments q f ((fromDatum names).getD [])).map fun (a, s) => (a, scoreOrZero s))
  | _ => .error .wrongKind

def ElementRanker.ofDatum (w : World) (library : Documentation.Library) (counts : Table String Int)
    (kept : Option (ElementIndex Float)) (cfg : Datum) : Except Fault (ElementRanker Float) := do
  let v ← w.wordVectors
  let v := { v with rows := unitRows v.rows }
  let l : Lookup :=
    ⟨if cfg.getD "use_lemma" true then .base else .written, cfg.getD "maxngram" 1, w.tokenizer, w.stemmers⟩
  let together ←
    if cfg.getD "use_coke" false then
      some <$> orFault w.saved.pairCounts (.badValue "Coke file does not exist: coke_0329")
    else pure none
  let index ← match kept with
    | some i => pure i
    | none => ElementIndex.make l v (← Knowledge.readDocs w.sources {}) library counts.keys
  return ⟨l, v, index, counts, cfg.getD "heuristic" false, together⟩

def ElementRanker.answer (r : ElementRanker Float) : List Datum → Except Fault Datum
  | [.text "suggest", .text q, used] => do return toDatum (← r.suggest q ((fromDatum used).getD []))
  | [.text "score", .text q, _, candidates] => .ok (toDatum (r.score q ((fromDatum candidates).getD [])))
  | [.text "coke", .text x, .text y] => do
    return toDatum (ElementRanker.pairCount (← orFault r.together .noAttribute) x y)
  | _ => .error .wrongKind

end PlotAdvisor.Models.Vectors
