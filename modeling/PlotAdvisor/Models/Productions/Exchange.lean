import PlotAdvisor.Models.Productions.Scoring

/-! How settings and models are exchanged. -/
set_option autoImplicit false

namespace PlotAdvisor.Models.Productions

open Program

def Settings.usual (rows : StartRows Float) : Settings Float where
  size := 20
  alpha := 0.05
  leastAlpha := 0.0001
  words := { leastCount := some 5, limit := none, sample := some 0.001, sorted := true, nullWord := true }
  seed := 1
  negative := 5
  rounds := 5
  batch := 10000
  additive := true
  memory := ⟨10, 10⟩
  rows := rows

/-- A setting that may be switched off by giving none. -/
def optional {α : Type} [FromDatum α] (d : Datum) (name : String) (usual : Option α) : Option α :=
  if d.hasField name then d.get? α name else usual

def Settings.ofDatum (rows : StartRows Float) (d : Datum) : Settings Float :=
  let s := Settings.usual rows
  { s with
    size := d.getD "size" s.size
    alpha := d.getD "alpha" s.alpha
    leastAlpha := d.getD "min_alpha" s.leastAlpha
    words := {
      leastCount := optional d "min_count" s.words.leastCount
      limit := d.get? Int "max_vocab_size"
      sample := optional d "sample" s.words.sample
      sorted := d.getD "sorted_vocab" s.words.sorted
      nullWord := d.getD "null_word" s.words.nullWord }
    seed := d.getD "seed" s.seed
    negative := d.getD "negative" s.negative
    rounds := d.getD "iter_" s.rounds
    batch := d.getD "batch_ptrees" s.batch
    additive := d.getD "additive" s.additive
    memory := ⟨d.getD "memsize_k" s.memory.terminals, d.getD "memsize_i" s.memory.ancestors⟩ }

instance : ToDatum Below := ⟨fun b =>
  match b with
  | .one s => toDatum s.render
  | .many ss => toDatum (ss.map Symbol.render)⟩

def Model.line (m : Model Float) : String :=
  let v := m.vocabulary
  "BiModal(vocab_i=" ++ toString (v.inner.length + 1) ++ ", vocab_k=" ++ toString (v.terminals.length + 1) ++
    ", vocab_l=" ++ toString v.words.length ++ ", vocab_r=" ++ toString v.productions.length ++
    " parents, vector_size=" ++ toString m.settings.size ++ ", alpha=" ++ Decimal.render m.settings.alpha ++ ")"

def wordLine (w : Nat × Word) : String :=
  "Vocab(count:" ++ toString w.2.count ++ ", index:" ++ toString w.1 ++ ", sample_int:" ++ toString w.2.keep ++ ")"

def Model.summary (m : Model Float) : List (String × Datum) :=
  let v := m.vocabulary
  let names (ss : List Symbol) : Datum := toDatum ("None" :: ss.map Symbol.render)
  let words := v.words.filterMap fun w => v.wordNumber? w.text
  [("str", toDatum m.line), ("i", names v.inner), ("k", names v.terminals),
    ("l", toDatum (words.map fun (i, w) => (w.text, w.count, i, w.keep))),
    ("vocab_str", toDatum ((words.take 3).map wordLine)),
    ("r", toDatum (v.productions.map fun p => (p.parent.render, p.offset, p.children))),
    ("cum", toDatum ((v.productions.filter fun p => p.isDrawn m.settings.negative).map fun p =>
      (p.parent.render, p.shares Float))),
    ("b", toDatum m.weights.biases), ("hi", toDatum m.weights.innerMarks), ("syn0l", toDatum m.weights.words)]

def scoreDatum : Option Float → Datum
  | none => .int 0
  | some x => toDatum x

end PlotAdvisor.Models.Productions
