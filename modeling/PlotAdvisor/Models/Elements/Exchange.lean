import PlotAdvisor.Models.Elements.Training

/-! How the model of elements is exchanged. -/
set_option autoImplicit false

namespace PlotAdvisor.Models.Elements

open Vectors

def Mode.ofName : String → Mode
  | "additive" => .additive
  | "multiply" => .multiply
  | _ => .concat

def Mode.ofFlags (additive concat multiply : Int) : Except Fault Mode :=
  if additive + concat + multiply ≠ 1 then .error (.badValue "(additive + concat + multiply) must equal to 1")
  else .ok (if additive ≠ 0 then .additive else if multiply ≠ 0 then .multiply else .concat)

def Model.ofDatum? (d : Datum) (emptyWords : List String) (tokenizer : Wording.Tokenizer)
    (stemmers : Wording.Stemmers) (vectors : WordVectors Float) : Option (Model Float) := do
  return {
    elements := ← d.get? (List String) "all_elems"
    mode := Mode.ofName (d.getD "mode" "")
    reading := ⟨emptyWords, tokenizer, stemmers, d.getD "use_lemma" false, d.getD "maxngram" 1⟩
    vectors := { vectors with size := d.getD "vector_size" vectors.size }
    weights := ⟨← d.get? (Matrix Float) "syn0p", ← d.get? (Matrix Float) "syn1r", ← d.get? (Row Float) "syn1b"⟩ }

def Settings.ofDatum (rows : StartRows Float) (d : Datum) : Except Fault (Settings Float) := do
  return {
    mode := ← Mode.ofFlags (d.getD "additive" 0) (d.getD "concat" 1) (d.getD "multiply" 0)
    negative := d.getD "negative" 5
    epochs := d.getD "epoch" 1
    seed := d.getD "seed" 1
    alpha := d.getD "alpha" 0.1
    window := d.getD "window" 20
    lemmas := d.getD "use_lemma" true
    phraseLimit := d.getD "maxngram" 1
    threads := d.get? Int "threads"
    drawParents := d.getD "rand_parent_doc" false
    contextsFromTexts := d.getD "hint_pvecs_init" true
    outputsFromTexts := d.getD "hint_rvecs_init" false
    drawUsed := d.getD "neg_sample_used_elem" false
    rows := rows }

def Weights.summary (w : Weights Float) : List (String × Datum) :=
  [("syn0p", toDatum w.contexts), ("syn1r", toDatum w.outputs), ("syn1b", toDatum w.biases)]

def Learning.summary (st : Learning Float) : List (String × Datum) :=
  st.model.weights.summary ++ [("cum", toDatum st.shares), ("total", toDatum st.total)]

def Learning.said (st : Learning Float) : String :=
  String.join (st.reports.map fun (n, alpha) =>
    toString n ++ " / " ++ toString st.total ++ " alpha = " ++ Decimal.render alpha ++ "\n") ++
  "Training finished.\n"

end PlotAdvisor.Models.Elements
