import PlotAdvisor.Command.Keywords
import PlotAdvisor.Command.Outcome
import PlotAdvisor.Models.Productions.Exchange
import PlotAdvisor.Storage.Cabinet

/-! The commands that train a productions model on saved pairs and save it. -/
set_option autoImplicit false

namespace PlotAdvisor.Models.Productions

open Command Program

structure Workplace where
  files : Table String (List (String × String))
  parse : String → Except Fault Tree
  /-- How often the corpus is gone through, where that is fixed from outside. -/
  rounds : Option Int
  rows : StartRows Float

/-- How a training command ends, and the models that it saved, by file name. -/
structure Trained where
  outcome : Outcome
  models : List (String × Model Float) := []

def Workplace.pairs (w : Workplace) (texts : List (String × String)) : Except Fault (List Pair) :=
  texts.mapM fun (utterance, code) => do return ⟨utterance, ← Part.ofTree (← w.parse code)⟩

def build (st : Settings Float) (train : Bool) (pairs : List Pair) : Except Fault (Model Float × Generator) := do
  let (m, g) ← Model.start st pairs (Generator.ofSeed st.seed)
  if train then m.train pairs g else return (m, g)

def keywords : List Keyword := [
  { names := ["-h", "--help"], kind := .help },
  { names := ["-backup_folder"] },
  { names := ["-train_pairs"], required := true },
  { names := ["-save_model"], required := true },
  { names := ["-size"], kind := .integer },
  { names := ["-alpha"], kind := .real },
  { names := ["-min_count"], kind := .integer },
  { names := ["-max_vocab_size"] },
  { names := ["-sample"], kind := .real },
  { names := ["-seed"], kind := .integer },
  { names := ["-workers"], kind := .integer },
  { names := ["-min_alpha"], kind := .real },
  { names := ["-negative"], kind := .integer },
  { names := ["-iter"], kind := .integer },
  { names := ["-additive"], kind := .truth },
  { names := ["-memsize_k"], kind := .integer },
  { names := ["-memsize_i"], kind := .integer },
  { names := ["-verbose"] },
  { names := ["-sample_train_pairs"], kind := .integer }]

def usage : String :=
  "usage: train_bimodal.py [-h] [-backup_folder BACKUP_FOLDER] -train_pairs
                        TRAIN_PAIRS -save_model SAVE_MODEL [-size SIZE]
                        [-alpha ALPHA] [-min_count MIN_COUNT]
                        [-max_vocab_size MAX_VOCAB_SIZE] [-sample SAMPLE]
                        [-seed SEED] [-workers WORKERS] [-min_alpha MIN_ALPHA]
                        [-negative NEGATIVE] [-iter ITER] [-additive ADDITIVE]
                        [-memsize_k MEMSIZE_K] [-memsize_i MEMSIZE_I]
                        [-verbose VERBOSE]
                        [-sample_train_pairs SAMPLE_TRAIN_PAIRS]\n"

def help : String :=
  usage ++ "
options:
  -h, --help            show this help message and exit
  -backup_folder BACKUP_FOLDER
  -train_pairs TRAIN_PAIRS
                        pickle of training data
  -save_model SAVE_MODEL
                        output file name
  -size SIZE            Size of vectors
  -alpha ALPHA          initial learning rate
  -min_count MIN_COUNT
  -max_vocab_size MAX_VOCAB_SIZE
  -sample SAMPLE        down sampling factor
  -seed SEED
  -workers WORKERS
  -min_alpha MIN_ALPHA
  -negative NEGATIVE    number of negative samples
  -iter ITER            number of epochs to train
  -additive ADDITIVE    additive or muliplicative
  -memsize_k MEMSIZE_K
  -memsize_i MEMSIZE_I
  -verbose VERBOSE
  -sample_train_pairs SAMPLE_TRAIN_PAIRS\n"

def settingsOf (rows : StartRows Float) (text : String → Option String) : Settings Float :=
  let int (name : String) (usual : Int) : Int := ((text name).bind (Text.readInt? 10)).getD usual
  let real (name : String) (usual : Float) : Float := ((text name).bind Text.readReal?).getD usual
  let s := Settings.usual rows
  { s with
    size := (int "-size" s.size).toNat
    alpha := real "-alpha" s.alpha
    leastAlpha := real "-min_alpha" s.leastAlpha
    words := { s.words with leastCount := some (int "-min_count" 5), sample := some (real "-sample" 0.001) }
    seed := int "-seed" s.seed
    negative := int "-negative" s.negative
    rounds := int "-iter" s.rounds
    additive := ((text "-additive").map (· != "")).getD true
    memory := ⟨int "-memsize_k" s.memory.terminals, int "-memsize_i" s.memory.ancestors⟩ }

def trainCommand (w : Workplace) (args : List String) : Except Fault Trained := do
  if args.isEmpty then return ⟨{ exit := 1, out := "\nTrain bimodal model.\n\n" }, []⟩
  match readKeywords keywords args with
  | .error .help => return ⟨{ out := help }, []⟩
  | .error (.misuse message) => return ⟨.misuse usage "train_bimodal.py" message, []⟩
  | .ok values =>
    let text := valueOfKeyword values
    let cabinet : Storage.Cabinet (List (String × String)) := ⟨(text "-backup_folder").getD "output/backup", w.files⟩
    let (texts, said) ← cabinet.load ((text "-train_pairs").getD "")
    let count := ((text "-sample_train_pairs").bind (Text.readInt? 10)).getD 0
    let texts ←
      if 0 < count && count < (texts.length : Int) then
        Prod.fst <$> Draws.sample texts count.toNat (Generator.ofSeed 1)
      else pure texts
    let pairs ← w.pairs texts
    let st := settingsOf w.rows text
    let st := { st with rounds := w.rounds.getD st.rounds }
    -- A limit that is given is a text, with which no number can be compared.
    if (text "-max_vocab_size").any (· != "") && !pairs.isEmpty then throw .wrongKind
    let (m, _) ← build st true pairs
    return ⟨{ out := said }, [((text "-save_model").getD "", m)]⟩

def trainOnSample (w : Workplace) : Except Fault Trained := do
  let cabinet : Storage.Cabinet (List (String × String)) := ⟨"output/backup", w.files⟩
  let (texts, said) ← cabinet.load "train_pairs_0204"
  let (texts, _) ← Draws.sample texts 100 (Generator.ofSeed 1)
  let pairs ← w.pairs texts
  let s := Settings.usual w.rows
  let st := { s with
    words := { s.words with leastCount := none, sample := none }
    rounds := w.rounds.getD 100 }
  let (m, _) ← build st true pairs
  return ⟨{ out := said }, [("output/model-100sample-0204", m)]⟩

end PlotAdvisor.Models.Productions
