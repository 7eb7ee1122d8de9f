import PlotAdvisor.Command.Outcome
import PlotAdvisor.Forum.Cleaning
import PlotAdvisor.Forum.Filter
import PlotAdvisor.Storage.Cabinet

/-! The commands on threads.

* `codeCommand`, `titleCommand` - write the blocks of code of answers, and the titles of questions. Threads that
  were saved are used; else they are loaded, and saved.
* `textCommand` - writes the clean texts of saved threads.
* `allTextsCommand` - writes the clean texts of all threads, or of those on one language.
-/
set_option autoImplicit false

namespace PlotAdvisor.Forum

open Command Storage

def plottingQuestions : Filter where
  conditions := [.like "tags" "%<matplotlib>%", .compare "answercount" .greater 0, .compare "score" .atLeast 0]

def bestAnswers : Filter where
  conditions := [.compare "score" .atLeast 0]
  order := [("score", true)]
  limit := some 3

def savedName : String := "mpl_threads"

def savedOrLoaded (saved : Option (List Thread)) (posts : List Post) : List Thread × String :=
  let file := (⟨"models/output/backup", .empty⟩ : Cabinet Unit).fileName savedName
  match saved with
  | some ts => (ts, Cabinet.restoredLine file)
  | none =>
    let vs := visits plottingQuestions bestAnswers posts
    (threads vs, String.join (vs.map Visited.told) ++ Cabinet.savedLine file)

def codeCommand (saved : Option (List Thread)) (posts : List Post) : Except Fault Outcome := do
  let (ts, told) := savedOrLoaded saved posts
  let answers := ts.flatMap Thread.answers
  let blocks ← answers.mapM fun a => do return codeBlocks (← orFault a.body (.broken ""))
  let blocks := blocks.flatten
  return {
    out := told ++ "Extracting and dumping code blocks ...\nDone.\ntotal_threads " ++ toString ts.length ++
      "\ntotal_answers " ++ toString answers.length ++ "\ntotal_code_blocks " ++ toString blocks.length ++ "\n"
    files := Table.ofList [("output/mpl_code_blocks.txt", blocksFile blocks)] }

def titleCommand (saved : Option (List Thread)) (posts : List Post) : Except Fault Outcome := do
  let (ts, told) := savedOrLoaded saved posts
  let lines ← ts.mapM fun t => do
    return toString t.id ++ "\t" ++ (← orFault t.title .noAttribute) ++ "\n"
  return { out := told, files := Table.ofList [("models/output/mpl_so_titles.txt", String.join lines)] }

def textCommand (plain : String → String) (saved : Option (List Thread)) : Except Fault Outcome := do
  match saved with
  | none => return { exit := 1, out := "Need to use extract_so_code.py to extract mpl_threads first.\n" }
  | some ts =>
    let file := (⟨"output/backup", .empty⟩ : Cabinet Unit).fileName savedName
    let told := ts.zipIdx.map fun (_, i) =>
      if (i + 1) % progressStep = 0 then toString (i + 1) ++ " / " ++ toString ts.length ++ "\n" else ""
    let texts ← ts.mapM (Thread.cleaned plain)
    return {
      out := Cabinet.restoredLine file ++ String.join told
      files := Table.ofList [("output/mpl_so_flat_text.txt", String.join (texts.map (· ++ "\n")))] }

def allTextsUsage : String :=
  "\nExtracts text from stack overflow dump.\n\nUnlike extract_so_text.py, this one does not rely on the pickle " ++
  "generted by\nextract_so_code.py.\n\nUsage:\n  python extract_so_text_all.py  all|python\n\n" ++
  "  all - extract text from all threads\n  python - extract text from threads tagged with python only\n\n"

def allTexts (plain : String → String) : Nat → List Visited → Except Fault (String × Nat × List String)
  | n, [] => .ok ("", n, [])
  | n, v :: rest => do
    match v.thread with
    | none =>
      let (told, total, texts) ← allTexts plain n rest
      return (v.told ++ told, total, texts)
    | some t =>
      let text ← t.cleaned plain
      let here :=
        if (n + 1) % progressStep = 0 then "processed " ++ toString ((n + 1) / progressStep) ++ "K threads\n" else ""
      let (told, total, texts) ← allTexts plain (n + 1) rest
      return (v.told ++ here ++ told, total, text :: texts)

def allTextsCommand (plain : String → String) (posts : List Post) : List String → Except Fault Outcome
  | [] => .ok { exit := 1, out := allTextsUsage }
  | which :: _ => do
    ensure (which == "all" || which == "python") ""
    let questions : Filter := if which == "all" then {} else { conditions := [.like "tags" "%<python>%"] }
    let (told, total, texts) ← allTexts plain 0 (visits questions {} posts)
    return {
      out := told ++ "total " ++ toString total ++ " threads\ndone.\n"
      files := Table.ofList [("output/so-text-" ++ which ++ ".txt", String.join (texts.map (· ++ "\n")))] }

end PlotAdvisor.Forum
