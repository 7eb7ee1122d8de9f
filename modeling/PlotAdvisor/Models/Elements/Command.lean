import PlotAdvisor.Command.Outcome
import PlotAdvisor.Mining.Examples
import PlotAdvisor.Models.Elements.Exchange

/-! The command that trains the model of elements on all examples and saves it. -/
set_option autoImplicit false

namespace PlotAdvisor.Models.Elements

open Command Knowledge Mining Program

def commandSettings (rows : StartRows Float) : Settings Float where
  mode := .concat
  negative := 20
  epochs := 1
  seed := 1
  alpha := 0.05
  window := 5
  lemmas := true
  phraseLimit := 1
  threads := none
  drawParents := true
  contextsFromTexts := true
  outputsFromTexts := false
  drawUsed := false
  rows := rows

def trainedFile : String := "models/output/bi2-0410-t.model"

def trainCommand {σ : Type} [Draws σ] (parse : String → Except Fault Tree) (source : Nat → σ)
    (rows : StartRows Float) (b : Background Float) (s : Saved) : Except Fault (Outcome × Learning Float) := do
  let cabinet : Storage.Cabinet (Table String Int) := ⟨"experimental/code_suggest/output/backup", .empty⟩
  let restored := Storage.Cabinet.restoredLine (cabinet.fileName "elem_pyplot_counts_0404")
  let (codes, first) ← gather (examples false s)
  let (_, second) ← gather (examples true s)
  let learned ← train parse source (commandSettings rows) b s.elementCounts
    (Sorting.sortTexts s.elementCounts.keys) codes
  return ({ out := restored ++ first ++ second ++ learned.said ++ "Model saved.\n" }, learned)

end PlotAdvisor.Models.Elements
