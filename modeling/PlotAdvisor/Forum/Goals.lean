import PlotAdvisor.Command.Outcome
import PlotAdvisor.Fault
import PlotAdvisor.Sorting
import PlotAdvisor.Text.Basic
import PlotAdvisor.Text.LowerCase

/-! The goals behind questions. A title that asks how to do something is a goal without its asking words; a
title that begins with the first word of such a goal is a goal too. -/
set_option autoImplicit false

namespace PlotAdvisor.Forum

open Command

def askingWords : List String := [
  "how can i", "how do i", "how do you", "how would one", "how to", "how should i", "how do we",
  "how is it possible to", "how does one", "how i can", "how could i", "how can one", "how we can",
  "how can you", "do i have to", "how i", "how do", "how would you", "how would i", "how would", "how should",
  "how can", "how are", "how / where to", "how"]

def withoutAsking (title : String) : String :=
  askingWords.foldl (fun t w => Text.trim (Text.replace t w "")) title

def beginnings : List String := ["matplotlib ", "and ", "/ ", "- ", "-- "]

def endings : List String :=
  [" in matplotlib", " with matplotlib", " in python", " using matplotlib", " in python matplotlib"]

def cutBeginning (goal start : String) : String :=
  match Text.Chars.dropStart? start.toList goal.toList with
  | some rest => String.ofList rest
  | none => goal

def cutEnding (goal tail : String) : String :=
  if Text.endsWith goal tail then String.ofList (goal.toList.take (goal.length - tail.length)) ++ " " else goal

def trimmedGoal (goal : String) : String :=
  let goal := String.ofList ((goal.toList.reverse.dropWhile (· == '?')).reverse)
  endings.foldl cutEnding (beginnings.foldl cutBeginning goal)

/-- A thread by its id and title in lower case; lines with another number of fields are none. -/
def threadOf? (line : String) : Option (String × String) :=
  match Text.splitOn line "\t" with
  | [id, title] => some (id, Text.lower title)
  | _ => none

def firstWord (s : String) : Except Fault String := orFault (Text.words s).head? .outOfRange

def askedGoals (threads : List (String × String)) : List (String × String) :=
  (threads.filter fun t => Text.startsWith t.2 "how").map fun t => (t.1, withoutAsking t.2)

structure Goals where
  lines : Nat
  asked : List (String × String)
  /-- The goals that were not asked for. -/
  further : List (String × String)

def goalsOf (text : String) : Except Fault Goals := do
  let lines := Text.splitOn text "\n"
  let threads := lines.filterMap threadOf?
  let asked := askedGoals threads
  let firsts ← asked.mapM fun g => firstWord g.2
  let further ← threads.filterM fun t => do return firsts.contains (← firstWord t.2)
  return ⟨lines.length, asked, further⟩

def goalsCommand (titles : String) : Except Fault Outcome := do
  let g ← goalsOf titles
  let all := g.asked ++ g.further
  let sorted := Sorting.sortOnTexts (fun e => [e.1, e.2]) (all.map fun e => (e.1, trimmedGoal e.2))
  return {
    out := "There are " ++ toString g.lines ++ " threads in total\nThere are " ++ toString g.asked.length ++
      " how-questions\nNow we have " ++ toString all.length ++ " goals\n"
    files := Table.ofList [("models/output/mpl_so_goals.txt",
      String.join (sorted.map fun e => e.1 ++ "\t" ++ e.2 ++ "\n"))] }

end PlotAdvisor.Forum
