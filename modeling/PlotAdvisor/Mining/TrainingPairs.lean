import PlotAdvisor.Mining.Calls

/-! Pairs of an utterance and a call, for training: every outermost call of a described function in a block
of code is paired with the description of the function and, if asked, of its arguments. -/
set_option autoImplicit false

namespace PlotAdvisor.Mining

open Program Elements Knowledge

/-- What was seen on the way. -/
structure PairCounts where
  blocks : Nat := 0
  programs : Nat := 0
  calls : Nat := 0
  functions : Nat := 0
  arguments : Nat := 0

def PairCounts.report (c : PairCounts) (distinct : Nat) : String :=
  Text.join "\n" [
    s!"total_block {c.blocks}",
    s!"total_grammatical {c.programs}",
    s!"total_call_nodes {c.calls}",
    s!"total_matched_funcs {c.functions} (total train pairs)",
    s!"total_matched_args {c.arguments}",
    s!"total_unique_train_pairs {distinct}"] ++ "\n"

def pairOf (docs : Docs) (withArguments : Bool) (call : Tree) :
    Except Fault (Option (String × Nat)) := do
  match calledName call with
  | none => return none
  | some f =>
    if f == "" then return none
    match docs.functions.get? f with
    | none => return none
    | some u => do
      ensure (u != "") f
      let more :=
        if withArguments then
          (keywordsOf call).filterMap fun a => a.bind fun a => docs.arguments.get? (f, a)
        else []
      return some (Text.join " " (u :: more), more.length)

section
variable (docs : Docs) (parse : String → Except Fault Tree) (unparse : Tree → String) (withArguments : Bool)

def pairsOfBlocks (blocks : List String) : Except Fault (List (String × String) × String × PairCounts) :=
  let total := blocks.length
  blocks.foldlM (fun (pairs, printed, c) block => do
    let c := { c with blocks := c.blocks + 1 }
    let printed := if c.blocks % 1000 = 0 then printed ++ s!"{c.blocks} / {total}\n" else printed
    match parse block with
    | .error _ => return (pairs, printed, c)
    | .ok t => do
      let c := { c with programs := c.programs + 1 }
      let (pairs, c) ← (callNodes t).foldlM (fun (pairs, c) call => do
        let c : PairCounts := { c with calls := c.calls + 1 }
        match ← pairOf docs withArguments call with
        | none => return (pairs, c)
        | some (u, n) =>
          return (pairs ++ [(u, unparse call)],
            { c with functions := c.functions + 1, arguments := c.arguments + n })) (pairs, c)
      return (pairs, printed, c)) ([], "", {})

def trainingPairs (blocks : List String) : Except Fault (List (String × String) × String) := do
  let (pairs, printed, c) ← pairsOfBlocks docs parse unparse withArguments blocks
  let distinct := Sorting.sortOnTexts (fun p => [p.1, p.2]) pairs.eraseDups
  return (distinct, printed ++ c.report distinct.length)

end

end PlotAdvisor.Mining
