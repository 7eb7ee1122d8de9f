import PlotAdvisor.Documentation.Command
import PlotAdvisor.Forum.Goals
import PlotAdvisor.Program.Dump
import PlotAdvisor.Running.Workers
import PlotAdvisor.World.Basic

/-! The command line. The first argument names a command, the others are its own:

* `edoc ID` - shows an element, with `?` behind the id its children, with `$` its parents;
* `argkeys` - lists the arguments that have keys;
* `polish` - makes the table of all elements;
* `goals FILE` - lists the goals behind the titles of questions;
* `ranges`, `limits` - trial runs.

Tables are read from the current folder, where they are there. -/
set_option autoImplicit false

namespace PlotAdvisor.CommandLine

open Command Knowledge

/-- A table of the current folder, or the one that comes with the library. -/
def tableOr (path shipped : String) : IO String := do
  try IO.FS.readFile path catch _ => return shipped

def readSources : IO Sources := do
  let s := Sources.shipped
  let dir := "docstring_parse/"
  return { s with
    functionDocs := ← tableOr (dir ++ "fu.csv") s.functionDocs
    argumentDocs := ← tableOr (dir ++ "fau.csv") s.argumentDocs
    elementDocs := ← tableOr (dir ++ "doc_polished/elem_docs.csv") s.elementDocs }

def finish : Except Fault Outcome → IO UInt32
  | .error f => do
    IO.eprintln (f.message.getD "failed")
    return 1
  | .ok o => do
    for (path, text) in o.files.entries do
      IO.FS.writeFile path text
    IO.print o.out
    IO.eprint o.err
    return o.exit.toNat.toUInt32

def usage : String := "Usage: edoc ID | argkeys | polish | goals FILE | ranges | limits\n"

def run (args : List String) : IO UInt32 := do
  let s ← readSources
  match args with
  | "edoc" :: rest => finish ((Documentation.Library.ofSources s).map (Documentation.checkCommand · rest))
  | ["argkeys"] => finish ((Documentation.readEntries s).map Documentation.argumentKeysCommand)
  | ["polish"] => finish (Documentation.Base.ofSources s .empty >>= Documentation.polishCommand)
  | ["goals", file] => do finish (Forum.goalsCommand (← IO.FS.readFile file))
  | ["ranges"] => finish (.ok Program.rangeCommand)
  | ["limits"] => finish (Running.trialRun.map fun text => { out := text })
  | _ => finish (.ok { exit := 1, err := usage })

end PlotAdvisor.CommandLine

def main (args : List String) : IO UInt32 := PlotAdvisor.CommandLine.run args
