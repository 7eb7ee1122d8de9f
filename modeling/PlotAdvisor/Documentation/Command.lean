import PlotAdvisor.Command.Outcome
import PlotAdvisor.Documentation.Library
import PlotAdvisor.Storage.Cabinet

/-! The commands on documentation.

* `checkCommand` - shows an element, its children or its parents.
* `argumentKeysCommand` - lists the arguments that have keys.
* `dumpCommand` - writes the tables of utterances as text.
* `polishCommand` - makes the table of all entries.
-/
set_option autoImplicit false

namespace PlotAdvisor.Documentation

open Command

def checkUsage : String :=
  "\n  Shows all information about an element.\n\n  Usage:\n    edoc <elem_id>\n" ++
  "      - look up detailed info about this element\n    edoc <elem_id>?\n" ++
  "      - look up the element's children\n    edoc <elem_id>$\n      - look up the element's parents\n\n  \n"

/-- The text without the characters of a class at its end. -/
def trimEndOf (marks : String) (s : String) : String :=
  String.ofList ((s.toList.reverse.dropWhile marks.toList.contains).reverse)

def lineOf (s : String) : String := s ++ "\n"

/-- An entry field by field, the text for people last and under its own heading. -/
def shownEntry (e : Entry String) : String :=
  String.join ((entryHeading.zip (e.fields id)).map fun (name, value) =>
    if name == "utter_expand" then
      "[" ++ name ++ "]\n" ++ Text.repeated "-" (name.length + 2) ++ "\n" ++ value ++ "\n\n"
    else "[" ++ Text.padStart 10 name ++ "] " ++ value ++ "\n")

def Library.shown (l : Library) (request : String) : String :=
  if Text.endsWith request "?" then
    let id := trimEndOf "?.@" request
    match l.children id with
    | [] => "No children found: " ++ id ++ "\n"
    | es => String.join ((Sorting.sortTexts (es.map Entry.id)).map lineOf)
  else if Text.endsWith request "$" then
    let id := trimEndOf "$" request
    match l.parents id with
    | [] => "No parent found: " ++ id ++ "\n"
    | ps => String.join (ps.map lineOf)
  else
    match l.find? request with
    | some e => shownEntry e
    | none => "Elem not found: " ++ request ++ "\n"

def checkCommand (l : Library) : List String → Outcome
  | [] => { exit := 1, out := checkUsage }
  | request :: _ => { out := l.shown request }

def argumentKeysCommand (entries : List (Entry String)) : Outcome :=
  let keyed := entries.filter fun e => e.type == "argkey"
  let ids := Sorting.sortTexts ((keyed.map fun e => Text.join "@" ((Text.splitOn e.id "@").take 2)).eraseDups)
  { out := String.join (ids.map lineOf) ++ toString ids.length ++ "\n" }

/-! ## Tables of utterances -/

/-- A row of a table, in which a field may be missing. -/
abbrev LooseRow := List (Option String)

/-- Missing fields come first. -/
def looseLe : LooseRow → LooseRow → Bool
  | [], _ => true
  | _ :: _, [] => false
  | none :: as, none :: bs => looseLe as bs
  | none :: _, some _ :: _ => true
  | some _ :: _, none :: _ => false
  | some a :: as, some b :: bs => if a == b then looseLe as bs else decide (a ≤ b)

/-- Rows under a heading, sorted by their first fields; a missing field is written as an empty one. -/
def dumped (heading : List String) (keys : Nat) (rows : List LooseRow) : String :=
  let sorted := rows.mergeSort fun a b => looseLe (a.take keys) (b.take keys)
  Csv.write (heading :: sorted.map fun r => r.map fun f => f.getD "")

def dumpCommand (functions arguments : List LooseRow) : Outcome where
  out := "Done\n"
  files := Table.ofList [
    ("fu.csv", dumped ["Function", "Utterance"] 1 functions),
    ("fau.csv", dumped ["Function", "Argument", "Utterance"] 2 arguments)]

/-! ## The table of all entries -/

def countsFile : String :=
  Storage.Cabinet.fileName (⟨"experimental/code_suggest/output/backup", .empty⟩ : Storage.Cabinet Unit)
    "elem_pyplot_counts_0404"

def polishCommand (b : Base) : Except Fault Outcome := do
  return {
    out := Storage.Cabinet.restoredLine countsFile ++ String.join (b.borrowed.complaints.map lineOf) ++ "Done\n"
    files := Table.ofList [("docstring_parse/doc_polished/elem_docs.csv", ← b.table)] }

end PlotAdvisor.Documentation
