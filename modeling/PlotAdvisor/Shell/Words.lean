import PlotAdvisor.Fault
import PlotAdvisor.Text.Basic

/-! Words of a command line. Blanks part the words; quotes keep blanks; a backslash takes the next
character as it is, inside double quotes only before a double quote or a backslash; inside single
quotes nothing is special. -/
set_option autoImplicit false

namespace PlotAdvisor.Shell

inductive Mode where
  | open
  | quoted (quote : Char)
  | escaped (inside : Option Char)

def isSeparator (c : Char) : Bool := c == ' ' || c == '\t' || c == '\r' || c == '\n'

def wordsFrom : Mode → Option (List Char) → List Char → Except Fault (List (List Char))
  | .open, word, [] => .ok (word.map List.reverse).toList
  | .quoted _, _, [] => .error (.badValue "No closing quotation")
  | .escaped _, _, [] => .error (.badValue "No escaped character")
  | .open, word, c :: cs =>
    if isSeparator c then do
      return (word.map List.reverse).toList ++ (← wordsFrom .open none cs)
    else if c = '\\' then wordsFrom (.escaped none) word cs
    else if c = '"' ∨ c = '\'' then wordsFrom (.quoted c) (some (word.getD [])) cs
    else wordsFrom .open (some (c :: word.getD [])) cs
  | .quoted q, word, c :: cs =>
    if c = q then wordsFrom .open word cs
    else if c = '\\' ∧ q = '"' then wordsFrom (.escaped (some q)) word cs
    else wordsFrom (.quoted q) (some (c :: word.getD [])) cs
  | .escaped none, word, c :: cs => wordsFrom .open (some (c :: word.getD [])) cs
  | .escaped (some q), word, c :: cs =>
    let kept := if c = '\\' ∨ c = q then [c] else [c, '\\']
    wordsFrom (.quoted q) (some (kept ++ word.getD [])) cs

def words (cs : List Char) : Except Fault (List (List Char)) := wordsFrom .open none cs

/-- A command that begins with a percent sign: its name and its arguments, cut into words or left whole. -/
def parseCommand (line : String) (split : Bool) : Except Fault (String × List String) := do
  let cs := line.toList
  ensure (cs.head? == some '%') ""
  let body := (Text.Chars.trim cs)
  let name := body.takeWhile fun c => !Text.isBlank c
  let rest := Text.Chars.trimStart (body.dropWhile fun c => !Text.isBlank c)
  let args ← if split then words (Text.Chars.trim rest) else pure [rest]
  return (String.ofList (name.drop 1), args.map String.ofList)

def quotePath (path : String) : String :=
  if path.toList.all fun c => Text.isLetter c || Text.isNumeral c || ['-', '_', '.', '/', '\\'].contains c
  then path
  else "\"" ++ Text.replace path "\"" "\\\"" ++ "\""

end PlotAdvisor.Shell
