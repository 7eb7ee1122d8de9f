import PlotAdvisor.Command.Options
import PlotAdvisor.Command.Outcome
import PlotAdvisor.Markup.Document
import PlotAdvisor.Text.Encoded

/-! The command that converts a document, which it finds in a file, on the web, or in its input. -/
set_option autoImplicit false

namespace PlotAdvisor.Markup

open PlotAdvisor.Command

def commandName : String := "html2markdown.py"

def usage : String := "Usage: " ++ commandName ++ " [(filename|url) [encoding]]\n\n"

def helpText : String := usage ++
"Options:
  --version             show program's version number and exit
  -h, --help            show this help message and exit
  -g, --google-doc      convert an html-exported Google Document
  -d, --dash-unordered-list
                        use a dash rather than a star for unordered list items
  -b BODY_WIDTH, --body-width=BODY_WIDTH
                        number of characters per output line, 0 for no wrap
  -i LIST_INDENT, --google-list-indent=LIST_INDENT
                        number of pixels Google indents nested lists
  -s, --hide-strikethrough
                        hide strike-through text. only relevent when -g is
                        specified as well
"

def choices : List Choice := [
  ⟨none, "--version", .version⟩,
  ⟨some 'h', "--help", .help⟩,
  ⟨some 'g', "--google-doc", .flag⟩,
  ⟨some 'd', "--dash-unordered-list", .flag⟩,
  ⟨some 'b', "--body-width", .integer⟩,
  ⟨some 'i', "--google-list-indent", .integer⟩,
  ⟨some 's', "--hide-strikethrough", .flag⟩]

def settingsOf (g : Given) : Settings where
  styled := g.flags.contains "--google-doc"
  itemMark := if g.flags.contains "--dash-unordered-list" then "-" else "*"
  width := (g.integers.lookup "--body-width").getD 78
  listIndent := (g.integers.lookup "--google-list-indent").getD 36
  hideStruck := some (g.flags.contains "--hide-strikethrough")

/-- What the command finds around it. -/
structure Surroundings where
  input : String
  files : List (String × List Nat)
  pages : List (String × List Nat)
  /-- The encoding that a page is found to have, where that is looked for. -/
  charset : Option String

def Surroundings.load (w : Surroundings) : List String → Except Fault (String × String)
  | [] => .ok (w.input, "")
  | place :: more => do
    if Text.startsWith place "http://" || Text.startsWith place "https://" then do
      let bytes ← orFault (w.pages.lookup place) .unreachable
      let found := w.charset.getD "utf-8"
      let name := more.head?.getD (if found == "us-ascii" then "utf-8" else found)
      return (← (← Text.Encoding.ofName name).decode bytes, place)
    else do
      let bytes ← orFault (w.files.lookup place) .noFile
      return (← (← Text.Encoding.ofName (more.head?.getD "utf-8")).decode bytes, "")

def run (w : Surroundings) (eventsOf : String → List Event) (args : List String) : Except Fault Outcome :=
  match readOptions choices args with
  | .error .help => .ok { out := helpText }
  | .error .version => .ok { out := commandName ++ " 3.1\n" }
  | .error (.misuse message) => .ok (.misuse usage commandName message)
  | .ok g =>
    if 2 < g.arguments.length then .ok (.misuse usage commandName "Too many arguments")
    else do
      let (text, base) ← w.load g.arguments.reverse
      let c ← ({ settings := settingsOf g } : Converter).begin
      return { out := ← c.convert base (eventsOf (prepared text)) }

end PlotAdvisor.Markup
