import PlotAdvisor.Markup.Writer
import PlotAdvisor.Text.Wrapped

/-! Converting documents one after the other. A styled document has its hard blanks marked, which can be
done only once. -/
set_option autoImplicit false

namespace PlotAdvisor.Markup

/-! ## The paragraphs of a written text

Each line is wrapped on its own and followed by an empty line, unless
it begins with a blank, a dash or a star, which keeps it as it is. -/

def isOnlySpaces (line : String) : Bool := line != "" && line.toList.all (· == ' ')

def keepsLayout (line : String) : Bool :=
  match line.toList with
  | c :: _ => c == ' ' || c == '-' || c == '*'
  | [] => false

def paragraph (width : Int) (ends : Nat) (line : String) : Except Fault (String × Nat) := do
  if line == "" then return if ends < 2 then ("\n", ends + 1) else ("", ends)
  if keepsLayout line then return if isOnlySpaces line then ("", ends) else (line ++ "\n", 1)
  let lines ← Text.Wrapped.wrap width line
  return (String.join (lines.map (· ++ "\n")) ++ "\n", 2)

def wrapParagraphs (width : Int) (text : String) : Except Fault String := do
  if width == 0 then return text
  let (parts, _) ← (Text.fieldsAtNewline text).foldlM (fun (parts, ends) line => do
    let (part, ends) ← paragraph width ends line
    return (part :: parts, ends)) (([] : List String), 0)
  return String.join parts.reverse

/-! ## Converting -/

/-- The text that is read: a closing tag in pieces, as scripts write it, closes nothing. -/
def prepared (html : String) : String := Text.replace html "</' + 'script>" "</ignore>"

structure Converter where
  settings : Settings := {}
  blanksMarked : Bool := false
  deriving Inhabited

namespace Converter

def spelling (c : Converter) : Spelling := ⟨c.settings.exactCharacters, c.blanksMarked⟩

def begin (c : Converter) : Except Fault Converter :=
  if !c.settings.styled then .ok c
  else if c.blanksMarked then .error (.noKey "160")
  else .ok { c with blanksMarked := true }

def run (c : Converter) (base : String) (external : Bool) (events : List Event) : Except Fault State := do
  let s ← events.foldlM (State.step c.settings c.spelling) { base, external }
  s.close c.settings

/-- The text of a document, in wrapped paragraphs. -/
def convert (c : Converter) (base : String) (events : List Event) : Except Fault String := do
  let s ← c.run base false events
  wrapParagraphs c.settings.width s.text

end Converter

end PlotAdvisor.Markup
