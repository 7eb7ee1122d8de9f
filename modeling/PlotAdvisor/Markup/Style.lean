import PlotAdvisor.Numeric
import PlotAdvisor.Text.Integer

/-! Style properties of elements and style sheets. -/
set_option autoImplicit false

namespace PlotAdvisor.Markup

abbrev Properties := Table String String

abbrev StyleSheet := Table String Properties

/-- The attributes of an element; one without a value has none. -/
abbrev Attributes := Table String (Option String)

/-- The properties written as `name: value; …`. A part without a colon is left out. -/
def readProperties (style : String) : Properties :=
  Table.ofList ((Text.splitOn style ";").filterMap fun part =>
    match Text.splitOnce part ":" with
    | (name, some value) => some (Text.trim name, Text.trim value)
    | (_, none) => none)

def dropImports : Nat → List Char → Except Fault (List Char)
  | 0, _ => .error .endless
  | fuel + 1, cs =>
    match Text.Chars.cutAt "@import".toList cs with
    | none => .ok cs
    | some (before, after) =>
      match Text.Chars.cutAt [';'] after with
      | some (_, rest) => dropImports fuel (before ++ rest)
      | none => .error .endless

def readSheet (text : String) : Except Fault StyleSheet := do
  let cs ← dropImports (text.length + 1) text.toList
  let blocks := (Text.splitOn (String.ofList cs) "\x7d").filter fun b => Text.has (Text.trim b) "\x7b"
  let entries ← blocks.mapM fun b =>
    match Text.splitOn b "\x7b" with
    | [selector, body] => .ok (Text.trim selector, readProperties body)
    | parts =>
      if parts.length < 2 then
        .error (.badValue s!"not enough values to unpack (expected 2, got {parts.length})")
      else .error (.badValue "too many values to unpack (expected 2)")
  return Table.ofList entries

def Properties.update (p more : Properties) : Properties :=
  more.entries.foldl (fun p e => p.set e.1 e.2) p

def valueOf (value : Option String) : Except Fault String := orFault value .noAttribute

def styleOf (attrs : Attributes) (sheet : StyleSheet) (parent : Properties) :
    Except Fault Properties := do
  let ofClass ←
    match attrs.get? "class" with
    | none => pure parent
    | some v => do
      (Text.words (← valueOf v)).foldlM (fun p c => do
        let own ← orFault (sheet.get? ("." ++ c)) (.noKey (Text.quoted ("." ++ c)))
        return p.update own) parent
  match attrs.get? "style" with
  | none => return ofClass
  | some v => return ofClass.update (readProperties (← valueOf v))

namespace Properties

def listKind (p : Properties) : String :=
  match p.get? "list-style-type" with
  | some s => if ["disc", "circle", "square", "none"].contains s then "ul" else "ol"
  | none => "ol"

/-- How deep a list item is, by its margin in steps of `indent`. -/
def nesting (p : Properties) (indent : Int) : Except Fault Numeric := do
  match p.get? "margin-left" with
  | none => return .int 0
  | some m => do
    let n ← Text.readInt 10 (Text.slice m 0 (-2))
    if indent == 0 then .error .zeroDivision
    else return .real (Decimal.ofInt n / Decimal.ofInt indent)

def hasHeight (p : Properties) : Bool := p.contains "height"

def emphasis (p : Properties) : List String :=
  ["text-decoration", "font-style", "font-weight"].filterMap p.get?

def isFixedWidth (p : Properties) : Bool :=
  let font := p.getD "font-family" ""
  font == "Courier New" || font == "Consolas"

end Properties

def numberingStart (attrs : Attributes) : Except Fault Int := do
  match attrs.get? "start" with
  | none => return 0
  | some none => .error .wrongKind
  | some (some s) => return (← Text.readInt 10 s) - 1

end PlotAdvisor.Markup
