import PlotAdvisor.Markup.Address
import PlotAdvisor.Markup.Entity
import PlotAdvisor.Markup.Style

/-! Writing a document as structured plain text. The writer is a state that each event changes: it keeps
what is still to be written in front of the next text (line ends, a blank, marks of quotation), the open
links, lists and elements, and the chunks written so far.

* `State.emit` - writes a text, with all that is due in front of it.
* `State.tag` - a start or end of an element.
* `State.step` - any event.
-/
set_option autoImplicit false

namespace PlotAdvisor.Markup

/-! ## Events: what the reading of a document meets, one after the other -/

inductive Event where
  | start (tag : String) (attrs : List (String × Option String))
  | stop (tag : String)
  | data (text : String)
  | numbered (ref : String)
  | named (ref : String)
  | declaration
  deriving Inhabited

/-- The text of a document without tags and references. -/
def plainText (events : List Event) : String :=
  String.join (events.filterMap fun e =>
    match e with
    | .data s => some s
    | _ => none)

structure Settings where
  width : Int := 78
  inlineLinks : Bool := true
  skipInternalLinks : Bool := true
  exactCharacters : Bool := false
  linksEachParagraph : Bool := false
  ignoreAnchors : Bool := false
  ignoreImages : Bool := false
  listIndent : Int := 36
  styled : Bool := false
  itemMark : String := "*"
  hideStruck : Option Bool := none
  deriving Inhabited

/-- A link that is listed by number; `seenAt` counts the texts written before it. -/
structure Link where
  href : Option String
  title : Option (Option String)
  number : Nat := 0
  seenAt : Nat := 0
  deriving Inhabited

structure OpenList where
  kind : String
  number : Int
  deriving Inhabited

structure State where
  base : String := ""
  /-- The chunks go elsewhere, and nothing is known of what was written. -/
  external : Bool := false
  chunks : Array String := #[]
  text : String := ""
  quiet : Int := 0
  /-- Line ends due in front of the next text. -/
  due : Nat := 0
  written : Nat := 0
  atStart : Bool := true
  space : Bool := false
  links : List Link := []
  openLinks : List (Option Link) := []
  linkCount : Nat := 0
  lists : List OpenList := []
  quotes : Int := 0
  pre : Bool := false
  startPre : Bool := false
  code : Bool := false
  breakMark : String := ""
  endsLine : Bool := false
  afterList : Bool := false
  styleDepth : Int := 0
  sheet : StyleSheet := .empty
  elements : List Properties := []
  emphasis : Int := 0
  dropBlanks : Nat := 0
  inHeader : Bool := false
  abbrTitle : Option String := none
  abbrText : Option String := none
  abbrs : Table String String := .empty
  deriving Inhabited

/-- How a text is written: only if there is any, always, or at the end of the document. -/
inductive Force where
  | no
  | yes
  | last
  deriving DecidableEq

namespace State

def put (s : State) (chunk : String) : State :=
  let s := { s with chunks := s.chunks.push chunk }
  if s.external || chunk == "" then s else { s with endsLine := Text.endsWith chunk "\n" }

def softEnd (s : State) : State := if s.due = 0 then { s with due := 1 } else s

/-- An empty line is due. -/
def paragraphEnd (s : State) : State := { s with due := 2 }

/-! ## Lists of links and abbreviations -/

def textOr (x : Option String) : Except Fault String := orFault x .wrongKind

def linkTarget (base : String) (href : Option String) : Except Fault String :=
  match href with
  | some url => Address.join base url
  | none => if base == "" then .error .wrongKind else .ok base

def putLink (s : State) (l : Link) : Except Fault State := do
  let s := s.put ("   [" ++ toString l.number ++ "]: " ++ (← linkTarget s.base l.href))
  let s ←
    match l.title with
    | none => pure s
    | some t => do pure (s.put (" (" ++ (← textOr t) ++ ")"))
  return s.put "\n"

/-- Lists the links that were met before the last text. -/
def putLinks (s : State) (force : Force) : Except Fault State := do
  let s := if force = .last then s.put "\n" else s
  let (now, later) := s.links.partition fun l => decide (l.seenAt < s.written)
  let s ← now.foldlM putLink s
  let s := if now.isEmpty then s else s.put "\n"
  return { s with links := later }

def putAbbrs (s : State) : State :=
  s.abbrs.entries.foldl (fun s e => s.put ("  *[" ++ e.1 ++ "]: " ++ e.2 ++ "\n")) s

/-! ## Text -/

def squeeze (inRun : Bool) : List Char → List Char
  | [] => []
  | c :: cs =>
    if Text.isBlank c then if inRun then squeeze true cs else ' ' :: squeeze true cs
    else c :: squeeze false cs

def dropEmphasisBlanks (s : State) (data : List Char) : State × List Char :=
  let bare := Text.Chars.trimStart data
  let data := if s.dropBlanks != 0 && !(s.pre || s.code) then bare else data
  (if bare.isEmpty then s else { s with dropBlanks := 0 }, data)

/-- A space in front of a text is kept for later. -/
def keepSpace (s : State) (data : List Char) : State × List Char :=
  match squeeze false data with
  | ' ' :: rest => ({ s with space := true }, rest)
  | data => (s, data)

def lineMark (s : State) (data : List Char) (force : Force) : List Char :=
  let quotes := List.replicate s.quotes.toNat '>'
  let opening := force ≠ .no && data.head? == some '>'
  quotes ++ (if !opening && s.quotes != 0 then [' '] else []) ++
    (if s.pre then [' ', ' ', ' ', ' '] else [])

def putDue (s : State) (mark : List Char) (force : Force) : State :=
  let s := if s.atStart then { s with space := false, due := 0, atStart := false } else s
  let s := if force = .last then { ({ s with due := 0 } : State).put "\n" with space := false } else s
  let s :=
    if s.due != 0 then
      let lineEnd := s.breakMark ++ "\n" ++ String.ofList mark
      { s.put (Text.repeated lineEnd s.due) with space := false, breakMark := "" }
    else s
  if s.space then { (if s.endsLine then s else s.put " ") with space := false } else s

/-- Writes a text that is not empty, or has to be written, with all that is due in front of it. -/
def putText (cfg : Settings) (s : State) (data : List Char) (force : Force) : Except Fault State := do
  let s := { s with startPre := false }
  let mark := s.lineMark data force
  let data := if s.pre then Text.Chars.replace ['\n'] ('\n' :: mark) data else data
  let s := s.putDue mark force
  let s ←
    if !s.links.isEmpty && ((s.due == 2 && cfg.linksEachParagraph) || force = .last) then
      s.putLinks force
    else pure s
  let s := if force = .last then s.putAbbrs else s
  let s := ({ s with due := 0 } : State).put (String.ofList data)
  return { s with written := s.written + 1 }

def emit (cfg : Settings) (s : State) (text : String) (plain : Bool) (force : Force) :
    Except Fault State := do
  let s := { s with abbrText := s.abbrText.map (· ++ text) }
  if s.quiet != 0 then return s
  let (s, data) := if cfg.styled then s.dropEmphasisBlanks text.toList else (s, text.toList)
  let (s, data) := if plain && !s.pre then s.keepSpace data else (s, data)
  if data.isEmpty && force = .no then return s
  s.putText cfg data force

def mark (cfg : Settings) (s : State) (text : String) : Except Fault State := s.emit cfg text false .no

def mark? (cfg : Settings) (s : State) : Option String → Except Fault State
  | some text => s.mark cfg text
  | none =>
    if s.abbrText.isSome then .error .wrongKind
    else if s.quiet == 0 && cfg.styled then .error .noAttribute
    else .ok s

/-! ## Emphasis by style -/

def dropLast (s : State) (n : Nat) : State :=
  if s.quiet == 0 then { s with text := String.ofList (s.text.toList.take (s.text.length - n)) } else s

def openMark (cfg : Settings) (text : String) (s : State) : Except Fault State := do
  let s ← s.mark cfg text
  return { s with dropBlanks := s.dropBlanks + 1 }

def closeMark (cfg : Settings) (text : String) (s : State) : Except Fault State :=
  if s.dropBlanks != 0 then
    let s := s.dropLast text.length
    .ok { s with dropBlanks := s.dropBlanks - 1 }
  else s.mark cfg text

/-- The emphasis that an element adds to that of its parent. -/
structure Emphasis where
  struck : Bool
  bold : Bool
  italic : Bool
  fixed : Bool

def emphasisOf (cfg : Settings) (s : State) (own parent : Properties) : Except Fault Emphasis := do
  let marks := own.emphasis
  let outer := parent.emphasis
  let struck ← if marks.contains "line-through" then orFault cfg.hideStruck .noAttribute else pure false
  return {
    struck
    bold := marks.contains "bold" && !outer.contains "bold"
    italic := marks.contains "italic" && !outer.contains "italic"
    fixed := own.isFixedWidth && !parent.isFixedWidth && !s.pre }

def when? (b : Bool) (f : State → Except Fault State) (s : State) : Except Fault State :=
  if b then f s else .ok s

def openEmphasis (cfg : Settings) (e : Emphasis) (s : State) : Except Fault State := do
  let s := if e.bold || e.italic || e.fixed then { s with emphasis := s.emphasis + 1 } else s
  let s := if e.struck then { s with quiet := s.quiet + 1 } else s
  let s ← when? e.italic (openMark cfg "_") s
  let s ← when? e.bold (openMark cfg "**") s
  when? e.fixed (fun s => do
    let s ← openMark cfg "`" s
    return { s with code := true }) s

def closeEmphasis (cfg : Settings) (e : Emphasis) (s : State) : Except Fault State := do
  let s :=
    if e.bold || e.italic || e.fixed then
      { s with emphasis := s.emphasis - 1, space := false, text := Text.trimEnd s.text }
    else s
  let s ← when? e.fixed (fun s => do
    let s ← closeMark cfg "`" s
    return { s with code := false }) s
  let s ← when? e.bold (closeMark cfg "**") s
  let s ← when? e.italic (closeMark cfg "_") s
  let s ← when? ((e.bold || e.italic) && s.emphasis == 0) (fun s => s.mark cfg " ") s
  return if e.struck then { s with quiet := s.quiet - 1 } else s

/-! ## Links and images -/

/-- The place of a link with the same address and title among those met. -/
def sameLink (l m : Link) : Bool :=
  l.href == m.href &&
    (match l.title, m.title with
      | none, none => true
      | some a, some b => a == b
      | _, _ => false)

def numberOf (s : State) (l : Link) : Nat × State :=
  match s.links.find? fun m => sameLink m l with
  | some m => (m.number, s)
  | none =>
    let n := s.linkCount + 1
    (n, { s with linkCount := n, links := s.links ++ [{ l with number := n, seenAt := s.written }] })

def openAnchor (cfg : Settings) (attrs : Attributes) (s : State) : Except Fault State := do
  match attrs.get? "href" with
  | none => return { s with openLinks := none :: s.openLinks }
  | some href => do
    let internal ←
      if cfg.skipInternalLinks then do pure (Text.startsWith (← valueOf href) "#") else pure false
    if internal then return { s with openLinks := none :: s.openLinks }
    else ({ s with openLinks := some { href, title := attrs.get? "title" } :: s.openLinks } : State).mark cfg "["

def closeAnchor (cfg : Settings) (s : State) : Except Fault State :=
  match s.openLinks with
  | [] => .ok s
  | none :: rest => .ok { s with openLinks := rest }
  | some l :: rest => do
    let s := { s with openLinks := rest }
    if cfg.inlineLinks then s.mark cfg ("](" ++ (← textOr l.href) ++ ")")
    else
      let (n, s) := s.numberOf l
      s.mark cfg ("][" ++ toString n ++ "]")

def image (cfg : Settings) (attrs : Attributes) (s : State) : Except Fault State := do
  match attrs.get? "src" with
  | none => return s
  | some src => do
    let alt := attrs.getD "alt" (some "")
    if cfg.inlineLinks then do
      let s ← s.mark cfg "!["
      let s ← s.mark? cfg alt
      s.mark cfg ("](" ++ (← textOr src) ++ ")")
    else do
      let (n, s) := s.numberOf { href := src, title := attrs.get? "title" }
      let s ← s.mark cfg "!["
      let s ← s.mark? cfg alt
      s.mark cfg ("][" ++ toString n ++ "]")

/-! ## Lists -/

def listTag (cfg : Settings) (tag : String) (attrs : Attributes) (own : Properties) (start : Bool) (s : State) :
    Except Fault State := do
  let s := if s.lists.isEmpty && !s.afterList then s.paragraphEnd else s
  let lists ←
    if start then do
      pure (⟨if cfg.styled then own.listKind else tag, ← numberingStart attrs⟩ :: s.lists)
    else pure (s.lists.drop 1)
  return { s with lists }

def item (cfg : Settings) (own : Properties) (s : State) : Except Fault State := do
  let depth ←
    if cfg.styled then do
      match ← own.nesting cfg.listIndent with
      | .int n => pure n.toNat
      | .real _ => .error .wrongKind
    else pure s.lists.length
  let s ← s.mark cfg (Text.repeated "  " depth)
  let s ←
    match s.lists with
    | [] => s.mark cfg (cfg.itemMark ++ " ")
    | l :: rest =>
      if l.kind == "ul" then s.mark cfg (cfg.itemMark ++ " ")
      else
        ({ s with lists := ⟨l.kind, l.number + 1⟩ :: rest } : State).mark cfg (toString (l.number + 1) ++ ". ")
  return { s with atStart := true }

/-! ## Elements -/

def headerLevel (tag : String) : Except Fault (Option Nat) :=
  match tag.toList with
  | [] => .error .outOfRange
  | ['h', c] =>
    match Text.digitValue? c with
    | some 0 => .ok none
    | some n => .ok (some n)
    | none => .ok (some 0)
  | _ => .ok none

/-- What an element does in front of its emphasis. -/
def tagBefore (cfg : Settings) (tag : String) (own : Properties) (start : Bool) (s : State) :
    Except Fault State :=
  match tag with
  | "p" | "div" =>
    if cfg.styled && !(start && own.hasHeight) then .ok { s.softEnd with breakMark := "  " }
    else .ok s.paragraphEnd
  | "br" => if start then s.mark cfg "  \n" else .ok s
  | "hr" => if start then paragraphEnd <$> s.paragraphEnd.mark cfg "* * *" else .ok s
  | "head" | "script" => .ok { s with quiet := if start then s.quiet + 1 else s.quiet - 1 }
  | "style" =>
    .ok (if start then { s with quiet := s.quiet + 1, styleDepth := s.styleDepth + 1 }
      else { s with quiet := s.quiet - 1, styleDepth := s.styleDepth - 1 })
  | "body" => .ok { s with quiet := 0 }
  | "blockquote" =>
    if start then do
      let s ← s.paragraphEnd.emit cfg "> " false .yes
      return { s with atStart := true, quotes := s.quotes + 1 }
    else .ok ({ s with quotes := s.quotes - 1 } : State).paragraphEnd
  | "em" | "i" | "u" => s.mark cfg "_"
  | "strong" | "b" => s.mark cfg "**"
  | "del" | "strike" => s.mark cfg ((if start then "<" else "</") ++ tag ++ ">")
  | _ => .ok s

def abbrTag (attrs : Attributes) (start : Bool) (s : State) : State :=
  if start then { s with abbrTitle := (attrs.get? "title").join, abbrText := some "" }
  else
    match s.abbrTitle with
    | some t => { s with abbrs := s.abbrs.set (s.abbrText.getD "") t, abbrTitle := none, abbrText := some "" }
    | none => { s with abbrText := some "" }

/-- What an element does behind its emphasis. -/
def tagAfter (cfg : Settings) (tag : String) (attrs : Attributes) (own : Properties) (start : Bool) (s : State) :
    Except Fault State :=
  match tag with
  | "code" => if s.pre then .ok s else s.mark cfg "`"
  | "abbr" => .ok (s.abbrTag attrs start)
  | "a" =>
    if cfg.ignoreAnchors then .ok s else if start then s.openAnchor cfg attrs else s.closeAnchor cfg
  | "img" => if start && !cfg.ignoreImages then s.image cfg attrs else .ok s
  | "dl" => .ok (if start then s.paragraphEnd else s)
  | "dt" => .ok (if start then s else s.softEnd)
  | "dd" => if start then s.mark cfg "    " else .ok s.softEnd
  | "ol" | "ul" => s.listTag cfg tag attrs own start
  | "li" => if start then s.softEnd.item cfg own else .ok s.softEnd
  | "table" | "tr" => .ok (if start then s.paragraphEnd else s)
  | "td" => .ok s.softEnd
  | "pre" =>
    .ok (if start then { s with startPre := true, pre := true } else { s with pre := false }).paragraphEnd
  | _ => .ok s

/-- The style of an element and of its parent, the open elements being kept. -/
def styles (cfg : Settings) (attrs : Attributes) (start : Bool) (s : State) :
    Except Fault (Properties × Properties × State) := do
  if !cfg.styled then return (.empty, .empty, s)
  if start then do
    let parent := s.elements.head?.getD .empty
    let own ← styleOf attrs s.sheet parent
    return (own, parent, { s with elements := own :: s.elements })
  else
    match s.elements with
    | [] => .error .outOfRange
    | own :: rest => return (own, rest.head?.getD .empty, { s with elements := rest })

def tag (cfg : Settings) (name : String) (attrs : Attributes) (start : Bool) (s : State) :
    Except Fault State := do
  let (own, parent, s) ← s.styles cfg attrs start
  let level := (← headerLevel name).getD 0
  let s ←
    if level = 0 then pure s
    else if start then
      ({ s with inHeader := true } : State).paragraphEnd.mark cfg (Text.repeated "#" level ++ " ")
    else pure { s.paragraphEnd with inHeader := false }
  if level ≠ 0 ∧ !start then return s
  let s ← s.tagBefore cfg name own start
  let s ←
    if cfg.styled && !s.inHeader then do
      let e ← emphasisOf cfg s own parent
      if start then s.openEmphasis cfg e else s.closeEmphasis cfg e
    else pure s
  let s ← s.tagAfter cfg name attrs own start
  let s := { s with afterList := name == "ol" || name == "ul" }
  return s

/-- Text of the document. Inside a style element it is also read as a style sheet. -/
def data (cfg : Settings) (text : String) (s : State) : Except Fault State := do
  let s := if Text.has text "\\/script>" then { s with quiet := s.quiet - 1 } else s
  let s ←
    if s.styleDepth != 0 then do
      let more ← readSheet text
      pure { s with sheet := more.entries.foldl (fun t e => t.set e.1 e.2) s.sheet }
    else pure s
  s.emit cfg text true .no

def step (cfg : Settings) (sp : Spelling) (s : State) : Event → Except Fault State
  | .start name attrs => s.tag cfg name (Table.ofList attrs) true
  | .stop name => s.tag cfg name .empty false
  | .data text => s.data cfg text
  | .numbered ref => do s.emit cfg (textOfPoints (← sp.numbered ref)) true .no
  | .named ref => s.emit cfg (sp.named ref) true .no
  | .declaration => .ok s

/-- The end of the document. What was the text before stands between the chunks. -/
def close (cfg : Settings) (s : State) : Except Fault State := do
  let s ← s.softEnd.emit cfg "" false .last
  let text := Text.join s.text (if s.external then [] else s.chunks.toList)
  return { s with text := if cfg.styled then Text.replace text blankMark " " else text }

end State

end PlotAdvisor.Markup
