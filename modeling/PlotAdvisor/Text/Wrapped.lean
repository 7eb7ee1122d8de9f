import PlotAdvisor.Fault
import PlotAdvisor.Text.Basic

/-! Wrapping a paragraph into lines of a width. The text is cut into chunks: runs of blanks, runs of dashes
between words, and words, which are also cut behind a hyphen between letters and in front of a run of
dashes. Lines are filled with chunks from the left; blanks at the ends of lines are dropped, and a chunk
that fits on no line is cut. -/
set_option autoImplicit false

namespace PlotAdvisor.Text.Wrapped

/-- The blanks at which text is wrapped. -/
def isGap (c : Char) : Bool := c == ' ' || (9 ≤ c.toNat && c.toNat ≤ 13)

/-- Tabs become blanks up to the next multiple of eight. -/
def expandTabs (col : Nat) : List Char → List Char
  | [] => []
  | c :: cs =>
    if c == '\t' then
      let n := 8 - col % 8
      List.replicate n ' ' ++ expandTabs (col + n) cs
    else if c == '\n' || c == '\r' then c :: expandTabs 0 cs
    else c :: expandTabs (col + 1) cs

/-! ## Chunks

A position is given by the text in front of it, in reverse, and the text behind it. -/

/-- A character after which dashes are a chunk of their own. -/
def isWordMark (c : Char) : Bool := isWordChar c || "!\"'&.,?".toList.contains c

def isDashRun (rest : List Char) : Bool :=
  let dashes := rest.takeWhile (· == '-')
  decide (2 ≤ dashes.length) &&
    (match rest.drop dashes.length with
      | c :: _ => isWordChar c
      | [] => false)

def isAfterMark : List Char → Bool
  | c :: _ => isWordMark c
  | [] => false

def isAfterSyllable : List Char → Bool
  | a :: b :: rest =>
    isWordLetter a && (isWordLetter b ||
      (b == '-' && (match rest with
        | c :: _ => isWordLetter c
        | [] => false)))
  | _ => false

/-- Two letters follow, perhaps with a hyphen between them. -/
def isBeforeSyllable : List Char → Bool
  | a :: b :: rest =>
    isWordLetter a && (isWordLetter b ||
      (b == '-' && (match rest with
        | c :: _ => isWordLetter c
        | [] => false)))
  | _ => false

def wordRest (before : List Char) : List Char → Nat
  | [] => 0
  | c :: cs =>
    if isGap c then 0
    else if c == '-' && isAfterSyllable before && isBeforeSyllable cs then 1
    else if isAfterMark before && isDashRun (c :: cs) then 0
    else wordRest (c :: before) cs + 1

def chunkLength (before : List Char) : List Char → Nat
  | [] => 0
  | c :: cs =>
    if isGap c then (c :: cs).takeWhile isGap |>.length
    else if isAfterMark before && isDashRun (c :: cs) then ((c :: cs).takeWhile (· == '-')).length
    else wordRest (c :: before) cs + 1

def chunksFrom (before cur : List Char) : Nat → List Char → List (List Char)
  | _, [] => if cur.isEmpty then [] else [cur.reverse]
  | left + 1, c :: cs => chunksFrom (c :: before) (c :: cur) left cs
  | 0, c :: cs =>
    let rest := chunksFrom (c :: before) [c] (chunkLength before (c :: cs) - 1) cs
    if cur.isEmpty then rest else cur.reverse :: rest

def chunks (text : List Char) : List (List Char) :=
  chunksFrom [] [] 0 ((expandTabs 0 text).map fun c => if isGap c then ' ' else c)

/-! ## Lines -/

/-- Takes the chunks that fit on a line: those, and the others. -/
def fill (width : Nat) : Nat → List (List Char) → List (List Char) × List (List Char)
  | _, [] => ([], [])
  | len, c :: cs =>
    if len + c.length ≤ width then
      let (line, rest) := fill width (len + c.length) cs
      (c :: line, rest)
    else ([], c :: cs)

def cutPlace (space : Nat) (chunk : List Char) : Nat :=
  match Chars.findLast? ['-'] (chunk.take space) with
  | some i => if 0 < i ∧ (chunk.take i).any (· != '-') then i + 1 else space
  | none => space

def isBlankChunk (c : List Char) : Bool := c.all isBlank

def oneLine (width : Nat) (cs : List (List Char)) : List (List Char) × List (List Char) :=
  let (line, rest) := fill width 0 cs
  let (line, rest) :=
    match rest with
    | c :: more =>
      if width < c.length then
        let space := width - (line.map List.length).foldr (· + ·) 0
        let cut := cutPlace space c
        (line ++ [c.take cut], c.drop cut :: more)
      else (line, rest)
    | [] => (line, rest)
  match line.getLast? with
  | some c => if isBlankChunk c then (line.dropLast, rest) else (line, rest)
  | none => (line, rest)

def linesFrom (width : Nat) : Nat → Bool → List (List Char) → List (List Char)
  | 0, _, _ => []
  | _ + 1, _, [] => []
  | fuel + 1, begun, c :: cs =>
    let cs := if begun && isBlankChunk c then cs else c :: cs
    let (line, rest) := oneLine width cs
    if line.isEmpty then linesFrom width fuel begun rest
    else line.flatten :: linesFrom width fuel true rest

/-- Each line takes a character or a chunk away. -/
def enough (cs : List (List Char)) : Nat := (cs.map fun c => c.length + 1).foldr (· + ·) 1

def wrap (width : Int) (text : String) : Except Fault (List String) :=
  if width ≤ 0 then .error (.badValue s!"invalid width {width} (must be > 0)")
  else
    let cs := chunks text.toList
    .ok ((linesFrom width.toNat (enough cs) false cs).map String.ofList)

end PlotAdvisor.Text.Wrapped
