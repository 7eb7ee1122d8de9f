import PlotAdvisor.Datum.Reader
import PlotAdvisor.Messages.Record

/-! Messages: a value is sent as its program text in wire form and read back by evaluating that text,
which is made of literals, displays and calls of record classes. -/
set_option autoImplicit false

/-! ## The wire form of text

ASCII only, in the encoding UTF-7. A character that may stand for itself
does; a run of others is written between `+` and `-` as 16-bit units in base 64, where the `-` is left
out before a character that cannot belong to the run; a plus sign on its own is `+-`. -/

namespace PlotAdvisor.Messages.Wire

def isDirect (c : Char) : Bool :=
  let n := c.toNat
  n == 9 || n == 10 || n == 13 || (32 ≤ n && n < 126 && c != '+' && c != '\\')

def base64Char (n : Nat) : Char :=
  if n < 26 then Char.ofNat (65 + n)
  else if n < 52 then Char.ofNat (97 + (n - 26))
  else if n < 62 then Char.ofNat (48 + (n - 52))
  else if n = 62 then '+' else '/'

def base64Value? (c : Char) : Option Nat :=
  if 'A' ≤ c ∧ c ≤ 'Z' then some (c.toNat - 65)
  else if 'a' ≤ c ∧ c ≤ 'z' then some (c.toNat - 97 + 26)
  else if '0' ≤ c ∧ c ≤ '9' then some (c.toNat - 48 + 52)
  else if c = '+' then some 62
  else if c = '/' then some 63
  else none

def units (c : Char) : List Nat :=
  let n := c.toNat
  if n < 0x10000 then [n] else [0xd800 + (n - 0x10000) / 0x400, 0xdc00 + (n - 0x10000) % 0x400]

def bitsOf : Nat → Nat → List Bool
  | 0, _ => []
  | width + 1, n => bitsOf width (n / 2) ++ [decide (n % 2 = 1)]

def natOfBits (bs : List Bool) : Nat := bs.foldl (fun n b => 2 * n + if b then 1 else 0) 0

/-- Bits in groups of six, the last filled up with zeros. -/
def sextets : List Bool → List Nat
  | a :: b :: c :: d :: e :: f :: rest => natOfBits [a, b, c, d, e, f] :: sextets rest
  | [] => []
  | bs => [natOfBits (bs ++ List.replicate (6 - bs.length) false)]

def encodeRun (run : List Char) : List Char :=
  (sextets ((run.flatMap units).flatMap (bitsOf 16))).map base64Char

def encodeFrom (run : List Char) : List Char → List Char
  | [] => if run.isEmpty then [] else '+' :: encodeRun run.reverse ++ ['-']
  | c :: cs =>
    if isDirect c then
      if run.isEmpty then c :: encodeFrom [] cs
      else
        let close := if (base64Value? c).isSome || c == '-' then ['-'] else []
        '+' :: encodeRun run.reverse ++ close ++ c :: encodeFrom [] cs
    else if run.isEmpty && c == '+' then '+' :: '-' :: encodeFrom [] cs
    else encodeFrom (c :: run) cs

def encode (cs : List Char) : List Char := encodeFrom [] cs

def unitsOfBits : Nat → List Bool → List Nat
  | 0, _ => []
  | fuel + 1, bs =>
    if bs.length < 16 then [] else natOfBits (bs.take 16) :: unitsOfBits fuel (bs.drop 16)

def charsOfUnits : List Nat → List Char
  | hi :: lo :: rest =>
    if 0xd800 ≤ hi ∧ hi < 0xdc00 ∧ 0xdc00 ≤ lo ∧ lo < 0xe000 then
      Char.ofNat (0x10000 + (hi - 0xd800) * 0x400 + (lo - 0xdc00)) :: charsOfUnits rest
    else Char.ofNat hi :: charsOfUnits (lo :: rest)
  | us => us.map Char.ofNat

def decodeRun (run : List Char) : List Char :=
  let bits := run.flatMap fun c => bitsOf 6 ((base64Value? c).getD 0)
  charsOfUnits (unitsOfBits bits.length bits)

def decodeFrom : Option (List Char) → List Char → List Char
  | none, [] => []
  | none, '+' :: '-' :: cs => '+' :: decodeFrom none cs
  | none, '+' :: cs => decodeFrom (some []) cs
  | none, c :: cs => c :: decodeFrom none cs
  | some run, [] => decodeRun run.reverse
  | some run, c :: cs =>
    if (base64Value? c).isSome then decodeFrom (some (c :: run)) cs
    else if c = '-' then decodeRun run.reverse ++ decodeFrom none cs
    else decodeRun run.reverse ++ c :: decodeFrom none cs

def decode (cs : List Char) : List Char := decodeFrom none cs

end PlotAdvisor.Messages.Wire

namespace PlotAdvisor.Messages

def serialize (v : Value) : String := String.ofList (Wire.encode v.render.toList)

/-! ## Reading -/

def readQuoted (quote : Char) (acc : List Nat) : List Char → Except Fault (List Nat × List Char)
  | [] => .error .unparsable
  | '\\' :: 'U' :: a :: b :: c :: d :: e :: f :: g :: h :: rest =>
    match Datum.hexNumber [a, b, c, d, e, f, g, h] with
    | some n => readQuoted quote (n :: acc) rest
    | none => .error .unparsable
  | '\\' :: 'u' :: a :: b :: c :: d :: rest =>
    match Datum.hexNumber [a, b, c, d] with
    | some n => readQuoted quote (n :: acc) rest
    | none => .error .unparsable
  | '\\' :: 'x' :: a :: b :: rest =>
    match Datum.hexNumber [a, b] with
    | some n => readQuoted quote (n :: acc) rest
    | none => .error .unparsable
  | '\\' :: 'n' :: rest => readQuoted quote (10 :: acc) rest
  | '\\' :: 'r' :: rest => readQuoted quote (13 :: acc) rest
  | '\\' :: 't' :: rest => readQuoted quote (9 :: acc) rest
  | '\\' :: c :: rest => readQuoted quote (c.toNat :: acc) rest
  | c :: rest => if c = quote then .ok (acc, rest) else readQuoted quote (c.toNat :: acc) rest

def skipSpaces (cs : List Char) : List Char := cs.dropWhile (· == ' ')

def reservedWords : List String := [
  "False", "None", "True", "and", "as", "assert", "async", "await", "break", "class", "continue", "def",
  "del", "elif", "else", "except", "finally", "for", "from", "global", "if", "import", "in", "is",
  "lambda", "nonlocal", "not", "or", "pass", "raise", "return", "try", "while", "with", "yield"]

def isNameStart (c : Char) : Bool := c == '_' || Text.isLetter c

def isName (cs : List Char) : Bool :=
  match cs with
  | [] => false
  | c :: rest => isNameStart c && rest.all Text.isWordChar && !reservedWords.contains (String.ofList cs)

def readNumber (cs : List Char) : Except Fault (Value × List Char) :=
  match Datum.readNumber cs with
  | some (.int n, rest) => .ok (.int n, rest)
  | some (.decimal m e, rest) =>
    let size := Datum.floatOf m e
    .ok (.real (if m == 0 && cs.head? == some '-' then -size else size), rest)
  | _ => .error .unparsable

/-- A number or a name behind a minus sign. -/
def readSigned (cs : List Char) : Except Fault (Value × List Char) :=
  match cs with
  | '-' :: c :: _ =>
    if c.isDigit then readNumber cs
    else if isNameStart c then .error .unboundName else .error .unparsable
  | _ => .error .unparsable

mutual

def readValue : Nat → List Char → Except Fault (Value × List Char)
  | 0, _ => .error .unparsable
  | fuel + 1, cs =>
    match cs with
    | '\'' :: rest => (readQuoted '\'' [] rest).map fun p => (.text p.1.reverse, p.2)
    | '"' :: rest => (readQuoted '"' [] rest).map fun p => (.text p.1.reverse, p.2)
    | '[' :: ']' :: rest => .ok (.list [], rest)
    | '[' :: rest => (readItems fuel ']' [] rest).map fun p => (.list p.1, p.2)
    | '(' :: ')' :: rest => .ok (.tuple [], rest)
    | '(' :: rest => (readItems fuel ')' [] rest).map fun p => (.tuple p.1, p.2)
    | '{' :: '}' :: rest => .ok (.table [], rest)
    | '{' :: rest => (readEntries fuel [] rest).map fun p => (.table p.1, p.2)
    | '-' :: _ => readSigned cs
    | c :: _ =>
      if c.isDigit then readNumber cs
      else
        let word := cs.takeWhile Text.isWordChar
        let rest := cs.dropWhile Text.isWordChar
        match String.ofList word, rest with
        | "None", rest => .ok (.none, rest)
        | "True", rest => .ok (.bool true, rest)
        | "False", rest => .ok (.bool false, rest)
        | cls, '(' :: ')' :: rest => (Record.make cls []).map fun r => (r.toValue, rest)
        | cls, '(' :: rest => do
          let (named, rest) ← readAttributes fuel [] rest
          let r ← Record.make cls named
          return (r.toValue, rest)
        | _, _ => if isName word then .error .unboundName else .error .unparsable
    | [] => .error .unparsable

def readItems : Nat → Char → List Value → List Char → Except Fault (List Value × List Char)
  | 0, _, _, _ => .error .unparsable
  | fuel + 1, close, acc, cs => do
    let (v, rest) ← readValue fuel (skipSpaces cs)
    match rest with
    | ',' :: rest =>
      match skipSpaces rest with
      | c :: rest' => if c = close then return ((v :: acc).reverse, rest')
                      else readItems fuel close (v :: acc) rest
      | [] => .error .unparsable
    | c :: rest => if c = close then return ((v :: acc).reverse, rest) else .error .unparsable
    | [] => .error .unparsable

def readEntries : Nat → List (Value × Value) → List Char →
    Except Fault (List (Value × Value) × List Char)
  | 0, _, _ => .error .unparsable
  | fuel + 1, acc, cs => do
    let (k, rest) ← readValue fuel (skipSpaces cs)
    match rest with
    | ':' :: rest =>
      let (v, rest) ← readValue fuel (skipSpaces rest)
      match rest with
      | ',' :: rest => readEntries fuel ((k, v) :: acc) rest
      | '}' :: rest => return (((k, v) :: acc).reverse, rest)
      | _ => .error .unparsable
    | _ => .error .unparsable

def readAttributes : Nat → List (String × Value) → List Char →
    Except Fault (List (String × Value) × List Char)
  | 0, _, _ => .error .unparsable
  | fuel + 1, acc, cs => do
    let cs := skipSpaces cs
    let word := cs.takeWhile Text.isWordChar
    if !isName word then .error .unparsable
    match cs.dropWhile Text.isWordChar with
    | '=' :: rest =>
      let (v, rest) ← readValue fuel rest
      match rest with
      | ',' :: rest => readAttributes fuel ((String.ofList word, v) :: acc) rest
      | ')' :: rest => return (((String.ofList word, v) :: acc).reverse, rest)
      | _ => .error .unparsable
    | _ => .error .unparsable

end

def parse (message : String) : Except Fault Value := do
  let cs := Wire.decode message.toList
  let (v, rest) ← readValue (2 * cs.length + 2) cs
  if rest.isEmpty then return v else .error .unparsable

end PlotAdvisor.Messages
