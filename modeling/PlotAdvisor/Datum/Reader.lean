import PlotAdvisor.Datum.Basic

/-! Reading data from JSON text. -/
set_option autoImplicit false

namespace PlotAdvisor.Datum

def isSpace (c : Char) : Bool := c == ' ' || c == '\t' || c == '\n' || c == '\r'

def hexValue (c : Char) : Option Nat :=
  if c.isDigit then some (c.toNat - 48)
  else if 'a' ≤ c ∧ c ≤ 'f' then some (c.toNat - 87)
  else if 'A' ≤ c ∧ c ≤ 'F' then some (c.toNat - 55)
  else none

def hexNumber (ds : List Char) : Option Nat :=
  ds.foldl (fun acc c => acc.bind fun n => (hexValue c).map fun d => 16 * n + d) (some 0)

/-- The character that a letter stands for behind a backslash. -/
def escapedPoint (c : Char) : Option Nat :=
  match c with
  | 'n' => some 10
  | 't' => some 9
  | 'r' => some 13
  | 'b' => some 8
  | 'f' => some 12
  | '"' => some 34
  | '\\' => some 92
  | '/' => some 47
  | _ => none

/-- The code points up to the closing quote, in reverse, and what follows it. -/
def readPoints (acc : List Nat) : List Char → Option (List Nat × List Char)
  | [] => none
  | '"' :: rest => some (acc, rest)
  | '\\' :: 'u' :: a :: b :: c :: d :: rest =>
    match hexNumber [a, b, c, d] with
    | some n => readPoints (n :: acc) rest
    | none => none
  | '\\' :: c :: rest =>
    match escapedPoint c with
    | some n => readPoints (n :: acc) rest
    | none => none
  | c :: rest => readPoints (c.toNat :: acc) rest

def readText (cs : List Char) : Option (Datum × List Char) :=
  (readPoints [] cs).map fun (codes, rest) => (ofPoints (joinSurrogates codes.reverse), rest)

def natOf (ds : List Char) : Nat := ds.foldl (fun n c => 10 * n + (c.toNat - 48)) 0

/-- A number: an integer part, then perhaps decimals and an exponent. -/
def readNumber (cs : List Char) : Option (Datum × List Char) :=
  let (negative, cs) :=
    match cs with
    | '-' :: rest => (true, rest)
    | _ => (false, cs)
  let whole := cs.takeWhile Char.isDigit
  let rest := cs.dropWhile Char.isDigit
  if whole.isEmpty then none
  else
    let (decimals, rest) :=
      match rest with
      | '.' :: r => (r.takeWhile Char.isDigit, r.dropWhile Char.isDigit)
      | _ => ([], rest)
    let scan (r : List Char) : Int × List Char :=
      match r with
      | '-' :: r => (-(natOf (r.takeWhile Char.isDigit) : Int), r.dropWhile Char.isDigit)
      | '+' :: r => (natOf (r.takeWhile Char.isDigit), r.dropWhile Char.isDigit)
      | _ => (natOf (r.takeWhile Char.isDigit), r.dropWhile Char.isDigit)
    let (exponent, rest) :=
      match rest with
      | 'e' :: r => (some (scan r).1, (scan r).2)
      | 'E' :: r => (some (scan r).1, (scan r).2)
      | _ => (none, rest)
    let size : Int := natOf (whole ++ decimals)
    let m := if negative then -size else size
    if decimals.isEmpty ∧ exponent.isNone then some (.int m, rest)
    else some (.decimal m (exponent.getD 0 - decimals.length), rest)

mutual

def readValue : Nat → List Char → Option (Datum × List Char)
  | 0, _ => none
  | fuel + 1, cs =>
    match cs.dropWhile isSpace with
    | '"' :: rest => readText rest
    | '[' :: rest =>
      match rest.dropWhile isSpace with
      | ']' :: rest => some (.list [], rest)
      | rest => readItems fuel [] rest
    | '{' :: rest =>
      match rest.dropWhile isSpace with
      | '}' :: rest => some (.object [], rest)
      | rest => readFields fuel [] rest
    | 'n' :: 'u' :: 'l' :: 'l' :: rest => some (.null, rest)
    | 't' :: 'r' :: 'u' :: 'e' :: rest => some (.bool true, rest)
    | 'f' :: 'a' :: 'l' :: 's' :: 'e' :: rest => some (.bool false, rest)
    | rest => readNumber rest

def readItems : Nat → List Datum → List Char → Option (Datum × List Char)
  | 0, _, _ => none
  | fuel + 1, acc, cs =>
    match readValue fuel cs with
    | none => none
    | some (d, rest) =>
      match rest.dropWhile isSpace with
      | ',' :: rest => readItems fuel (d :: acc) rest
      | ']' :: rest => some (.list (d :: acc).reverse, rest)
      | _ => none

def readFields : Nat → List (String × Datum) → List Char → Option (Datum × List Char)
  | 0, _, _ => none
  | fuel + 1, acc, cs =>
    match cs.dropWhile isSpace with
    | '"' :: rest =>
      match readText rest with
      | some (.text name, rest) =>
        match rest.dropWhile isSpace with
        | ':' :: rest =>
          match readValue fuel rest with
          | none => none
          | some (d, rest) =>
            match rest.dropWhile isSpace with
            | ',' :: rest => readFields fuel ((name, d) :: acc) rest
            | '}' :: rest => some (.object ((name, d) :: acc).reverse, rest)
            | _ => none
        | _ => none
      | _ => none
    | _ => none

end

def read (s : String) : Option Datum :=
  let cs := s.toList
  match readValue (2 * cs.length + 2) cs with
  | some (d, rest) => if (rest.dropWhile isSpace).isEmpty then some d else none
  | none => none

end PlotAdvisor.Datum
