import PlotAdvisor.Datum.Basic
import PlotAdvisor.Text.Quoted

/-! Writing data as JSON text, in ASCII. -/
set_option autoImplicit false

namespace PlotAdvisor.Datum

def escapedUnit (n : Nat) : List Char := '\\' :: 'u' :: Text.hexDigits 4 n

/-- One code point inside double quotes. -/
def writtenPoint (n : Nat) : List Char :=
  if n = 34 ∨ n = 92 then ['\\', Char.ofNat n]
  else if 32 ≤ n ∧ n < 127 then [Char.ofNat n]
  else if n < 0x10000 then escapedUnit n
  else escapedUnit (0xd800 + (n - 0x10000) / 0x400) ++ escapedUnit (0xdc00 + (n - 0x10000) % 0x400)

def writtenPoints (codes : List Nat) : List Char :=
  ['"'] ++ codes.flatMap writtenPoint ++ ['"']

def writtenText (s : String) : List Char := writtenPoints (s.toList.map Char.toNat)

mutual

def write : Datum → List Char → List Char
  | .null, rest => 'n' :: 'u' :: 'l' :: 'l' :: rest
  | .bool true, rest => 't' :: 'r' :: 'u' :: 'e' :: rest
  | .bool false, rest => 'f' :: 'a' :: 'l' :: 's' :: 'e' :: rest
  | .int n, rest => (toString n).toList ++ rest
  | .decimal m e, rest => (toString m).toList ++ ('e' :: (toString e).toList) ++ rest
  | .text s, rest => writtenText s ++ rest
  | .points codes, rest => writtenPoints codes ++ rest
  | .list [], rest => '[' :: ']' :: rest
  | .list (d :: ds), rest => '[' :: d.write (writeItems ds (']' :: rest))
  | .object [], rest => '{' :: '}' :: rest
  | .object ((name, d) :: fields), rest =>
    '{' :: writtenText name ++ ':' :: d.write (writeFields fields ('}' :: rest))

def writeItems : List Datum → List Char → List Char
  | [], rest => rest
  | d :: ds, rest => ',' :: d.write (writeItems ds rest)

def writeFields : List (String × Datum) → List Char → List Char
  | [], rest => rest
  | (name, d) :: fields, rest =>
    ',' :: writtenText name ++ ':' :: d.write (writeFields fields rest)

end

def render (d : Datum) : String := String.ofList (d.write [])

end PlotAdvisor.Datum
