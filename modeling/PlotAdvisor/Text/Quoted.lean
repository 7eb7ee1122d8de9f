import PlotAdvisor.Text.Basic

/-! Text in quotes, as program text writes it. Single quotes are used unless the text has a single
quote and no double quote; backslash, the quote in use, tab, line feed and carriage return are
written with a backslash; what is not printable is written by its code in hexadecimal. The text is
given by code points, which need not be characters: a surrogate on its own is one too. -/
set_option autoImplicit false

namespace PlotAdvisor.Text

def hexDigit (n : Nat) : Char := if n < 10 then Char.ofNat (48 + n) else Char.ofNat (87 + n)

def hexDigits : Nat → Nat → List Char
  | 0, _ => []
  | width + 1, n => hexDigits width (n / 16) ++ [hexDigit (n % 16)]

def quotedPoint (quote n : Nat) : List Char :=
  if n = quote ∨ n = 92 then ['\\', Char.ofNat n]
  else if n = 9 then ['\\', 't']
  else if n = 10 then ['\\', 'n']
  else if n = 13 then ['\\', 'r']
  else if isPrintable n then [Char.ofNat n]
  else if n < 0x100 then '\\' :: 'x' :: hexDigits 2 n
  else if n < 0x10000 then '\\' :: 'u' :: hexDigits 4 n
  else '\\' :: 'U' :: hexDigits 8 n

def quoteFor (points : List Nat) : Nat :=
  if points.contains 39 && !points.contains 34 then 34 else 39

def quotedPoints (points : List Nat) : List Char :=
  let quote := quoteFor points
  [Char.ofNat quote] ++ points.flatMap (quotedPoint quote) ++ [Char.ofNat quote]

def quoted (s : String) : String := String.ofList (quotedPoints (s.toList.map Char.toNat))

end PlotAdvisor.Text
