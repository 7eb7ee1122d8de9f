import PlotAdvisor.Fault
import PlotAdvisor.Text.LowerCase
import PlotAdvisor.Text.Basic

/-! Text as bytes: the encodings by their names, and decoding. -/
set_option autoImplicit false

namespace PlotAdvisor.Text

inductive Encoding where
  | utf8
  | utf8Marked
  | ascii
  | latin1
  | windows1252
  deriving DecidableEq, Inhabited

def Encoding.ofName (name : String) : Except Fault Encoding :=
  let key := String.ofList ((Text.lower name).toList.map fun c => if c == '-' || c == ' ' then '_' else c)
  if ["utf_8", "utf8", "u8", "utf", "utf8_ucs2", "utf8_ucs4", "cp65001"].contains key then .ok .utf8
  else if ["utf_8_sig", "utf8_sig"].contains key then .ok .utf8Marked
  else if ["ascii", "us_ascii", "646", "us", "iso646_us", "iso_646.irv_1991", "ansi_x3.4_1968", "cp367", "ibm367",
      "ansi_x3_4_1968", "ansi_x3.4_1986", "iso_ir_6"].contains key then .ok .ascii
  else if ["latin_1", "latin1", "latin", "l1", "iso_8859_1", "iso8859_1", "iso8859", "8859", "cp819", "ibm819",
      "iso_8859_1_1987", "iso_ir_100"].contains key then .ok .latin1
  else if ["cp1252", "windows_1252", "1252"].contains key then .ok .windows1252
  else .error .unknownEncoding

def charOf (n : Nat) : Except Fault Char :=
  if Nat.isValidChar n then .ok (Char.ofNat n) else .error .undecodable

/-- The low six bits of a byte that continues a character. -/
def continuation (b : Nat) : Except Fault Nat :=
  if 0x80 ≤ b ∧ b < 0xc0 then .ok (b - 0x80) else .error .undecodable

def decodeUtf8 : List Nat → Except Fault (List Char)
  | [] => .ok []
  | a :: rest =>
    if a < 0x80 then do return Char.ofNat a :: (← decodeUtf8 rest)
    else if a < 0xc2 then .error .undecodable
    else if a < 0xe0 then
      match rest with
      | b :: rest => do
        let c ← charOf ((a - 0xc0) * 0x40 + (← continuation b))
        return c :: (← decodeUtf8 rest)
      | _ => .error .undecodable
    else if a < 0xf0 then
      match rest with
      | b :: c :: rest => do
        let n := (a - 0xe0) * 0x1000 + (← continuation b) * 0x40 + (← continuation c)
        if n < 0x800 then .error .undecodable
        else return (← charOf n) :: (← decodeUtf8 rest)
      | _ => .error .undecodable
    else if a < 0xf5 then
      match rest with
      | b :: c :: d :: rest => do
        let n := (a - 0xf0) * 0x40000 + (← continuation b) * 0x1000 + (← continuation c) * 0x40 +
          (← continuation d)
        if n < 0x10000 then .error .undecodable
        else return (← charOf n) :: (← decodeUtf8 rest)
      | _ => .error .undecodable
    else .error .undecodable

/-- The characters of the bytes from 128 to 159 in the Windows encoding; zero marks those without. -/
def windowsPoints : List Nat := [
  0x20ac, 0, 0x201a, 0x192, 0x201e, 0x2026, 0x2020, 0x2021, 0x2c6, 0x2030, 0x160, 0x2039, 0x152, 0, 0x17d, 0,
  0, 0x2018, 0x2019, 0x201c, 0x201d, 0x2022, 0x2013, 0x2014, 0x2dc, 0x2122, 0x161, 0x203a, 0x153, 0, 0x17e,
  0x178]

def windowsChar (b : Nat) : Except Fault Char :=
  if b < 0x80 ∨ 0xa0 ≤ b then .ok (Char.ofNat b)
  else
    match windowsPoints[b - 0x80]? with
    | some 0 | none => .error .undecodable
    | some n => .ok (Char.ofNat n)

def Encoding.decode (e : Encoding) (bytes : List Nat) : Except Fault String :=
  String.ofList <$>
    match e with
    | .utf8 => decodeUtf8 bytes
    | .utf8Marked =>
      match bytes with
      | 0xef :: 0xbb :: 0xbf :: rest => decodeUtf8 rest
      | bytes => decodeUtf8 bytes
    | .ascii => bytes.mapM fun b => if b < 0x80 then .ok (Char.ofNat b) else .error .undecodable
    | .latin1 => .ok (bytes.map Char.ofNat)
    | .windows1252 => bytes.mapM windowsChar

/-- The bytes that hexadecimal digits write in pairs. -/
def bytesOfHex : List Char → Option (List Nat)
  | [] => some []
  | a :: b :: rest => do
    let hex (c : Char) : Option Nat :=
      if c.isDigit then some (c.toNat - 48)
      else if 'a' ≤ c ∧ c ≤ 'f' then some (c.toNat - 87)
      else if 'A' ≤ c ∧ c ≤ 'F' then some (c.toNat - 55)
      else none
    return ((← hex a) * 16 + (← hex b)) :: (← bytesOfHex rest)
  | _ => none

end PlotAdvisor.Text
