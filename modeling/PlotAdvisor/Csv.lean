import PlotAdvisor.Fault
import PlotAdvisor.Text.Basic

/-! Tables as comma-separated text. A field that holds a comma, a quote or a line end stands in double
quotes, and a quote in it is written twice. -/
set_option autoImplicit false

namespace PlotAdvisor.Csv

/-! ## Reading -/

/-- Where the scan stands: in front of a record, in front of a field, inside a field, inside quotes, or
behind a quote inside quotes. -/
inductive Mode where
  | record
  | start
  | plain
  | quoted
  | quote

def recordsFrom (mode : Mode) (field : List Char) (fields : List (List Char)) :
    List Char → List (List (List Char))
  | [] =>
    match mode with
    | .record => []
    | _ => [(field.reverse :: fields).reverse]
  | '\r' :: '\n' :: cs =>
    match mode with
    | .record => [] :: recordsFrom .record [] [] cs
    | .quoted => recordsFrom .quoted ('\n' :: '\r' :: field) fields cs
    | _ => (field.reverse :: fields).reverse :: recordsFrom .record [] [] cs
  | c :: cs =>
    match mode with
    | .quoted =>
      if c = '"' then recordsFrom .quote field fields cs
      else recordsFrom .quoted (c :: field) fields cs
    | .quote =>
      if c = '"' then recordsFrom .quoted ('"' :: field) fields cs
      else if c = ',' then recordsFrom .start [] (field.reverse :: fields) cs
      else if c = '\n' ∨ c = '\r' then (field.reverse :: fields).reverse :: recordsFrom .record [] [] cs
      else recordsFrom .plain (c :: field) fields cs
    | .plain =>
      if c = ',' then recordsFrom .start [] (field.reverse :: fields) cs
      else if c = '\n' ∨ c = '\r' then (field.reverse :: fields).reverse :: recordsFrom .record [] [] cs
      else recordsFrom .plain (c :: field) fields cs
    | mode =>
      if c = '\n' ∨ c = '\r' then
        match mode with
        | .record => [] :: recordsFrom .record [] [] cs
        | _ => (field.reverse :: fields).reverse :: recordsFrom .record [] [] cs
      else if c = '"' then recordsFrom .quoted [] fields cs
      else if c = ',' then recordsFrom .start [] ([] :: fields) cs
      else recordsFrom .plain [c] fields cs

/-- The records of a text, an empty line being a record without fields. -/
def read (s : String) : List (List String) :=
  (recordsFrom .record [] [] s.toList).map fun r => r.map String.ofList

/-- The text that tells how many fields a record should have. -/
def wrongCount (expected got : Nat) : Fault :=
  if got < expected then
    .badValue s!"not enough values to unpack (expected {expected}, got {got})"
  else .badValue s!"too many values to unpack (expected {expected})"

/-- A record of two fields. -/
def two : List String → Except Fault (String × String)
  | [a, b] => .ok (a, b)
  | r => .error (wrongCount 2 r.length)

def three : List String → Except Fault (String × String × String)
  | [a, b, c] => .ok (a, b, c)
  | r => .error (wrongCount 3 r.length)

def four : List String → Except Fault (String × String × String × String)
  | [a, b, c, d] => .ok (a, b, c, d)
  | r => .error (wrongCount 4 r.length)

/-! ## Writing -/

def needsQuotes (c : Char) : Bool := c == ',' || c == '"' || c == '\n' || c == '\r'

def writtenField (s : String) : String :=
  if s.toList.any needsQuotes then "\"" ++ Text.replace s "\"" "\"\"" ++ "\"" else s

def writtenRecord (r : List String) : String :=
  (match r with
    | [""] => "\"\""
    | r => Text.join "," (r.map writtenField)) ++ "\r\n"

def write (rs : List (List String)) : String := String.join (rs.map writtenRecord)

end PlotAdvisor.Csv
