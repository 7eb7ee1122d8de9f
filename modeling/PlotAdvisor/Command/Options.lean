import PlotAdvisor.Sorting
import PlotAdvisor.Text.Integer

/-! Options of a command: short ones behind one dash, several of which may stand together, and long ones
behind two dashes, which may be cut short as long as they are unambiguous. Options and other arguments may
be mixed; two dashes alone end the options. -/
set_option autoImplicit false

namespace PlotAdvisor.Command

inductive Switch where
  | flag
  | integer
  | help
  | version
  deriving DecidableEq

structure Choice where
  short : Option Char
  long : String
  switch : Switch

inductive Stop where
  | misuse (message : String)
  | help
  | version
  deriving DecidableEq

/-- The options that were given, the last first, and the other arguments, the last first. -/
structure Given where
  flags : List String := []
  integers : List (String × Int) := []
  arguments : List String := []

/-- Reads an integer: hexadecimal, binary or octal by its first characters. -/
def readCount? (s : String) : Option Int :=
  match s.toList with
  | '0' :: c :: rest =>
    if c == 'x' || c == 'X' then Text.readInt? 16 s
    else if c == 'b' || c == 'B' then Text.readInt? 2 (if rest.isEmpty then "0" else String.ofList rest)
    else Text.readInt? 8 s
  | _ => Text.readInt? 10 s

namespace Choice

def apply (o : Choice) (shown : String) (value : String) (g : Given) : Except Stop Given :=
  match o.switch with
  | .flag => .ok { g with flags := o.long :: g.flags }
  | .help => .error .help
  | .version => .error .version
  | .integer =>
    match readCount? value with
    | some n => .ok { g with integers := (o.long, n) :: g.integers }
    | none => .error (.misuse ("option " ++ shown ++ ": invalid integer value: " ++ Text.quoted value))

def takesValue (o : Choice) : Bool := o.switch == .integer

end Choice

def missingValue (shown : String) : Stop := .misuse (shown ++ " option requires 1 argument")

def findLong (options : List Choice) (text : String) : Except Stop Choice :=
  match options.find? fun o => o.long == text with
  | some o => .ok o
  | none =>
    match options.filter fun o => Text.startsWith o.long text with
    | [o] => .ok o
    | [] => .error (.misuse ("no such option: " ++ text))
    | os =>
      .error (.misuse ("ambiguous option: " ++ text ++ " (" ++
        Text.join ", " (Sorting.sortTexts (os.map fun o => o.long)) ++ "?)"))

def shortOptions (options : List Choice) (next : Option String) :
    List Char → Given → Except Stop (Bool × Given)
  | [], g => .ok (false, g)
  | c :: cs, g => do
    let shown := String.ofList ['-', c]
    match options.find? fun o => o.short == some c with
    | none => .error (.misuse ("no such option: " ++ shown))
    | some o =>
      if o.takesValue then
        if cs.isEmpty then
          match next with
          | none => .error (missingValue shown)
          | some v => return (true, ← o.apply shown v g)
        else return (false, ← o.apply shown (String.ofList cs) g)
      else shortOptions options next cs (← o.apply shown "" g)

def longOption (options : List Choice) (next : Option String) (arg : String) (g : Given) :
    Except Stop (Bool × Given) := do
  let (name, own) := Text.splitOnce arg "="
  let o ← findLong options name
  if o.takesValue then
    match own, next with
    | some v, _ => return (false, ← o.apply o.long v g)
    | none, some v => return (true, ← o.apply o.long v g)
    | none, none => .error (missingValue o.long)
  else if own.isSome then .error (.misuse (o.long ++ " option does not take a value"))
  else return (false, ← o.apply o.long "" g)

def readOptionsFrom (options : List Choice) : Bool → Given → List String → Except Stop Given
  | _, g, [] => .ok g
  | true, g, _ :: rest => readOptionsFrom options false g rest
  | false, g, arg :: rest =>
    match arg.toList with
    | ['-', '-'] => .ok { g with arguments := rest.reverse ++ g.arguments }
    | '-' :: '-' :: _ => do
      let (taken, g) ← longOption options rest.head? arg g
      readOptionsFrom options taken g rest
    | '-' :: c :: cs => do
      let (taken, g) ← shortOptions options rest.head? (c :: cs) g
      readOptionsFrom options taken g rest
    | _ => readOptionsFrom options false { g with arguments := arg :: g.arguments } rest

def readOptions (options : List Choice) (args : List String) : Except Stop Given :=
  readOptionsFrom options false {} args

end PlotAdvisor.Command
