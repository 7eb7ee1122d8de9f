import PlotAdvisor.Text.Real

/-! Arguments of a command that are all given by name. A name may be cut short as long as it is
unambiguous; a value stands in the next argument, behind an equals sign, or, for a name of one letter,
directly behind it. -/
set_option autoImplicit false

namespace PlotAdvisor.Command

inductive ValueKind where
  | text
  | integer
  | real
  | truth
  | help
  deriving DecidableEq

structure Keyword where
  names : List String
  kind : ValueKind := .text
  required : Bool := false

namespace Keyword

def shown (k : Keyword) : String := Text.join "/" k.names

def wrongKind? (k : Keyword) (value : String) : Option String :=
  match k.kind with
  | .integer => if (Text.readInt? 10 value).isNone then some "int" else none
  | .real => if (Text.readReal? value).isNone then some "float" else none
  | _ => none

end Keyword

/-- Why the reading of keywords stops. -/
inductive Halt where
  | misuse (message : String)
  | help
  deriving DecidableEq

/-- How an argument is understood. -/
inductive Reading where
  | plain
  /-- Two dashes alone: all that follows is plain. -/
  | barrier
  | unknown
  | keyword (k : Keyword) (name : String) (value : Option (Bool × String))

/-- The keywords whose name begins with the text, each with that name. -/
def candidates (ks : List Keyword) (fits : String → Bool) : List (Keyword × String) :=
  ks.flatMap fun k => (k.names.filter fits).map fun n => (k, n)

def isNegativeNumber (cs : List Char) : Bool :=
  match cs with
  | '-' :: cs =>
    let rest := cs.dropWhile Text.isDigit
    match rest with
    | [] => !cs.isEmpty
    | '.' :: ds => !ds.isEmpty && ds.all Text.isDigit
    | _ => false
  | _ => false

def shortened (ks : List Keyword) (arg : String) : List Reading :=
  match arg.toList with
  | '-' :: '-' :: _ =>
    let (start, value) := Text.splitOnce arg "="
    (candidates ks fun n => Text.startsWith n start).map fun (k, n) =>
      .keyword k n (value.map fun v => (true, v))
  | '-' :: c :: cs =>
    (candidates ks fun n => n == String.ofList ['-', c] || Text.startsWith n arg).map fun (k, n) =>
      if n == String.ofList ['-', c] then .keyword k n (some (false, String.ofList cs)) else .keyword k n none
  | _ => []

def readingName : Reading → String
  | .keyword _ n _ => n
  | _ => ""

def readingOf (ks : List Keyword) (arg : String) : Except Halt Reading :=
  match arg.toList with
  | '-' :: rest =>
    match candidates ks (· == arg) with
    | (k, n) :: _ => .ok (.keyword k n none)
    | [] =>
      if rest.isEmpty then .ok .plain
      else
        match Text.splitOnce arg "=" with
        | (name, some v) =>
          match candidates ks (· == name) with
          | (k, n) :: _ => .ok (.keyword k n (some (true, v)))
          | [] => unclear
        | (_, none) => unclear
  | _ => .ok .plain
where
  unclear : Except Halt Reading :=
    match shortened ks arg with
    | [r] => .ok r
    | [] => if isNegativeNumber arg.toList || arg.toList.contains ' ' then .ok .plain else .ok .unknown
    | rs =>
      .error (.misuse ("ambiguous option: " ++ arg ++ " could match " ++ Text.join ", " (rs.map readingName)))

def readingsOf (ks : List Keyword) : List String → Except Halt (List (String × Reading))
  | [] => .ok []
  | "--" :: rest => .ok (("--", .barrier) :: rest.map fun a => (a, .plain))
  | arg :: rest => do return (arg, ← readingOf ks arg) :: (← readingsOf ks rest)

/-- The values by keyword, the last first, and the arguments that nothing takes. -/
structure Taken where
  values : List (Keyword × String) := []
  extras : List String := []

def faultAt (k : Keyword) (message : String) : Halt := .misuse ("argument " ++ k.shown ++ ": " ++ message)

def takeValue (k : Keyword) (value : String) (t : Taken) : Except Halt Taken :=
  match k.wrongKind? value with
  | some kind => .error (faultAt k ("invalid " ++ kind ++ " value: " ++ Text.quoted value))
  | none => .ok { t with values := (k, value) :: t.values }

def takeHelp (k : Keyword) (name : String) (value : Option (Bool × String)) : Except Halt Taken :=
  match value with
  | none => .error .help
  | some (behindEquals, v) =>
    if v == "" || behindEquals || Text.startsWith name "--" || Text.startsWith v "-" then
      .error (faultAt k ("ignored explicit argument " ++ Text.quoted v))
    else .error .help

def take : Bool → Taken → List (String × Reading) → Except Halt Taken
  | _, t, [] => .ok t
  | true, t, _ :: rest => take false t rest
  | false, t, (arg, r) :: rest =>
    match r with
    | .keyword k name value =>
      if k.kind = .help then takeHelp k name value
      else
        match value with
        | some (_, v) => do take false (← takeValue k v t) rest
        | none =>
          match rest with
          | (v, .plain) :: _ => do take true (← takeValue k v t) rest
          | _ => .error (faultAt k "expected one argument")
    | _ => take false { t with extras := t.extras ++ [arg] } rest

/-- The values of the keywords: all required ones are there, and nothing else was given. -/
def readKeywords (ks : List Keyword) (args : List String) : Except Halt (List (Keyword × String)) := do
  let t ← take false {} (← readingsOf ks args)
  let missing := ks.filter fun k => k.required && !(t.values.any fun v => v.1.names == k.names)
  if !missing.isEmpty then
    .error (.misuse ("the following arguments are required: " ++
      Text.join ", " (missing.map Keyword.shown)))
  else if !t.extras.isEmpty then
    .error (.misuse ("unrecognized arguments: " ++ Text.join " " t.extras))
  else return t.values

def valueOfKeyword (values : List (Keyword × String)) (name : String) : Option String :=
  (values.find? fun v => v.1.names.contains name).map Prod.snd

end PlotAdvisor.Command
