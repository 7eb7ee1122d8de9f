import PlotAdvisor.Knowledge.Functions

/-! Element ids and their normal form. An element is a function given by its dotted path, or an argument
of one behind `@`, or a key of a table given as an argument behind a second `@`.

* `Normalizer.shorten` replaces the longest dotted beginning that has a short form.
* `Normalizer.simplify` also moves elements of the interactive module and of the current axes or figure to
  the plotting module where it has a function of that name.
* `Normalizer.returned` follows the types of what functions return.
* `lengthen` undoes the short form of the module.
-/
set_option autoImplicit false

namespace PlotAdvisor.Elements

structure Normalizer where
  shortForms : Table String String
  returnTypes : Table String String
  functions : List String
  deriving Inhabited

/-! ## The short form of the module -/

/-- The full name of the module for its short form, wherever it occurs. -/
def lengthen (id : String) : String :=
  let path := (Text.splitOnce id "@").1
  if Text.startsWith path "plt.gca." then Text.replace id "plt.gca." "matplotlib.axes.Axes."
  else if Text.startsWith path "plt." then Text.replace id "plt." "matplotlib.pyplot."
  else if Text.startsWith path "ax." then Text.replace id "ax." "matplotlib.axes.Axes."
  else if Text.startsWith path "mpl." then Text.replace id "mpl." "matplotlib."
  else id

/-! ## Moving to the plotting module -/

def beforeAt (s : String) : String := (Text.splitOnce s "@").1

/-- Elements of the interactive module that the plotting module has too. -/
def fromInteractive (functions : List String) (id : String) : String :=
  match Text.splitOn id "." with
  | "pylab" :: f :: rest =>
    if functions.contains (beforeAt f) then Text.join "." ("matplotlib.pyplot" :: f :: rest) else id
  | _ => id

/-- Elements of the current axes or figure that the plotting module has too, with or without `set_`. -/
def fromCurrent (functions : List String) (id : String) : String :=
  match Text.splitOn id "." with
  | "plt" :: holder :: member :: rest =>
    if ["gca", "gcf", "figure"].contains holder then
      let f := beforeAt member
      if functions.contains f then Text.join "." ("plt" :: member :: rest)
      else
        match Text.Chars.dropStart? "set_".toList f.toList with
        | some g =>
          if functions.contains (String.ofList g) then
            Text.join "." ("plt" :: String.ofList g :: rest)
          else id
        | none => id
    else id
  | _ => id

/-! ## Longest beginnings -/

def longestBeginning (t : Table String String) : List String → Option (String × String)
  | [] => none
  | part :: before =>
    let path := Text.join "." (part :: before).reverse
    match t.get? path with
    | some v => some (path, v)
    | none => longestBeginning t before

def replaceBeginning (t : Table String String) (id : String) : Option String :=
  (longestBeginning t (Text.splitOn id ".").reverse).map fun (path, v) => Text.replaceFirst id path v

namespace Normalizer

def shorten (n : Normalizer) (id : String) : String := (replaceBeginning n.shortForms id).getD id

def simplify (n : Normalizer) (id : String) : String :=
  fromCurrent n.functions (n.shorten (fromInteractive n.functions id))

def returnedUpTo (n : Normalizer) : Nat → String → Except Fault String
  | 0, _ => .error .endless
  | fuel + 1, id =>
    match replaceBeginning n.returnTypes id with
    | none => .ok id
    | some next => if next == id then .ok id else returnedUpTo n fuel next

def returnLimit : Nat := 970

def returned (n : Normalizer) (id : String) : Except Fault String := n.returnedUpTo returnLimit id

/-- The element with the type of what its function belongs to. -/
def resolve (n : Normalizer) (id : String) : Except Fault String := do
  let id := n.simplify id
  let (path, argument) := Text.splitOnce id "@"
  match (Text.splitOn path ".").reverse with
  | last :: before :: more =>
    let head ← n.returned (Text.join "." (before :: more).reverse)
    return head ++ "." ++ last ++ (argument.map fun a => "@" ++ a).getD ""
  | _ => return id

/-- The resolved element, in normal form or with the full name of the module. -/
def infer (n : Normalizer) (id : String) (short : Bool) : Except Fault String := do
  let id ← n.resolve id
  return if short then n.simplify id else lengthen id

/-! ## From the tables -/

def fullRow : List String → Except Fault (String × String)
  | [a, b] => do
    ensure (a != "") ""
    ensure (b != "") ""
    return (a, b)
  | _ => .error (.broken "")

/-- Reads the tables of short forms and of return types; the latter are kept in normal form. -/
def ofSources (s : Knowledge.Sources) : Except Fault Normalizer := do
  let functions := Knowledge.definedFunctions s.plottingModule
  let short ← (Csv.read s.shortForms).mapM fullRow
  let n : Normalizer := ⟨Table.ofList short, Table.empty, functions⟩
  let rows ← (Csv.read s.returnTypes).mapM fullRow
  let types := rows.map fun (f, t) => (n.simplify f, n.simplify t)
  let _ ← Knowledge.readDocs s {}
  return { n with returnTypes := Table.ofList types }

end Normalizer

end PlotAdvisor.Elements
