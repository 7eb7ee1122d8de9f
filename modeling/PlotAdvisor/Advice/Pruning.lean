import PlotAdvisor.Numeric

/-! Leaving out advice that does not fit the program.

1. Once a drawing function is used, no other drawing function is advised, nor its arguments.
2. Before that, only drawing functions and their arguments are advised, and what belongs to functions in use.
3. Elements that are met fewer than ten times are not advised.
4. An argument of a function that is not in use is replaced by the function, and further advice on that
   function is left out.
-/
set_option autoImplicit false

namespace PlotAdvisor.Advice

/-! ## Advice: elements with their scores -/

structure Item where
  element : String
  score : Numeric
  deriving Inhabited

instance : ToDatum Item := ⟨fun i => toDatum (i.element, i.score)⟩

instance : FromDatum Item := ⟨fun d => do
  let (e, s) ← (fromDatum d : Option (String × Numeric))
  return ⟨e, s⟩⟩

def functionId (element : String) : String := (Text.splitOnce element "@").1

def functionName (element : String) : String := Text.lastPart (functionId element) "."

/-! ## The rules -/

/-- What rules 1 to 3 look at. -/
structure Setting where
  used : List String
  counts : Table String Int
  drawing : List String

namespace Setting

/-- Rule 3. -/
def isFrequent (s : Setting) (element : String) : Bool :=
  match s.counts.get? element with
  | some n => decide (10 ≤ n)
  | none => false

def usedFunctions (s : Setting) : List String := s.used.map functionName

def hasDrawn (s : Setting) : Bool := s.usedFunctions.any fun f => s.drawing.contains f

/-- Rules 1 and 2. -/
def fits (s : Setting) (element : String) : Bool :=
  let f := functionName element
  s.usedFunctions.contains f || (s.hasDrawn != s.drawing.contains f)

def passes (s : Setting) (i : Item) : Bool := s.isFrequent i.element && s.fits i.element

end Setting

def withFunctions (used : List String) : List String → List Item → List Item
  | _, [] => []
  | seen, i :: rest =>
    let f := functionId i.element
    if !used.contains f && !seen.contains f && Text.has i.element "@" then
      ⟨f, i.score⟩ :: withFunctions used (f :: seen) rest
    else if !seen.contains f then i :: withFunctions used seen rest
    else withFunctions used seen rest

def prune (s : Setting) (items : List Item) : List Item :=
  withFunctions s.used [] (items.filter s.passes)

end PlotAdvisor.Advice
