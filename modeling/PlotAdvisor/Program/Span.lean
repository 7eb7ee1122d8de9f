/-! Places and ranges in a program text, and its tokens. Lines are counted from one and columns from zero; a range
ends before its end place. -/
set_option autoImplicit false

namespace PlotAdvisor.Program

structure Place where
  line : Int
  col : Int
  deriving DecidableEq, Inhabited, Repr

namespace Place

/-- Earlier in the text. -/
def before (p q : Place) : Bool := decide (p.line < q.line ∨ (p.line = q.line ∧ p.col < q.col))

def atOrBefore (p q : Place) : Bool := !q.before p

def render (p : Place) : String := toString p.line ++ "." ++ toString p.col

end Place

structure Span where
  start : Place
  stop : Place
  deriving DecidableEq, Inhabited, Repr

namespace Span

def of (line col endLine endCol : Int) : Span := ⟨⟨line, col⟩, ⟨endLine, endCol⟩⟩

/-- The other range lies inside this one, and they differ. -/
def properlyCovers (s t : Span) : Bool :=
  (s.start.before t.start && t.stop.before s.stop) ||
    (s.start == t.start && t.stop.before s.stop) ||
    (s.start.before t.start && s.stop == t.stop)

def covers (s t : Span) : Bool := s.properlyCovers t || s == t

def render (s : Span) : String := "TR(" ++ s.start.render ++ ", " ++ s.stop.render ++ ")"

end Span

/-! ## The tokens of a program text -/

namespace Token

inductive Kind where
  | name
  | number
  | text
  | operator
  | newline
  | blankLine
  | comment
  | indent
  | encoding
  | other
  deriving DecidableEq, Inhabited, Repr

end Token

structure Token where
  kind : Token.Kind
  string : String
  start : Place
  stop : Place
  deriving Inhabited, Repr

end PlotAdvisor.Program
