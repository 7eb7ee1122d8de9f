import PlotAdvisor.Text.Basic

/-! Snippets of code taken as plain text: whether one is safe to run, and how long it is. -/
set_option autoImplicit false

namespace PlotAdvisor.Mining

/-- ASCII punctuation but for the underscore. -/
def isMark (c : Char) : Bool :=
  let n := c.toNat
  ((33 ≤ n && n ≤ 47) || (58 ≤ n && n ≤ 64) || (91 ≤ n && n ≤ 96) || (123 ≤ n && n ≤ 126)) && c != '_'

def forbiddenWords : List String :=
  ["sys", "os", "savefig", "sleep", "raw_input", "SystemExit", "py2exe", "multiprocessing", "threading",
    "write_png"]

/-- No two underscores in a row, and none of the forbidden words. The words are looked for among the bytes of the code,
so that only the blanks of ASCII part them. -/
def isSafe (code : String) : Bool :=
  !Text.has code "__" &&
    (Text.Chars.asciiWords (code.toList.map fun c => if isMark c then ' ' else c)).all fun w =>
      !forbiddenWords.contains (String.ofList w)

/-- The number of characters without the lines that import something. -/
def effectiveLength (code : String) : Nat :=
  let kept := (Text.Chars.splitOn ['\n'] code.toList).filter fun l =>
    !(Text.Chars.words l).contains "import".toList
  (Text.Chars.joinWith ['\n'] kept).length

end PlotAdvisor.Mining
