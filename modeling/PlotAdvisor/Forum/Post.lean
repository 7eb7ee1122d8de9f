import PlotAdvisor.Datum.Exchange

/-! Posts of a forum: questions, and answers that point to their question. Posts have blocks of code, and a file keeps
the blocks of many posts.

* `codeBlocks` - the blocks of a post.
* `blocksFile` - the text of a file of blocks.
-/
set_option autoImplicit false

namespace PlotAdvisor.Forum

structure Post where
  id : Int
  parent : Option Int
  title : Option String
  body : Option String
  score : Option Int
  tags : Option String
  answerCount : Option Int
  deriving Inhabited

inductive Cell where
  | missing
  | number (n : Int)
  | text (s : String)
  deriving DecidableEq, Inhabited

def Cell.ofNumber (n : Option Int) : Cell := (n.map Cell.number).getD .missing

def Cell.ofText (s : Option String) : Cell := (s.map Cell.text).getD .missing

/-- The cell of a column, by its name in lower case. -/
def Post.cell (p : Post) : String → Option Cell
  | "id" => some (.number p.id)
  | "parentid" => some (.ofNumber p.parent)
  | "title" => some (.ofText p.title)
  | "body" => some (.ofText p.body)
  | "score" => some (.ofNumber p.score)
  | "tags" => some (.ofText p.tags)
  | "answercount" => some (.ofNumber p.answerCount)
  | _ => none

instance : FromDatum Post := ⟨fun d => do
  let (id, parent, title, body, score, tags, answers) ← (fromDatum d :
    Option (Int × Option Int × Option String × Option String × Option Int × Option String × Option Int))
  return ⟨id, parent, title, body, score, tags, answers⟩⟩

structure Answer where
  id : Int
  body : Option String
  score : Option Int
  deriving Inhabited

structure Thread where
  id : Int
  title : Option String
  body : Option String
  score : Option Int
  answers : List Answer
  deriving Inhabited

instance : ToDatum Answer := ⟨fun a => toDatum (a.id, a.body, a.score)⟩

instance : ToDatum Thread := ⟨fun t => toDatum (t.id, t.title, t.body, t.score, t.answers)⟩

instance : FromDatum Answer := ⟨fun d => do
  let (id, body, score) ← (fromDatum d : Option (Int × Option String × Option Int))
  return ⟨id, body, score⟩⟩

instance : FromDatum Thread := ⟨fun d => do
  let (id, title, body, score, answers) ← (fromDatum d :
    Option (Int × Option String × Option String × Option Int × List Answer))
  return ⟨id, title, body, score, answers⟩⟩

/-! ## Blocks of code -/

def codeBlocks (s : String) : List String :=
  ((Text.splitOn s "<pre><code>").drop 1).filterMap fun part =>
    match Text.splitOnce part "</code></pre>" with
    | (block, some _) => some block
    | _ => none

def blocksFile (blocks : List String) : String := String.join (blocks.map (· ++ "\n\n"))

/-- The signs that stand for themselves again; the one that all escapes begin with comes last. -/
def unescaped (s : String) : String :=
  Text.replace (Text.replace (Text.replace s "&lt;" "<") "&gt;" ">") "&amp;" "&"

/-- Three line ends part the blocks. -/
def readBlocks (file : String) : List String := Text.splitOn (unescaped file) "\n\n\n"

end PlotAdvisor.Forum
