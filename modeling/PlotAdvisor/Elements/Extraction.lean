import PlotAdvisor.Elements.Pylab
import PlotAdvisor.Fault
import PlotAdvisor.Program.Tree
import PlotAdvisor.Table

/-! The elements that a program uses. Statements are followed in the order of the text: imports and
assignments bind names to elements, and every outermost call, subscript or attribute is a use of an
element, its arguments and the keys of tables among them being further uses. -/
set_option autoImplicit false

namespace PlotAdvisor.Elements

open Program

abbrev Names := Table String String

/-- A use of an element: where it stands, where the value of an argument stands, and the call that has the argument. -/
structure Use where
  id : String
  node : Tree
  value : Option Tree
  call : Option Tree
  deriving Inhabited

namespace Use

/-- The line of the node or, where it has no place, of the call. -/
def line (u : Use) : Int := ((u.node.start? <|> u.call.bind Tree.start?).map Place.line).getD (-1)

def span (u : Use) : Except Fault Span := do
  let s ← orFault u.node.span .noAttribute
  match u.value with
  | none => return s
  | some v => return ⟨s.start, (← orFault v.span .noAttribute).stop⟩

def valueSpan (u : Use) : Except Fault (Option Span) :=
  match u.value with
  | none => .ok none
  | some v => some <$> orFault v.span .noAttribute

end Use

/-! ## Outermost nodes -/

mutual

/-- The nodes of some classes that lie below no other of them, in preorder. -/
def outermost (isOne : String → Bool) : Tree → List Tree
  | .node kind span fields =>
    if isOne kind then [.node kind span fields] else outermostInFields isOne fields
  | .list ts => outermostInItems isOne ts
  | .lit _ => []

def outermostInFields (isOne : String → Bool) : List (String × Tree) → List Tree
  | [] => []
  | (_, t) :: rest => outermost isOne t ++ outermostInFields isOne rest

def outermostInItems (isOne : String → Bool) : List Tree → List Tree
  | [] => []
  | t :: rest => outermost isOne t ++ outermostInItems isOne rest

end

def isCall (kind : String) : Bool := kind == "Call"

def isGeneralCall (kind : String) : Bool :=
  kind == "Call" || kind == "Subscript" || kind == "Attribute"

def isFollowed (kind : String) : Bool :=
  kind == "Expr" || kind == "Assign" || kind == "Import" || kind == "ImportFrom"

def callNodes (t : Tree) : List Tree := outermost isCall t

def generalCallNodes (t : Tree) : List Tree := outermost isGeneralCall t

/-! ## Heads -/

mutual

def head (names : Names) : Tree → String
  | .node "Call" _ fields => headOfField names "func" fields
  | .node "Subscript" _ fields => headOfField names "value" fields
  | .node "Attribute" _ fields =>
    headOfField names "value" fields ++ "." ++
      (match fields.lookup "attr" with
        | some (.lit (.text s)) => s
        | _ => "")
  | .node "Name" _ fields =>
    match fields.lookup "id" with
    | some (.lit (.text s)) => names.getD s s
    | _ => ""
  | .node kind _ _ => kind
  | .list _ => "list"
  | .lit _ => ""

def headOfField (names : Names) (name : String) : List (String × Tree) → String
  | [] => ""
  | (f, t) :: rest => if f == name then head names t else headOfField names name rest

end

/-! ## Uses -/

def keywordName (kw : Tree) : String := (kw.fieldText? "arg").getD "None"

def keyUses (owner : String) (call t : Tree) : List Use :=
  if t.kind == "Dict" then
    ((t.fieldItems "keys").zip (t.fieldItems "values")).filterMap fun (k, v) =>
      match k.literal? with
      | some (.text s) => some ⟨owner ++ "@" ++ s, k, some v, some call⟩
      | _ => none
  else if t.kind == "Call" && (t.field "func").kind == "Name" &&
      (t.field "func").fieldText? "id" == some "dict" then
    (t.fieldItems "keywords").map fun kw =>
      ⟨owner ++ "@" ++ keywordName kw, kw, some (kw.field "value"), some call⟩
  else []

def usesOf (id : String) (call : Tree) : List Use :=
  if call.kind == "Call" then
    let args := (call.fieldItems "args").zipIdx.flatMap fun (a, i) =>
      let argId := id ++ "@" ++ toString i
      ⟨argId, a, some a, some call⟩ :: keyUses argId call a
    let keywords := (call.fieldItems "keywords").flatMap fun kw =>
      let argId := id ++ "@" ++ keywordName kw
      let v := kw.field "value"
      ⟨argId, kw, some v, some call⟩ :: keyUses argId call v
    ⟨id, call, none, none⟩ :: (args ++ keywords)
  else [⟨id, call, none, none⟩]

def usesAt (names : Names) (call : Tree) : List Use := usesOf (head names call) call

/-! ## Statements -/

def importNames (names : Names) (t : Tree) : Names :=
  let asName (a : Tree) : Option String := a.fieldText? "asname"
  let plain (a : Tree) : String := (a.fieldText? "name").getD ""
  if t.kind == "Import" then
    (t.fieldItems "names").foldl (fun ns a =>
      match asName a with
      | some bound => if bound == "" then ns else ns.set bound (plain a)
      | none => ns) names
  else
    match t.fieldText? "module" with
    | none => names
    | some m =>
      if m == "" then names
      else (t.fieldItems "names").foldl (fun ns a =>
        ns.set ((asName a).getD (plain a)) (m ++ "." ++ plain a)) names

/-- An assignment binds each plain name among its targets to the element of its first call. -/
def assignNames (names : Names) (t : Tree) : Names :=
  match generalCallNodes t with
  | [] => names
  | call :: _ =>
    let id := head names call
    (t.fieldItems "targets").foldl (fun ns target =>
      match target.kind, target.fieldText? "id" with
      | "Name", some n => ns.set n id
      | _, _ => ns) names

def follow (importsOnly : Bool) (names : Names) (t : Tree) : Names × List Use :=
  if t.kind == "Import" || t.kind == "ImportFrom" then (importNames names t, [])
  else if importsOnly then (names, [])
  else
    let uses := (generalCallNodes t).flatMap (usesAt names)
    (if t.kind == "Assign" then assignNames names t else names, uses)

def extract (importsOnly : Bool) (names : Names) (program : Tree) : Names × List Use :=
  (outermost isFollowed program).foldl (fun (ns, us) t =>
    let (ns, more) := follow importsOnly ns t
    (ns, us ++ more)) (names, [])

def sessionTable : Names := ⟨sessionNames⟩

/-! ## Extractions one after the other

An extractor keeps one table of names. An extraction that starts from the usual names works on that table itself and
hands it out, so that a table handed out earlier shows what later programs bind. -/

/-- What is kept from one extraction to the next. -/
structure Extractor where
  names : Names := sessionTable

/-- A table of names that was handed out: the one that the extractor keeps, or one made for a single program. -/
inductive Handed where
  | shared
  | own (names : Names)

namespace Extractor

def look (e : Extractor) : Handed → Names
  | .shared => e.names
  | .own names => names

def extract (e : Extractor) (usual importsOnly : Bool) (program : Tree) : (Handed × List Use) × Extractor :=
  let (names, uses) := Elements.extract importsOnly (if usual then e.names else .empty) program
  if usual then ((.shared, uses), ⟨names⟩) else ((.own names, uses), e)

end Extractor

end PlotAdvisor.Elements
