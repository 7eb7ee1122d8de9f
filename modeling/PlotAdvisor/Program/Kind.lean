import PlotAdvisor.Program.Tree

/-! Classes of nodes: which class belongs to which family of the grammar, and the older names of
classes that now are kinds of literals. -/
set_option autoImplicit false

namespace PlotAdvisor.Program

def families : List (String × List String) := [
  ("mod", ["Module", "Interactive", "Expression", "FunctionType", "Suite"]),
  ("stmt", ["FunctionDef", "AsyncFunctionDef", "ClassDef", "Return", "Delete", "Assign",
    "AugAssign", "AnnAssign", "For", "AsyncFor", "While", "If", "With", "AsyncWith", "Match",
    "Raise", "Try", "TryStar", "Assert", "Import", "ImportFrom", "Global", "Nonlocal", "Expr",
    "Pass", "Break", "Continue"]),
  ("expr", ["BoolOp", "NamedExpr", "BinOp", "UnaryOp", "Lambda", "IfExp", "Dict", "Set",
    "ListComp", "SetComp", "DictComp", "GeneratorExp", "Await", "Yield", "YieldFrom", "Compare",
    "Call", "FormattedValue", "JoinedStr", "Constant", "Attribute", "Subscript", "Starred", "Name",
    "List", "Tuple", "Slice"]),
  ("expr_context", ["Load", "Store", "Del", "AugLoad", "AugStore", "Param"]),
  ("boolop", ["And", "Or"]),
  ("operator", ["Add", "Sub", "Mult", "MatMult", "Div", "Mod", "Pow", "LShift", "RShift", "BitOr",
    "BitXor", "BitAnd", "FloorDiv"]),
  ("unaryop", ["Invert", "Not", "UAdd", "USub"]),
  ("cmpop", ["Eq", "NotEq", "Lt", "LtE", "Gt", "GtE", "Is", "IsNot", "In", "NotIn"]),
  ("comprehension", []),
  ("excepthandler", ["ExceptHandler"]),
  ("arguments", []),
  ("arg", []),
  ("keyword", []),
  ("alias", []),
  ("withitem", []),
  ("match_case", []),
  ("pattern", ["MatchValue", "MatchSingleton", "MatchSequence", "MatchMapping", "MatchClass",
    "MatchStar", "MatchAs", "MatchOr"]),
  ("type_ignore", ["TypeIgnore"]),
  ("slice", ["Index", "ExtSlice"])]

def inFamily (family kind : String) : Bool :=
  families.any fun f => f.1 == family && f.2.contains kind

def isStatement (kind : String) : Bool := inFamily "stmt" kind

def isExpression (kind : String) : Bool := inFamily "expr" kind

/-- Classes whose nodes carry nothing, so that one object stands at every place. -/
def isShared (kind : String) : Bool :=
  ["expr_context", "boolop", "operator", "unaryop", "cmpop"].any fun f => inFamily f kind

/-- Whether a node is of a class, a family, or one of the older kinds of literals; nothing when
there is no such class. -/
def Tree.isA? (t : Tree) (cls : String) : Option Bool :=
  let literal (p : Literal → Bool) : Option Bool := some ((t.literal?.map p).getD false)
  if cls == "AST" then some true
  else if families.any fun f => f.1 == cls then some (t.kind == cls || inFamily cls t.kind)
  else if families.any fun f => f.2.contains cls then some (t.kind == cls)
  else if cls == "Str" then some t.isText
  else if cls == "Num" then some t.isNumber
  else if cls == "Bytes" then literal fun v => match v with | .bytes _ => true | _ => false
  else if cls == "NameConstant" then
    literal fun v => match v with | .none => true | .bool _ => true | _ => false
  else if cls == "Ellipsis" then literal fun v => v == .ellipsis
  else none

end PlotAdvisor.Program
