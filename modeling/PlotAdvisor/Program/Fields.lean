/-! The fields of each class of nodes, in the order of the grammar. Classes without fields are left out. -/
set_option autoImplicit false

namespace PlotAdvisor.Program

def fieldTable : List (String × List String) := [
  ("Module", ["body", "type_ignores"]),
  ("Interactive", ["body"]),
  ("Expression", ["body"]),
  ("FunctionType", ["argtypes", "returns"]),
  ("FunctionDef", ["name", "args", "body", "decorator_list", "returns", "type_comment"]),
  ("AsyncFunctionDef", ["name", "args", "body", "decorator_list", "returns", "type_comment"]),
  ("ClassDef", ["name", "bases", "keywords", "body", "decorator_list"]),
  ("Return", ["value"]),
  ("Delete", ["targets"]),
  ("Assign", ["targets", "value", "type_comment"]),
  ("AugAssign", ["target", "op", "value"]),
  ("AnnAssign", ["target", "annotation", "value", "simple"]),
  ("For", ["target", "iter", "body", "orelse", "type_comment"]),
  ("AsyncFor", ["target", "iter", "body", "orelse", "type_comment"]),
  ("While", ["test", "body", "orelse"]),
  ("If", ["test", "body", "orelse"]),
  ("With", ["items", "body", "type_comment"]),
  ("AsyncWith", ["items", "body", "type_comment"]),
  ("Match", ["subject", "cases"]),
  ("Raise", ["exc", "cause"]),
  ("Try", ["body", "handlers", "orelse", "finalbody"]),
  ("TryStar", ["body", "handlers", "orelse", "finalbody"]),
  ("Assert", ["test", "msg"]),
  ("Import", ["names"]),
  ("ImportFrom", ["module", "names", "level"]),
  ("Global", ["names"]),
  ("Nonlocal", ["names"]),
  ("Expr", ["value"]),
  ("BoolOp", ["op", "values"]),
  ("NamedExpr", ["target", "value"]),
  ("BinOp", ["left", "op", "right"]),
  ("UnaryOp", ["op", "operand"]),
  ("Lambda", ["args", "body"]),
  ("IfExp", ["test", "body", "orelse"]),
  ("Dict", ["keys", "values"]),
  ("Set", ["elts"]),
  ("ListComp", ["elt", "generators"]),
  ("SetComp", ["elt", "generators"]),
  ("DictComp", ["key", "value", "generators"]),
  ("GeneratorExp", ["elt", "generators"]),
  ("Await", ["value"]),
  ("Yield", ["value"]),
  ("YieldFrom", ["value"]),
  ("Compare", ["left", "ops", "comparators"]),
  ("Call", ["func", "args", "keywords"]),
  ("FormattedValue", ["value", "conversion", "format_spec"]),
  ("JoinedStr", ["values"]),
  ("Constant", ["value", "kind"]),
  ("Attribute", ["value", "attr", "ctx"]),
  ("Subscript", ["value", "slice", "ctx"]),
  ("Starred", ["value", "ctx"]),
  ("Name", ["id", "ctx"]),
  ("List", ["elts", "ctx"]),
  ("Tuple", ["elts", "ctx"]),
  ("Slice", ["lower", "upper", "step"]),
  ("comprehension", ["target", "iter", "ifs", "is_async"]),
  ("ExceptHandler", ["type", "name", "body"]),
  ("arguments", ["posonlyargs", "args", "vararg", "kwonlyargs", "kw_defaults", "kwarg", "defaults"]),
  ("arg", ["arg", "annotation", "type_comment"]),
  ("keyword", ["arg", "value"]),
  ("alias", ["name", "asname"]),
  ("withitem", ["context_expr", "optional_vars"]),
  ("match_case", ["pattern", "guard", "body"]),
  ("MatchValue", ["value"]),
  ("MatchSingleton", ["value"]),
  ("MatchSequence", ["patterns"]),
  ("MatchMapping", ["keys", "patterns", "rest"]),
  ("MatchClass", ["cls", "patterns", "kwd_attrs", "kwd_patterns"]),
  ("MatchStar", ["name"]),
  ("MatchAs", ["pattern", "name"]),
  ("MatchOr", ["patterns"]),
  ("TypeIgnore", ["lineno", "tag"])]

def fieldNames (kind : String) : List String := (fieldTable.lookup kind).getD []

end PlotAdvisor.Program
