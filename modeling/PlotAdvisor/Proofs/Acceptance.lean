import PlotAdvisor.Program.Kind
import PlotAdvisor.Proofs.Parts

/-! Which programs can be taken apart. A part is made of every field that holds a node, a list of nodes or a value, so
that only items of lists can be refused: those that are no nodes. The grammar tells where such items can stand. Lists of
names are made of them, and a list of nodes has one where a node is left out, for an unpacked dictionary among the keys
and for a keyword-only argument without a default. Everything else is accepted. -/
set_option autoImplicit false

namespace PlotAdvisor.Program

/-! ## The grammar -/

inductive Form where
  | node (family : String)
  | nodeOrNone (family : String)
  | nodes (family : String)
  | nodesOrNone (family : String)
  | names
  | value
  deriving DecidableEq

def grammar : List (String × List (String × Form)) := [
  ("Module", [("body", .nodes "stmt"), ("type_ignores", .nodes "type_ignore")]),
  ("Interactive", [("body", .nodes "stmt")]),
  ("Expression", [("body", .node "expr")]),
  ("FunctionType", [("argtypes", .nodes "expr"), ("returns", .node "expr")]),
  ("FunctionDef", [("name", .value), ("args", .node "arguments"), ("body", .nodes "stmt"),
    ("decorator_list", .nodes "expr"), ("returns", .nodeOrNone "expr"), ("type_comment", .value)]),
  ("AsyncFunctionDef", [("name", .value), ("args", .node "arguments"), ("body", .nodes "stmt"),
    ("decorator_list", .nodes "expr"), ("returns", .nodeOrNone "expr"), ("type_comment", .value)]),
  ("ClassDef", [("name", .value), ("bases", .nodes "expr"), ("keywords", .nodes "keyword"), ("body", .nodes "stmt"),
    ("decorator_list", .nodes "expr")]),
  ("Return", [("value", .nodeOrNone "expr")]),
  ("Delete", [("targets", .nodes "expr")]),
  ("Assign", [("targets", .nodes "expr"), ("value", .node "expr"), ("type_comment", .value)]),
  ("AugAssign", [("target", .node "expr"), ("op", .node "operator"), ("value", .node "expr")]),
  ("AnnAssign", [("target", .node "expr"), ("annotation", .node "expr"), ("value", .nodeOrNone "expr"),
    ("simple", .value)]),
  ("For", [("target", .node "expr"), ("iter", .node "expr"), ("body", .nodes "stmt"), ("orelse", .nodes "stmt"),
    ("type_comment", .value)]),
  ("AsyncFor", [("target", .node "expr"), ("iter", .node "expr"), ("body", .nodes "stmt"), ("orelse", .nodes "stmt"),
    ("type_comment", .value)]),
  ("While", [("test", .node "expr"), ("body", .nodes "stmt"), ("orelse", .nodes "stmt")]),
  ("If", [("test", .node "expr"), ("body", .nodes "stmt"), ("orelse", .nodes "stmt")]),
  ("With", [("items", .nodes "withitem"), ("body", .nodes "stmt"), ("type_comment", .value)]),
  ("AsyncWith", [("items", .nodes "withitem"), ("body", .nodes "stmt"), ("type_comment", .value)]),
  ("Match", [("subject", .node "expr"), ("cases", .nodes "match_case")]),
  ("Raise", [("exc", .nodeOrNone "expr"), ("cause", .nodeOrNone "expr")]),
  ("Try", [("body", .nodes "stmt"), ("handlers", .nodes "excepthandler"), ("orelse", .nodes "stmt"),
    ("finalbody", .nodes "stmt")]),
  ("TryStar", [("body", .nodes "stmt"), ("handlers", .nodes "excepthandler"), ("orelse", .nodes "stmt"),
    ("finalbody", .nodes "stmt")]),
  ("Assert", [("test", .node "expr"), ("msg", .nodeOrNone "expr")]),
  ("Import", [("names", .nodes "alias")]),
  ("ImportFrom", [("module", .value), ("names", .nodes "alias"), ("level", .value)]),
  ("Global", [("names", .names)]),
  ("Nonlocal", [("names", .names)]),
  ("Expr", [("value", .node "expr")]),
  ("BoolOp", [("op", .node "boolop"), ("values", .nodes "expr")]),
  ("NamedExpr", [("target", .node "expr"), ("value", .node "expr")]),
  ("BinOp", [("left", .node "expr"), ("op", .node "operator"), ("right", .node "expr")]),
  ("UnaryOp", [("op", .node "unaryop"), ("operand", .node "expr")]),
  ("Lambda", [("args", .node "arguments"), ("body", .node "expr")]),
  ("IfExp", [("test", .node "expr"), ("body", .node "expr"), ("orelse", .node "expr")]),
  ("Dict", [("keys", .nodesOrNone "expr"), ("values", .nodes "expr")]),
  ("Set", [("elts", .nodes "expr")]),
  ("ListComp", [("elt", .node "expr"), ("generators", .nodes "comprehension")]),
  ("SetComp", [("elt", .node "expr"), ("generators", .nodes "comprehension")]),
  ("DictComp", [("key", .node "expr"), ("value", .node "expr"), ("generators", .nodes "comprehension")]),
  ("GeneratorExp", [("elt", .node "expr"), ("generators", .nodes "comprehension")]),
  ("Await", [("value", .node "expr")]),
  ("Yield", [("value", .nodeOrNone "expr")]),
  ("YieldFrom", [("value", .node "expr")]),
  ("Compare", [("left", .node "expr"), ("ops", .nodes "cmpop"), ("comparators", .nodes "expr")]),
  ("Call", [("func", .node "expr"), ("args", .nodes "expr"), ("keywords", .nodes "keyword")]),
  ("FormattedValue", [("value", .node "expr"), ("conversion", .value), ("format_spec", .nodeOrNone "expr")]),
  ("JoinedStr", [("values", .nodes "expr")]),
  ("Constant", [("value", .value), ("kind", .value)]),
  ("Attribute", [("value", .node "expr"), ("attr", .value), ("ctx", .node "expr_context")]),
  ("Subscript", [("value", .node "expr"), ("slice", .node "expr"), ("ctx", .node "expr_context")]),
  ("Starred", [("value", .node "expr"), ("ctx", .node "expr_context")]),
  ("Name", [("id", .value), ("ctx", .node "expr_context")]),
  ("List", [("elts", .nodes "expr"), ("ctx", .node "expr_context")]),
  ("Tuple", [("elts", .nodes "expr"), ("ctx", .node "expr_context")]),
  ("Slice", [("lower", .nodeOrNone "expr"), ("upper", .nodeOrNone "expr"), ("step", .nodeOrNone "expr")]),
  ("comprehension", [("target", .node "expr"), ("iter", .node "expr"), ("ifs", .nodes "expr"), ("is_async", .value)]),
  ("ExceptHandler", [("type", .nodeOrNone "expr"), ("name", .value), ("body", .nodes "stmt")]),
  ("arguments", [("posonlyargs", .nodes "arg"), ("args", .nodes "arg"), ("vararg", .nodeOrNone "arg"),
    ("kwonlyargs", .nodes "arg"), ("kw_defaults", .nodesOrNone "expr"), ("kwarg", .nodeOrNone "arg"),
    ("defaults", .nodes "expr")]),
  ("arg", [("arg", .value), ("annotation", .nodeOrNone "expr"), ("type_comment", .value)]),
  ("keyword", [("arg", .value), ("value", .node "expr")]),
  ("alias", [("name", .value), ("asname", .value)]),
  ("withitem", [("context_expr", .node "expr"), ("optional_vars", .nodeOrNone "expr")]),
  ("match_case", [("pattern", .node "pattern"), ("guard", .nodeOrNone "expr"), ("body", .nodes "stmt")]),
  ("MatchValue", [("value", .node "expr")]),
  ("MatchSingleton", [("value", .value)]),
  ("MatchSequence", [("patterns", .nodes "pattern")]),
  ("MatchMapping", [("keys", .nodes "expr"), ("patterns", .nodes "pattern"), ("rest", .value)]),
  ("MatchClass", [("cls", .node "expr"), ("patterns", .nodes "pattern"), ("kwd_attrs", .names),
    ("kwd_patterns", .nodes "pattern")]),
  ("MatchStar", [("name", .value)]),
  ("MatchAs", [("pattern", .nodeOrNone "pattern"), ("name", .value)]),
  ("MatchOr", [("patterns", .nodes "pattern")]),
  ("TypeIgnore", [("lineno", .value), ("tag", .value)])]

theorem names_grammar : grammar.map (fun g => (g.1, g.2.map Prod.fst)) = fieldTable := by decide

def formsOf (kind : String) : List (String × Form) := (grammar.lookup kind).getD []

namespace Tree

def isOf (family : String) (t : Tree) : Bool := t.isNode && (t.kind == family || inFamily family t.kind)

def isName : Tree → Bool
  | .lit (.text s) => s != ""
  | _ => false

end Tree

def Form.holds : Form → Tree → Bool
  | .node family, t => t.isOf family
  | .nodeOrNone family, t => t.isNone || t.isOf family
  | .nodes family, .list ts => ts.all fun t => t.isOf family
  | .nodesOrNone family, .list ts => ts.all fun t => t.isNone || t.isOf family
  | .names, .list ts => ts.all Tree.isName
  | .value, .lit _ => true
  | _, _ => false

def fieldsHold : List (String × Tree) → List (String × Form) → Bool
  | [], [] => true
  | (name, t) :: fs, (label, form) :: gs => name == label && form.holds t && fieldsHold fs gs
  | _, _ => false

/-- A node all of whose nodes have the fields of their class. -/
def Tree.isGrammatical (t : Tree) : Bool := t.isNode && t.preorder.all fun n => fieldsHold n.fields (formsOf n.kind)

/-! ## Strays -/

/-- An item of a list in a field that is no node. -/
def Stray (t x : Tree) : Prop := x.isNode = false ∧ ∃ n ∈ t.preorder, ∃ f ∈ n.fields, x ∈ f.2.items

theorem Stray.of_children {t c x : Tree} (hc : c ∈ t.children) (h : Stray c x) : Stray t x := by
  obtain ⟨hx, n, hn, hf⟩ := h
  exact ⟨hx, n, Tree.mem_preorder_of_children hc hn, hf⟩

namespace Part

/-- With what an item that is no node is refused. -/
def strayFault : Tree → Fault
  | .list [] => nothingGiven
  | .lit v => if v.isFalsy then nothingGiven else .noAttribute
  | _ => .noAttribute

theorem ofTree_stray {x : Tree} (h : x.isNode = false) : ofTree x = .error (strayFault x) := by
  cases x with
  | node kind span fields => simp [Tree.isNode] at h
  | list ts =>
    cases ts with
    | nil => rw [ofTree, strayFault]
    | cons t ts =>
      rw [ofTree, strayFault] <;> simp
  | lit v => rw [ofTree, strayFault]

theorem faultsIn_ofItems {P : Fault → Prop} {ts : List Tree} (h : ∀ t ∈ ts, FaultsIn P (ofTree t)) :
    FaultsIn P (ofItems ts) := by
  induction ts with
  | nil => rw [ofItems]; exact FaultsIn.pure []
  | cons t ts ih =>
    rw [List.forall_mem_cons] at h
    rw [ofItems]
    exact h.1.bind fun p => (ih h.2).bind fun ps => FaultsIn.pure _

theorem faultsIn_ofFields {P : Fault → Prop} {fs : List (String × Tree)}
    (hnode : ∀ f ∈ fs, f.2.isNode = true → FaultsIn P (ofTree f.2))
    (hitem : ∀ f ∈ fs, ∀ x ∈ f.2.items, FaultsIn P (ofTree x)) : FaultsIn P (ofFields fs) := by
  induction fs with
  | nil => rw [ofFields]; exact FaultsIn.pure []
  | cons f fs ih =>
    rw [List.forall_mem_cons] at hnode hitem
    have hrest : FaultsIn P (ofFields fs) := ih hnode.2 hitem.2
    obtain ⟨name, t⟩ := f
    cases t with
    | node kind span fields =>
      rw [ofFields]
      · exact (hnode.1 rfl).bind fun child => hrest.bind fun ps => FaultsIn.pure _
      all_goals simp
    | list ts =>
      rw [ofFields]
      exact (faultsIn_ofItems hitem.1).bind fun items => hrest.bind fun ps => FaultsIn.pure _
    | lit v =>
      by_cases hv : v = .none
      · subst hv
        rw [ofFields]
        exact hrest
      · rw [ofFields]
        · exact hrest.bind fun ps => FaultsIn.pure _
        · exact hv

theorem exists_stray {t : Tree} (h : t.isNode = true) : FaultsIn (fun f => ∃ x, Stray t x ∧ f = strayFault x) (ofTree t) := by
  induction t using Tree.inductionOn with
  | h t ih =>
    cases t with
    | node kind span fields =>
      have hself : Tree.node kind span fields ∈ (Tree.node kind span fields).preorder := List.mem_cons_self
      have hbelow {c : Tree} (hc : c ∈ (Tree.node kind span fields).children) (hn : c.isNode = true) :
          FaultsIn (fun f => ∃ x, Stray (.node kind span fields) x ∧ f = strayFault x) (ofTree c) := by
        intro f hf
        obtain ⟨x, hx, rfl⟩ := ih c hc hn f hf
        exact ⟨x, hx.of_children hc, rfl⟩
      rw [ofTree]
      refine (faultsIn_ofFields ?_ ?_).bind fun ps => FaultsIn.pure _
      · intro f hf hn
        exact hbelow (Tree.mem_children_of_field hf hn) hn
      · rintro ⟨name, v⟩ hf x hx
        cases hn : x.isNode with
        | true =>
          cases v with
          | list ts => exact hbelow (Tree.mem_children_of_item hf hx hn) hn
          | _ => simp [Tree.items] at hx
        | false =>
          rw [ofTree_stray hn]
          exact FaultsIn.error ⟨x, ⟨hn, _, hself, _, hf, hx⟩, rfl⟩
    | _ => simp [Tree.isNode] at h

theorem not_stray {t : Tree} {p : Part} (h : ofTree t = .ok p) (x : Tree) : ¬ Stray t x := by
  induction t using Tree.inductionOn generalizing p with
  | h t ih =>
    rintro ⟨hx, n, hn, f, hf, hxf⟩
    obtain ⟨kind, span, fields, ps, rfl, hps, -⟩ := ofTree_eq_ok h
    have hbelow {c : Tree} {q : Part} (hc : c ∈ (Tree.node kind span fields).children) (hq : ofTree c = .ok q)
        (hn : n ∈ c.preorder) : False := ih c hc hq ⟨hx, n, hn, f, hf, hxf⟩
    rcases Tree.mem_preorder_node.1 hn with rfl | ⟨⟨name, v⟩, hg, hn⟩
    · obtain ⟨name, v⟩ := f
      obtain ⟨own, hown⟩ := ofField_of_mem hps hf
      cases hown with
      | list ts items hitems =>
        obtain ⟨q, hq⟩ := ofTree_of_mem_items hitems hxf
        simp [isNode_of_ofTree hq] at hx
      | node _ child hchild =>
        obtain ⟨k, s, fs, -, rfl, -, -⟩ := ofTree_eq_ok hchild
        simp [Tree.items] at hxf
      | _ => simp [Tree.items] at hxf
    · obtain ⟨own, hown⟩ := ofField_of_mem hps hg
      cases hown with
      | list ts items hitems =>
        obtain ⟨c, hc, hn⟩ := Tree.mem_preorder_list.1 hn
        obtain ⟨q, hq⟩ := ofTree_of_mem_items hitems hc
        exact hbelow (Tree.mem_children_of_item hg hc (isNode_of_ofTree hq)) hq hn
      | node _ child hchild =>
        exact hbelow (Tree.mem_children_of_field hg (isNode_of_ofTree hchild)) hchild hn
      | _ => simp [Tree.preorder] at hn

end Part

/-! ## Strays of programs -/

def Form.isNames : Form → Bool
  | .names => true
  | _ => false

def Form.allowsNone : Form → Bool
  | .nodesOrNone _ => true
  | _ => false

def namePlaces : List (String × String) := [("Global", "names"), ("Nonlocal", "names"), ("MatchClass", "kwd_attrs")]

/-- The fields that hold lists in which a node may be left out, with their classes. -/
def gapPlaces : List (String × String) := [("Dict", "keys"), ("arguments", "kw_defaults")]

theorem places_grammar : ∀ g ∈ grammar, ∀ f ∈ g.2,
    f.2.isNames = namePlaces.contains (g.1, f.1) ∧ f.2.allowsNone = gapPlaces.contains (g.1, f.1) := by decide

theorem mem_grammar_of_mem_formsOf {kind : String} {g : String × Form} (h : g ∈ formsOf kind) :
    ∃ forms, (kind, forms) ∈ grammar ∧ g ∈ forms := by
  unfold formsOf at h
  cases hforms : grammar.lookup kind with
  | none => simp [hforms] at h
  | some forms =>
    rw [hforms, Option.getD_some] at h
    obtain ⟨before, after, hsplit, -⟩ := List.lookup_eq_some_iff.1 hforms
    exact ⟨forms, by simp [hsplit], h⟩

theorem places_formsOf {kind : String} {g : String × Form} (h : g ∈ formsOf kind) :
    g.2.isNames = namePlaces.contains (kind, g.1) ∧ g.2.allowsNone = gapPlaces.contains (kind, g.1) := by
  obtain ⟨forms, hforms, hg⟩ := mem_grammar_of_mem_formsOf h
  exact places_grammar _ hforms g hg

theorem holds_of_fieldsHold {fs : List (String × Tree)} {gs : List (String × Form)} (h : fieldsHold fs gs = true)
    {f : String × Tree} (hf : f ∈ fs) : ∃ form, (f.1, form) ∈ gs ∧ form.holds f.2 = true := by
  induction fs generalizing gs with
  | nil => simp at hf
  | cons e fs ih =>
    cases gs with
    | nil => simp [fieldsHold] at h
    | cons g gs =>
      simp only [fieldsHold, Bool.and_eq_true, beq_iff_eq] at h
      rcases List.mem_cons.1 hf with rfl | hf
      · exact ⟨g.2, by simp [h.1.1], h.1.2⟩
      · obtain ⟨form, hform, hholds⟩ := ih h.2 hf
        exact ⟨form, List.mem_cons_of_mem g hform, hholds⟩

theorem Form.holds_items {form : Form} {t x : Tree} (h : form.holds t = true) (hx : x ∈ t.items) :
    x.isNode = true ∧ form.isNames = false ∨ x.isName = true ∧ form.isNames = true ∨
      x.isNone = true ∧ form.allowsNone = true := by
  have hnode {family : String} (hof : x.isOf family = true) : x.isNode = true := (Bool.and_eq_true_iff.1 hof).1
  cases t with
  | node kind span fields => simp [Tree.items] at hx
  | lit v => simp [Tree.items] at hx
  | list ts =>
    cases form with
    | nodes family => exact Or.inl ⟨hnode (List.all_eq_true.1 h x hx), rfl⟩
    | nodesOrNone family =>
      rcases Bool.or_eq_true_iff.1 (List.all_eq_true.1 h x hx) with hnone | hof
      · exact Or.inr (Or.inr ⟨hnone, rfl⟩)
      · exact Or.inl ⟨hnode hof, rfl⟩
    | names => exact Or.inr (Or.inl ⟨List.all_eq_true.1 h x hx, rfl⟩)
    | node family => simp [holds, Tree.isOf, Tree.isNode] at h
    | nodeOrNone family => simp [holds, Tree.isOf, Tree.isNode, Tree.isNone] at h
    | value => simp [holds] at h

namespace Tree

def listsNames (n : Tree) : Bool := n.fields.any fun f => namePlaces.contains (n.kind, f.1) && !f.2.items.isEmpty

/-- The node has a list in which a node is left out. -/
def leavesGap (n : Tree) : Bool := n.fields.any fun f => gapPlaces.contains (n.kind, f.1) && f.2.items.any isNone

variable {t n x : Tree} {f : String × Tree}

theorem not_isNode_of_isName (h : x.isName = true) : x.isNode = false := by
  cases x with
  | node kind span fields => simp [isName] at h
  | _ => rfl

theorem eq_none_of_isNone (h : x.isNone = true) : x = .lit .none := by
  unfold isNone at h
  split at h
  · rfl
  · cases h

theorem IsGrammatical.form (h : t.isGrammatical = true) (hn : n ∈ t.preorder) (hf : f ∈ n.fields) :
    ∃ form, (f.1, form) ∈ formsOf n.kind ∧ form.holds f.2 = true :=
  holds_of_fieldsHold (List.all_eq_true.1 (Bool.and_eq_true_iff.1 h).2 n hn) hf

theorem stray_cases (h : t.isGrammatical = true) (hx : Stray t x) :
    (x.isName = true ∧ ∃ n ∈ t.preorder, n.listsNames = true) ∨
      (x.isNone = true ∧ ∃ n ∈ t.preorder, n.leavesGap = true) := by
  obtain ⟨hnot, n, hn, f, hf, hxf⟩ := hx
  obtain ⟨form, hform, hholds⟩ := IsGrammatical.form h hn hf
  obtain ⟨hnames, hgaps⟩ := places_formsOf hform
  rcases Form.holds_items hholds hxf with ⟨hnode, -⟩ | ⟨hname, hisNames⟩ | ⟨hnone, hallows⟩
  · simp [hnode] at hnot
  · refine Or.inl ⟨hname, n, hn, List.any_eq_true.2 ⟨f, hf, ?_⟩⟩
    rw [Bool.and_eq_true, ← hnames]
    exact ⟨hisNames, by simpa using List.ne_nil_of_mem hxf⟩
  · refine Or.inr ⟨hnone, n, hn, List.any_eq_true.2 ⟨f, hf, ?_⟩⟩
    rw [Bool.and_eq_true, ← hgaps]
    exact ⟨hallows, List.any_eq_true.2 ⟨x, hxf, hnone⟩⟩

theorem exists_stray_of_listsNames (h : t.isGrammatical = true) (hn : n ∈ t.preorder) (hl : n.listsNames = true) :
    ∃ x, Stray t x := by
  obtain ⟨f, hf, hplace⟩ := List.any_eq_true.1 hl
  obtain ⟨hcontains, hne⟩ := Bool.and_eq_true_iff.1 hplace
  obtain ⟨x, hx⟩ := List.exists_mem_of_ne_nil f.2.items (by simpa using hne)
  obtain ⟨form, hform, hholds⟩ := IsGrammatical.form h hn hf
  have hnames : form.isNames = true := (places_formsOf hform).1.trans hcontains
  refine ⟨x, ?_, n, hn, f, hf, hx⟩
  rcases Form.holds_items hholds hx with ⟨-, hnot⟩ | ⟨hname, -⟩ | ⟨hnone, -⟩
  · simp [hnames] at hnot
  · exact not_isNode_of_isName hname
  · rw [eq_none_of_isNone hnone]
    rfl

theorem exists_stray_of_leavesGap (hn : n ∈ t.preorder) (hl : n.leavesGap = true) : ∃ x, Stray t x := by
  obtain ⟨f, hf, hplace⟩ := List.any_eq_true.1 hl
  obtain ⟨x, hx, hnone⟩ := List.any_eq_true.1 (Bool.and_eq_true_iff.1 hplace).2
  refine ⟨x, ?_, n, hn, f, hf, hx⟩
  rw [eq_none_of_isNone hnone]
  rfl

end Tree

namespace Part

theorem strayFault_of_isName {x : Tree} (h : x.isName = true) : strayFault x = .noAttribute := by
  unfold Tree.isName at h
  split at h
  · next s =>
    have hs : (Literal.text s).isFalsy = false := by simpa [Literal.isFalsy] using h
    simp [strayFault, hs]
  · cases h

/-- The programs that can be taken apart: those in which no node lists names and no list has a node left out. The others
are refused for one of the two, a name having no fields and nothing being no part. -/
theorem ofTree_ok_iff_accepted (t : Tree) (h : t.isGrammatical = true) :
    ((∃ p, ofTree t = .ok p) ↔ ∀ n ∈ t.preorder, n.listsNames = false ∧ n.leavesGap = false) ∧
    ∀ f, ofTree t = .error f →
      (f = .noAttribute ∧ ∃ n ∈ t.preorder, n.listsNames = true) ∨
      (f = nothingGiven ∧ ∃ n ∈ t.preorder, n.leavesGap = true) := by
  have hnode : t.isNode = true := (Bool.and_eq_true_iff.1 h).1
  have hfault : ∀ f, ofTree t = .error f →
      (f = .noAttribute ∧ ∃ n ∈ t.preorder, n.listsNames = true) ∨
      (f = nothingGiven ∧ ∃ n ∈ t.preorder, n.leavesGap = true) := by
    intro f hf
    obtain ⟨x, hx, rfl⟩ := exists_stray hnode f hf
    rcases Tree.stray_cases h hx with ⟨hname, hn⟩ | ⟨hnone, hn⟩
    · exact Or.inl ⟨strayFault_of_isName hname, hn⟩
    · rw [Tree.eq_none_of_isNone hnone]
      exact Or.inr ⟨rfl, hn⟩
  refine ⟨⟨?_, ?_⟩, hfault⟩
  · rintro ⟨p, hp⟩ n hn
    constructor
    · refine Bool.eq_false_iff.2 fun hl => ?_
      obtain ⟨x, hx⟩ := Tree.exists_stray_of_listsNames h hn hl
      exact not_stray hp x hx
    · refine Bool.eq_false_iff.2 fun hl => ?_
      obtain ⟨x, hx⟩ := Tree.exists_stray_of_leavesGap hn hl
      exact not_stray hp x hx
  · intro hall
    cases hp : ofTree t with
    | ok p => exact ⟨p, rfl⟩
    | error f =>
      rcases hfault f hp with ⟨-, n, hn, hl⟩ | ⟨-, n, hn, hl⟩
      · simp [(hall n hn).1] at hl
      · simp [(hall n hn).2] at hl

def keywordOnly (default : Tree) : Tree :=
  .node "Module" none [
    ("body", .list [.node "FunctionDef" none [
      ("name", .lit (.text "f")),
      ("args", .node "arguments" none [
        ("posonlyargs", .list []),
        ("args", .list []),
        ("vararg", .lit .none),
        ("kwonlyargs", .list [.node "arg" none [
          ("arg", .lit (.text "a")), ("annotation", .lit .none), ("type_comment", .lit .none)]]),
        ("kw_defaults", .list [default]),
        ("kwarg", .lit .none),
        ("defaults", .list [])]),
      ("body", .list [.node "Pass" none []]),
      ("decorator_list", .list []),
      ("returns", .lit .none),
      ("type_comment", .lit .none)]]),
    ("type_ignores", .list [])]

theorem ofTree_ok_iff_accepted_default :
    let t := keywordOnly (.node "Constant" none [("value", .lit (.int 1)), ("kind", .lit .none)])
    t.isGrammatical = true ∧ (∀ n ∈ t.preorder, n.listsNames = false ∧ n.leavesGap = false) ∧ ∃ p, ofTree t = .ok p := by
  have hgrammar : (keywordOnly (.node "Constant" none [("value", .lit (.int 1)), ("kind", .lit .none)])).isGrammatical =
      true := by decide
  have hall : ∀ n ∈ (keywordOnly (.node "Constant" none [("value", .lit (.int 1)), ("kind", .lit .none)])).preorder,
      n.listsNames = false ∧ n.leavesGap = false := by decide
  exact ⟨hgrammar, hall, (ofTree_ok_iff_accepted _ hgrammar).1.2 hall⟩

/-- A program that declares a name as global is refused, and one with a keyword-only argument without a default. -/
theorem ofTree_global :
    let declared : Tree := .node "Module" none [
      ("body", .list [.node "Global" none [("names", .list [.lit (.text "x")])]]), ("type_ignores", .list [])]
    declared.isGrammatical = true ∧ ofTree declared = .error .noAttribute ∧
    (keywordOnly (.lit .none)).isGrammatical = true ∧ ofTree (keywordOnly (.lit .none)) = .error nothingGiven :=
  ⟨by decide, rfl, by decide, rfl⟩

end Part

end PlotAdvisor.Program
