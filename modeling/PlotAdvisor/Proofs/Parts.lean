import PlotAdvisor.Proofs.Growth

/-! The parts of a syntax tree, seen alike whatever they are: a symbol, what is below it, and the parts that
stand there. Partial trees, counts and depths are sums over these, and the parts of a tree whose fields are
named fit one below the other.

* `Part.inductionOn` - a property of parts passes from the parts below a part to the part.
* `Part.partialsFrom_eq` - the partial trees of a part are its own and those of the parts below it.
* `Part.regular_of_ofTree` - below each part of a tree stands what fits.
-/
set_option autoImplicit false

namespace PlotAdvisor.Program

namespace Part

/-! ## What is below a part -/

def children : Part → Below
  | .node _ fields => .many (fields.map symbol)
  | .one _ child => .one child.symbol
  | .many _ children => .many (children.map symbol)
  | .bare _ => .many []
  | .leaf _ => .many []

def parts : Part → List Part
  | .node _ fields => fields
  | .one _ child => [child]
  | .many _ children => children
  | .bare _ => []
  | .leaf _ => []

def isInner : Part → Bool
  | .node _ _ => true
  | .one _ _ => true
  | .many _ _ => true
  | .bare _ => false
  | .leaf _ => false

def isLeaf : Part → Bool
  | .leaf _ => true
  | _ => false

theorem symbols_children (p : Part) : p.children.symbols = p.parts.map symbol := by
  cases p <;> rfl

theorem sizeOf_parts {p q : Part} (h : q ∈ p.parts) : sizeOf q < sizeOf p := by
  cases p with
  | node kind fields =>
    have := List.sizeOf_lt_of_mem (show q ∈ fields from h)
    simp only [node.sizeOf_spec]
    omega
  | one name child =>
    obtain rfl : q = child := by simpa [parts] using h
    simp only [one.sizeOf_spec]
    omega
  | many name children =>
    have := List.sizeOf_lt_of_mem (show q ∈ children from h)
    simp only [many.sizeOf_spec]
    omega
  | bare name => simp [parts] at h
  | leaf v => simp [parts] at h

theorem inductionOn {P : Part → Prop} (h : ∀ p : Part, (∀ q ∈ p.parts, P q) → P p) (p : Part) : P p :=
  h p fun q _hq => inductionOn h q
termination_by sizeOf p
decreasing_by exact sizeOf_parts _hq

/-! ## Depth and count -/

mutual

/-- The number of parts from the top to the lowest one that is not a value. -/
def depth : Part → Nat
  | .node _ fields => 1 + depthOfAll fields
  | .one _ child => 1 + child.depth
  | .many _ children => 1 + depthOfAll children
  | .bare _ => 1
  | .leaf _ => 0

def depthOfAll : List Part → Nat
  | [] => 0
  | p :: ps => max p.depth (depthOfAll ps)

end

theorem depth_pos {p : Part} (h : p.isInner = true) : 0 < p.depth := by
  cases p with
  | leaf v => simp [isInner] at h
  | _ => rw [depth]; omega

theorem depth_le_depthOfAll {ps : List Part} {q : Part} (h : q ∈ ps) : q.depth ≤ depthOfAll ps := by
  induction ps with
  | nil => simp at h
  | cons p ps ih =>
    rw [depthOfAll]
    rcases List.mem_cons.1 h with rfl | h
    · exact Nat.le_max_left _ _
    · exact Nat.le_trans (ih h) (Nat.le_max_right _ _)

theorem depth_parts {p q : Part} (h : q ∈ p.parts) : q.depth < p.depth := by
  cases p with
  | node kind fields =>
    have := depth_le_depthOfAll (show q ∈ fields from h)
    rw [depth]
    omega
  | one name child =>
    obtain rfl : q = child := by simpa [parts] using h
    rw [depth.eq_def (.one name q)]
    simp
  | many name children =>
    have := depth_le_depthOfAll (show q ∈ children from h)
    rw [depth]
    omega
  | bare name => simp [parts] at h
  | leaf v => simp [parts] at h

/-! ## Partial trees -/

def here (m : Memory) (above : List Symbol) (before : List Literal) (p : Part) : PartialTree :=
  ⟨m.lastTerminals before, m.nearest above, p.symbol, p.children⟩

theorem partialsFrom_eq (m : Memory) (above : List Symbol) (before : List Literal) {p : Part}
    (h : p.isInner = true) :
    p.partialsFrom m above before =
      (p.here m above before :: (partialsFromAll m (p.symbol :: above) before p.parts).1,
        (partialsFromAll m (p.symbol :: above) before p.parts).2) := by
  cases p with
  | node kind fields => rw [partialsFrom]; rfl
  | one name child =>
    rw [partialsFrom]
    simp only [parts, partialsFromAll, List.append_nil]
    rfl
  | many name children => rw [partialsFrom]; rfl
  | bare name => simp [isInner] at h
  | leaf v => simp [isInner] at h

theorem count_eq {p : Part} (h : p.isInner = true) : p.count = 1 + countAll p.parts := by
  cases p with
  | node kind fields => rw [count]; rfl
  | one name child => rw [count]; simp [parts, countAll]
  | many name children => rw [count]; rfl
  | bare name => simp [isInner] at h
  | leaf v => simp [isInner] at h

theorem length_partialsFromAll (m : Memory) (above : List Symbol) (before : List Literal) {ps : List Part}
    (h : ∀ q ∈ ps, ∀ above before, (q.partialsFrom m above before).1.length = q.count) :
    (partialsFromAll m above before ps).1.length = countAll ps := by
  induction ps generalizing before with
  | nil => rfl
  | cons p ps ih =>
    rw [partialsFromAll, countAll]
    simp only [List.length_append]
    rw [h p List.mem_cons_self, ih _ fun q hq => h q (List.mem_cons_of_mem p hq)]

theorem length_partialsFrom (m : Memory) (above : List Symbol) (before : List Literal) (p : Part) :
    (p.partialsFrom m above before).1.length = p.count := by
  induction p using inductionOn generalizing above before with
  | h p ih =>
    by_cases hp : p.isInner = true
    · rw [partialsFrom_eq m above before hp, count_eq hp, List.length_cons,
        length_partialsFromAll m _ before ih, Nat.add_comm]
    · cases p <;> simp_all [isInner, partialsFrom, count]

/-! ## Parts that fit -/

inductive Regular : Part → Prop
  | intro {p : Part} : p.isInner = true → Fits p.symbol p.children →
      (∀ q ∈ p.parts, q.isLeaf = false → Regular q) → Regular p

theorem Regular.isInner {p : Part} (h : Regular p) : p.isInner = true := by
  cases h with
  | intro hi _ _ => exact hi

theorem Regular.fits {p : Part} (h : Regular p) : Fits p.symbol p.children := by
  cases h with
  | intro _ hf _ => exact hf

theorem Regular.parts {p q : Part} (h : Regular p) (hq : q ∈ p.parts) (hl : q.isLeaf = false) : Regular q := by
  cases h with
  | intro _ _ hp => exact hp q hq hl

theorem regular_node {kind : String} {fields : List Part}
    (h : ∀ q ∈ fields, Regular q ∧ ∃ name, name ≠ "" ∧ q.symbol = .field name) : Regular (.node kind fields) := by
  have hnames : ∃ names : List String, "" ∉ names ∧ fields.map symbol = names.map Symbol.field := by
    induction fields with
    | nil => exact ⟨[], by simp⟩
    | cons f fields ih =>
      obtain ⟨-, name, hne, hf⟩ := h f List.mem_cons_self
      obtain ⟨names, hnot, hns⟩ := ih fun q hq => h q (List.mem_cons_of_mem f hq)
      exact ⟨name :: names, by simp [hne.symm, hnot], by simp [hf, hns]⟩
  obtain ⟨names, hnot, hns⟩ := hnames
  refine .intro rfl ?_ fun q hq _ => (h q hq).1
  change Fits (.node kind) (.many (fields.map symbol))
  rw [hns]
  cases names with
  | nil => exact .noField kind
  | cons n ns => exact .fields kind (n :: ns) (by simp) hnot

theorem regular_many {name : String} {children : List Part}
    (h : ∀ q ∈ children, Regular q ∧ ∃ kind, q.symbol = .node kind) : Regular (.many name children) := by
  have hkinds : ∃ kinds : List String, children.map symbol = kinds.map Symbol.node := by
    induction children with
    | nil => exact ⟨[], rfl⟩
    | cons c children ih =>
      obtain ⟨-, kind, hc⟩ := h c List.mem_cons_self
      obtain ⟨kinds, hks⟩ := ih fun q hq => h q (List.mem_cons_of_mem c hq)
      exact ⟨kind :: kinds, by simp [hc, hks]⟩
  obtain ⟨kinds, hks⟩ := hkinds
  refine .intro rfl ?_ fun q hq _ => (h q hq).1
  change Fits (.field name) (.many (children.map symbol))
  rw [hks]
  cases kinds with
  | nil => exact .noPart name
  | cons k ks => exact .nodes name (k :: ks) (by simp)

theorem regular_one {name : String} {child : Part} (h : Regular child) (hs : ∃ kind, child.symbol = .node kind) :
    Regular (.one name child) := by
  obtain ⟨kind, hs⟩ := hs
  refine .intro rfl ?_ fun q hq _ => ?_
  · change Fits (.field name) (.one child.symbol)
    rw [hs]
    exact .node name kind
  · obtain rfl : q = child := by simpa [Part.parts] using hq
    exact h

theorem regular_value (name : String) (v : Literal) : Regular (.one name (.leaf v)) := by
  refine .intro rfl (.value name v) fun q hq hl => ?_
  obtain rfl : q = .leaf v := by simpa [Part.parts] using hq
  simp [isLeaf] at hl

end Part

/-! ## Nodes of a syntax tree -/

namespace Tree

theorem mem_children_of_field {kind : String} {span : Option Span} {fields : List (String × Tree)} {name : String}
    {c : Tree} (h : (name, c) ∈ fields) (hc : c.isNode = true) : c ∈ (Tree.node kind span fields).children := by
  refine List.mem_flatMap.2 ⟨(name, c), h, ?_⟩
  cases c with
  | node k s fs => exact List.mem_cons_self
  | list ts => simp [isNode] at hc
  | lit v => simp [isNode] at hc

theorem mem_children_of_item {kind : String} {span : Option Span} {fields : List (String × Tree)} {name : String}
    {ts : List Tree} {c : Tree} (h : (name, .list ts) ∈ fields) (ht : c ∈ ts) (hc : c.isNode = true) :
    c ∈ (Tree.node kind span fields).children :=
  List.mem_flatMap.2 ⟨(name, .list ts), h, List.mem_filter.2 ⟨ht, hc⟩⟩

theorem mem_children {kind : String} {span : Option Span} {fields : List (String × Tree)} {c : Tree}
    (h : c ∈ (Tree.node kind span fields).children) :
    ∃ name, (name, c) ∈ fields ∨ ∃ ts, (name, .list ts) ∈ fields ∧ c ∈ ts := by
  obtain ⟨⟨name, v⟩, hf, hc⟩ := List.mem_flatMap.1 h
  cases v with
  | node k s fs =>
    obtain rfl : c = .node k s fs := by simpa using hc
    exact ⟨name, Or.inl hf⟩
  | list ts => exact ⟨name, Or.inr ⟨ts, hf, (List.mem_filter.1 hc).1⟩⟩
  | lit v => simp at hc

theorem sizeOf_children {t c : Tree} (h : c ∈ t.children) : sizeOf c < sizeOf t := by
  cases t with
  | node kind span fields =>
    obtain ⟨name, hf | ⟨ts, hf, hc⟩⟩ := mem_children h
    · have := List.sizeOf_lt_of_mem hf
      simp only [node.sizeOf_spec, Prod.mk.sizeOf_spec] at this ⊢
      omega
    · have := List.sizeOf_lt_of_mem hf
      have := List.sizeOf_lt_of_mem hc
      simp only [node.sizeOf_spec, Prod.mk.sizeOf_spec, list.sizeOf_spec] at *
      omega
  | list ts => simp [children, fields] at h
  | lit v => simp [children, fields] at h

theorem inductionOn {P : Tree → Prop} (h : ∀ t : Tree, (∀ c ∈ t.children, P c) → P t) (t : Tree) : P t :=
  h t fun c _hc => inductionOn h c
termination_by sizeOf t
decreasing_by exact sizeOf_children _hc

theorem preorderItems_eq (ts : List Tree) : preorderItems ts = ts.flatMap preorder := by
  induction ts with
  | nil => rfl
  | cons t ts ih => rw [preorderItems, ih, List.flatMap_cons]

theorem preorderFields_eq (fs : List (String × Tree)) : preorderFields fs = fs.flatMap fun f => f.2.preorder := by
  induction fs with
  | nil => rfl
  | cons f fs ih => rw [preorderFields, ih, List.flatMap_cons]

theorem mem_preorder_node {kind : String} {span : Option Span} {fields : List (String × Tree)} {n : Tree} :
    n ∈ (Tree.node kind span fields).preorder ↔
      n = .node kind span fields ∨ ∃ f ∈ fields, n ∈ f.2.preorder := by
  rw [preorder, preorderFields_eq, List.mem_cons, List.mem_flatMap]

theorem mem_preorder_list {ts : List Tree} {n : Tree} : n ∈ (Tree.list ts).preorder ↔ ∃ t ∈ ts, n ∈ t.preorder := by
  rw [preorder, preorderItems_eq, List.mem_flatMap]

theorem mem_preorder_of_children {t c n : Tree} (hc : c ∈ t.children) (hn : n ∈ c.preorder) : n ∈ t.preorder := by
  cases t with
  | node kind span fields =>
    refine mem_preorder_node.2 (Or.inr ?_)
    obtain ⟨name, hf | ⟨ts, hf, hc⟩⟩ := mem_children hc
    · exact ⟨(name, c), hf, hn⟩
    · exact ⟨(name, .list ts), hf, mem_preorder_list.2 ⟨c, hc, hn⟩⟩
  | list ts => simp [children, fields] at hc
  | lit v => simp [children, fields] at hc

def Named (t : Tree) : Prop := ∀ n ∈ t.preorder, ∀ f ∈ n.fields, f.1 ≠ ""

instance (t : Tree) : Decidable t.Named :=
  inferInstanceAs (Decidable (∀ n ∈ t.preorder, ∀ f ∈ n.fields, f.1 ≠ ""))

theorem Named.children {t c : Tree} (h : t.Named) (hc : c ∈ t.children) : c.Named :=
  fun n hn => h n (mem_preorder_of_children hc hn)

end Tree

namespace Part

/-! ## Parts of a syntax tree -/

theorem ofTree_eq_ok {t : Tree} {p : Part} (h : ofTree t = .ok p) :
    ∃ kind span fields ps, t = .node kind span fields ∧ ofFields fields = .ok ps ∧ p = .node kind ps := by
  cases t with
  | node kind span fields =>
    rw [ofTree] at h
    obtain ⟨ps, hps, hp⟩ := bind_eq_ok h
    exact ⟨kind, span, fields, ps, rfl, hps, (Except.ok.inj hp).symm⟩
  | list ts => cases ts <;> simp [ofTree] at h
  | lit v => simp [ofTree] at h

inductive OfField (name : String) : Tree → List Part → Prop
  | none : OfField name (.lit .none) []
  | value (v : Literal) : v ≠ .none → OfField name (.lit v) [.one name (.leaf v)]
  | list (ts : List Tree) (items : List Part) : ofItems ts = .ok items → OfField name (.list ts) [.many name items]
  | node (t : Tree) (child : Part) : ofTree t = .ok child → OfField name t [.one name child]

theorem ofFields_cons {name : String} {t : Tree} {rest : List (String × Tree)} {ps : List Part}
    (h : ofFields ((name, t) :: rest) = .ok ps) :
    ∃ own others, OfField name t own ∧ ofFields rest = .ok others ∧ ps = own ++ others := by
  cases t with
  | node kind span fields =>
    rw [ofFields] at h
    · obtain ⟨child, hchild, h⟩ := bind_eq_ok h
      obtain ⟨others, hothers, h⟩ := bind_eq_ok h
      exact ⟨_, others, .node _ child hchild, hothers, (Except.ok.inj h).symm⟩
    all_goals simp
  | list ts =>
    rw [ofFields] at h
    obtain ⟨items, hitems, h⟩ := bind_eq_ok h
    obtain ⟨others, hothers, h⟩ := bind_eq_ok h
    exact ⟨_, others, .list ts items hitems, hothers, (Except.ok.inj h).symm⟩
  | lit v =>
    by_cases hv : v = .none
    · subst hv
      exact ⟨[], ps, .none, h, rfl⟩
    · rw [ofFields] at h
      · obtain ⟨others, hothers, h⟩ := bind_eq_ok h
        exact ⟨_, others, .value v hv, hothers, (Except.ok.inj h).symm⟩
      · exact hv

theorem ofItems_cons {t : Tree} {rest : List Tree} {ps : List Part} (h : ofItems (t :: rest) = .ok ps) :
    ∃ p others, ofTree t = .ok p ∧ ofItems rest = .ok others ∧ ps = p :: others := by
  rw [ofItems] at h
  obtain ⟨p, hp, h⟩ := bind_eq_ok h
  obtain ⟨others, hothers, h⟩ := bind_eq_ok h
  exact ⟨p, others, hp, hothers, (Except.ok.inj h).symm⟩

theorem isNode_of_ofTree {t : Tree} {p : Part} (h : ofTree t = .ok p) : t.isNode = true := by
  obtain ⟨kind, span, fields, ps, rfl, -, -⟩ := ofTree_eq_ok h
  rfl

theorem symbol_of_ofTree {t : Tree} {p : Part} (h : ofTree t = .ok p) : p.symbol = .node t.kind := by
  obtain ⟨kind, span, fields, ps, rfl, -, rfl⟩ := ofTree_eq_ok h
  rfl

theorem mem_of_mem_ofItems {ts : List Tree} {ps : List Part} (h : ofItems ts = .ok ps) {q : Part} (hq : q ∈ ps) :
    ∃ t ∈ ts, ofTree t = .ok q := by
  induction ts generalizing ps with
  | nil =>
    obtain rfl := Except.ok.inj h
    simp at hq
  | cons t ts ih =>
    obtain ⟨p, others, hp, hothers, rfl⟩ := ofItems_cons h
    rcases List.mem_cons.1 hq with rfl | hq
    · exact ⟨t, List.mem_cons_self, hp⟩
    · obtain ⟨u, hu, hq⟩ := ih hothers hq
      exact ⟨u, List.mem_cons_of_mem t hu, hq⟩

theorem mem_of_mem_ofFields {fs : List (String × Tree)} {ps : List Part} (h : ofFields fs = .ok ps) {q : Part}
    (hq : q ∈ ps) : ∃ name t own, (name, t) ∈ fs ∧ OfField name t own ∧ q ∈ own := by
  induction fs generalizing ps with
  | nil =>
    obtain rfl := Except.ok.inj h
    simp at hq
  | cons f fs ih =>
    obtain ⟨own, others, hown, hothers, rfl⟩ := ofFields_cons h
    rcases List.mem_append.1 hq with hq | hq
    · exact ⟨f.1, f.2, own, List.mem_cons_self, hown, hq⟩
    · obtain ⟨name, t, own, hf, hown, hq⟩ := ih hothers hq
      exact ⟨name, t, own, List.mem_cons_of_mem f hf, hown, hq⟩

theorem ofTree_of_mem_items {ts : List Tree} {ps : List Part} (h : ofItems ts = .ok ps) {t : Tree} (ht : t ∈ ts) :
    ∃ p, ofTree t = .ok p := by
  induction ts generalizing ps with
  | nil => simp at ht
  | cons u ts ih =>
    obtain ⟨p, others, hp, hothers, -⟩ := ofItems_cons h
    rcases List.mem_cons.1 ht with rfl | ht
    · exact ⟨p, hp⟩
    · exact ih hothers ht

theorem ofField_of_mem {fs : List (String × Tree)} {ps : List Part} (h : ofFields fs = .ok ps) {f : String × Tree}
    (hf : f ∈ fs) : ∃ own, OfField f.1 f.2 own := by
  induction fs generalizing ps with
  | nil => simp at hf
  | cons e fs ih =>
    obtain ⟨own, others, hown, hothers, -⟩ := ofFields_cons h
    rcases List.mem_cons.1 hf with rfl | hf
    · exact ⟨own, hown⟩
    · exact ih hothers hf

theorem regular_of_ofTree {t : Tree} {p : Part} (hn : t.Named) (h : ofTree t = .ok p) : Regular p := by
  induction t using Tree.inductionOn generalizing p with
  | h t ih =>
    obtain ⟨kind, span, fields, ps, rfl, hps, rfl⟩ := ofTree_eq_ok h
    refine regular_node fun q hq => ?_
    obtain ⟨name, v, own, hf, hown, hq⟩ := mem_of_mem_ofFields hps hq
    have hname : name ≠ "" := hn _ List.mem_cons_self (name, v) hf
    -- a node below the field is one below the tree, so that the induction reaches it
    have hbelow {c : Tree} (hc : c ∈ (Tree.node kind span fields).children) {r : Part} (hr : ofTree c = .ok r) :
        Regular r ∧ ∃ kind, r.symbol = .node kind :=
      ⟨ih c hc (hn.children hc) hr, c.kind, symbol_of_ofTree hr⟩
    cases hown with
    | none => simp at hq
    | value v hv =>
      obtain rfl := List.mem_singleton.1 hq
      exact ⟨regular_value name v, name, hname, rfl⟩
    | list ts items hitems =>
      obtain rfl := List.mem_singleton.1 hq
      refine ⟨regular_many fun r hr => ?_, name, hname, rfl⟩
      obtain ⟨c, hc, hr⟩ := mem_of_mem_ofItems hitems hr
      exact hbelow (Tree.mem_children_of_item hf hc (isNode_of_ofTree hr)) hr
    | node _ child hchild =>
      obtain rfl := List.mem_singleton.1 hq
      have hc := hbelow (Tree.mem_children_of_field hf (isNode_of_ofTree hchild)) hchild
      exact ⟨regular_one hc.1 hc.2, name, hname, rfl⟩

end Part

end PlotAdvisor.Program
