import PlotAdvisor.Proofs.SideBySide
import PlotAdvisor.Proofs.UsedFunctions

/-! Programs that draw through the interactive module. Its name and that of the plotting module go into every path that
a program reaches from them, through assignments as well, and the first step of the normal form brings the paths
together as long as the first part behind the module is a function that both have. So two runs of a program are
compared by pairs of texts that are either the same or such a path from either module. -/
set_option autoImplicit false

namespace PlotAdvisor.Elements

open Program Text

/-! ## Paths from either module -/

inductive Twin (functions : List String) : String → String → Prop
  | same (s : String) : Twin functions s s
  | member {f tail : String} (hf : f ∈ functions) (hdot : '.' ∉ f.toList) (hat : '@' ∉ f.toList) (htail : GoesOn tail) :
    Twin functions ("pylab" ++ "." ++ (f ++ tail)) ("matplotlib.pyplot" ++ "." ++ (f ++ tail))

theorem goesOn_dot (s : String) : GoesOn ("." ++ s) := by
  intro c hc
  exact Or.inl (by simpa [eq_comm] using hc)

theorem goesOn_at (s : String) : GoesOn ("@" ++ s) := by
  intro c hc
  exact Or.inr (by simpa [eq_comm] using hc)

theorem GoesOn.append {s t : String} (hs : GoesOn s) (ht : GoesOn t) : GoesOn (s ++ t) := by
  intro c hc
  rw [String.toList_append, List.head?_append] at hc
  cases h : s.toList.head? with
  | none => exact ht c (by simpa [h] using hc)
  | some d => exact hs c (by simpa [h] using hc)

theorem Twin.append {functions : List String} {u v s : String} (h : Twin functions u v) (hs : GoesOn s) :
    Twin functions (u ++ s) (v ++ s) := by
  cases h with
  | same => exact .same _
  | member hf hdot hat htail =>
    have h := Twin.member hf hdot hat (htail.append hs)
    simpa only [String.append_assoc] using h

theorem Twin.simplify {n : Normalizer} {u v : String} (h : Twin n.functions u v) : n.simplify u = n.simplify v := by
  cases h with
  | same => rfl
  | @member f tail hf hdot hat htail =>
    have hname : beforeAt (upTo '.' (f ++ tail)) = f := by
      rw [beforeAt_eq]
      exact upTo_goesOn hdot hat htail
    have hfirst : upTo '.' ("matplotlib.pyplot" ++ "." ++ (f ++ tail)) ≠ "pylab" := by
      have hmodule := upTo_dot "matplotlib" ("pyplot" ++ "." ++ (f ++ tail)) (by decide)
      have hpath : "matplotlib" ++ "." ++ ("pyplot" ++ "." ++ (f ++ tail)) =
          "matplotlib.pyplot" ++ "." ++ (f ++ tail) := by
        rw [← String.append_assoc, ← String.append_assoc]
        rfl
      rw [hpath] at hmodule
      rw [hmodule]
      decide
    rw [Normalizer.simplify, Normalizer.simplify, fromInteractive_pylab, hname, if_pos hf,
      fromInteractive_of_first_ne _ hfirst]

/-! ## A name for the module -/

/-- Wherever a name stands in a tree, the node right above it is an attribute access, and the attribute, a word without
dots, is a function of the plotting module. -/
def OnlyMembers (functions : List String) (x : String) (t : Tree) : Prop :=
  ∀ p ∈ t.preorder, ∀ c ∈ p.children, c.kind = "Name" → c.fieldText? "id" = some x →
    p.kind = "Attribute" ∧ ∃ f ∈ functions, p.fieldText? "attr" = some f ∧ '.' ∉ f.toList ∧ '@' ∉ f.toList

instance (functions : List String) (x : String) (t : Tree) : Decidable (OnlyMembers functions x t) :=
  inferInstanceAs (Decidable (∀ p ∈ t.preorder, ∀ c ∈ p.children, c.kind = "Name" → c.fieldText? "id" = some x →
    p.kind = "Attribute" ∧ ∃ f ∈ functions, p.fieldText? "attr" = some f ∧ '.' ∉ f.toList ∧ '@' ∉ f.toList))

/-- Tables of names that agree up to the module, which `x` stands for itself as long as nothing else is bound to it. -/
def Alike (functions : List String) (x : String) : Names → Names → Prop :=
  Corresponding (fun _ => True) id fun z u v => Twin functions u v ∨ z = x ∧ u = "pylab" ∧ v = "matplotlib.pyplot"

section
variable {functions : List String} {x : String} {t : Tree}

theorem OnlyMembers.field (h : OnlyMembers functions x t) (name : String) : OnlyMembers functions x (t.field name) :=
  fun p hp => h p (Tree.mem_preorder_of_field hp)

theorem OnlyMembers.outermost {isOne : String → Bool} (h : OnlyMembers functions x t) {c : Tree}
    (hc : c ∈ outermost isOne t) : OnlyMembers functions x c :=
  fun p hp => h p (mem_preorder_of_mem_outermost hc hp)

theorem OnlyMembers.attribute (h : OnlyMembers functions x t) {name : String} (hkind : (t.field name).kind = "Name")
    (hid : (t.field name).fieldText? "id" = some x) :
    t.kind = "Attribute" ∧ ∃ f ∈ functions, t.fieldText? "attr" = some f ∧ '.' ∉ f.toList ∧ '@' ∉ f.toList := by
  have hchild : t.field name ∈ t.children := Tree.field_mem_children (Tree.isNode_of_kind (by simp [hkind]))
  have hself : t ∈ t.preorder := by
    cases t with
    | node kind span fields => exact Tree.mem_preorder_self rfl
    | list ts => simp [Tree.children, Tree.fields] at hchild
    | lit v => simp [Tree.children, Tree.fields] at hchild
  exact h t hself _ hchild hkind hid

variable {names others : Names}

theorem head_twin (h : Alike functions x names others) (t : Tree) (ht : OnlyMembers functions x t) :
    t.kind = "Name" ∧ t.fieldText? "id" = some x ∨ Twin functions (head names t) (head others t) := by
  induction t using headInduction with
  | call t hkind ih =>
    rw [head_of_call names hkind, head_of_call others hkind]
    refine Or.inr ((ih (ht.field "func")).resolve_left ?_)
    rintro ⟨hname, hid⟩
    exact absurd (hkind.symm.trans (ht.attribute hname hid).1) (by decide)
  | subscript t hkind ih =>
    rw [head_of_subscript names hkind, head_of_subscript others hkind]
    refine Or.inr ((ih (ht.field "value")).resolve_left ?_)
    rintro ⟨hname, hid⟩
    exact absurd (hkind.symm.trans (ht.attribute hname hid).1) (by decide)
  | access t hkind ih =>
    rw [head_of_attribute names hkind, head_of_attribute others hkind, String.append_assoc, String.append_assoc]
    refine Or.inr ?_
    rcases ih (ht.field "value") with ⟨hname, hid⟩ | htwin
    · obtain ⟨-, f, hf, hattr, hdot, hat⟩ := ht.attribute hname hid
      rw [head_of_name names hname, head_of_name others hname, hid, hattr]
      rcases h x trivial with htwin | ⟨-, hu, hv⟩
      · exact htwin.append (goesOn_dot f)
      · -- here the paths part: the module, a dot and the function
        have hmember : Twin functions ("pylab" ++ "." ++ (f ++ "")) ("matplotlib.pyplot" ++ "." ++ (f ++ "")) :=
          .member hf hdot hat nofun
        simp only [rootValue, Option.elim_some, Option.getD_some]
        rw [hu, show others.getD x x = "matplotlib.pyplot" from hv]
        simpa only [String.append_empty, String.append_assoc] using hmember
    · exact htwin.append (goesOn_dot _)
  | name t hkind =>
    rw [head_of_name names hkind, head_of_name others hkind]
    cases hid : t.fieldText? "id" with
    | none => exact Or.inr (.same _)
    | some z =>
      rcases h z trivial with htwin | ⟨rfl, -, -⟩
      · exact Or.inr htwin
      · exact Or.inl ⟨hkind, rfl⟩
  | other t hkind =>
    refine Or.inr ?_
    cases t with
    | node kind span fields =>
      rw [head_of_other names rfl hkind, head_of_other others rfl hkind]
      exact .same _
    | list ts =>
      rw [head, head]
      exact .same _
    | lit v =>
      rw [head, head]
      exact .same _

theorem head_twin_of_call (h : Alike functions x names others) (ht : OnlyMembers functions x t) {c : Tree}
    (hc : c ∈ generalCallNodes t) : Twin functions (head names c) (head others c) := by
  refine (head_twin h c (ht.outermost hc)).resolve_left ?_
  rintro ⟨hname, -⟩
  have hcall : isGeneralCall c.kind = true := isOne_of_mem_outermost hc
  rw [hname] at hcall
  exact absurd hcall (by decide)

theorem firstHead_twin (h : Alike functions x names others) (ht : OnlyMembers functions x t) :
    Twin functions (firstHead names t) (firstHead others t) := by
  unfold firstHead
  cases hc : (generalCallNodes t).head? with
  | none => exact .same _
  | some c => exact head_twin_of_call h ht (List.mem_of_mem_head? hc)

end

/-! ## Two runs -/

theorem usesAt_twin {n : Normalizer} {names others : Names} {c : Tree}
    (h : Twin n.functions (head names c) (head others c)) :
    (usesAt names c).map (fun u => n.simplify u.id) = (usesAt others c).map fun u => n.simplify u.id := by
  obtain ⟨marks, hids⟩ := usesOf_ids c
  have hmap (ns : Names) : (usesAt ns c).map (fun u => n.simplify u.id) =
      n.simplify (head ns c) :: marks.map fun m => n.simplify (head ns c ++ ("@" ++ m)) := by
    have hsplit : (usesAt ns c).map (fun u => n.simplify u.id) = ((usesAt ns c).map Use.id).map n.simplify := by
      simp only [List.map_map, Function.comp_def]
    rw [hsplit, usesAt, hids, List.map_cons, List.map_map, Function.comp_def]
  have hmarks : ∀ m ∈ marks, n.simplify (head names c ++ ("@" ++ m)) = n.simplify (head others c ++ ("@" ++ m)) :=
    fun m _ => (h.append (goesOn_at m)).simplify
  rw [hmap, hmap, h.simplify, List.map_congr_left hmarks]

theorem follow_alike {n : Normalizer} {x : String} {t : Tree} (ht : OnlyMembers n.functions x t) {names others : Names}
    (h : Alike n.functions x names others) :
    (follow false names t).2.map (fun u => n.simplify u.id) =
        (follow false others t).2.map (fun u => n.simplify u.id) ∧
      Alike n.functions x (follow false names t).1 (follow false others t).1 := by
  constructor
  · refine follow_uses_related _ (fun t => t) (by simp) fun c hc => ?_
    exact usesAt_twin (head_twin_of_call h ht (mem_generalCallNodes hc))
  · by_cases himp : t.kind = "Import" ∨ t.kind = "ImportFrom"
    · refine Corresponding.follow h (fun a b _ _ hab => hab) (bindingsWith "" t) Prod.fst Prod.snd Prod.snd ?_ ?_
        fun e _ => ⟨trivial, Or.inl (.same e.2)⟩
      · rw [bindingsWith_of_import _ "" himp]
        simp
      · rw [bindingsWith_of_import _ "" himp]
        simp
    · exact Corresponding.follow h (fun a b _ _ hab => hab) (targetNames t) id (fun _ => firstHead names t)
        (fun _ => firstHead others t) (bindingsWith_of_not_import _ himp) (bindingsWith_of_not_import _ himp)
        fun z _ => ⟨trivial, Or.inl (firstHead_twin h ht)⟩

theorem alike_bindAs (functions : List String) (names : Names) (x : String) :
    Alike functions x (bindAs names "pylab" x) (bindAs names "matplotlib.pyplot" x) := by
  intro z _
  by_cases hz : z = x
  · by_cases hx : x = ""
    · exact Or.inl (by simpa [bindAs, hx] using Twin.same _)
    · subst hz
      exact Or.inr ⟨rfl, getD_bindAs_self names "pylab" hx, getD_bindAs_self names "matplotlib.pyplot" hx⟩
  · refine Or.inl ?_
    rw [getD_bindAs_of_ne names "pylab" hz, id, getD_bindAs_of_ne names "matplotlib.pyplot" hz]
    exact .same _

/-- A module that begins with `import pylab as x` or with `import matplotlib.pyplot as x`, and for the rest uses the
name `x` only to get at functions of the plotting module, uses the same elements in normal form. -/
theorem interactive_used (n : Normalizer) (names : Names) (x : String) (body ignores : List Tree)
    (place itemPlace place' itemPlace' : Option Span) (h : OnlyMembers n.functions x (moduleOf body ignores)) :
    (Context.ofTree n names (moduleOf (importAs place itemPlace "pylab" x :: body) ignores)).1.used =
      (Context.ofTree n names (moduleOf (importAs place' itemPlace' "matplotlib.pyplot" x :: body) ignores)).1.used := by
  have hused (program : Tree) : (Context.ofTree n names program).1.used =
      (extract false names program).2.map fun u => n.simplify u.id := by
    simp [Context.ofTree, Context.used, Function.comp_def]
  rw [hused, hused, extract_importing, extract_importing]
  have hsame := followAll_related (R := Alike n.functions x) (fun u => n.simplify u.id) (fun t => t)
    (outermost isFollowed (moduleOf body ignores)) (fun t ht ns os => follow_alike (h.outermost ht))
    (alike_bindAs n.functions names x)
  rwa [List.map_id'] at hsame

/-- The program `a = p.gca(); a.plot(1)`, after an import of `p`. -/
def throughAxes : List Tree :=
  let gca : Tree := .node "Attribute" (Extractor.range 23 28) [
    ("value", Extractor.nameNode "p" "Load" 23 24), ("attr", .lit (.text "gca")), ("ctx", .node "Load" none [])]
  let plot : Tree := .node "Attribute" (Extractor.range 32 38) [
    ("value", Extractor.nameNode "a" "Load" 32 33), ("attr", .lit (.text "plot")), ("ctx", .node "Load" none [])]
  let one : Tree := .node "Constant" (Extractor.range 39 40) [("value", .lit (.int 1)), ("kind", .lit .none)]
  [.node "Assign" (Extractor.range 19 30) [
    ("targets", .list [Extractor.nameNode "a" "Store" 19 20]),
    ("value", .node "Call" (Extractor.range 23 30) [("func", gca), ("args", .list []), ("keywords", .list [])]),
    ("type_comment", .lit .none)],
   .node "Expr" (Extractor.range 32 41) [
    ("value", .node "Call" (Extractor.range 32 41) [("func", plot), ("args", .list [one]), ("keywords", .list [])])]]

theorem interactive_used_throughAxes :
    let n := shippedWith ["gca", "plot"]
    OnlyMembers n.functions "p" (moduleOf throughAxes []) ∧
    (Context.ofTree n .empty (moduleOf (importAs none none "pylab" "p" :: throughAxes) [])).1.used =
      ["plt.gca", "plt.plot", "plt.plot@0"] := by
  intro n
  have h : OnlyMembers n.functions "p" (moduleOf throughAxes []) := by decide
  refine ⟨h, (interactive_used n .empty "p" throughAxes [] none none none none h).trans ?_⟩
  decide +kernel

end PlotAdvisor.Elements
