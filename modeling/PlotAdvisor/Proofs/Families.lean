import PlotAdvisor.Proofs.Assignments
import PlotAdvisor.Proofs.PlainNames

/-! Ids in families. The ids at a call are that of its element, which has no `@` in a program without one in its names,
and behind it those of arguments and of keys of tables among the arguments, each behind the id that it extends. The keys
are any texts, so that what stands behind an `@` can hold others.

* `Grown`, `usesOf_grown` - uses that extend what is before them.
* `callsMet`, `followAll_uses` - the uses of a program, call by call.
* `followed`, `extract_eq_followed` - the statements that count where only imports are wanted, or all.
-/
set_option autoImplicit false

namespace PlotAdvisor.Elements

open Program

/-! ## Uses at a call -/

def Grown : List String → List Use → Prop
  | _, [] => True
  | owners, u :: us => (∃ p ∈ owners, ∃ key, u.id = p ++ "@" ++ key) ∧ Grown (u.id :: owners) us

namespace Grown

variable {owners : List String} {us vs : List Use}

theorem mono {others : List String} (h : Grown owners us) (hsub : ∀ p ∈ owners, p ∈ others) : Grown others us := by
  induction us generalizing owners others with
  | nil => trivial
  | cons u us ih =>
    obtain ⟨⟨p, hp, key, hid⟩, hrest⟩ := h
    refine ⟨⟨p, hsub p hp, key, hid⟩, ih hrest fun q hq => ?_⟩
    rcases List.mem_cons.1 hq with rfl | hq
    · exact List.mem_cons_self
    · exact List.mem_cons_of_mem _ (hsub q hq)

theorem append (hu : Grown owners us) (hv : Grown owners vs) : Grown owners (us ++ vs) := by
  induction us generalizing owners with
  | nil => exact hv
  | cons u us ih => exact ⟨hu.1, ih hu.2 (hv.mono fun p hp => List.mem_cons_of_mem _ hp)⟩

theorem flatMap {α : Type} {xs : List α} {f : α → List Use} (h : ∀ a ∈ xs, Grown owners (f a)) :
    Grown owners (xs.flatMap f) := by
  induction xs with
  | nil => trivial
  | cons a xs ih =>
    rw [List.flatMap_cons]
    exact (h a List.mem_cons_self).append (ih fun b hb => h b (List.mem_cons_of_mem a hb))

theorem of_owner {p : String} (hp : p ∈ owners) (h : ∀ u ∈ us, ∃ key, u.id = p ++ "@" ++ key) : Grown owners us := by
  induction us generalizing owners with
  | nil => trivial
  | cons u us ih =>
    refine ⟨⟨p, hp, h u List.mem_cons_self⟩, ih (List.mem_cons_of_mem _ hp) fun v hv => ?_⟩
    exact h v (List.mem_cons_of_mem u hv)

theorem exists_owner {before after : List Use} {u : Use} (h : Grown owners (before ++ u :: after)) :
    ∃ p, (p ∈ owners ∨ ∃ w ∈ before, w.id = p) ∧ ∃ key, u.id = p ++ "@" ++ key := by
  induction before generalizing owners with
  | nil =>
    obtain ⟨⟨p, hp, hkey⟩, -⟩ := h
    exact ⟨p, Or.inl hp, hkey⟩
  | cons w before ih =>
    obtain ⟨p, hp, hkey⟩ := ih h.2
    refine ⟨p, ?_, hkey⟩
    rcases hp with hp | ⟨v, hv, hid⟩
    · rcases List.mem_cons.1 hp with rfl | hp
      · exact Or.inr ⟨w, List.mem_cons_self, rfl⟩
      · exact Or.inl hp
    · exact Or.inr ⟨v, List.mem_cons_of_mem w hv, hid⟩

end Grown

theorem id_of_mem_keyUses {owner : String} {call t : Tree} {u : Use} (h : u ∈ keyUses owner call t) :
    ∃ key, u.id = owner ++ "@" ++ key := by
  have hu : u.id ∈ (keyUses owner call t).map Use.id := List.mem_map_of_mem h
  rw [ids_keyUses] at hu
  obtain ⟨m, -, hm⟩ := List.mem_map.1 hu
  exact ⟨m, by rw [← hm, String.append_assoc]⟩

theorem argument_grown (id key : String) (call node value : Tree) :
    Grown [id] (⟨id ++ "@" ++ key, node, some value, some call⟩ :: keyUses (id ++ "@" ++ key) call value) :=
  ⟨⟨id, List.mem_cons_self, key, rfl⟩, .of_owner List.mem_cons_self fun _ hu => id_of_mem_keyUses hu⟩

theorem usesOf_grown (id : String) (call : Tree) :
    ∃ rest, usesOf id call = ⟨id, call, none, none⟩ :: rest ∧ Grown [id] rest := by
  unfold usesOf
  split
  · refine ⟨_, rfl, Grown.append (.flatMap fun a _ => ?_) (.flatMap fun kw _ => ?_)⟩
    · exact argument_grown id (toString a.2) call a.1 a.1
    · exact argument_grown id (keywordName kw) call kw (kw.field "value")
  · exact ⟨[], rfl, trivial⟩

/-- Every id is without `@`, or it is the id of a use before it with an `@` and a key behind it. -/
def PrefixClosed (us : List Use) : Prop :=
  ∀ before u after, us = before ++ u :: after →
    Plain u.id ∨ ∃ w ∈ before, ∃ key, u.id = w.id ++ "@" ++ key

theorem usesOf_prefixClosed {id : String} (hid : Plain id) (call : Tree) : PrefixClosed (usesOf id call) := by
  intro before u after h
  obtain ⟨rest, huses, hgrown⟩ := usesOf_grown id call
  rw [huses] at h
  cases before with
  | nil =>
    obtain ⟨rfl, -⟩ := List.cons.inj h
    exact Or.inl hid
  | cons first before =>
    obtain ⟨rfl, rfl⟩ := List.cons.inj h
    obtain ⟨p, hp, key, hkey⟩ := hgrown.exists_owner
    rcases hp with hp | ⟨w, hw, rfl⟩
    · obtain rfl : p = id := List.mem_singleton.1 hp
      exact Or.inr ⟨_, List.mem_cons_self, key, hkey⟩
    · exact Or.inr ⟨w, List.mem_cons_of_mem _ hw, key, hkey⟩

/-! ## Calls along a program -/

def callsMet (names : Names) : List Tree → List (Names × Tree)
  | [] => []
  | t :: ts => (callsOf t).map (names, ·) ++ callsMet (follow false names t).1 ts

theorem followAll_uses (names : Names) (ts : List Tree) :
    (followAll names ts).2 = (callsMet names ts).flatMap fun m => usesAt m.1 m.2 := by
  induction ts generalizing names with
  | nil => rfl
  | cons t ts ih => rw [followAll, callsMet, List.flatMap_append, List.flatMap_map, ← ih, ← follow_uses]

section
variable {names : Names} (hnames : PlainTable names) {ts : List Tree} (hts : ∀ t ∈ ts, t.PlainNames)
include hnames hts

theorem callsMet_plain : ∀ m ∈ callsMet names ts, Plain (head m.1 m.2) := by
  induction ts generalizing names with
  | nil => exact fun m hm => absurd hm (by simp [callsMet])
  | cons t ts ih =>
    intro m hm
    have ht : t.PlainNames := hts t List.mem_cons_self
    rcases List.mem_append.1 hm with hm | hm
    · obtain ⟨c, hc, rfl⟩ := List.mem_map.1 hm
      exact head_plain hnames c (outermost_plain isGeneralCall t ht c (mem_generalCallNodes hc))
    · exact ih (plainTable_follow hnames ht) (fun u hu => hts u (List.mem_cons_of_mem t hu)) m hm

theorem bindings_plain : ∀ e ∈ bindings names ts, Plain e.2 := by
  induction ts generalizing names with
  | nil => exact fun e he => absurd he (by simp [bindings])
  | cons t ts ih =>
    intro e he
    have ht : t.PlainNames := hts t List.mem_cons_self
    rcases List.mem_append.1 he with he | he
    · exact bindingsWith_plain (firstHead_plain hnames ht) ht e he
    · exact ih (plainTable_follow hnames ht) (fun u hu => hts u (List.mem_cons_of_mem t hu)) e he

end

/-! ## Programs -/

def followed (importsOnly : Bool) (program : Tree) : List Tree :=
  (statements program).filter fun t => !importsOnly || t.kind == "Import" || t.kind == "ImportFrom"

theorem follow_importsOnly (names : Names) (t : Tree) :
    follow true names t =
      if t.kind == "Import" || t.kind == "ImportFrom" then follow false names t else (names, []) := by
  unfold follow
  split <;> rfl

theorem foldl_follow_importsOnly (ts : List Tree) (names : Names) (uses : List Use) :
    ts.foldl (fun (ns, us) t =>
      let (ns, more) := follow true ns t
      (ns, us ++ more)) (names, uses) =
      let imports := ts.filter fun t => t.kind == "Import" || t.kind == "ImportFrom"
      ((followAll names imports).1, uses ++ (followAll names imports).2) := by
  induction ts generalizing names uses with
  | nil => simp [followAll]
  | cons t ts ih =>
    rw [List.foldl_cons, ih, follow_importsOnly]
    by_cases himport : (t.kind == "Import" || t.kind == "ImportFrom") = true
    · simp only [himport, if_true, List.filter_cons, followAll, List.append_assoc]
    · simp only [himport, if_false, List.filter_cons, List.append_nil, Bool.false_eq_true]

theorem extract_eq_followed (importsOnly : Bool) (names : Names) (program : Tree) :
    extract importsOnly names program = followAll names (followed importsOnly program) := by
  cases importsOnly with
  | false => simp [extract_eq_followAll, followed, statements]
  | true =>
    rw [extract, foldl_follow_importsOnly]
    simp [followed, statements]

/-- A program without `@` in its names, followed from a table without `@` in what names stand for, uses the ids of
families, one for each call that it meets, which are closed under leaving out what stands behind an `@`; and no name is
ever bound to a text with `@`. -/
theorem extract_families (importsOnly : Bool) {names : Names} (hnames : PlainTable names) {program : Tree}
    (hplain : program.PlainNames) :
    ((extract importsOnly names program).2 =
        (callsMet names (followed importsOnly program)).flatMap (fun m => usesAt m.1 m.2) ∧
      ∀ m ∈ callsMet names (followed importsOnly program), PrefixClosed (usesAt m.1 m.2)) ∧
    (extract importsOnly names program).1 = names.setAll (bindings names (followed importsOnly program)) ∧
      ∀ e ∈ bindings names (followed importsOnly program), Plain e.2 := by
  have hstatements : ∀ t ∈ followed importsOnly program, t.PlainNames := fun t ht =>
    outermost_plain isFollowed program hplain t (List.mem_filter.1 ht).1
  rw [extract_eq_followed]
  refine ⟨⟨followAll_uses names _, fun m hm => ?_⟩, followAll_names names _, bindings_plain hnames hstatements⟩
  exact usesOf_prefixClosed (callsMet_plain hnames hstatements m hm) m.2

section
open Extractor

/-- The program `n = GridSpec({'a@b': 1}, box=dict(pad=2))`. -/
def withTables : Tree :=
  let display : Tree := .node "Dict" (range 13 23) [
    ("keys", .list [.node "Constant" (range 14 19) [("value", .lit (.text "a@b")), ("kind", .lit .none)]]),
    ("values", .list [digit 1 21])]
  let pad : Tree := .node "keyword" (range 34 39) [("arg", .lit (.text "pad")), ("value", digit 2 38)]
  let table : Tree := .node "Call" (range 29 40) [
    ("func", nameNode "dict" "Load" 29 33), ("args", .list []), ("keywords", .list [pad])]
  let box : Tree := .node "keyword" (range 25 40) [("arg", .lit (.text "box")), ("value", table)]
  let call : Tree := .node "Call" (range 4 41) [
    ("func", nameNode "GridSpec" "Load" 4 12), ("args", .list [display]), ("keywords", .list [box])]
  moduleOf [assigningN call 0 41] []

theorem extract_families_withTables :
    PlainTable sessionTable ∧ withTables.PlainNames ∧
    (extract false sessionTable withTables).2.map Use.id =
      ["matplotlib.gridspec.GridSpec", "matplotlib.gridspec.GridSpec@0", "matplotlib.gridspec.GridSpec@0@a@b",
        "matplotlib.gridspec.GridSpec@box", "matplotlib.gridspec.GridSpec@box@pad"] ∧
    (∀ m ∈ callsMet sessionTable (followed false withTables), PrefixClosed (usesAt m.1 m.2)) ∧
    ∀ e ∈ bindings sessionTable (followed false withTables), Plain e.2 := by
  have hplain : withTables.PlainNames := by decide
  obtain ⟨⟨-, hclosed⟩, -, hbound⟩ := extract_families false plainTable_session hplain
  exact ⟨plainTable_session, hplain, by decide, hclosed, hbound⟩

end

end PlotAdvisor.Elements
