import PlotAdvisor.Mining.Calls
import PlotAdvisor.Proofs.CoOccurrence
import PlotAdvisor.Proofs.Outermost

/-! The known functions that a program calls, and their known keywords. The calls are the outermost ones of the
program, told by their paths. Each sets the keywords of its function anew, so that of several calls of a function the
last one counts alone. -/
set_option autoImplicit false

namespace PlotAdvisor

theorem Table.get?_setAll_last {κ ν : Type} [BEq κ] [LawfulBEq κ] (t : Table κ ν) (before after : List (κ × ν))
    (k : κ) (v : ν) (h : k ∉ after.map Prod.fst) : (t.setAll (before ++ (k, v) :: after)).get? k = some v := by
  have hsplit : t.setAll (before ++ (k, v) :: after) = ((t.setAll before).set k v).setAll after := by
    simp only [setAll, List.foldl_append, List.foldl_cons]
  rw [hsplit, get?_setAll_of_notMem _ after k h, get?_set]
  simp

namespace Mining

open Program Elements

/-! ## Places of calls -/

def CallsAt (program : Tree) (f : String) (path : List Nat) : Prop :=
  program.IsOutermostAt isCall path ∧ (program.subtree? path).bind calledName = some f

def IsLastCall (program : Tree) (f : String) (path : List Nat) : Prop :=
  CallsAt program f path ∧ ∀ other, CallsAt program f other → ¬ path < other

def GivenAt (program : Tree) (keyword : Option String) (path : List Nat) : Prop :=
  ∃ call, program.subtree? path = some call ∧ keyword ∈ keywordsOf call

def GivenTo (program : Tree) (f : String) (keyword : Option String) : Prop :=
  ∃ path, CallsAt program f path ∧ GivenAt program keyword path

/-! ## Entries -/

section Entries

variable (functions : List String) (arguments : List (String × Option String))

/-- What a call sets: the known keywords that it gives to a known function. -/
def entryOf (call : Tree) : Option (String × List (Option String)) :=
  match calledName call with
  | some f =>
    if functions.contains f then some (f, (keywordsOf call).filter fun k => arguments.contains (f, k)) else none
  | none => none

theorem entryOf_eq_some_iff (call : Tree) (f : String) (ks : List (Option String)) :
    entryOf functions arguments call = some (f, ks) ↔
      calledName call = some f ∧ f ∈ functions ∧ ks = (keywordsOf call).filter fun k => arguments.contains (f, k) := by
  rw [entryOf]
  cases calledName call with
  | none => simp
  | some g =>
    by_cases hg : g ∈ functions
    · simp only [List.contains_iff_mem, hg, if_true, Option.some.injEq, Prod.mk.injEq]
      constructor
      · rintro ⟨rfl, rfl⟩
        exact ⟨rfl, hg, rfl⟩
      · rintro ⟨rfl, -, rfl⟩
        exact ⟨rfl, rfl⟩
    · simp only [List.contains_iff_mem, hg, if_false, Option.some.injEq]
      constructor
      · exact nofun
      · rintro ⟨rfl, hf, -⟩
        exact absurd hf hg

theorem CalledNames.add_eq (c : CalledNames) (call : Tree) :
    c.add functions arguments call =
      ⟨c.functions ++ (entryOf functions arguments call).toList.map Prod.fst,
        c.arguments.setAll (entryOf functions arguments call).toList⟩ := by
  rw [add, entryOf]
  cases calledName call with
  | none => simp [Table.setAll]
  | some f =>
    dsimp only
    split
    · simp [Table.setAll]
    · simp [Table.setAll]

theorem CalledNames.foldl_add (calls : List Tree) (c : CalledNames) :
    calls.foldl (add functions arguments) c =
      ⟨c.functions ++ (calls.filterMap (entryOf functions arguments)).map Prod.fst,
        c.arguments.setAll (calls.filterMap (entryOf functions arguments))⟩ := by
  induction calls generalizing c with
  | nil => simp [Table.setAll]
  | cons call calls ih =>
    rw [List.foldl_cons, add_eq, ih]
    cases he : entryOf functions arguments call with
    | none => simp [Table.setAll, he]
    | some e => simp [Table.setAll, he]

def entryAt (program : Tree) (path : List Nat) : Option (String × List (Option String)) :=
  (program.subtree? path).bind (entryOf functions arguments)

theorem calledNames_eq {program : Tree} {paths : List (List Nat)}
    (h : FoundAt program (callNodes program) paths (program.IsOutermostAt isCall)) :
    calledNames functions arguments program =
      ⟨(paths.filterMap (entryAt functions arguments program)).map Prod.fst,
        Table.empty.setAll (paths.filterMap (entryAt functions arguments program))⟩ := by
  have hcalls : callNodes program = paths.filterMap program.subtree? := by
    have hnodes := congrArg (List.filterMap id) h.nodes
    simpa [List.filterMap_map] using hnodes
  rw [calledNames, CalledNames.foldl_add, hcalls, List.filterMap_filterMap]
  simp only [List.nil_append]
  rfl

end Entries

/-! ## The last call -/

section Last

variable {functions : List String} (arguments : List (String × Option String)) {program : Tree}
  {paths : List (List Nat)} (hpaths : FoundAt program (callNodes program) paths (program.IsOutermostAt isCall))

theorem entryAt_of_callsAt {f : String} {path : List Nat} (hf : f ∈ functions) (h : CallsAt program f path) :
    ∃ call, program.subtree? path = some call ∧ entryAt functions arguments program path =
      some (f, (keywordsOf call).filter fun k => arguments.contains (f, k)) := by
  obtain ⟨call, hcall, hname⟩ := Option.bind_eq_some_iff.1 h.2
  refine ⟨call, hcall, ?_⟩
  rw [entryAt, hcall, Option.bind_some]
  exact (entryOf_eq_some_iff functions arguments call f _).2 ⟨hname, hf, rfl⟩

include hpaths

theorem callsAt_of_entryAt {f : String} {ks : List (Option String)} {path : List Nat} (hpath : path ∈ paths)
    (h : entryAt functions arguments program path = some (f, ks)) : f ∈ functions ∧ CallsAt program f path := by
  obtain ⟨call, hcall, hentry⟩ := Option.bind_eq_some_iff.1 h
  obtain ⟨hname, hf, -⟩ := (entryOf_eq_some_iff functions arguments call f ks).1 hentry
  refine ⟨hf, (hpaths.mem_iff path).1 hpath, ?_⟩
  rw [hcall, Option.bind_some]
  exact hname

theorem get?_of_isLastCall {f : String} {last : List Nat} (hf : f ∈ functions) (hlast : IsLastCall program f last) :
    ∃ call, program.subtree? last = some call ∧ (calledNames functions arguments program).arguments.get? f =
      some ((keywordsOf call).filter fun k => arguments.contains (f, k)) := by
  obtain ⟨call, hcall, hentry⟩ := entryAt_of_callsAt arguments hf hlast.1
  refine ⟨call, hcall, ?_⟩
  obtain ⟨before, after, hsplit⟩ := List.append_of_mem ((hpaths.mem_iff last).2 hlast.1.1)
  -- behind the last call there are entries of other functions only
  have hafter : f ∉ (after.filterMap (entryAt functions arguments program)).map Prod.fst := by
    intro hmem
    obtain ⟨⟨g, ks⟩, he, rfl⟩ := List.mem_map.1 hmem
    obtain ⟨path, hpath, he⟩ := List.mem_filterMap.1 he
    have hin : path ∈ paths := by rw [hsplit]; simp [hpath]
    have hordered := hpaths.ordered
    rw [hsplit, List.pairwise_append, List.pairwise_cons] at hordered
    have hlt : last < path := hordered.2.1.1 path hpath
    exact hlast.2 path (callsAt_of_entryAt arguments hpaths hin he).2 hlt
  rw [calledNames_eq functions arguments hpaths, hsplit, List.filterMap_append, List.filterMap_cons, hentry]
  exact Table.get?_setAll_last _ _ _ f _ hafter

theorem exists_isLastCall {f : String} {path : List Nat} (h : CallsAt program f path) :
    ∃ last, IsLastCall program f last := by
  classical
  -- the first call that is met from the end
  have hmem : path ∈ paths.reverse := List.mem_reverse.2 ((hpaths.mem_iff path).2 h.1)
  have hsome : (paths.reverse.find? fun p => decide (CallsAt program f p)).isSome := by
    rw [List.find?_isSome]
    exact ⟨path, hmem, decide_eq_true h⟩
  obtain ⟨last, hfind⟩ := Option.isSome_iff_exists.1 hsome
  obtain ⟨hlast, after, before, hsplit, hafter⟩ := List.find?_eq_some_iff_append.1 hfind
  refine ⟨last, of_decide_eq_true hlast, fun other hother hlt => ?_⟩
  have hordered : paths.reverse.Pairwise fun p q => q < p := List.pairwise_reverse.2 hpaths.ordered
  have hin : other ∈ paths.reverse := List.mem_reverse.2 ((hpaths.mem_iff other).2 hother.1)
  rw [hsplit] at hordered hin
  rcases List.mem_append.1 hin with hin | hin
  · have hnot := hafter other hin
    simp [hother] at hnot
  · rcases List.mem_cons.1 hin with rfl | hin
    · exact List.lt_irrefl _ hlt
    · have hbefore := (List.pairwise_cons.1 (List.pairwise_append.1 hordered).2.1).1 other hin
      exact List.lt_asymm hlt hbefore

theorem mem_functions_iff {f : String} :
    f ∈ (calledNames functions arguments program).functions ↔ f ∈ functions ∧ ∃ path, CallsAt program f path := by
  rw [calledNames_eq functions arguments hpaths]
  simp only [List.mem_map, List.mem_filterMap]
  constructor
  · rintro ⟨⟨g, ks⟩, ⟨path, hpath, he⟩, rfl⟩
    obtain ⟨hg, hcalls⟩ := callsAt_of_entryAt arguments hpaths hpath he
    exact ⟨hg, path, hcalls⟩
  · rintro ⟨hf, path, hcalls⟩
    obtain ⟨call, -, he⟩ := entryAt_of_callsAt arguments hf hcalls
    exact ⟨_, ⟨path, (hpaths.mem_iff path).2 hcalls.1, he⟩, rfl⟩

theorem exists_functions_paths : ∃ found : List (List Nat), found.Pairwise (· < ·) ∧
    (∀ path, path ∈ found ↔ ∃ f ∈ functions, CallsAt program f path) ∧
    (calledNames functions arguments program).functions.map some =
      found.map fun path => (program.subtree? path).bind calledName := by
  let isSet (path : List Nat) : Bool := (entryAt functions arguments program path).isSome
  refine ⟨paths.filter isSet, hpaths.ordered.filter isSet, fun path => ?_, ?_⟩
  · rw [List.mem_filter]
    constructor
    · rintro ⟨hpath, hset⟩
      obtain ⟨⟨f, ks⟩, he⟩ := Option.isSome_iff_exists.1 hset
      exact ⟨f, callsAt_of_entryAt arguments hpaths hpath he⟩
    · rintro ⟨f, hf, hcalls⟩
      obtain ⟨call, -, he⟩ := entryAt_of_callsAt arguments hf hcalls
      exact ⟨(hpaths.mem_iff path).2 hcalls.1, by simp [isSet, he]⟩
  · have hname : ∀ path ∈ paths, ∀ e, entryAt functions arguments program path = some e →
        (program.subtree? path).bind calledName = some e.1 :=
      fun path hpath e he => (callsAt_of_entryAt arguments hpaths hpath he).2.2
    rw [calledNames_eq functions arguments hpaths]
    clear hpaths
    -- path by path: one without an entry is left out on both sides
    induction paths with
    | nil => rfl
    | cons path paths ih =>
      have hrest := ih fun q hq => hname q (List.mem_cons_of_mem path hq)
      cases he : entryAt functions arguments program path with
      | none => simpa [isSet, he] using hrest
      | some e => simpa [isSet, he, hname path List.mem_cons_self e he] using hrest

end Last

/-! ## All calls -/

def Collected (arguments : List (String × Option String)) (program : Tree) (called : CalledNames) (f : String) : Prop :=
  ∃ ks, called.arguments.get? f = some ks ∧ ∀ k, k ∈ ks ↔ (f, k) ∈ arguments ∧ GivenTo program f k

/-- The functions listed are those of the calls of known functions, one for each call and in the order of the text. The
keywords listed are given by calls, and all that are given are listed exactly if the last call of the function gives
them all. -/
theorem calledNames_complete_iff (functions : List String) (arguments : List (String × Option String))
    (program : Tree) :
    let called := calledNames functions arguments program
    (∃ paths : List (List Nat), paths.Pairwise (· < ·) ∧
      (∀ path, path ∈ paths ↔ ∃ f ∈ functions, CallsAt program f path) ∧
      called.functions.map some = paths.map fun path => (program.subtree? path).bind calledName) ∧
    ∀ f ∈ called.functions,
      (∃ ks, called.arguments.get? f = some ks ∧ ∀ k ∈ ks, (f, k) ∈ arguments ∧ GivenTo program f k) ∧
      (Collected arguments program called f ↔
        ∀ last, IsLastCall program f last → ∀ k, (f, k) ∈ arguments → GivenTo program f k → GivenAt program k last) := by
  intro called
  obtain ⟨paths, hpaths⟩ := outermost_foundAt isCall program
  refine ⟨exists_functions_paths arguments hpaths, fun f hf => ?_⟩
  obtain ⟨hknown, path, hcalls⟩ := (mem_functions_iff arguments hpaths).1 hf
  obtain ⟨last, hlast⟩ := exists_isLastCall hpaths hcalls
  obtain ⟨call, hcall, hget⟩ := get?_of_isLastCall arguments hpaths hknown hlast
  have honly : ∀ k ∈ (keywordsOf call).filter fun k => arguments.contains (f, k),
      (f, k) ∈ arguments ∧ GivenTo program f k := by
    intro k hk
    obtain ⟨hk, hargument⟩ := List.mem_filter.1 hk
    exact ⟨List.contains_iff_mem.1 hargument, last, hlast.1, call, hcall, hk⟩
  refine ⟨⟨_, hget, honly⟩, ?_, fun hall => ⟨_, hget, fun k => ⟨honly k, ?_⟩⟩⟩
  · rintro ⟨ks, hks, hiff⟩ other hother k hargument hgiven
    obtain ⟨call', hcall', hget'⟩ := get?_of_isLastCall arguments hpaths hknown hother
    obtain rfl := Option.some.inj (hks.symm.trans hget')
    exact ⟨call', hcall', (List.mem_filter.1 ((hiff k).2 ⟨hargument, hgiven⟩)).1⟩
  · rintro ⟨hargument, hgiven⟩
    obtain ⟨call', hcall', hk⟩ := hall last hlast k hargument hgiven
    obtain rfl := Option.some.inj (hcall.symm.trans hcall')
    exact List.mem_filter.2 ⟨hk, List.contains_iff_mem.2 hargument⟩

/-! ## Two plots -/

/-- The program `plt.plot(color=1)` with `plt.plot()` on the next line. -/
def colouredThenPlain : Tree :=
  let value : Tree := .node "Constant" (some ⟨⟨1, 15⟩, ⟨1, 16⟩⟩) [("value", .lit (.int 1)), ("kind", .lit .none)]
  let keyword : Tree := .node "keyword" (some ⟨⟨1, 9⟩, ⟨1, 16⟩⟩) [("arg", .lit (.text "color")), ("value", value)]
  moduleOf [plottingCall 1 17 "plot" [] [keyword], plottingCall 2 10 "plot" [] []] []

/-- The colour of the first plot is lost with the second. -/
theorem colour_lost :
    let called := calledNames ["plot"] [("plot", some "color")] colouredThenPlain
    called.functions = ["plot", "plot"] ∧ called.arguments.get? "plot" = some [] ∧
      GivenTo colouredThenPlain "plot" (some "color") ∧
      ¬ Collected [("plot", some "color")] colouredThenPlain called "plot" := by
  intro called
  have hget : called.arguments.get? "plot" = some [] := by rfl
  have houtermost : colouredThenPlain.IsOutermostAt isCall [0, 0, 0] := by
    refine (Tree.isOutermostAt_of_not_one (by decide) _).2 ⟨0, [0, 0], _, rfl, rfl, ?_⟩
    refine (Tree.isOutermostAt_of_not_one (by decide) _).2 ⟨0, [0], _, rfl, rfl, ?_⟩
    refine (Tree.isOutermostAt_of_not_one (by decide) _).2 ⟨0, [], _, rfl, rfl, ?_⟩
    exact (Tree.isOutermostAt_of_one (by decide) []).2 rfl
  have hgiven : GivenTo colouredThenPlain "plot" (some "color") :=
    ⟨[0, 0, 0], ⟨houtermost, by decide⟩, _, rfl, by decide⟩
  refine ⟨by rfl, hget, hgiven, ?_⟩
  rintro ⟨ks, hks, hiff⟩
  obtain rfl := Option.some.inj (hget.symm.trans hks)
  exact absurd ((hiff (some "color")).2 ⟨List.mem_cons_self, hgiven⟩) List.not_mem_nil

end Mining

end PlotAdvisor
