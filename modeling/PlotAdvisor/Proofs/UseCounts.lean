import Mathlib.Algebra.BigOperators.Finprod
import Mathlib.Data.Set.Card
import PlotAdvisor.Proofs.CalledNames

/-! Counts of functions, keywords and values over many codes. A call counts for a list of keys, and the count of a key
is how often the calls so far counted for it. -/
set_option autoImplicit false

namespace PlotAdvisor

namespace Table

variable {κ : Type} [BEq κ] [LawfulBEq κ]

theorem getD_count (t : Table κ Nat) (k x : κ) : (t.count k).getD x 0 = t.getD x 0 + if k == x then 1 else 0 := by
  rw [getD, count, get?_alter]
  by_cases hx : x = k
  · subst hx
    simp
  · have hne : ¬ k = x := fun h => hx h.symm
    simp [hx, hne, getD]

theorem getD_countAll (ks : List κ) (t : Table κ Nat) (x : κ) :
    (ks.foldl count t).getD x 0 = t.getD x 0 + ks.count x := by
  induction ks generalizing t with
  | nil => rfl
  | cons k ks ih => rw [List.foldl_cons, ih, getD_count, List.count_cons, Nat.add_assoc, Nat.add_comm (ks.count x)]

end Table

namespace Mining

open Program Elements

/-! ## Keys -/

def valueKeys (f : String) (e : Option String × String) : List (List (Option String)) :=
  [[some f, e.1], [some f, e.1, some e.2]]

def callKeys (unparse : Tree → String) (known : List String) (call : Tree) : List (List (Option String)) :=
  match calledName call with
  | none => []
  | some f => if f ∈ known then [some f] :: (keywordValues unparse call).flatMap (valueKeys f) else []

def programKeys (unparse : Tree → String) (known : List String) (program : Tree) : List (List (Option String)) :=
  (callNodes program).flatMap (callKeys unparse known)

theorem callKeys_cases (unparse : Tree → String) (known : List String) (call : Tree) :
    (∀ f ∈ known, calledName call ≠ some f) ∧ callKeys unparse known call = [] ∨
      ∃ f ∈ known, calledName call = some f ∧
        callKeys unparse known call = [some f] :: (keywordValues unparse call).flatMap (valueKeys f) := by
  rw [callKeys]
  cases calledName call with
  | none => exact Or.inl ⟨by simp, rfl⟩
  | some f =>
    by_cases hf : f ∈ known
    · exact Or.inr ⟨f, hf, rfl, if_pos hf⟩
    · refine Or.inl ⟨fun g hg h => hf ?_, if_neg hf⟩
      rwa [Option.some.inj h]

section
variable (unparse : Tree → String) (known : List String)

theorem countCall_eq (found : Bool × UseCounts) (call : Tree) :
    countCall unparse known found call =
      (found.1 || !(callKeys unparse known call).isEmpty, (callKeys unparse known call).foldl Table.count found.2) := by
  rw [countCall, callKeys]
  cases calledName call with
  | none => simp
  | some f =>
    by_cases hf : f ∈ known
    · simp only [List.contains_iff_mem.2 hf, if_pos hf, if_true, List.isEmpty_cons, Bool.not_false, Bool.or_true,
        List.foldl_cons, List.foldl_flatMap]
      rfl
    · simp [hf]

theorem countUses_eq (counts : UseCounts) (program : Tree) :
    countUses unparse known counts program =
      (!(programKeys unparse known program).isEmpty, (programKeys unparse known program).foldl Table.count counts) := by
  have hcalls (calls : List Tree) (found : Bool × UseCounts) : calls.foldl (countCall unparse known) found =
      (found.1 || !(calls.flatMap (callKeys unparse known)).isEmpty,
        (calls.flatMap (callKeys unparse known)).foldl Table.count found.2) := by
    induction calls generalizing found with
    | nil => simp
    | cons call calls ih =>
      have hempty : (callKeys unparse known call ++ calls.flatMap (callKeys unparse known)).isEmpty =
          ((callKeys unparse known call).isEmpty && (calls.flatMap (callKeys unparse known)).isEmpty) := by
        cases callKeys unparse known call <;> rfl
      rw [List.foldl_cons, ih, countCall_eq, List.flatMap_cons, List.foldl_append, hempty, Bool.not_and, Bool.or_assoc]
  rw [countUses, hcalls, Bool.false_or, programKeys]

end

def programs (parse : String → Except Fault Tree) (codes : List String) : List Tree :=
  codes.filterMap fun code => (parse code).toOption

section
variable {parse : String → Except Fault Tree} {unparse : Tree → String} {known : List String}

theorem programs_error {code : String} {fault : Fault} (h : parse code = .error fault) (codes : List String) :
    programs parse (code :: codes) = programs parse codes := by
  rw [programs, List.filterMap_cons, h]
  rfl

theorem programs_ok {code : String} {t : Tree} (h : parse code = .ok t) (codes : List String) :
    programs parse (code :: codes) = t :: programs parse codes := by
  rw [programs, List.filterMap_cons, h]
  rfl

theorem countCode_error {code : String} {fault : Fault} (h : parse code = .error fault) (counts : UseCounts) :
    countCode parse unparse known counts code = (.error fault, counts) := by
  rw [countCode, h]

theorem countCode_ok {code : String} {t : Tree} (h : parse code = .ok t) (counts : UseCounts) :
    countCode parse unparse known counts code =
      (.ok (!(programKeys unparse known t).isEmpty), (programKeys unparse known t).foldl Table.count counts) := by
  rw [countCode, h]
  dsimp only
  rw [countUses_eq]

theorem countCodes_eq (codes : List String) :
    countCodes parse unparse known codes =
      ((programs parse codes).flatMap (programKeys unparse known)).foldl Table.count .empty := by
  have hcodes (counts : UseCounts) :
      codes.foldl (fun counts code => (countCode parse unparse known counts code).2) counts =
      ((programs parse codes).flatMap (programKeys unparse known)).foldl Table.count counts := by
    induction codes generalizing counts with
    | nil => rfl
    | cons code codes ih =>
      rw [List.foldl_cons, ih]
      cases hparse : parse code with
      | error fault => rw [countCode_error hparse, programs_error hparse]
      | ok t => rw [countCode_ok hparse, programs_ok hparse, List.flatMap_cons, List.foldl_append]
  exact hcodes .empty

theorem getD_countCodes (codes : List String) (k : List (Option String)) :
    (countCodes parse unparse known codes).getD k 0 =
      ((programs parse codes).flatMap (programKeys unparse known)).count k := by
  rw [countCodes_eq, Table.getD_countAll]
  exact Nat.zero_add _

end

/-! ## Keywords and values -/

/-- A function with a keyword is there as often as both with any value. -/
def Balanced (ks : List (List (Option String))) : Prop :=
  ∀ f a, ks.count [f, a] = ∑ᶠ v : String, ks.count [f, a, some v]

namespace Balanced

theorem finite_support (ks : List (List (Option String))) (f a : Option String) :
    (Function.support fun v : String => ks.count [f, a, some v]).Finite := by
  have hinj : Function.Injective fun v : String => [f, a, some v] := fun v w h => by simpa using h
  refine (ks.finite_toSet.preimage hinj.injOn).subset fun v hv => ?_
  exact List.count_pos_iff.1 (Nat.pos_of_ne_zero hv)

theorem nil : Balanced [] := fun _ _ => finsum_zero.symm

theorem append {ks ls : List (List (Option String))} (hks : Balanced ks) (hls : Balanced ls) : Balanced (ks ++ ls) := by
  intro f a
  simp only [List.count_append]
  rw [finsum_add_distrib (finite_support ks f a) (finite_support ls f a), hks f a, hls f a]

theorem flatMap {α : Type} {keys : α → List (List (Option String))} {xs : List α} (h : ∀ x ∈ xs, Balanced (keys x)) :
    Balanced (xs.flatMap keys) := by
  induction xs with
  | nil => exact nil
  | cons x xs ih =>
    rw [List.forall_mem_cons] at h
    exact h.1.append (ih h.2)

theorem ofValue (f : String) (e : Option String × String) : Balanced (valueKeys f e) := by
  intro g a
  have hkey : (valueKeys f e).count [g, a] = if some f = g ∧ e.1 = a then 1 else 0 := by
    simp [valueKeys, List.count_cons]
  have hvalue (v : String) : (valueKeys f e).count [g, a, some v] = if (some f = g ∧ e.1 = a) ∧ e.2 = v then 1 else 0 := by
    simp [valueKeys, List.count_cons, and_assoc]
  simp only [hkey, hvalue]
  by_cases hsame : some f = g ∧ e.1 = a
  · rw [if_pos hsame, finsum_eq_single _ e.2 fun v hv => if_neg fun h => hv h.2.symm, if_pos ⟨hsame, rfl⟩]
  · rw [if_neg hsame]
    exact (finsum_eq_zero_of_forall_eq_zero fun v => if_neg fun h => hsame h.1).symm

theorem ofCall (unparse : Tree → String) (known : List String) (call : Tree) :
    Balanced (callKeys unparse known call) := by
  rcases callKeys_cases unparse known call with ⟨-, hkeys⟩ | ⟨f, -, -, hkeys⟩
  · rw [hkeys]
    exact nil
  · have hname : Balanced [[some f]] := fun g a => by simp
    rw [hkeys]
    exact hname.append (flatMap fun e _ => ofValue f e)

theorem ofPrograms (unparse : Tree → String) (known : List String) (ts : List Tree) :
    Balanced (ts.flatMap (programKeys unparse known)) :=
  flatMap fun _ _ => flatMap fun call _ => ofCall unparse known call

end Balanced

/-! ## Functions -/

theorem ncard_callsAt (f : String) (t : Tree) :
    {path | CallsAt t f path}.ncard = (callNodes t).countP fun call => calledName call = some f := by
  obtain ⟨paths, hfound⟩ := outermost_foundAt isCall t
  let isOfF : Option Tree → Bool := fun n => n.bind calledName = some f
  have hset : {path | CallsAt t f path} = ((paths.filter fun path => isOfF (t.subtree? path)).toFinset : Set (List Nat)) := by
    ext path
    simp [CallsAt, isOfF, hfound.mem_iff]
  have hnodup : paths.Nodup := by
    refine hfound.ordered.imp fun {p q} hlt => ?_
    rintro rfl
    exact List.lt_irrefl p hlt
  calc {path | CallsAt t f path}.ncard
      = (paths.filter fun path => isOfF (t.subtree? path)).length := by
        rw [hset, Set.ncard_coe_finset, List.toFinset_card_of_nodup (hnodup.filter _)]
    _ = (paths.map t.subtree?).countP isOfF := by rw [← List.countP_eq_length_filter, List.countP_map]; rfl
    _ = (callNodes t).countP fun call => calledName call = some f := by
        rw [← hfound.nodes, List.countP_map]; rfl

section
variable {unparse : Tree → String} {known : List String}

theorem count_name_callKeys (f : String) (call : Tree) :
    (callKeys unparse known call).count [some f] = if f ∈ known ∧ calledName call = some f then 1 else 0 := by
  have hvalues (g : String) (es : List (Option String × String)) : (es.flatMap (valueKeys g)).count [some f] = 0 := by
    simp [List.count_eq_zero, valueKeys]
  rcases callKeys_cases unparse known call with ⟨hnone, hkeys⟩ | ⟨g, hg, hname, hkeys⟩
  · rw [hkeys, if_neg fun h => hnone f h.1 h.2]
    rfl
  · rw [hkeys, List.count_cons, hvalues, Nat.zero_add]
    by_cases hsame : g = f
    · rw [if_pos (by simp [hsame]), if_pos ⟨hsame ▸ hg, hsame ▸ hname⟩]
    · have hother : calledName call ≠ some f := fun h => hsame (Option.some.inj (hname.symm.trans h))
      rw [if_neg (by simp [hsame]), if_neg fun h => hother h.2]

theorem count_name_programKeys (f : String) (t : Tree) :
    (programKeys unparse known t).count [some f] = if f ∈ known then {path | CallsAt t f path}.ncard else 0 := by
  rw [programKeys, ncard_callsAt]
  induction callNodes t with
  | nil => simp
  | cons call calls ih =>
    rw [List.flatMap_cons, List.count_append, count_name_callKeys, ih, List.countP_cons]
    by_cases hf : f ∈ known
    · simp only [hf, true_and, if_true, decide_eq_true_eq, Nat.add_comm]
    · simp only [hf, false_and, if_false]

theorem count_name_programs (f : String) (ts : List Tree) :
    (ts.flatMap (programKeys unparse known)).count [some f] =
      if f ∈ known then (ts.map fun t => {path | CallsAt t f path}.ncard).sum else 0 := by
  rw [List.count_flatMap]
  by_cases hf : f ∈ known
  · rw [if_pos hf]
    refine congrArg List.sum (List.map_congr_left fun t _ => ?_)
    rw [Function.comp_apply, count_name_programKeys, if_pos hf]
  · rw [if_neg hf]
    refine List.sum_eq_zero fun n hn => ?_
    obtain ⟨t, -, rfl⟩ := List.mem_map.1 hn
    rw [Function.comp_apply, count_name_programKeys, if_neg hf]

theorem exists_name_callKeys {call : Tree} {k : List (Option String)} (hk : k ∈ callKeys unparse known call) :
    ∃ f, [some f] ∈ callKeys unparse known call := by
  rcases callKeys_cases unparse known call with ⟨-, hkeys⟩ | ⟨f, -, -, hkeys⟩
  · rw [hkeys] at hk
    cases hk
  · rw [hkeys]
    exact ⟨f, List.mem_cons_self⟩

theorem exists_name_programKeys {t : Tree} :
    (∃ f, [f] ∈ programKeys unparse known t) ↔ programKeys unparse known t ≠ [] := by
  constructor
  · rintro ⟨f, hf⟩
    exact List.ne_nil_of_mem hf
  · intro hne
    obtain ⟨k, hk⟩ := List.exists_mem_of_ne_nil _ hne
    obtain ⟨call, hcall, hk⟩ := List.mem_flatMap.1 hk
    obtain ⟨f, hf⟩ := exists_name_callKeys hk
    exact ⟨some f, List.mem_flatMap.2 ⟨call, hcall, hf⟩⟩

end

/-- Counts over codes, whatever the texts of tuples, lists and dictionaries are. However many codes were counted,
programs or not, a function with a keyword has the counts of both with all values together, and a known function has a
count for each of its outermost calls. A code that is no program changes nothing, and else it is told whether the count
of some function has grown. -/
theorem counts_add_up (parse : String → Except Fault Tree) (unparse : Tree → String) (known codes : List String) :
    (∀ f a, (countCodes parse unparse known codes).getD [f, a] 0 =
      ∑ᶠ v : String, (countCodes parse unparse known codes).getD [f, a, some v] 0) ∧
    (∀ f, (countCodes parse unparse known codes).getD [some f] 0 =
      if f ∈ known then ((programs parse codes).map fun t => {path | CallsAt t f path}.ncard).sum else 0) ∧
    ∀ (counts : UseCounts) (code : String),
      (∀ fault, parse code = .error fault → countCode parse unparse known counts code = (.error fault, counts)) ∧
      ∀ t, parse code = .ok t → ∃ useful, (countCode parse unparse known counts code).1 = .ok useful ∧
        (useful = true ↔ ∃ f, counts.getD [f] 0 < (countCode parse unparse known counts code).2.getD [f] 0) := by
  refine ⟨fun f a => ?_, fun f => ?_, fun counts code => ⟨fun fault h => countCode_error h counts, fun t h => ?_⟩⟩
  · simp only [getD_countCodes]
    exact Balanced.ofPrograms unparse known _ f a
  · rw [getD_countCodes, count_name_programs]
  · rw [countCode_ok h]
    refine ⟨_, rfl, ?_⟩
    simp only [Table.getD_countAll, Nat.lt_add_right_iff_pos, List.count_pos_iff]
    rw [exists_name_programKeys]
    simp

/-- Two plots are counted, then a code that is no program, then the two plots again. -/
theorem counts_add_up_plots :
    let parse : String → Except Fault Tree := fun code => if code = "plots" then .ok colouredThenPlain else .error (.broken code)
    let unparse : Tree → String := fun t => t.kind
    let counts := countCodes parse unparse ["plot"] ["plots", "(", "plots"]
    counts.getD [some "plot", some "color"] 0 = 2 ∧
      ∑ᶠ v : String, counts.getD [some "plot", some "color", some v] 0 = 2 ∧
      counts.getD [some "plot"] 0 = 4 ∧
      ([colouredThenPlain, colouredThenPlain].map fun t => {path | CallsAt t "plot" path}.ncard).sum = 4 ∧
      countCode parse unparse ["plot"] counts "(" = (.error (.broken "("), counts) ∧
      (countCode parse unparse ["plot"] counts "plots").1 = .ok true ∧
      ∃ f, counts.getD [f] 0 < (countCode parse unparse ["plot"] counts "plots").2.getD [f] 0 := by
  intro parse unparse counts
  obtain ⟨hvalues, hcalls, hcode⟩ := counts_add_up parse unparse ["plot"] ["plots", "(", "plots"]
  have hpair : counts.getD [some "plot", some "color"] 0 = 2 := by rfl
  have hname : counts.getD [some "plot"] 0 = 4 := by rfl
  obtain ⟨useful, huseful, hgrown⟩ := (hcode counts "plots").2 colouredThenPlain rfl
  have htrue : (countCode parse unparse ["plot"] counts "plots").1 = .ok true := by rfl
  refine ⟨hpair, (hvalues _ _).symm.trans hpair, hname, (hcalls "plot").symm.trans hname,
    (hcode counts "(").1 (.broken "(") rfl, htrue, hgrown.1 ?_⟩
  exact Except.ok.inj (huseful.symm.trans htrue)

end Mining

end PlotAdvisor
