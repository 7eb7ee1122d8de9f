import Mathlib.Data.List.DropRight
import PlotAdvisor.Proofs.Outermost

/-! What a memory shows of a tree. A part is told by the path to it, and a tree is gone through in the dictionary order
of paths, so that the leaves before a part are those at smaller paths, and the parts above it are those at the
beginnings of its path. -/
set_option autoImplicit false

namespace PlotAdvisor.Program.Part

open Elements (pathsThrough mem_pathsThrough pathsThrough_ordered)

/-! ## Paths -/

def part? (p : Part) : List Nat → Option Part
  | [] => some p
  | i :: path => p.parts[i]?.bind fun q => q.part? path

mutual

def paths : Part → List (List Nat)
  | .node _ fields => [] :: pathsAmong 0 fields
  | .one _ child => [] :: child.paths.map (0 :: ·)
  | .many _ children => [] :: pathsAmong 0 children
  | .bare _ => [[]]
  | .leaf _ => [[]]

def pathsAmong (i : Nat) : List Part → List (List Nat)
  | [] => []
  | p :: ps => p.paths.map (i :: ·) ++ pathsAmong (i + 1) ps

end

variable {p q : Part} {ps : List Part} {path rest : List Nat} {i : Nat}

theorem part?_cons (h : p.parts[i]? = some q) (rest : List Nat) : p.part? (i :: rest) = q.part? rest := by
  rw [part?, h, Option.bind_some]

theorem paths_eq (p : Part) : p.paths = [] :: pathsAmong 0 p.parts := by
  cases p <;> simp [paths, parts, pathsAmong]

theorem pathsAmong_eq (i : Nat) (ps : List Part) :
    pathsAmong i ps = (ps.zipIdx i).flatMap fun e => e.1.paths.map (e.2 :: ·) := by
  induction ps generalizing i with
  | nil => rfl
  | cons p ps ih => rw [pathsAmong, ih, List.zipIdx_cons, List.flatMap_cons]

theorem pathsAmong_zero (ps : List Part) : pathsAmong 0 ps = pathsThrough ps paths := pathsAmong_eq 0 ps

theorem mem_paths : path ∈ p.paths ↔ (p.part? path).isSome = true := by
  induction p using inductionOn generalizing path with
  | h p ih =>
    rw [paths_eq, pathsAmong_zero, List.mem_cons, mem_pathsThrough]
    cases path with
    | nil => simp [part?]
    | cons i rest =>
      simp only [reduceCtorEq, false_or, part?]
      cases hq : p.parts[i]? with
      | none => simp [hq]
      | some q => simp [hq, ih q (List.mem_of_getElem? hq)]

theorem paths_ordered (p : Part) : p.paths.Pairwise (· < ·) := by
  induction p using inductionOn with
  | h p ih =>
    rw [paths_eq, pathsAmong_zero, List.pairwise_cons]
    refine ⟨fun path hpath => ?_, pathsThrough_ordered ih⟩
    obtain ⟨i, rest, q, rfl, -⟩ := mem_pathsThrough.1 hpath
    exact List.nil_lt_cons i rest

theorem filterMap_pathsAmong {β : Type} {f : List Nat → Option β} {g : Part → List Nat → Option β}
    (h : ∀ j q, ps[j]? = some q → ∀ rest, f ((i + j) :: rest) = g q rest) :
    (pathsAmong i ps).filterMap f = ps.flatMap fun q => q.paths.filterMap (g q) := by
  induction ps generalizing i with
  | nil => rfl
  | cons p ps ih =>
    rw [pathsAmong, List.filterMap_append, List.filterMap_map, List.flatMap_cons]
    congr 1
    · exact List.filterMap_congr fun rest _ => h 0 p rfl rest
    · refine ih fun j q hq rest => ?_
      have hnext := h (j + 1) q hq rest
      rwa [show i + (j + 1) = i + 1 + j by omega] at hnext

/-! ## The values before a part -/

def value? : Part → Option Literal
  | .leaf v => some v
  | _ => none

def valueAt? (p : Part) (path : List Nat) : Option Literal := (p.part? path).bind value?

def leavesBefore (p : Part) (path : List Nat) : List Literal :=
  (p.paths.filter (· < path)).filterMap p.valueAt?

theorem valueAt?_cons (h : p.parts[i]? = some q) (rest : List Nat) : p.valueAt? (i :: rest) = q.valueAt? rest := by
  rw [valueAt?, part?_cons h, valueAt?]

theorem valuesOfAll_eq (ps : List Part) : valuesOfAll ps = ps.flatMap values := by
  induction ps with
  | nil => rfl
  | cons p ps ih => rw [valuesOfAll, ih, List.flatMap_cons]

theorem values_of_isInner (h : p.isInner = true) : p.values = valuesOfAll p.parts := by
  cases p with
  | node kind fields => rw [values]; rfl
  | one name child => simp [values, parts, valuesOfAll]
  | many name children => rw [values]; rfl
  | bare name => simp [isInner] at h
  | leaf v => simp [isInner] at h

theorem isInner_of_parts (h : p.parts[i]? = some q) : p.isInner = true := by
  cases p with
  | bare name => simp [parts] at h
  | leaf v => simp [parts] at h
  | _ => rfl

theorem value?_of_isInner (h : p.isInner = true) : p.value? = none := by
  cases p with
  | leaf v => simp [isInner] at h
  | _ => rfl

theorem valueAt?_nil (h : p.isInner = true) : p.valueAt? [] = none := value?_of_isInner h

theorem values_eq (p : Part) : p.values = p.paths.filterMap p.valueAt? := by
  induction p using inductionOn with
  | h p ih =>
    by_cases hp : p.isInner = true
    · rw [values_of_isInner hp, valuesOfAll_eq, paths_eq, List.filterMap_cons_none (valueAt?_nil hp),
        filterMap_pathsAmong (g := valueAt?) fun j q hq rest => by rw [Nat.zero_add, valueAt?_cons hq]]
      exact List.flatMap_congr ih
    · cases p <;> simp_all [isInner, values, paths, valueAt?, part?, value?]

/-- Of the paths through parts, those before a path through one of them go through earlier parts, or through the same
part and are before it there. -/
theorem filter_pathsAmong {j : Nat} (h : ps[j]? = some q) (i : Nat) (rest : List Nat) :
    (pathsAmong i ps).filter (· < (i + j) :: rest) =
      pathsAmong i (ps.take j) ++ (q.paths.filter (· < rest)).map ((i + j) :: ·) := by
  induction ps generalizing i j with
  | nil => simp at h
  | cons p ps ih =>
    rw [pathsAmong, List.filter_append, List.filter_map]
    cases j with
    | zero =>
      obtain rfl : p = q := by simpa using h
      -- later parts have larger numbers
      have hlater : (pathsAmong (i + 1) ps).filter (· < i :: rest) = [] := by
        rw [List.filter_eq_nil_iff, pathsAmong_eq]
        intro path hpath
        obtain ⟨⟨r, k⟩, hr, hpath⟩ := List.mem_flatMap.1 hpath
        obtain ⟨tail, -, rfl⟩ := List.mem_map.1 hpath
        have hk := List.le_snd_of_mem_zipIdx hr
        simp only [List.cons_lt_cons_iff, decide_eq_true_eq] at hk ⊢
        omega
      simp [hlater, pathsAmong, Function.comp_def]
    | succ j =>
      have hrest := ih (j := j) (by simpa using h) (i + 1)
      have he : i + 1 + j = i + (j + 1) := by omega
      rw [he] at hrest
      have hfirst : p.paths.filter ((fun path => decide (path < (i + (j + 1)) :: rest)) ∘ fun path => i :: path) =
          p.paths := by
        refine List.filter_eq_self.2 fun path _ => ?_
        simp only [Function.comp_apply, List.cons_lt_cons_iff, decide_eq_true_eq]
        omega
      rw [hfirst, hrest, List.take_succ_cons, pathsAmong, List.append_assoc]

theorem leavesBefore_nil (p : Part) : p.leavesBefore [] = [] := by
  simp [leavesBefore, List.not_lt_nil]

theorem leavesBefore_cons (h : p.parts[i]? = some q) (rest : List Nat) :
    p.leavesBefore (i :: rest) = valuesOfAll (p.parts.take i) ++ q.leavesBefore rest := by
  have hsplit := filter_pathsAmong h 0 rest
  rw [Nat.zero_add] at hsplit
  have hearlier : (pathsAmong 0 (p.parts.take i)).filterMap p.valueAt? = valuesOfAll (p.parts.take i) := by
    rw [valuesOfAll_eq, filterMap_pathsAmong (g := valueAt?) fun j r hr rest => ?_]
    · exact List.flatMap_congr fun r _ => (values_eq r).symm
    · rw [Nat.zero_add]
      refine valueAt?_cons ?_ rest
      rw [List.getElem?_take] at hr
      split at hr
      · exact hr
      · simp at hr
  have hown : ((q.paths.filter (· < rest)).map (i :: ·)).filterMap p.valueAt? = q.leavesBefore rest := by
    rw [List.filterMap_map, leavesBefore]
    exact List.filterMap_congr fun path _ => valueAt?_cons h path
  rw [leavesBefore, paths_eq, List.filter_cons_of_pos (by simp),
    List.filterMap_cons_none (valueAt?_nil (isInner_of_parts h)), hsplit, List.filterMap_append, hearlier, hown]

/-! ## The parts above a part -/

def ancestorsAt (p : Part) (path : List Nat) : List Symbol :=
  (List.range path.length).reverse.filterMap fun n => (p.part? (path.take n)).map symbol

theorem ancestorsAt_cons (h : p.parts[i]? = some q) (rest : List Nat) :
    p.ancestorsAt (i :: rest) = q.ancestorsAt rest ++ [p.symbol] := by
  rw [ancestorsAt, List.length_cons, List.range_succ_eq_map, List.reverse_cons, List.filterMap_append,
    ← List.map_reverse, List.filterMap_map]
  congr 1
  refine List.filterMap_congr fun n _ => ?_
  rw [Function.comp_apply, List.take_succ_cons, part?_cons h]

theorem length_ancestorsAt (h : (p.part? path).isSome = true) : (p.ancestorsAt path).length = path.length := by
  induction path generalizing p with
  | nil => rfl
  | cons i rest ih =>
    cases hq : p.parts[i]? with
    | none => simp [part?, hq] at h
    | some q =>
      rw [part?_cons hq] at h
      rw [ancestorsAt_cons hq, List.length_append, ih h, List.length_singleton, List.length_cons]

/-! ## The walk -/

def seen? (m : Memory) (above : List Symbol) (before : List Literal) (p : Part) (path : List Nat) :
    Option PartialTree :=
  ((p.part? path).filter isInner).map fun q =>
    q.here m (p.ancestorsAt path ++ above) ((p.leavesBefore path).reverse ++ before)

theorem seen?_nil (m : Memory) (above : List Symbol) (before : List Literal) (h : p.isInner = true) :
    p.seen? m above before [] = some (p.here m above before) := by
  simp [seen?, part?, h, leavesBefore_nil, ancestorsAt, Option.filter]

theorem seen?_cons (m : Memory) (above : List Symbol) (before : List Literal) (h : p.parts[i]? = some q)
    (rest : List Nat) :
    p.seen? m above before (i :: rest) =
      q.seen? m (p.symbol :: above) ((valuesOfAll (p.parts.take i)).reverse ++ before) rest := by
  rw [seen?, seen?, part?_cons h, ancestorsAt_cons h, leavesBefore_cons h, List.reverse_append, List.append_assoc,
    List.append_assoc, List.singleton_append]

theorem partialsFromAll_snd {m : Memory} {above : List Symbol}
    (h : ∀ q ∈ ps, ∀ above before, (q.partialsFrom m above before).2 = q.values.reverse ++ before)
    (before : List Literal) : (partialsFromAll m above before ps).2 = (valuesOfAll ps).reverse ++ before := by
  induction ps generalizing before with
  | nil => rfl
  | cons p ps ih =>
    rw [partialsFromAll, valuesOfAll]
    dsimp only
    rw [ih (fun q hq => h q (List.mem_cons_of_mem p hq)), h p List.mem_cons_self, List.reverse_append,
      List.append_assoc]

theorem partialsFrom_snd (m : Memory) (above : List Symbol) (before : List Literal) (p : Part) :
    (p.partialsFrom m above before).2 = p.values.reverse ++ before := by
  induction p using inductionOn generalizing above before with
  | h p ih =>
    by_cases hp : p.isInner = true
    · rw [partialsFrom_eq m above before hp, values_of_isInner hp]
      exact partialsFromAll_snd ih before
    · cases p <;> simp_all [isInner, partialsFrom, values]

theorem partialsFromAll_fst {m : Memory} {above : List Symbol} {f : List Nat → Option PartialTree}
    (hq : ∀ q ∈ ps, ∀ above before, (q.partialsFrom m above before).1 = q.paths.filterMap (q.seen? m above before))
    {before : List Literal}
    (hf : ∀ j q, ps[j]? = some q → ∀ rest,
      f ((i + j) :: rest) = q.seen? m above ((valuesOfAll (ps.take j)).reverse ++ before) rest) :
    (partialsFromAll m above before ps).1 = (pathsAmong i ps).filterMap f := by
  induction ps generalizing i before with
  | nil => rfl
  | cons p ps ih =>
    rw [partialsFromAll, pathsAmong, List.filterMap_append, List.filterMap_map]
    dsimp only
    congr 1
    · rw [hq p List.mem_cons_self]
      exact List.filterMap_congr fun rest _ => (hf 0 p rfl rest).symm
    · -- the values of the first part are before all later ones
      refine ih (fun q h => hq q (List.mem_cons_of_mem p h)) fun j q h rest => ?_
      have hnext := hf (j + 1) q h rest
      rw [List.take_succ_cons, valuesOfAll, List.reverse_append, List.append_assoc] at hnext
      rw [partialsFrom_snd, ← hnext, show i + 1 + j = i + (j + 1) by omega]

theorem partialsFrom_fst (m : Memory) (above : List Symbol) (before : List Literal) (p : Part) :
    (p.partialsFrom m above before).1 = p.paths.filterMap (p.seen? m above before) := by
  induction p using inductionOn generalizing above before with
  | h p ih =>
    by_cases hp : p.isInner = true
    · rw [partialsFrom_eq m above before hp, paths_eq, List.filterMap_cons_some (seen?_nil m above before hp)]
      refine congrArg (p.here m above before :: ·) (partialsFromAll_fst ih fun j q hq rest => ?_)
      rw [Nat.zero_add, seen?_cons m above before hq]
    · cases p <;> simp_all [isInner, partialsFrom, paths, seen?, part?, Option.filter]

/-! ## Partial trees by their paths -/

def isInnerAt (p : Part) (path : List Nat) : Bool := (p.part? path).any isInner

def innerPaths (p : Part) : List (List Nat) := p.paths.filter p.isInnerAt

theorem map_partialTrees {β : Type} {m : Memory} {f : PartialTree → β} {g : List Nat → β}
    (h : ∀ path q, p.part? path = some q →
      f (q.here m (p.ancestorsAt path) (p.leavesBefore path).reverse) = g path) :
    (p.partialTrees m).map f = p.innerPaths.map g := by
  have hpath (path : List Nat) :
      (p.seen? m [] [] path).map f = if p.isInnerAt path then some (g path) else none := by
    rw [seen?, isInnerAt]
    cases hq : p.part? path with
    | none => rfl
    | some q => cases hi : q.isInner <;> simp [Option.filter, hi, h path q hq]
  rw [partialTrees, partialsFrom_fst, List.map_filterMap, innerPaths, ← List.filterMap_eq_map, List.filterMap_filter]
  exact List.filterMap_congr fun path _ => hpath path

theorem length_innerPaths (p : Part) : p.innerPaths.length = p.count := by
  have h : (p.partialTrees ⟨0, 0⟩).map (fun _ => ()) = p.innerPaths.map fun _ => () :=
    map_partialTrees fun _ _ _ => rfl
  have hlength := congrArg List.length h
  rw [List.length_map, List.length_map] at hlength
  rw [← hlength, partialTrees, length_partialsFrom]

theorem innerPaths_ordered (p : Part) : p.innerPaths.Pairwise (· < ·) := p.paths_ordered.filter _

theorem nil_mem_innerPaths (h : path ∈ p.innerPaths) : [] ∈ p.innerPaths := by
  obtain ⟨hpath, hinner⟩ := List.mem_filter.1 h
  refine List.mem_filter.2 ⟨mem_paths.2 rfl, ?_⟩
  cases path with
  | nil => exact hinner
  | cons i rest =>
    cases hq : p.parts[i]? with
    | none => simp [isInnerAt, part?, hq] at hinner
    | some q => exact isInner_of_parts hq

theorem forall_innerPaths_nil_iff : (∀ path ∈ p.innerPaths, path = []) ↔ p.count ≤ 1 := by
  have hlength := p.length_innerPaths
  have hordered := p.innerPaths_ordered
  constructor
  · intro h
    rcases hpaths : p.innerPaths with _ | ⟨a, _ | ⟨b, paths⟩⟩
    · simp [← hlength, hpaths]
    · simp [← hlength, hpaths]
    · rw [hpaths] at h hordered
      have hlt : a < b := List.rel_of_pairwise_cons hordered List.mem_cons_self
      rw [h a (by simp), h b (by simp)] at hlt
      exact absurd hlt (List.not_lt_nil _)
  · intro h path hpath
    have hnil := nil_mem_innerPaths hpath
    rw [← hlength] at h
    obtain ⟨a, ha⟩ : ∃ a, p.innerPaths = [a] :=
      List.length_eq_one_iff.1 (Nat.le_antisymm h (List.length_pos_of_mem hpath))
    rw [ha, List.mem_singleton] at hpath hnil
    rw [hpath, hnil]

theorem lastTerminals_reverse (k : Nat) (i : Int) (values : List Literal) :
    (⟨k, i⟩ : Memory).lastTerminals values.reverse = (values.rtake k).map .content := by
  rw [Memory.lastTerminals, Int.toNat_natCast, List.rtake_eq_reverse_take_reverse]

/-- A walk shows every part of a tree that is not a value, in the order of paths and each once, as many as are counted,
with the last values of those that stand before it. -/
theorem partialTrees_complete (p : Part) (k : Nat) (i : Int) :
    (p.partialTrees ⟨k, i⟩).length = p.count ∧
    p.paths.Pairwise (· < ·) ∧ (∀ path, path ∈ p.paths ↔ (p.part? path).isSome = true) ∧
    (p.partialTrees ⟨k, i⟩).map (fun t => (some t.parent, some t.children, t.terminals)) =
      (p.paths.filter p.isInnerAt).map fun path =>
        ((p.part? path).map symbol, (p.part? path).map children, ((p.leavesBefore path).rtake k).map .content) := by
  refine ⟨length_partialsFrom _ [] [] p, p.paths_ordered, fun path => mem_paths, map_partialTrees fun path q hq => ?_⟩
  rw [here, lastTerminals_reverse, hq]
  rfl

/-- The parts above a part are as many as its path is long. With a limit, the nearest ones are shown up to it. A limit
of zero is none: all of them are shown, which is right only for a tree that is a single part and values. -/
theorem ancestors_nearest_iff (p : Part) (k : Int) (i : Nat) :
    ((p.partialTrees ⟨k, i⟩).map PartialTree.ancestors =
        p.innerPaths.map (fun path => (p.ancestorsAt path).take (min i path.length)) ↔ 0 < i ∨ p.count ≤ 1) ∧
    (∀ path ∈ p.innerPaths, (p.ancestorsAt path).length = path.length) ∧
    (p.partialTrees ⟨k, 0⟩).map PartialTree.ancestors = p.innerPaths.map p.ancestorsAt := by
  have hlength : ∀ path ∈ p.innerPaths, (p.ancestorsAt path).length = path.length :=
    fun path hpath => length_ancestorsAt (mem_paths.1 (List.mem_filter.1 hpath).1)
  have hnearest (i : Nat) : (p.partialTrees ⟨k, i⟩).map PartialTree.ancestors =
      p.innerPaths.map fun path => (⟨k, i⟩ : Memory).nearest (p.ancestorsAt path) :=
    map_partialTrees fun path q hq => rfl
  refine ⟨?_, hlength, hnearest 0⟩
  rw [hnearest, List.map_inj_left]
  rcases Nat.eq_zero_or_pos i with rfl | hi
  · -- all of them are shown where none should be
    rw [← forall_innerPaths_nil_iff]
    simp only [Nat.zero_min, List.take_zero, Nat.lt_irrefl, false_or]
    refine forall₂_congr fun path hpath => ?_
    rw [Memory.nearest, if_pos (by simp), ← List.length_eq_zero_iff, hlength path hpath, List.length_eq_zero_iff]
  · refine iff_of_true (fun path hpath => ?_) (Or.inl hi)
    have hlimit : ¬ (i : Int) ≤ 0 := by omega
    rw [Memory.nearest, if_neg hlimit, Int.toNat_natCast, ← hlength path hpath, ← List.take_eq_take_min]

/-- The program `pass`. -/
def idle : Part := .node "Module" [.many "body" [.node "Pass" []], .many "type_ignores" []]

theorem ancestors_beyond_limit :
    (idle.partialTrees ⟨1, 0⟩).map PartialTree.ancestors =
        [[], [.node "Module"], [.field "body", .node "Module"], [.node "Module"]] ∧
      (idle.partialTrees ⟨1, 0⟩).map PartialTree.ancestors ≠
        idle.innerPaths.map fun path => (idle.ancestorsAt path).take (min 0 path.length) := by
  decide

end PlotAdvisor.Program.Part
