import Mathlib.Data.List.Basic
import Mathlib.Tactic.Choose
import PlotAdvisor.Proofs.Heads

/-! Outermost nodes and their places. Equal nodes can stand at several places of a tree, so a node is told by the path
to it, which numbers the field of a node or the item of a list to go on with. A node is inside another when the other
one's path is a proper beginning of its own, and preorder is the dictionary order of paths. -/
set_option autoImplicit false

namespace PlotAdvisor

namespace Program.Tree

/-! ## Paths -/

def contents : Tree → List Tree
  | .node _ _ fields => fields.map Prod.snd
  | .list ts => ts
  | .lit _ => []

def subtree? (t : Tree) : List Nat → Option Tree
  | [] => some t
  | i :: path => t.contents[i]?.bind fun c => c.subtree? path

theorem subtree?_cons (t : Tree) (i : Nat) (path : List Nat) :
    t.subtree? (i :: path) = t.contents[i]?.bind fun c => c.subtree? path := rfl

theorem sizeOf_contents {t c : Tree} (h : c ∈ t.contents) : sizeOf c < sizeOf t := by
  cases t with
  | node kind span fields =>
    obtain ⟨f, hf, rfl⟩ := List.mem_map.1 h
    have hlt := List.sizeOf_lt_of_mem hf
    obtain ⟨name, c⟩ := f
    simp only [node.sizeOf_spec, Prod.mk.sizeOf_spec] at hlt ⊢
    omega
  | list ts =>
    have hlt := List.sizeOf_lt_of_mem (show c ∈ ts from h)
    simp only [list.sizeOf_spec]
    omega
  | lit v => simp [contents] at h

theorem contentInduction {P : Tree → Prop} (h : ∀ t : Tree, (∀ c ∈ t.contents, P c) → P t) (t : Tree) : P t :=
  h t fun c _hc => contentInduction h c
termination_by sizeOf t
decreasing_by exact sizeOf_contents _hc

section
variable (isOne : String → Bool)

def isOneOf (t : Tree) : Bool := t.isNode && isOne t.kind

def IsOneAt (t : Tree) (path : List Nat) : Prop := ∃ n, t.subtree? path = some n ∧ n.isOneOf isOne = true

/-- A node of one of the classes stands at the path, and no node around it is of one of them. -/
def IsOutermostAt (t : Tree) (path : List Nat) : Prop :=
  t.IsOneAt isOne path ∧ ∀ above, above <+: path → above ≠ path → ¬ t.IsOneAt isOne above

variable {isOne} {t : Tree}

theorem isOneAt_nil : t.IsOneAt isOne [] ↔ t.isOneOf isOne = true := by
  simp [IsOneAt, subtree?]

theorem isOneAt_cons {i : Nat} {path : List Nat} :
    t.IsOneAt isOne (i :: path) ↔ ∃ c, t.contents[i]? = some c ∧ c.IsOneAt isOne path := by
  simp only [IsOneAt, subtree?_cons, Option.bind_eq_some_iff]
  constructor
  · rintro ⟨n, ⟨c, hc, hn⟩, hone⟩
    exact ⟨c, hc, n, hn, hone⟩
  · rintro ⟨c, hc, n, hn, hone⟩
    exact ⟨n, ⟨c, hc, hn⟩, hone⟩

theorem isOutermostAt_of_one (h : t.isOneOf isOne = true) (path : List Nat) :
    t.IsOutermostAt isOne path ↔ path = [] := by
  constructor
  · rintro ⟨-, habove⟩
    by_contra hne
    exact habove [] List.nil_prefix (fun e => hne e.symm) (isOneAt_nil.2 h)
  · rintro rfl
    exact ⟨isOneAt_nil.2 h, fun above hpre hne => absurd (List.prefix_nil.1 hpre) hne⟩

theorem isOutermostAt_of_not_one (h : ¬ t.isOneOf isOne = true) (path : List Nat) :
    t.IsOutermostAt isOne path ↔
      ∃ i rest c, path = i :: rest ∧ t.contents[i]? = some c ∧ c.IsOutermostAt isOne rest := by
  cases path with
  | nil =>
    have hnot : ¬ t.IsOneAt isOne [] := fun hone => h (isOneAt_nil.1 hone)
    simp [IsOutermostAt, hnot]
  | cons i rest =>
    constructor
    · rintro ⟨hone, habove⟩
      obtain ⟨c, hc, hrest⟩ := isOneAt_cons.1 hone
      refine ⟨i, rest, c, rfl, hc, hrest, fun above hpre hne habove' => ?_⟩
      have hcons : i :: above <+: i :: rest := List.cons_prefix_cons.2 ⟨rfl, hpre⟩
      exact habove (i :: above) hcons (fun e => hne (List.cons.inj e).2) (isOneAt_cons.2 ⟨c, hc, habove'⟩)
    · rintro ⟨j, rest', c, hpath, hc, hrest, habove⟩
      obtain ⟨rfl, rfl⟩ := List.cons.inj hpath
      refine ⟨isOneAt_cons.2 ⟨c, hc, hrest⟩, fun above hpre hne hone => ?_⟩
      -- above is the root, which is none of them, or goes into the same subtree
      cases above with
      | nil => exact h (isOneAt_nil.1 hone)
      | cons j above =>
        obtain ⟨rfl, hinside⟩ := List.cons_prefix_cons.1 hpre
        obtain ⟨d, hd, hone⟩ := isOneAt_cons.1 hone
        obtain rfl : c = d := Option.some.inj (hc.symm.trans hd)
        exact habove above hinside (fun e => hne (e ▸ rfl)) hone

theorem IsOutermostAt.apart {p q : List Nat} (hp : t.IsOutermostAt isOne p) (hq : t.IsOutermostAt isOne q)
    (hpq : p <+: q) : p = q := by
  by_contra hne
  exact hq.2 p hpq hne hp.1

theorem exists_outermost_above {path : List Nat} (h : t.IsOneAt isOne path) :
    ∃ above, above <+: path ∧ t.IsOutermostAt isOne above := by
  induction hlength : path.length using Nat.strongRecOn generalizing path with
  | ind n ih =>
    by_cases houtermost : t.IsOutermostAt isOne path
    · exact ⟨path, List.prefix_refl path, houtermost⟩
    · obtain ⟨above, hpre, hne, hone⟩ : ∃ above, above <+: path ∧ above ≠ path ∧ t.IsOneAt isOne above := by
        simpa [IsOutermostAt, h] using houtermost
      have hshorter : above.length < n := by
        have hle := hpre.length_le
        have hlen : above.length ≠ path.length := fun e => hne (hpre.eq_of_length e)
        omega
      obtain ⟨top, htop, hout⟩ := ih above.length hshorter hone rfl
      exact ⟨top, htop.trans hpre, hout⟩

theorem existsUnique_outermost_above {path : List Nat} (h : t.IsOneAt isOne path) :
    ∃! above, t.IsOutermostAt isOne above ∧ above <+: path := by
  obtain ⟨above, hpre, hout⟩ := exists_outermost_above h
  refine ⟨above, ⟨hout, hpre⟩, ?_⟩
  rintro other ⟨hother, hpath⟩
  -- of two beginnings of one path, one begins with the other
  rcases List.prefix_or_prefix_of_prefix hpath hpre with hle | hle
  · exact hother.apart hout hle
  · exact (hout.apart hother hle).symm

end

end Program.Tree

namespace Elements

open Program

/-! ## Outermost nodes -/

section
variable (isOne : String → Bool)

theorem outermostInFields_eq (fields : List (String × Tree)) :
    outermostInFields isOne fields = fields.flatMap fun f => outermost isOne f.2 := by
  induction fields with
  | nil => rfl
  | cons f fields ih => rw [outermostInFields, ih, List.flatMap_cons]

theorem outermostInItems_eq (ts : List Tree) : outermostInItems isOne ts = ts.flatMap (outermost isOne) := by
  induction ts with
  | nil => rfl
  | cons t ts ih => rw [outermostInItems, ih, List.flatMap_cons]

theorem outermost_eq (t : Tree) :
    outermost isOne t = if t.isOneOf isOne then [t] else t.contents.flatMap (outermost isOne) := by
  cases t with
  | node kind span fields =>
    simp only [outermost, Tree.isOneOf, Tree.isNode, Tree.kind, Bool.true_and, Tree.contents]
    rw [outermostInFields_eq, List.flatMap_map]
  | list ts => simp [outermost, Tree.isOneOf, Tree.isNode, Tree.contents, outermostInItems_eq]
  | lit v => simp [outermost, Tree.isOneOf, Tree.isNode, Tree.contents]

theorem preorder_eq (t : Tree) :
    t.preorder = if t.isNode then t :: t.contents.flatMap Tree.preorder else t.contents.flatMap Tree.preorder := by
  cases t with
  | node kind span fields =>
    simp only [Tree.preorder, Tree.isNode, if_true, Tree.contents]
    rw [Tree.preorderFields_eq, List.flatMap_map]
  | list ts => simp [Tree.preorder, Tree.isNode, Tree.contents, Tree.preorderItems_eq]
  | lit v => simp [Tree.preorder, Tree.isNode, Tree.contents]

end

/-- What is found in a tree, one after the other, stands at the paths, which are, in dictionary order, all the paths of
some kind. -/
structure FoundAt (t : Tree) (found : List Tree) (paths : List (List Nat)) (P : List Nat → Prop) : Prop where
  nodes : found.map some = paths.map t.subtree?
  ordered : paths.Pairwise (· < ·)
  mem_iff : ∀ path, path ∈ paths ↔ P path

/-- The paths of a tree from those of what is directly below it. -/
def pathsThrough {β : Type} (ts : List β) (paths : β → List (List Nat)) : List (List Nat) :=
  ts.zipIdx.flatMap fun (c, i) => (paths c).map (i :: ·)

theorem mem_pathsThrough {β : Type} {ts : List β} {paths : β → List (List Nat)} {path : List Nat} :
    path ∈ pathsThrough ts paths ↔ ∃ i rest c, path = i :: rest ∧ ts[i]? = some c ∧ rest ∈ paths c := by
  simp only [pathsThrough, List.mem_flatMap, List.mem_map, Prod.exists, List.mem_zipIdx_iff_getElem?]
  constructor
  · rintro ⟨c, i, hc, rest, hrest, rfl⟩
    exact ⟨i, rest, c, rfl, hc, hrest⟩
  · rintro ⟨i, rest, c, rfl, hc, hrest⟩
    exact ⟨c, i, hc, rest, hrest, rfl⟩

theorem pathsThrough_ordered {β : Type} {ts : List β} {paths : β → List (List Nat)}
    (h : ∀ c ∈ ts, (paths c).Pairwise (· < ·)) : (pathsThrough ts paths).Pairwise (· < ·) := by
  have hnumbers : ts.zipIdx.Pairwise fun a b => a.2 < b.2 := by
    rw [← List.pairwise_map, List.zipIdx_map_snd]
    exact List.pairwise_lt_range'
  rw [pathsThrough, List.pairwise_flatMap]
  constructor
  · rintro ⟨c, i⟩ hc
    have hmem : c ∈ ts := List.mem_of_getElem? (List.mem_zipIdx_iff_getElem?.1 hc)
    refine List.pairwise_map.2 ((h c hmem).imp fun {p q} hpq => ?_)
    exact List.cons_lt_cons_iff.2 (Or.inr ⟨rfl, hpq⟩)
  · refine hnumbers.imp fun {a b} hab p hp q hq => ?_
    obtain ⟨p, -, rfl⟩ := List.mem_map.1 hp
    obtain ⟨q, -, rfl⟩ := List.mem_map.1 hq
    exact List.cons_lt_cons_iff.2 (Or.inl hab)

theorem map_subtree?_pathsThrough (t : Tree) {found : Tree → List Tree} {paths : Tree → List (List Nat)}
    (h : ∀ c ∈ t.contents, (found c).map some = (paths c).map c.subtree?) :
    (t.contents.flatMap found).map some = (pathsThrough t.contents paths).map t.subtree? := by
  have hone : ∀ e ∈ t.contents.zipIdx, ((paths e.1).map (e.2 :: ·)).map t.subtree? = (found e.1).map some := by
    rintro ⟨c, i⟩ hc
    have hget : t.contents[i]? = some c := List.mem_zipIdx_iff_getElem?.1 hc
    rw [h c (List.mem_of_getElem? hget), List.map_map]
    refine List.map_congr_left fun path _ => ?_
    rw [Function.comp_apply, Tree.subtree?_cons, hget, Option.bind_some]
  calc (t.contents.flatMap found).map some
      = ((t.contents.zipIdx.map Prod.fst).flatMap found).map some := by rw [List.zipIdx_map_fst]
    _ = t.contents.zipIdx.flatMap fun e => (found e.1).map some := by rw [List.flatMap_map, List.map_flatMap]
    _ = t.contents.zipIdx.flatMap fun e => ((paths e.1).map (e.2 :: ·)).map t.subtree? :=
        List.flatMap_congr fun e he => (hone e he).symm
    _ = (pathsThrough t.contents paths).map t.subtree? := by rw [pathsThrough, List.map_flatMap]

section
variable {t : Tree} {found : Tree → List Tree} {P : Tree → List Nat → Prop}

theorem foundAt_contents (h : ∀ c ∈ t.contents, ∃ paths, FoundAt c (found c) paths (P c)) :
    ∃ paths, FoundAt t (t.contents.flatMap found) paths fun path =>
      ∃ i rest c, path = i :: rest ∧ t.contents[i]? = some c ∧ P c rest := by
  choose! paths hpaths using h
  refine ⟨pathsThrough t.contents paths, map_subtree?_pathsThrough t fun c hc => (hpaths c hc).nodes,
    pathsThrough_ordered fun c hc => (hpaths c hc).ordered, fun path => ?_⟩
  rw [mem_pathsThrough]
  refine exists_congr fun i => exists_congr fun rest => exists_congr fun c => ?_
  refine and_congr_right fun _ => and_congr_right fun hc => ?_
  exact (hpaths c (List.mem_of_getElem? hc)).mem_iff rest

end

theorem outermost_foundAt (isOne : String → Bool) (t : Tree) :
    ∃ paths, FoundAt t (outermost isOne t) paths (t.IsOutermostAt isOne) := by
  induction t using Tree.contentInduction with
  | h t ih =>
    rw [outermost_eq]
    by_cases hone : t.isOneOf isOne = true
    · rw [if_pos hone]
      refine ⟨[[]], rfl, List.pairwise_singleton _ _, fun path => ?_⟩
      rw [Tree.isOutermostAt_of_one hone, List.mem_singleton]
    · rw [if_neg hone]
      obtain ⟨paths, h⟩ := foundAt_contents ih
      exact ⟨paths, h.nodes, h.ordered, fun path => (h.mem_iff path).trans (Tree.isOutermostAt_of_not_one hone path).symm⟩

theorem preorder_foundAt (t : Tree) : ∃ paths, FoundAt t t.preorder paths (t.IsOneAt fun _ => true) := by
  induction t using Tree.contentInduction with
  | h t ih =>
    have hroot : t.IsOneAt (fun _ => true) [] ↔ t.isNode = true := by simp [Tree.isOneAt_nil, Tree.isOneOf]
    obtain ⟨paths, h⟩ := foundAt_contents ih
    have hbelow (i : Nat) (rest : List Nat) : i :: rest ∈ paths ↔ t.IsOneAt (fun _ => true) (i :: rest) := by
      rw [h.mem_iff, Tree.isOneAt_cons]
      simp
    have hnot : [] ∉ paths := by simp [h.mem_iff]
    rw [preorder_eq]
    by_cases hnode : t.isNode = true
    · rw [if_pos hnode]
      refine ⟨[] :: paths, ?_, List.pairwise_cons.2 ⟨fun path hpath => ?_, h.ordered⟩, fun path => ?_⟩
      · rw [List.map_cons, List.map_cons, h.nodes, Tree.subtree?]
      · obtain ⟨i, rest, c, rfl, -⟩ := (h.mem_iff path).1 hpath
        exact List.nil_lt_cons i rest
      · cases path with
        | nil => simp [hroot, hnode]
        | cons i rest => simp [hbelow]
    · rw [if_neg hnode]
      refine ⟨paths, h.nodes, h.ordered, fun path => ?_⟩
      cases path with
      | nil => simp [hroot, hnode, hnot]
      | cons i rest => exact hbelow i rest

/-! ## What is found -/

/-- What is found in a tree are its outermost nodes of some classes: in preorder and each once, exactly the nodes of the
classes that no node of the classes is around, so that none of them is inside another and every node of the classes is
one of them or inside exactly one. -/
def FindsOutermost (isOne : String → Bool) (t : Tree) (found : List Tree) : Prop :=
  ∃ paths, FoundAt t found paths (t.IsOutermostAt isOne) ∧ (∀ p ∈ paths, ∀ q ∈ paths, p <+: q → p = q) ∧
    ∀ p, t.IsOneAt isOne p → ∃! q, q ∈ paths ∧ q <+: p

theorem findsOutermost (isOne : String → Bool) (t : Tree) : FindsOutermost isOne t (outermost isOne t) := by
  obtain ⟨paths, h⟩ := outermost_foundAt isOne t
  refine ⟨paths, h, fun p hp q hq => ?_, fun p hp => ?_⟩
  · exact ((h.mem_iff p).1 hp).apart ((h.mem_iff q).1 hq)
  · simpa only [h.mem_iff] using Tree.existsUnique_outermost_above hp

/-- Calls, and calls, subscripts and attributes together, are found where they are outermost. The order is that of
`Tree.preorder`, in which all nodes of a tree are listed. -/
theorem calls_outermost (t : Tree) :
    FindsOutermost isCall t (callNodes t) ∧ FindsOutermost isGeneralCall t (generalCallNodes t) ∧
      ∃ paths, FoundAt t t.preorder paths (t.IsOneAt fun _ => true) :=
  ⟨findsOutermost isCall t, findsOutermost isGeneralCall t, preorder_foundAt t⟩

end Elements

end PlotAdvisor
