import Mathlib.Algebra.BigOperators.Intervals
import Mathlib.Algebra.Ring.CharZero
import Mathlib.Data.String.Basic
import Mathlib.Tactic.Ring
import PlotAdvisor.Elements.CoOccurrence
import PlotAdvisor.Proofs.Families

/-! How often two elements are met together. The pairs of two lines are listed once, with the earlier line in front; the
pairs of a line with itself are listed from both ends, so that two elements on one line are met twice.

* `Tree.Placed`, `line_of_mem_extract` - in a program every use stands on a line.
* `count_pairsOf` - the pairs listed, as a sum over two lines.
* `countP_linePairs` - the pairs of occurrences, as such a sum.
-/
set_option autoImplicit false

namespace PlotAdvisor

open Finset

/-! ## Lines of a program -/

namespace Program.Tree

def onLine (t : Tree) : Bool := t.start?.any fun p => decide (1 ≤ p.line)

/-- A place that the tree has is on a line. -/
def inLines (t : Tree) : Bool := t.start?.all fun p => decide (1 ≤ p.line)

theorem mem_preorder_of_kind {t : Tree} {kind : String} (hkind : t.kind = kind) (hne : kind ≠ "") : t ∈ t.preorder :=
  mem_preorder_self (isNode_of_kind (hkind ▸ hne))

/-- What is given in a tree, and its value: an argument, a keyword of a call, or a literal key of a table. -/
inductive Gives (t : Tree) : Tree → Tree → Prop
  | argument {s a : Tree} : s ∈ t.preorder → s.kind = "Call" → a ∈ s.fieldItems "args" → Gives t a a
  | keyword {s kw : Tree} : s ∈ t.preorder → s.kind = "Call" → kw ∈ s.fieldItems "keywords" →
      Gives t kw (kw.field "value")
  | key {s k v : Tree} : s ∈ t.preorder → s.kind = "Dict" → k ∈ t.preorder → k.kind = "Constant" →
      v ∈ s.fieldItems "values" → Gives t k v

theorem Gives.mono {t u n v : Tree} (h : t.Gives n v) (hbelow : t.preorder ⊆ u.preorder) : u.Gives n v := by
  cases h with
  | argument hs hkind ha => exact .argument (hbelow hs) hkind ha
  | keyword hs hkind hkw => exact .keyword (hbelow hs) hkind hkw
  | key hs hkind hk hconstant hv => exact .key (hbelow hs) hkind (hbelow hk) hconstant hv

/-- Calls, subscripts and attributes stand on lines. Literals and what calls are given need no places, but those that
they have are on lines. -/
def Placed (t : Tree) : Prop :=
  ∀ s ∈ t.preorder, (s.kind ∈ ["Call", "Subscript", "Attribute"] → s.onLine = true) ∧
    (s.kind = "Constant" → s.inLines = true) ∧
    (s.kind = "Call" → ∀ a ∈ s.fieldItems "args" ++ s.fieldItems "keywords", a.inLines = true)

instance (t : Tree) : Decidable t.Placed := inferInstanceAs (Decidable (∀ s ∈ t.preorder, _))

theorem Placed.inLines {t n v : Tree} (h : t.Placed) (hn : t.Gives n v) : n.inLines = true := by
  cases hn with
  | argument hs hkind ha => exact (h _ hs).2.2 hkind n (List.mem_append_left _ ha)
  | keyword hs hkind hkw => exact (h _ hs).2.2 hkind n (List.mem_append_right _ hkw)
  | key _ _ hk hconstant _ => exact (h n hk).2.1 hconstant

end Program.Tree

namespace Elements

open Program

theorem mem_of_isGeneralCall {kind : String} (h : isGeneralCall kind = true) :
    kind ∈ ["Call", "Subscript", "Attribute"] := by
  simp only [isGeneralCall, Bool.or_eq_true, beq_iff_eq] at h
  simp only [List.mem_cons]
  tauto

theorem mem_preorder_of_isGeneralCall {t : Tree} (h : isGeneralCall t.kind = true) : t ∈ t.preorder := by
  refine Tree.mem_preorder_self (Tree.isNode_of_kind fun hempty => ?_)
  rw [hempty] at h
  exact absurd h (by decide)

theorem gives_of_mem_keyUses {owner : String} {call t : Tree} {u : Use} (hu : u ∈ keyUses owner call t) :
    u.call = some call ∧ ∃ v, u.value = some v ∧ t.Gives u.node v := by
  unfold keyUses at hu
  split at hu
  · next hdict =>
    have hkind : t.kind = "Dict" := by simpa using hdict
    obtain ⟨⟨k, v⟩, hkv, hk⟩ := List.mem_filterMap.1 hu
    obtain ⟨hkey, hv⟩ := List.of_mem_zip hkv
    have hconstant : k.kind = "Constant" := by
      cases k with
      | node kind span fields =>
        by_contra hkind
        have hkind' : kind ≠ "Constant" := hkind
        simp [Tree.literal?, hkind'] at hk
      | list ts => simp [Tree.literal?] at hk
      | lit l => simp [Tree.literal?] at hk
    have huse : u.node = k ∧ u.value = some v ∧ u.call = some call := by
      revert hk
      dsimp only
      split
      · intro hk
        rw [← Option.some.inj hk]
        exact ⟨rfl, rfl, rfl⟩
      · exact nofun
    refine ⟨huse.2.2, v, huse.2.1, huse.1 ▸ .key (Tree.mem_preorder_of_kind hkind (by decide)) hkind ?_ hconstant hv⟩
    exact Tree.mem_preorder_of_fieldItem hkey (Tree.mem_preorder_of_kind hconstant (by decide))
  · split at hu
    · next hcall =>
      obtain ⟨kw, hkw, rfl⟩ := List.mem_map.1 hu
      simp only [Bool.and_eq_true, beq_iff_eq] at hcall
      have hkind := hcall.1.1
      exact ⟨rfl, _, rfl, .keyword (Tree.mem_preorder_of_kind hkind (by decide)) hkind hkw⟩
    · exact absurd hu (by simp)

/-- A use stands at the call itself, or at what is given there, and then it knows the call and the value. -/
theorem mem_usesOf_cases {id : String} {call : Tree} {u : Use} (hu : u ∈ usesOf id call) :
    u.node = call ∧ u.value = none ∨ u.call = some call ∧ ∃ v, u.value = some v ∧ call.Gives u.node v := by
  unfold usesOf at hu
  split at hu
  · next hcall =>
    have hkind : call.kind = "Call" := by simpa using hcall
    have hself : call ∈ call.preorder := Tree.mem_preorder_of_kind hkind (by decide)
    -- keys of a table that is given are given at the call too
    have hkeys {owner : String} {t : Tree} (hbelow : t.preorder ⊆ call.preorder) (hu : u ∈ keyUses owner call t) :
        u.call = some call ∧ ∃ v, u.value = some v ∧ call.Gives u.node v := by
      obtain ⟨hparent, v, hv, hgives⟩ := gives_of_mem_keyUses hu
      exact ⟨hparent, v, hv, hgives.mono hbelow⟩
    rcases List.mem_cons.1 hu with rfl | hu
    · exact .inl ⟨rfl, rfl⟩
    · refine .inr ?_
      rcases List.mem_append.1 hu with hu | hu
      · obtain ⟨⟨a, i⟩, ha, hu⟩ := List.mem_flatMap.1 hu
        have hmem : a ∈ call.fieldItems "args" := List.fst_mem_of_mem_zipIdx ha
        rcases List.mem_cons.1 hu with rfl | hu
        · exact ⟨rfl, a, rfl, .argument hself hkind hmem⟩
        · exact hkeys (fun s hs => Tree.mem_preorder_of_fieldItem hmem hs) hu
      · obtain ⟨kw, hkw, hu⟩ := List.mem_flatMap.1 hu
        rcases List.mem_cons.1 hu with rfl | hu
        · exact ⟨rfl, _, rfl, .keyword hself hkind hkw⟩
        · exact hkeys (fun s hs => Tree.mem_preorder_of_fieldItem hkw (Tree.mem_preorder_of_field hs)) hu
  · obtain rfl := List.mem_singleton.1 hu
    exact .inl ⟨rfl, rfl⟩

theorem Use.one_le_line {u : Use} {p : Place} (hplace : (u.node.start? <|> u.call.bind Tree.start?) = some p)
    (hline : 1 ≤ p.line) : 1 ≤ u.line := by
  rw [Use.line, hplace]
  exact hline

theorem line_of_mem_usesOf {id : String} {call : Tree} (hcall : call.Placed) (hkind : isGeneralCall call.kind = true)
    {u : Use} (hu : u ∈ usesOf id call) : 1 ≤ u.line := by
  have hself := (hcall call (mem_preorder_of_isGeneralCall hkind)).1 (mem_of_isGeneralCall hkind)
  rw [Tree.onLine, Option.any_eq_true] at hself
  obtain ⟨p, hp, hline⟩ := hself
  have hline := of_decide_eq_true hline
  rcases mem_usesOf_cases hu with ⟨hnode, -⟩ | ⟨hparent, v, -, hgives⟩
  · exact Use.one_le_line (by rw [hnode, hp]; rfl) hline
  · cases hstart : u.node.start? with
    | none => exact Use.one_le_line (by rw [hstart, hparent]; exact hp) hline
    | some q =>
      have hinside := hcall.inLines hgives
      rw [Tree.inLines, hstart] at hinside
      exact Use.one_le_line (by rw [hstart]; rfl) (of_decide_eq_true hinside)

theorem mem_callsMet {names : Names} {ts : List Tree} {m : Names × Tree} (hm : m ∈ callsMet names ts) :
    ∃ t ∈ ts, m.2 ∈ callsOf t := by
  induction ts generalizing names with
  | nil => exact absurd hm (by simp [callsMet])
  | cons t ts ih =>
    rcases List.mem_append.1 hm with hm | hm
    · obtain ⟨c, hc, rfl⟩ := List.mem_map.1 hm
      exact ⟨t, List.mem_cons_self, hc⟩
    · obtain ⟨s, hs, hc⟩ := ih hm
      exact ⟨s, List.mem_cons_of_mem t hs, hc⟩

theorem exists_call_of_mem_extract {names : Names} {program : Tree} {u : Use}
    (hu : u ∈ (extract false names program).2) :
    ∃ id call, isGeneralCall call.kind = true ∧ call.preorder ⊆ program.preorder ∧ u ∈ usesOf id call := by
  rw [extract_eq_followAll, followAll_uses] at hu
  obtain ⟨m, hm, hu⟩ := List.mem_flatMap.1 hu
  obtain ⟨t, ht, hcall⟩ := mem_callsMet hm
  have hnode := mem_generalCallNodes hcall
  have hbelow : m.2.preorder ⊆ program.preorder := fun s hs =>
    mem_preorder_of_mem_outermost ht (mem_preorder_of_mem_outermost hnode hs)
  exact ⟨head m.1 m.2, m.2, isOne_of_mem_outermost hnode, hbelow, hu⟩

theorem line_of_mem_extract {names : Names} {program : Tree} (h : program.Placed) {u : Use}
    (hu : u ∈ (extract false names program).2) : 1 ≤ u.line := by
  obtain ⟨id, call, hkind, hbelow, hu⟩ := exists_call_of_mem_extract hu
  exact line_of_mem_usesOf (fun s hs => h s (hbelow hs)) hkind hu

/-! ## Two lines -/

section
variable {a b : String}

theorem ordered_eq_some_iff (hab : a < b) (x y : String) :
    ordered x y = some (a, b) ↔ x = a ∧ y = b ∨ x = b ∧ y = a := by
  have hne : a ≠ b := ne_of_lt hab
  have hnot : ¬ b < a := lt_asymm hab
  unfold ordered
  constructor
  · split
    · exact nofun
    · split <;> intro h <;> simp_all
  · rintro (⟨rfl, rfl⟩ | ⟨rfl, rfl⟩)
    · simp [hne, hab]
    · simp [hne.symm, hnot]

theorem lt_of_mem_pairsBetween {here there : List String} {p : String × String} (h : p ∈ pairsBetween here there) :
    p.1 < p.2 := by
  obtain ⟨x, -, hx⟩ := List.mem_flatMap.1 h
  obtain ⟨y, -, hy⟩ := List.mem_filterMap.1 hx
  unfold ordered at hy
  split at hy
  · exact nomatch hy
  · next hne =>
    split at hy
    · next hlt => rwa [← Option.some.inj hy]
    · next hle =>
      rw [← Option.some.inj hy]
      exact lt_of_le_of_ne (not_lt.1 hle) fun e => hne (beq_iff_eq.2 e.symm)

theorem lt_of_mem_pairsOf {window : Int} {lines : List (List String)} {p : String × String}
    (h : p ∈ pairsOf window lines) : p.1 < p.2 := by
  induction lines with
  | nil => exact absurd h (by simp [pairsOf])
  | cons here later ih =>
    rcases List.mem_append.1 h with h | h
    · obtain ⟨there, -, hp⟩ := List.mem_flatMap.1 h
      exact lt_of_mem_pairsBetween hp
    · exact ih h

/-- In how many ways the two can be taken from two lines, either of them from the first. -/
def across (a b : String) (here there : List String) : Nat := here.count a * there.count b + here.count b * there.count a

theorem count_filterMap_ordered (hab : a < b) (x : String) (there : List String) :
    (there.filterMap (ordered x)).count (a, b) = across a b [x] there := by
  have hne : a ≠ b := ne_of_lt hab
  rw [List.count_filterMap, across]
  by_cases hxa : x = a
  · subst hxa
    have hcongr : ∀ y ∈ there, (ordered x y == some (x, b)) = true ↔ (y == b) = true := by
      intro y _
      rw [beq_iff_eq, ordered_eq_some_iff hab, beq_iff_eq]
      simp [hne]
    rw [List.countP_congr hcongr]
    simp [hne, List.count]
  · by_cases hxb : x = b
    · subst hxb
      have hcongr : ∀ y ∈ there, (ordered x y == some (a, x)) = true ↔ (y == a) = true := by
        intro y _
        rw [beq_iff_eq, ordered_eq_some_iff hab, beq_iff_eq]
        simp [hxa]
      rw [List.countP_congr hcongr]
      simp [hxa, List.count]
    · have hnone : ∀ y ∈ there, ¬ (ordered x y == some (a, b)) = true := by
        intro y _
        rw [beq_iff_eq, ordered_eq_some_iff hab]
        simp [hxa, hxb]
      rw [List.countP_eq_zero.2 hnone]
      simp [hxa, hxb]

theorem count_pairsBetween (hab : a < b) (here there : List String) :
    (pairsBetween here there).count (a, b) = across a b here there := by
  induction here with
  | nil => simp [pairsBetween, across]
  | cons x here ih =>
    have hone := count_filterMap_ordered hab x there
    rw [pairsBetween, List.flatMap_cons, List.count_append]
    rw [pairsBetween] at ih
    rw [ih, hone]
    simp only [across, List.count_cons, List.count_nil]
    ring

/-! ## All lines -/

theorem sum_map_take (window : Nat) (g : List String → Nat) (lines : List (List String)) :
    ((lines.take window).map g).sum = ∑ j ∈ range lines.length, if j < window then g (lines.getD j []) else 0 := by
  induction lines generalizing window with
  | nil => simp
  | cons here later ih =>
    cases window with
    | zero => simp
    | succ window =>
      rw [List.take_succ_cons, List.map_cons, List.sum_cons, ih, List.length_cons, sum_range_succ']
      simp [Nat.add_comm]

theorem count_pairsOf (hab : a < b) (window : Int) (lines : List (List String)) :
    (pairsOf window lines).count (a, b) = ∑ i ∈ range lines.length, ∑ j ∈ range lines.length,
      if i ≤ j ∧ j < i + window.toNat then across a b (lines.getD i []) (lines.getD j []) else 0 := by
  induction lines with
  | nil => simp [pairsOf]
  | cons here later ih =>
    have hfirst : (((here :: later).take window.toNat).flatMap (pairsBetween here)).count (a, b) =
        ∑ j ∈ range (later.length + 1),
          if j < window.toNat then across a b here ((here :: later).getD j []) else 0 := by
      have hsum := sum_map_take window.toNat (across a b here) (here :: later)
      rw [List.length_cons] at hsum
      rw [List.count_flatMap, ← hsum]
      congr 2
      funext there
      exact count_pairsBetween hab here there
    rw [pairsOf, List.count_append, hfirst, ih, List.length_cons]
    conv_rhs => rw [sum_range_succ']
    refine (Nat.add_comm _ _).trans (congrArg₂ (· + ·) ?_ ?_)
    · apply sum_congr rfl
      intro i _
      rw [sum_range_succ']
      simp [Nat.add_right_comm]
    · simp

end

/-! ## Occurrences -/

def occurrences (n : Normalizer) (uses : List Use) : List (Int × String) :=
  uses.filterMap fun u => (plottingId? n u.id).map fun id => (u.line, id)

def linesWith (id : String) (os : List (Int × String)) : List Int := (os.filter fun o => o.2 == id).map Prod.fst

def linePairs (a b : String) (os : List (Int × String)) : List (Int × Int) := linesWith a os ×ˢ linesWith b os

theorem count_linesWith (id : String) (os : List (Int × String)) (line : Int) :
    (linesWith id os).count line = os.count (line, id) := by
  rw [linesWith, List.count, List.countP_map, List.countP_filter, List.count]
  refine List.countP_congr fun o _ => ?_
  simp [Prod.ext_iff]

theorem count_line (id : String) (os : List (Int × String)) (line : Int) :
    ((os.filter fun o => o.1 == line).map Prod.snd).count id = os.count (line, id) := by
  rw [List.count, List.countP_map, List.countP_filter, List.count]
  refine List.countP_congr fun o _ => ?_
  simp [Prod.ext_iff, and_comm]

def lineCount (os : List (Int × String)) : Nat := (os.foldl (fun m o => max m o.1) (-1) + 1).toNat

theorem le_foldl_max (os : List (Int × String)) (m : Int) :
    m ≤ os.foldl (fun m o => max m o.1) m ∧ ∀ o ∈ os, o.1 ≤ os.foldl (fun m o => max m o.1) m := by
  induction os generalizing m with
  | nil => simp
  | cons o os ih =>
    obtain ⟨hm, hos⟩ := ih (max m o.1)
    rw [List.foldl_cons]
    refine ⟨(le_max_left _ _).trans hm, ?_⟩
    rintro p hp
    rcases List.mem_cons.1 hp with rfl | hp
    · exact (le_max_right _ _).trans hm
    · exact hos p hp

theorem linesOf_getD (n : Normalizer) (uses : List Use) :
    (linesOf n uses).getD [] = (List.range (lineCount (occurrences n uses))).map fun i =>
      ((occurrences n uses).filter fun o => o.1 == Int.ofNat i).map Prod.snd := by
  have hkept : uses.filterMap (fun u => (plottingId? n u.id).map fun id => (u.line, id)) = occurrences n uses := rfl
  simp only [linesOf, hkept]
  cases occurrences n uses <;> rfl

theorem countP_eq_sum {α : Type} [DecidableEq α] [BEq α] [LawfulBEq α] (l : List α) (s : Finset α)
    (h : ∀ x ∈ l, x ∈ s) (p : α → Bool) : l.countP p = ∑ x ∈ s, if p x then l.count x else 0 := by
  induction l with
  | nil => simp
  | cons y l ih =>
    have hy : y ∈ s := h y List.mem_cons_self
    have hsplit (x : α) : (if p x then (y :: l).count x else 0) =
        (if p x then l.count x else 0) + if x = y then (if p y then 1 else 0) else 0 := by
      by_cases hxy : x = y
      · subst hxy
        by_cases hp : p x <;> simp [hp]
      · have hyx : ¬ y = x := fun e => hxy e.symm
        simp [hxy, hyx]
    rw [List.countP_cons, ih fun x hx => h x (List.mem_cons_of_mem y hx), sum_congr rfl fun x _ => hsplit x,
      sum_add_distrib, sum_ite_eq' s y, if_pos hy]

theorem count_product {α : Type} [DecidableEq α] (as bs : List α) (x y : α) :
    (as ×ˢ bs).count (x, y) = as.count x * bs.count y := by
  induction as with
  | nil => simp
  | cons z as ih =>
    rw [List.product_cons, List.count_append, ih, List.count_cons, Nat.add_mul, Nat.add_comm]
    congr 1
    by_cases hz : z = x
    · subst hz
      rw [List.count, List.countP_map, if_pos (by simp), Nat.one_mul, List.count]
      refine List.countP_congr fun w _ => ?_
      simp
    · have hnone : (x, y) ∉ bs.map (Prod.mk z) := by
        simpa using fun _ => hz
      rw [List.count_eq_zero.2 hnone]
      simp [hz]

theorem countP_linePairs (a b : String) {os : List (Int × String)} {size : Nat}
    (hos : ∀ o ∈ os, 0 ≤ o.1 ∧ o.1 < size) (p : Int × Int → Bool) :
    (linePairs a b os).countP p = ∑ i ∈ range size, ∑ j ∈ range size,
      if p (i, j) then os.count ((i : Int), a) * os.count ((j : Int), b) else 0 := by
  have hline (id : String) (line : Int) (h : line ∈ linesWith id os) : line ∈ (range size).map Nat.castEmbedding := by
    obtain ⟨o, ho, rfl⟩ := List.mem_map.1 h
    obtain ⟨hlow, hhigh⟩ := hos o (List.mem_of_mem_filter ho)
    exact mem_map.2 ⟨o.1.toNat, mem_range.2 (by omega), Int.toNat_of_nonneg hlow⟩
  have hpairs : ∀ q ∈ linePairs a b os,
      q ∈ (range size).map Nat.castEmbedding ×ˢ (range size).map Nat.castEmbedding := by
    rintro ⟨x, y⟩ hq
    obtain ⟨hx, hy⟩ := List.mem_product.1 hq
    exact mem_product.2 ⟨hline a x hx, hline b y hy⟩
  rw [countP_eq_sum _ _ hpairs, sum_product, sum_map]
  apply sum_congr rfl
  intro i _
  rw [sum_map]
  apply sum_congr rfl
  intro j _
  rw [linePairs, count_product, count_linesWith, count_linesWith]
  rfl

/-! ## Pairs of a program -/

def nearPairs (window : Int) (os : List (Int × String)) (a b : String) : Nat :=
  (linePairs a b os).countP fun q => decide (|q.1 - q.2| < window)

def pairsOnLine (os : List (Int × String)) (a b : String) : Nat := (linePairs a b os).countP fun q => q.1 == q.2

theorem pairsOnLine_eq_zero_iff (os : List (Int × String)) (a b : String) :
    pairsOnLine os a b = 0 ↔ ∀ line, (line, a) ∈ os → (line, b) ∉ os := by
  have hmem (id : String) (line : Int) : line ∈ linesWith id os ↔ (line, id) ∈ os := by
    rw [← List.count_pos_iff, count_linesWith, List.count_pos_iff]
  rw [pairsOnLine, List.countP_eq_zero]
  constructor
  · intro h line ha hb
    exact h (line, line) (List.mem_product.2 ⟨(hmem a line).2 ha, (hmem b line).2 hb⟩) (by simp)
  · rintro h ⟨x, y⟩ hq hsame
    obtain ⟨hx, hy⟩ := List.mem_product.1 hq
    obtain rfl : x = y := by simpa using hsame
    exact h x ((hmem a x).1 hx) ((hmem b x).1 hy)

theorem pairsOnLine_le_nearPairs {window : Int} (hwindow : 1 ≤ window) (os : List (Int × String)) (a b : String) :
    pairsOnLine os a b ≤ nearPairs window os a b := by
  refine List.countP_mono_left fun q _ hq => ?_
  have hsame : q.1 = q.2 := by simpa using hq
  simp only [hsame, sub_self, abs_zero, decide_eq_true_eq]
  omega

theorem sum_both_ends {window : Int} (hwindow : 1 ≤ window) (size : Nat) (f : Nat → Nat → Nat) :
    (∑ i ∈ range size, ∑ j ∈ range size, if i ≤ j ∧ j < i + window.toNat then f i j + f j i else 0) =
      (∑ i ∈ range size, ∑ j ∈ range size, if decide (|(i : Int) - j| < window) then f i j else 0) +
        ∑ i ∈ range size, ∑ j ∈ range size, if (i : Int) == j then f i j else 0 := by
  have hapart : (∑ i ∈ range size, ∑ j ∈ range size, if i ≤ j ∧ j < i + window.toNat then f i j + f j i else 0) =
      (∑ i ∈ range size, ∑ j ∈ range size, if i ≤ j ∧ j < i + window.toNat then f i j else 0) +
        ∑ i ∈ range size, ∑ j ∈ range size, if i ≤ j ∧ j < i + window.toNat then f j i else 0 := by
    simp only [← sum_add_distrib]
    refine sum_congr rfl fun i _ => sum_congr rfl fun j _ => ?_
    split <;> rfl
  have hturned : (∑ i ∈ range size, ∑ j ∈ range size, if i ≤ j ∧ j < i + window.toNat then f j i else 0) =
      ∑ i ∈ range size, ∑ j ∈ range size, if j ≤ i ∧ i < j + window.toNat then f i j else 0 := sum_comm
  rw [hapart, hturned]
  simp only [← sum_add_distrib]
  refine sum_congr rfl fun i _ => sum_congr rfl fun j _ => ?_
  have hnear : decide (|(i : Int) - j| < window) = true ↔
      (i ≤ j ∧ j < i + window.toNat) ∨ (j ≤ i ∧ i < j + window.toNat) := by
    rw [decide_eq_true_iff, abs_lt]
    omega
  have hsame : ((i : Int) == j) = true ↔
      (i ≤ j ∧ j < i + window.toNat) ∧ (j ≤ i ∧ i < j + window.toNat) := by
    rw [beq_iff_eq]
    omega
  by_cases hij : i ≤ j ∧ j < i + window.toNat <;> by_cases hji : j ≤ i ∧ i < j + window.toNat <;>
    simp [hnear, hsame, hij, hji]

theorem count_coOccurrences (n : Normalizer) {window : Int} (hwindow : 1 ≤ window) {uses : List Use}
    (huses : ∀ u ∈ uses, 1 ≤ u.line) {a b : String} (hab : a < b) :
    (coOccurrences n window uses).count (a, b) =
      nearPairs window (occurrences n uses) a b + pairsOnLine (occurrences n uses) a b := by
  let os := occurrences n uses
  have hbounds : ∀ o ∈ os, 0 ≤ o.1 ∧ o.1 < lineCount os := by
    intro o ho
    have hhigh := (le_foldl_max os (-1)).2 o ho
    obtain ⟨u, hu, hline⟩ := List.mem_filterMap.1 ho
    obtain ⟨id, -, rfl⟩ := Option.map_eq_some_iff.1 hline
    have hlow := huses u hu
    unfold lineCount
    omega
  have hlength : ((linesOf n uses).getD []).length = lineCount os := by
    rw [linesOf_getD, List.length_map, List.length_range]
  have hline (i : Nat) (hi : i ∈ range (lineCount os)) (id : String) :
      (((linesOf n uses).getD []).getD i []).count id = os.count ((i : Int), id) := by
    rw [linesOf_getD, List.getD_eq_getElem?_getD, List.getElem?_map, List.getElem?_range (mem_range.1 hi),
      Option.map_some, Option.getD_some]
    exact count_line id os i
  rw [nearPairs, pairsOnLine, countP_linePairs a b hbounds, countP_linePairs a b hbounds,
    ← sum_both_ends hwindow (lineCount os) fun i j => os.count ((i : Int), a) * os.count ((j : Int), b),
    coOccurrences, count_pairsOf hab, hlength]
  refine sum_congr rfl fun i hi => sum_congr rfl fun j hj => ?_
  rw [across, hline i hi, hline j hj, hline i hi, hline j hj, Nat.mul_comm (os.count ((i : Int), b))]

/-- In a program, the pairs listed are pairs of different elements in order with occurrences less than `window` lines
apart. Each pair of such occurrences is counted once, and those on one line once more; so the count of a pair is the number
of its pairs of occurrences exactly when no line has both. -/
theorem coOccurrences_count_iff (n : Normalizer) (names : Names) {program : Tree} (hprogram : program.Placed)
    {window : Int} (hwindow : 1 ≤ window) :
    let uses := (extract false names program).2
    let os := occurrences n uses
    let pairs := coOccurrences n window uses
    (∀ p ∈ pairs, p.1 < p.2 ∧ 0 < nearPairs window os p.1 p.2) ∧
      ∀ a b, a < b → pairs.count (a, b) = nearPairs window os a b + pairsOnLine os a b ∧
        (pairs.count (a, b) = nearPairs window os a b ↔ ∀ line, (line, a) ∈ os → (line, b) ∉ os) := by
  intro uses os pairs
  have hcount {a b : String} (hab : a < b) :
      pairs.count (a, b) = nearPairs window os a b + pairsOnLine os a b :=
    count_coOccurrences n hwindow (fun _ hu => line_of_mem_extract hprogram hu) hab
  constructor
  · rintro ⟨a, b⟩ hp
    have hab : a < b := lt_of_mem_pairsOf hp
    have hpos : 0 < pairs.count (a, b) := List.count_pos_iff.2 hp
    have hle := pairsOnLine_le_nearPairs hwindow os a b
    rw [hcount hab] at hpos
    exact ⟨hab, by dsimp only; omega⟩
  · intro a b hab
    refine ⟨hcount hab, ?_⟩
    rw [hcount hab, ← pairsOnLine_eq_zero_iff]
    omega

/-! ## Two programs -/

def plottingCall (line stop : Int) (f : String) (args keywords : List Tree) : Tree :=
  let place (start stop : Int) : Option Span := some ⟨⟨line, start⟩, ⟨line, stop⟩⟩
  let callee : Tree := .node "Attribute" (place 0 (4 + f.length)) [
    ("value", .node "Name" (place 0 3) [("id", .lit (.text "plt")), ("ctx", .node "Load" none [])]),
    ("attr", .lit (.text f)), ("ctx", .node "Load" none [])]
  .node "Expr" (place 0 stop) [
    ("value", .node "Call" (place 0 stop) [("func", callee), ("args", .list args), ("keywords", .list keywords)])]

def pieWithTitle : Tree := moduleOf [plottingCall 1 9 "pie" [] [], plottingCall 2 11 "title" [] []] []

def legendWithPlace : Tree :=
  let value : Tree := .node "Constant" (some ⟨⟨1, 15⟩, ⟨1, 16⟩⟩) [("value", .lit (.int 1)), ("kind", .lit .none)]
  let keyword : Tree := .node "keyword" (some ⟨⟨1, 11⟩, ⟨1, 16⟩⟩) [("arg", .lit (.text "loc")), ("value", value)]
  moduleOf [plottingCall 1 17 "legend" [] [keyword]] []

def plottingShort : Normalizer := ⟨⟨[("matplotlib.pyplot", "plt")]⟩, .empty, []⟩

theorem coOccurrences_count_iff_pieWithTitle :
    let uses := (extract false sessionTable pieWithTitle).2
    pieWithTitle.Placed ∧ (1 : Int) ≤ 2 ∧ "plt.pie" < "plt.title" ∧
      nearPairs 2 (occurrences plottingShort uses) "plt.pie" "plt.title" = 1 ∧
      (coOccurrences plottingShort 2 uses).count ("plt.pie", "plt.title") = 1 := by
  intro uses
  have hprogram : pieWithTitle.Placed := by decide
  have hnear : nearPairs 2 (occurrences plottingShort uses) "plt.pie" "plt.title" = 1 := by decide +kernel
  have hapart : pairsOnLine (occurrences plottingShort uses) "plt.pie" "plt.title" = 0 := by decide +kernel
  have hlt : "plt.pie" < "plt.title" := by decide
  have hcounts := (coOccurrences_count_iff plottingShort sessionTable hprogram (by decide : (1 : Int) ≤ 2)).2 _ _ hlt
  exact ⟨hprogram, by decide, hlt, hnear, (hcounts.2.2 ((pairsOnLine_eq_zero_iff _ _ _).1 hapart)).trans hnear⟩

/-- The function and its argument on one line are met twice. -/
theorem argument_met_twice :
    let uses := (extract false sessionTable legendWithPlace).2
    legendWithPlace.Placed ∧ occurrences plottingShort uses = [(1, "plt.legend"), (1, "plt.legend@loc")] ∧
      nearPairs 20 (occurrences plottingShort uses) "plt.legend" "plt.legend@loc" = 1 ∧
      coOccurrences plottingShort 20 uses = [("plt.legend", "plt.legend@loc"), ("plt.legend", "plt.legend@loc")] := by
  decide +kernel

end Elements

end PlotAdvisor
