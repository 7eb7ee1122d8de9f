import PlotAdvisor.Mining.Command
import PlotAdvisor.Proofs.Ancestry
import PlotAdvisor.Proofs.CoOccurrence
import PlotAdvisor.Proofs.ReturnTypes
import PlotAdvisor.Proofs.UsedFunctions

/-! Entries of element ids. An id is cut at its `@`, a function's at its dots as well; what stands in front of the last
cut is the parent of what stands behind it. -/
set_option autoImplicit false

namespace PlotAdvisor

namespace Documentation

open Elements Text

theorem at_toList : "@".toList = ['@'] := rfl

/-! ## Parents and names -/

/-- Parent and name make up the id, with the sign between them that goes with the type; the name has no such sign. -/
inductive Entry.Joined {κ : Type} (e : Entry κ) : Prop where
  | bare (type : e.type = "func") (parent : e.parent = "") (eq : e.id = e.name) (no_dot : '.' ∉ e.name.toList)
  | member (type : e.type = "func") (eq : e.id = e.parent ++ "." ++ e.name) (no_dot : '.' ∉ e.name.toList)
  | argument (type : e.type = "arg" ∨ e.type = "argkey") (eq : e.id = e.parent ++ "@" ++ e.name)
      (no_at : '@' ∉ e.name.toList)

/-- A text begins with another, which is shorter. -/
def Within (p a : String) : Prop := p.length < a.length ∧ p.toList <+: a.toList

theorem Within.trans {p a c : String} (h : Within p a) (h' : Within a c) : Within p c :=
  ⟨h.1.trans h'.1, h.2.trans h'.2⟩

theorem within_append (p name : String) {sign : String} (hsign : sign ≠ "") : Within p (p ++ sign ++ name) := by
  have hpos : 0 < sign.length := Nat.pos_iff_ne_zero.2 fun h => hsign (String.length_eq_zero_iff.1 h)
  refine ⟨?_, ?_⟩
  · rw [String.length_append, String.length_append]
    omega
  · rw [String.toList_append, String.toList_append, List.append_assoc]
    exact List.prefix_append _ _

theorem Entry.Joined.within {κ : Type} {e : Entry κ} (h : e.Joined) (hid : e.id ≠ "") : Within e.parent e.id := by
  cases h with
  | bare _ hparent _ _ =>
    rw [hparent]
    exact ⟨Nat.pos_iff_ne_zero.2 fun h => hid (String.length_eq_zero_iff.1 h), List.nil_prefix⟩
  | member _ heq _ =>
    rw [heq]
    exact within_append _ _ (by decide)
  | argument _ heq _ =>
    rw [heq]
    exact within_append _ _ (by decide)

namespace Base

variable {b : Base} {id : String}

theorem joined_complete_path (fullName : String) (u : Option Utterance) :
    (b.complete id (((splitOn id ".").getLast?).getD "") fullName "func" (join "." (splitOn id ".").dropLast)
      u).Joined := by
  obtain ⟨init, last, hsplit⟩ := exists_last_piece dot_toList id
  have hlast : '.' ∉ last.toList := notMem_of_mem_splitOn dot_toList (s := id) (by simp [hsplit])
  have hjoin := join_splitOn dot_toList id
  rw [hsplit] at hjoin ⊢
  rw [List.getLast?_concat, Option.getD_some, List.dropLast_concat]
  by_cases hinit : init = []
  · subst hinit
    rw [List.nil_append, join_singleton] at hjoin
    exact .bare rfl rfl hjoin.symm hlast
  · rw [join_append "." init [last] hinit (by simp), join_singleton] at hjoin
    exact .member rfl hjoin.symm hlast

theorem entry_joined {d : Entry Int} (h : b.entry id = .ok (some d)) : id ≠ "" ∧ d.id = id ∧ d.Joined := by
  unfold entry at h
  obtain ⟨_, hid, h⟩ := bind_eq_ok h
  obtain ⟨fullName, -, h⟩ := bind_eq_ok h
  have hne : id ≠ "" := by
    rintro rfl
    exact absurd hid (by simp [ensure])
  have hjoin := join_splitOn at_toList id
  have hpieces {p : String} (hp : p ∈ splitOn id "@") : '@' ∉ p.toList := notMem_of_mem_splitOn at_toList hp
  split at h
  · next path hsplit =>
    rw [hsplit, join_singleton] at hjoin
    subst hjoin
    obtain rfl := Option.some.inj (Except.ok.inj h)
    exact ⟨hne, rfl, joined_complete_path _ _⟩
  · next parent name hsplit =>
    rw [hsplit, join_cons_cons, join_singleton] at hjoin
    split at h
    · exact nomatch h
    · obtain ⟨owner, -, h⟩ := bind_eq_ok h
      obtain rfl := Option.some.inj (Except.ok.inj h)
      exact ⟨hne, rfl, .argument (.inl rfl) hjoin.symm (hpieces (p := name) (by simp [hsplit]))⟩
  · next function argument name hsplit =>
    rw [hsplit, join_cons_cons, join_cons_cons, join_singleton, ← String.append_assoc, ← String.append_assoc] at hjoin
    obtain ⟨owner, -, h⟩ := bind_eq_ok h
    obtain rfl := Option.some.inj (Except.ok.inj h)
    exact ⟨hne, rfl, .argument (.inr rfl) hjoin.symm (hpieces (p := name) (by simp [hsplit]))⟩
  · exact nomatch h

/-! ## The library of some ids -/

def accepted? (b : Base) (id : String) : Option (Entry String) :=
  match b.entry id with
  | .ok (some d) => some { d with count := toString d.count }
  | _ => none

def library (b : Base) (ids : List String) : Library :=
  ⟨Table.ofList ((ids.filterMap b.accepted?).map fun e => (e.id, e))⟩

theorem accepted_joined {e : Entry String} (h : b.accepted? id = some e) : id ≠ "" ∧ e.id = id ∧ e.Joined := by
  unfold accepted? at h
  split at h
  · next d hd =>
    obtain rfl := Option.some.inj h
    obtain ⟨hne, hid, hjoined⟩ := entry_joined hd
    refine ⟨hne, hid, ?_⟩
    cases hjoined with
    | bare htype hparent heq hdot => exact .bare htype hparent heq hdot
    | member htype heq hdot => exact .member htype heq hdot
    | argument htype heq hat => exact .argument htype heq hat
  · exact nomatch h

theorem find?_library {ids : List String} {e : Entry String} :
    (b.library ids).find? id = some e ↔ id ∈ ids ∧ b.accepted? id = some e := by
  have hmem {x : String} {v : Entry String} (h : (x, v) ∈ (ids.filterMap b.accepted?).map fun e => (e.id, e)) :
      x ∈ ids ∧ b.accepted? x = some v := by
    obtain ⟨d, hd, hxv⟩ := List.mem_map.1 h
    obtain ⟨rfl, rfl⟩ := Prod.mk.inj hxv
    obtain ⟨y, hy, hacc⟩ := List.mem_filterMap.1 hd
    obtain ⟨-, rfl, -⟩ := accepted_joined hacc
    exact ⟨hy, hacc⟩
  constructor
  · exact fun h => hmem ((Table.mem_of_get?_setAll h).resolve_right nofun)
  · rintro ⟨hid, hacc⟩
    have hkey : id ∈ ((ids.filterMap b.accepted?).map fun e => (e.id, e)).map Prod.fst := by
      rw [List.map_map]
      exact List.mem_map.2 ⟨e, List.mem_filterMap.2 ⟨id, hid, hacc⟩, (accepted_joined hacc).2.1⟩
    obtain ⟨v, hv, hget⟩ := Table.exists_get?_setAll Table.empty hkey
    obtain rfl : v = e := Option.some.inj ((hmem hv).2.symm.trans hacc)
    exact hget

end Base

/-! ## The way up -/

structure Library.Climb (l : Library) (id : String) (ps : List String) : Prop where
  steps : (id :: ps).IsChain fun a p => l.HasParent p a
  root : ∀ last ∈ (id :: ps).getLast?, ∀ e, l.find? last = some e → e.parent = ""

theorem Library.Ends.climb {l : Library} {id : String} (h : l.Ends id) : l.Climb id (l.parents id) := by
  induction h with
  | intro id hup ih =>
    by_cases hparent : ∃ p, l.HasParent p id
    · obtain ⟨p, hp⟩ := hparent
      obtain ⟨hsteps, hroot⟩ := ih p hp
      rw [Library.parents_of_hasParent (.intro id hup) hp]
      refine ⟨List.isChain_cons_cons.2 ⟨hp, hsteps⟩, ?_⟩
      rwa [List.getLast?_cons_cons]
    · rw [Library.parents, Library.parentsUpTo_of_root (not_exists.1 hparent)]
      refine ⟨List.isChain_singleton id, ?_⟩
      rintro last ⟨rfl⟩ e he
      by_contra hne
      exact hparent ⟨e.parent, e, he, rfl, hne⟩

/-- The library of some ids has the entries of those that are accepted, and each is made up of parent and name. Whatever
id one starts from, the way up ends; on it every parent is a shorter beginning of all that lies below it. -/
theorem Base.library_climbs (b : Base) (ids : List String) :
    (∀ id e, (b.library ids).find? id = some e ↔ id ∈ ids ∧ b.accepted? id = some e) ∧
    (∀ id e, b.accepted? id = some e → e.id = id ∧ e.Joined) ∧
    ∀ id, (b.library ids).Ends id ∧ (b.library ids).Climb id ((b.library ids).parents id) ∧
      (id :: (b.library ids).parents id).Pairwise fun a p => Within p a := by
  have hwithin {id p : String} (h : (b.library ids).HasParent p id) : Within p id := by
    obtain ⟨e, he, rfl, -⟩ := h
    obtain ⟨hne, rfl, hjoined⟩ := accepted_joined (find?_library.1 he).2
    exact hjoined.within hne
  refine ⟨fun id e => find?_library, fun id e h => (accepted_joined h).2, fun id => ?_⟩
  have hends : (b.library ids).Ends id := by
    refine Subrelation.accessible ?_ (InvImage.accessible String.length (Nat.lt_wfRel.wf.apply id.length))
    exact fun h => (hwithin h).1
  have : IsTrans String fun a p => Within p a := ⟨fun _ _ _ h h' => h'.trans h⟩
  exact ⟨hends, hends.climb, (hends.climb.steps.imp fun _ _ h => hwithin h).pairwise⟩

end Documentation

namespace Program

def Tree.SimpleKeywords (t : Tree) : Prop :=
  ∀ n ∈ t.preorder, ∀ s ∈ n.fieldText? "arg", '@' ∉ s.toList ∧ '.' ∉ s.toList

instance (t : Tree) : Decidable t.SimpleKeywords :=
  inferInstanceAs (Decidable (∀ n ∈ t.preorder, ∀ s ∈ n.fieldText? "arg", '@' ∉ s.toList ∧ '.' ∉ s.toList))

end Program

namespace Elements

open Program Text Mining

/-! ## Counting `@` -/

def marks (id : String) : Nat := id.toList.count '@'

theorem marks_append (s t : String) : marks (s ++ t) = marks s + marks t := by
  rw [marks, String.toList_append, List.count_append]
  rfl

theorem marks_eq_zero_iff (s : String) : marks s = 0 ↔ Plain s := List.count_eq_zero

theorem marks_argumentPart (s : String) : marks (argumentPart s) = marks s := by
  have hfront : marks (upTo '@' s) = 0 := (marks_eq_zero_iff _).2 (notMem_upTo '@' s)
  conv_rhs => rw [← upTo_append_fromFirst '@' s, marks_append, hfront, Nat.zero_add]
  rfl

theorem marks_fromFirst_le (c : Char) (s : String) : marks (fromFirst c s) ≤ marks s := by
  conv_rhs => rw [← upTo_append_fromFirst c s, marks_append]
  omega

theorem marks_at (s : String) : marks ("@" ++ s) = marks s + 1 := by
  rw [marks_append, Nat.add_comm]
  rfl

def LosesArgument (n : Normalizer) (id : String) : Prop :=
  DropsArgument n.functions (n.shorten (fromInteractive n.functions id))

section
variable {n : Normalizer} (hn : HasShippedForms n) {id : String}
include hn

theorem marks_simplify_of_keeps (h : ¬ LosesArgument n id) : marks (n.simplify id) = marks id := by
  have hkept := (argumentPart_fromCurrent_iff n.functions _).2 h
  rw [argumentPart_shortened hn] at hkept
  rw [← marks_argumentPart, Normalizer.simplify, hkept, marks_argumentPart]

theorem marks_simplify_of_loses (h : LosesArgument n id) :
    marks (n.simplify id) = marks (fromFirst '.' (argumentPart id)) := by
  obtain ⟨holder, g, argument, hm, hset, hg⟩ := h
  have hpart : argumentPart id = "@" ++ argument := by
    rw [← argumentPart_shortened hn, argumentPart_of_member hm, argumentPart_at]
  have hname : Plain ("plt" ++ "." ++ g) := plain_plt fun hat => hm.no_at (by simp [hat])
  rw [Normalizer.simplify, fromCurrent_of_setter hm hset hg, ← String.append_assoc, marks_append,
    (marks_eq_zero_iff _).2 hname, Nat.zero_add, hpart]

variable {h a : String} (hh : Plain h) (ha : Plain a)
include hh ha

theorem marks_argument_le : marks (n.simplify (h ++ ("@" ++ a))) ≤ 2 := by
  have hargument : marks (h ++ ("@" ++ a)) = 1 := by
    rw [marks_append, marks_at, (marks_eq_zero_iff h).2 hh, (marks_eq_zero_iff a).2 ha]
  by_cases hloses : LosesArgument n (h ++ ("@" ++ a))
  · have hle := marks_fromFirst_le '.' (argumentPart (h ++ ("@" ++ a)))
    rw [marks_simplify_of_loses hn hloses]
    rw [marks_argumentPart] at hle
    omega
  · rw [marks_simplify_of_keeps hn hloses]
    omega

theorem marks_key_le_iff (hdot : '.' ∉ a.toList) (k : String) :
    marks (n.simplify (h ++ ("@" ++ (a ++ ("@" ++ k))))) ≤ 2 ↔
      Plain k ∨ LosesArgument n (h ++ ("@" ++ (a ++ ("@" ++ k)))) ∧ marks (fromFirst '.' k) ≤ 2 := by
  have hkey : marks (h ++ ("@" ++ (a ++ ("@" ++ k)))) = marks k + 2 := by
    rw [marks_append, marks_at, marks_append, marks_at, (marks_eq_zero_iff h).2 hh, (marks_eq_zero_iff a).2 ha]
    omega
  by_cases hloses : LosesArgument n (h ++ ("@" ++ (a ++ ("@" ++ k))))
  · have hpart : argumentPart (h ++ ("@" ++ (a ++ ("@" ++ k)))) = "@" ++ (a ++ ("@" ++ k)) := by
      rw [argumentPart_append hh, argumentPart_at]
    have hle := marks_fromFirst_le '.' k
    rw [marks_simplify_of_loses hn hloses, hpart, fromFirst_append (by decide), fromFirst_append hdot,
      fromFirst_append (by decide), ← marks_eq_zero_iff]
    simp only [hloses, true_and]
    omega
  · rw [marks_simplify_of_keeps hn hloses, hkey, ← marks_eq_zero_iff]
    simp only [hloses, false_and, or_false]
    omega

end

/-! ## The ids at a call -/

section
variable {call : Tree} (hcall : call.SimpleKeywords)
include hcall

theorem simple_keywordName {kw : Tree} (hkw : ∀ n ∈ kw.preorder, n ∈ call.preorder) :
    '@' ∉ (keywordName kw).toList ∧ '.' ∉ (keywordName kw).toList := by
  unfold keywordName
  cases htext : kw.fieldText? "arg" with
  | none => decide
  | some s =>
    cases kw with
    | node kind span fields => exact hcall _ (hkw _ (Tree.mem_preorder_self rfl)) s htext
    | list ts => simp [Tree.fieldText?, Tree.field, Tree.field?, Tree.fields] at htext
    | lit v => simp [Tree.fieldText?, Tree.field, Tree.field?, Tree.fields] at htext

theorem simple_argument {a : String × Tree} (ha : a ∈ argumentsOf call) : Plain a.1 ∧ '.' ∉ a.1.toList := by
  unfold argumentsOf at ha
  split at ha
  · rcases List.mem_append.1 ha with hplace | hkeyword
    · obtain ⟨p, -, rfl⟩ := List.mem_map.1 hplace
      have hdigits (c : Char) (hc : c ∈ (toString p.2).toList) : c.isDigit = true :=
        Nat.isDigit_of_mem_toDigits (b := 10) (n := p.2) (by decide) (by decide) (by simpa using hc)
      exact ⟨fun hat => absurd (hdigits '@' hat) (by decide), fun hdot => absurd (hdigits '.' hdot) (by decide)⟩
    · obtain ⟨kw, hkw, rfl⟩ := List.mem_map.1 hkeyword
      exact simple_keywordName hcall fun n hn => Tree.mem_preorder_of_fieldItem hkw hn
  · exact absurd ha (by simp)

omit hcall in
theorem exists_mem_usesOf_iff {h x : String} :
    (∃ u ∈ usesOf h call, u.id = x) ↔ x = h ∨ ∃ a ∈ argumentsOf call, x = h ++ ("@" ++ a.1) ∨
      ∃ k ∈ tableKeys a.2, x = h ++ ("@" ++ (a.1 ++ ("@" ++ k))) := by
  rw [← List.mem_map, ids_usesOf, marksOf, List.mem_cons, List.mem_map]
  refine or_congr_right ⟨?_, ?_⟩
  · rintro ⟨m, hm, rfl⟩
    obtain ⟨a, ha, hm⟩ := List.mem_flatMap.1 hm
    refine ⟨a, ha, ?_⟩
    rcases List.mem_cons.1 hm with rfl | hm
    · exact .inl rfl
    · obtain ⟨k, hk, rfl⟩ := List.mem_map.1 hm
      exact .inr ⟨k, hk, rfl⟩
  · rintro ⟨a, ha, rfl | ⟨k, hk, rfl⟩⟩
    · exact ⟨a.1, List.mem_flatMap.2 ⟨a, ha, List.mem_cons_self⟩, rfl⟩
    · exact ⟨_, List.mem_flatMap.2 ⟨a, ha, List.mem_cons_of_mem _ (List.mem_map.2 ⟨k, hk, rfl⟩)⟩, rfl⟩

theorem marks_usesOf_le_iff {n : Normalizer} (hn : HasShippedForms n) {h : String} (hh : Plain h) (P : String → Prop) :
    (∀ u ∈ usesOf h call, P u.id → marks (n.simplify u.id) ≤ 2) ↔
      ∀ a ∈ argumentsOf call, ∀ k ∈ tableKeys a.2, P (h ++ ("@" ++ (a.1 ++ ("@" ++ k)))) →
        Plain k ∨ LosesArgument n (h ++ ("@" ++ (a.1 ++ ("@" ++ k)))) ∧ marks (fromFirst '.' k) ≤ 2 := by
  constructor
  · intro hall a ha k hk hkept
    obtain ⟨hat, hdot⟩ := simple_argument hcall ha
    obtain ⟨u, hu, hid⟩ := exists_mem_usesOf_iff.2 (.inr ⟨a, ha, .inr ⟨k, hk, rfl⟩⟩)
    rw [← marks_key_le_iff hn hh hat hdot, ← hid]
    exact hall u hu (hid ▸ hkept)
  · intro hkeys u hu hkept
    rcases exists_mem_usesOf_iff.1 ⟨u, hu, rfl⟩ with hid | ⟨a, ha, hid | ⟨k, hk, hid⟩⟩
    · rw [hid, (marks_eq_zero_iff _).2 (plain_simplify hn hh)]
      omega
    · rw [hid]
      exact marks_argument_le hn hh (simple_argument hcall ha).1
    · obtain ⟨hat, hdot⟩ := simple_argument hcall ha
      rw [hid] at hkept ⊢
      exact (marks_key_le_iff hn hh hat hdot k).2 (hkeys a ha k hk hkept)

end

/-! ## Mining -/

def callsMined (parse : String → Except Fault Tree) : Names → List String → List (Names × Tree)
  | _, [] => []
  | names, code :: codes =>
    match parse code with
    | .error _ => callsMined parse names codes
    | .ok program =>
      callsMet names (followed false program) ++ callsMined parse (extract false names program).1 codes

theorem plottingId?_eq_some_iff {n : Normalizer} {id x : String} :
    plottingId? n id = some x ↔ Text.startsWith (n.simplify id) "plt." = true ∧ n.simplify id = x := by
  unfold plottingId?
  dsimp only
  split <;> simp_all

section
variable {n : Normalizer}

theorem tallyUse_spec (names : Names) (t : ElementTally) (u : Use) :
    (tallyUse n names t u).names = t.names ∧
    ∀ id, id ∈ (tallyUse n names t u).plotting.keys ↔ id ∈ t.plotting.keys ∨ plottingId? n u.id = some id := by
  unfold tallyUse
  cases hid : plottingId? n u.id with
  | none => exact ⟨rfl, by simp⟩
  | some x =>
    dsimp only
    split
    · exact ⟨rfl, fun id => by rw [Option.some_inj]; exact Table.mem_keys_alter⟩
    · exact ⟨rfl, fun id => by rw [Option.some_inj]; exact Table.mem_keys_alter⟩

theorem tally_spec (names : Names) (uses : List Use) (t : ElementTally) :
    (uses.foldl (tallyUse n names) t).names = t.names ∧
    ∀ id, id ∈ (uses.foldl (tallyUse n names) t).plotting.keys ↔
      id ∈ t.plotting.keys ∨ ∃ u ∈ uses, plottingId? n u.id = some id := by
  induction uses generalizing t with
  | nil => simp
  | cons u uses ih =>
    obtain ⟨hnames, hkeys⟩ := tallyUse_spec (n := n) names t u
    obtain ⟨hall, hmem⟩ := ih (tallyUse n names t u)
    rw [List.foldl_cons, hall, hnames]
    refine ⟨rfl, fun id => ?_⟩
    rw [hmem, hkeys, List.exists_mem_cons_iff, or_assoc]

theorem mem_plotting_iff {parse : String → Except Fault Tree} (codes : List String) (t : ElementTally) (id : String) :
    id ∈ (codes.foldl (visitElements n parse) t).plotting.keys ↔ id ∈ t.plotting.keys ∨
      ∃ u ∈ (callsMined parse t.names codes).flatMap (fun m => usesAt m.1 m.2), plottingId? n u.id = some id := by
  induction codes generalizing t with
  | nil => simp [callsMined]
  | cons code codes ih =>
    rw [List.foldl_cons, ih, visitElements, callsMined]
    cases parse code with
    | error f => rfl
    | ok program =>
      dsimp only
      obtain ⟨hnames, hkeys⟩ := tally_spec (n := n) (extract false t.names program).1
        (extract false t.names program).2 { t with names := (extract false t.names program).1 }
      rw [hnames, hkeys, or_assoc, extract_eq_followed, followAll_uses, List.flatMap_append]
      simp only [List.mem_append, or_and_right, exists_or]

theorem mem_kept_iff {parse : String → Except Fault Tree} {codes : List String} {id : String} :
    id ∈ (codes.foldl (visitElements n parse) {}).plotting.keys ↔
      ∃ m ∈ callsMined parse sessionTable codes, ∃ u ∈ usesAt m.1 m.2,
        Text.startsWith (n.simplify u.id) "plt." = true ∧ n.simplify u.id = id := by
  rw [mem_plotting_iff]
  constructor
  · rintro (hnone | ⟨u, hu, hid⟩)
    · exact absurd hnone (by simp [Table.keys, Table.empty])
    · obtain ⟨m, hm, hu⟩ := List.mem_flatMap.1 hu
      exact ⟨m, hm, u, hu, plottingId?_eq_some_iff.1 hid⟩
  · rintro ⟨m, hm, u, hu, hid⟩
    exact .inr ⟨u, List.mem_flatMap.2 ⟨m, hm, hu⟩, plottingId?_eq_some_iff.2 hid⟩

theorem ne_empty_of_mem_kept {parse : String → Except Fault Tree} {codes : List String} {id : String}
    (hid : id ∈ (codes.foldl (visitElements n parse) {}).plotting.keys) : id ≠ "" := by
  rintro rfl
  obtain ⟨m, -, u, -, hstart, hempty⟩ := mem_kept_iff.1 hid
  rw [hempty] at hstart
  exact absurd hstart (by decide)

theorem callsMined_plain {parse : String → Except Fault Tree} {codes : List String}
    (hparse : ∀ code ∈ codes, ∀ p, parse code = .ok p → p.PlainNames ∧ p.SimpleKeywords) {names : Names}
    (hnames : PlainTable names) :
    ∀ m ∈ callsMined parse names codes, Plain (head m.1 m.2) ∧ m.2.SimpleKeywords := by
  induction codes generalizing names with
  | nil => exact fun m hm => absurd hm (by simp [callsMined])
  | cons code codes ih =>
    have hlater : ∀ c ∈ codes, ∀ p, parse c = .ok p → p.PlainNames ∧ p.SimpleKeywords := fun c hc =>
      hparse c (List.mem_cons_of_mem code hc)
    intro m hm
    rw [callsMined] at hm
    cases hcode : parse code with
    | error f =>
      rw [hcode] at hm
      exact ih hlater hnames m hm
    | ok program =>
      obtain ⟨hplain, hsimple⟩ := hparse code List.mem_cons_self program hcode
      have hstatements : ∀ t ∈ followed false program, t.PlainNames := fun t ht =>
        outermost_plain isFollowed program hplain t (List.mem_filter.1 ht).1
      rw [hcode] at hm
      rcases List.mem_append.1 hm with hm | hm
      · refine ⟨callsMet_plain hnames hstatements m hm, fun n hn => hsimple n ?_⟩
        obtain ⟨t, ht, hcall⟩ := mem_callsMet hm
        have hstatement := mem_preorder_of_mem_outermost (mem_generalCallNodes hcall) hn
        exact mem_preorder_of_mem_outermost (List.mem_filter.1 ht).1 hstatement
      · refine ih hlater ?_ m hm
        rw [extract_eq_followed]
        exact plainTable_followAll hnames _ hstatements

end

/-! ## Types of results -/

def HasShippedTypes (n : Normalizer) : Prop := n.returnTypes = Table.ofList shippedTypes

theorem first_shippedTypes : ∀ row ∈ shippedTypes, upTo '.' row.1 = "plt" ∧ upTo '.' row.2 = "mpl" := by
  decide

theorem simplify_shippedTypes {n : Normalizer} (hn : HasShippedForms n) :
    shippedTypes.map (fun r => (n.simplify r.1, n.simplify r.2)) = shippedTypes := by
  have hrows : ∀ x ∈ ["plt.gca", "mpl.axes.Axes", "plt.legend", "mpl.legend.Legend"], n.simplify x = x := by
    intro x hx
    have hfirst : ∀ x ∈ ["plt.gca", "mpl.axes.Axes", "plt.legend", "mpl.legend.Legend"],
        upTo '.' x ≠ "matplotlib" ∧ upTo '.' x ≠ "pylab" ∧ (dots x ≤ 1 ∨ upTo '.' x ≠ "plt") := by
      decide
    obtain ⟨hmodule, hpylab, hfew⟩ := hfirst x hx
    rw [simplify_of_settled (settled_of_first hn hmodule hpylab), (fromCurrent_of_few_dots n.functions hfew).1]
  simp [shippedTypes, hrows]

theorem ofSources_tables : ∃ n, Normalizer.ofSources Knowledge.Sources.shipped = .ok n ∧ HasShippedForms n ∧
    HasShippedTypes n :=
  ⟨_, ofSources_shippedBare, hasShippedForms_shippedBare,
    congrArg Table.ofList (simplify_shippedTypes hasShippedForms_shippedBare)⟩

section
variable {n : Normalizer} (hn : HasShippedTypes n)
include hn

theorem replaceBeginning_types {id r : String} (h : replaceBeginning n.returnTypes id = some r) :
    upTo '.' id = "plt" ∧ upTo '.' r = "mpl" := by
  obtain ⟨path, v, rest, hv, rfl, rfl, hrest⟩ := replaceBeginning_some h
  rw [hn] at hv
  obtain ⟨hpath, hvalue⟩ := first_shippedTypes (path, v) ((Table.mem_of_get?_setAll hv).resolve_right nofun)
  rw [upTo_append_rest hrest, upTo_append_rest hrest]
  exact ⟨hpath, hvalue⟩

/-- A type is reached in one step, for no function that has one begins like a type. -/
theorem exists_returned (id : String) : ∃ r, n.returned id = .ok r := by
  unfold Normalizer.returned Normalizer.returnLimit
  by_cases hinert : Inert n.returnTypes id
  · exact ⟨id, returnedUpTo_of_inert n hinert _⟩
  · rw [returnedUpTo_of_moves n hinert]
    refine ⟨_, returnedUpTo_of_inert n ((inert_iff _).2 ?_) _⟩
    rw [inert_iff, not_or] at hinert
    obtain ⟨r, hr⟩ := Option.ne_none_iff_exists'.1 hinert.1
    have hnext : nextType n.returnTypes id = r := by rw [nextType, hr, Option.getD_some]
    refine .inl (Option.eq_none_iff_forall_ne_some.2 fun s hs => ?_)
    rw [hnext] at hs
    have hfirst := (replaceBeginning_types hn hs).1
    rw [(replaceBeginning_types hn hr).2] at hfirst
    exact absurd hfirst (by decide)

theorem exists_resolve (id : String) : ∃ r, n.resolve id = .ok r := by
  unfold Normalizer.resolve
  dsimp only
  split
  · obtain ⟨r, hr⟩ := exists_returned hn _
    rw [hr]
    exact ⟨_, rfl⟩
  · exact ⟨_, rfl⟩

end

end Elements

namespace Documentation

open Elements Program Text Mining

namespace Base

variable {b : Base}

/-! ## Ids that have an entry -/

theorem exists_fullName (hn : HasShippedTypes b.normalizer) (id : String) : ∃ f, b.fullName id = .ok f := by
  obtain ⟨r, hr⟩ := exists_resolve hn id
  unfold fullName Normalizer.infer
  rw [hr]
  exact ⟨_, rfl⟩

theorem entry_cases (hn : HasShippedTypes b.normalizer) {id : String} (hid : id ≠ "") :
    marks id ≤ 2 ∧ (∃ d, b.entry id = .ok d) ∨ 2 < marks id ∧ b.entry id = .error (.broken "") := by
  have hlength : (splitOn id "@").length = marks id + 1 := length_splitOn at_toList id
  have hsome : ensure (id != "") "" = .ok () := by simp [ensure, hid]
  obtain ⟨f, hf⟩ := exists_fullName hn id
  unfold entry
  rw [hsome, hf]
  dsimp only [bind, Except.bind]
  split
  · next path hsplit =>
    rw [hsplit, List.length_singleton] at hlength
    exact .inl ⟨by omega, _, rfl⟩
  · next parent name hsplit =>
    rw [hsplit, List.length_cons, List.length_singleton] at hlength
    obtain ⟨owner, howner⟩ := exists_fullName hn parent
    refine .inl ⟨by omega, ?_⟩
    split
    · exact ⟨_, rfl⟩
    · rw [howner]
      exact ⟨_, rfl⟩
  · next function argument name hsplit =>
    rw [hsplit, List.length_cons, List.length_cons, List.length_singleton] at hlength
    obtain ⟨owner, howner⟩ := exists_fullName hn (function ++ "@" ++ argument)
    rw [howner]
    exact .inl ⟨by omega, _, rfl⟩
  · next hone htwo hthree =>
    refine .inr ⟨?_, rfl⟩
    match hsplit : splitOn id "@" with
    | [] => exact absurd hsplit (splitOn_ne_nil at_toList id)
    | [path] => exact absurd hsplit (hone path)
    | [parent, name] => exact absurd hsplit (htwo parent name)
    | [function, argument, name] => exact absurd hsplit (hthree function argument name)
    | _ :: _ :: _ :: _ :: _ =>
      rw [hsplit] at hlength
      simp only [List.length_cons] at hlength
      omega

theorem exists_entry_iff (hn : HasShippedTypes b.normalizer) {id : String} (hid : id ≠ "") :
    (∃ d, b.entry id = .ok d) ↔ marks id ≤ 2 := by
  rcases entry_cases hn hid with ⟨hle, hentry⟩ | ⟨hmore, hfails⟩
  · exact iff_of_true hentry hle
  · refine iff_of_false ?_ (by omega)
    rintro ⟨d, hd⟩
    exact nomatch hd.symm.trans hfails

/-- What was mined can be documented just when no key of a table has an `@` in it, but for keys that go with the name of
a setter: of such a key only what stands from its first dot on counts. -/
theorem mined_documented_iff (hforms : HasShippedForms b.normalizer) (htypes : HasShippedTypes b.normalizer)
    {parse : String → Except Fault Tree} {codes : List String}
    (hparse : ∀ code ∈ codes, ∀ p, parse code = .ok p → p.PlainNames ∧ p.SimpleKeywords) :
    let kept := (codes.foldl (visitElements b.normalizer parse) {}).plotting.keys
    (∀ id ∈ kept, marks id ≤ 2 ∧ (∃ d, b.entry id = .ok d) ∨ 2 < marks id ∧ b.entry id = .error (.broken "")) ∧
    ((∀ id ∈ kept, ∃ d, b.entry id = .ok d) ↔
      ∀ m ∈ callsMined parse sessionTable codes, ∀ a ∈ argumentsOf m.2, ∀ k ∈ tableKeys a.2,
        let id := head m.1 m.2 ++ ("@" ++ (a.1 ++ ("@" ++ k)))
        startsWith (b.normalizer.simplify id) "plt." = true →
          Plain k ∨ LosesArgument b.normalizer id ∧ marks (fromFirst '.' k) ≤ 2) := by
  intro kept
  refine ⟨fun id hid => entry_cases htypes (ne_empty_of_mem_kept hid), ?_⟩
  have hsimple := callsMined_plain hparse plainTable_session
  constructor
  · intro hall m hm
    obtain ⟨hhead, hcall⟩ := hsimple m hm
    refine (marks_usesOf_le_iff hcall hforms hhead fun x => startsWith (b.normalizer.simplify x) "plt." = true).1 ?_
    intro u hu hstart
    have hid := mem_kept_iff.2 ⟨m, hm, u, hu, hstart, rfl⟩
    exact (exists_entry_iff htypes (ne_empty_of_mem_kept hid)).1 (hall _ hid)
  · intro hkeys id hid
    rw [exists_entry_iff htypes (ne_empty_of_mem_kept hid)]
    obtain ⟨m, hm, u, hu, hstart, rfl⟩ := mem_kept_iff.1 hid
    obtain ⟨hhead, hcall⟩ := hsimple m hm
    exact (marks_usesOf_le_iff hcall hforms hhead fun x => startsWith (b.normalizer.simplify x) "plt." = true).2
      (hkeys m hm) u hu hstart

def titling (key : String) : Tree :=
  let table : Tree := .node "Dict" none [
    ("keys", .list [.node "Constant" none [("value", .lit (.text key)), ("kind", .lit .none)]]),
    ("values", .list [.node "Constant" none [("value", .lit (.int 1)), ("kind", .lit .none)]])]
  let function : Tree := .node "Attribute" none [
    ("value", .node "Name" none [("id", .lit (.text "plt")), ("ctx", .node "Load" none [])]),
    ("attr", .lit (.text "title")), ("ctx", .node "Load" none [])]
  let call : Tree := .node "Call" none [
    ("func", function), ("args", .list [table]), ("keywords", .list [])]
  .node "Module" none [("body", .list [.node "Expr" none [("value", call)]]), ("type_ignores", .list [])]

/-- A base without documentation that knows one function. -/
def titleOnly : Base where
  normalizer := ⟨.ofList shippedRows, .ofList shippedTypes, ["title"]⟩
  returnTypes := .empty
  additional := .empty
  counts := .empty
  borrowed := {
    functions := .empty, arguments := .empty, argumentsOf := .empty, functionsOf := .empty, borrowings := .empty }

theorem mined_documented_iff_title :
    HasShippedForms titleOnly.normalizer ∧ HasShippedTypes titleOnly.normalizer ∧
    (titling "a").PlainNames ∧ (titling "a").SimpleKeywords ∧
    ∀ id ∈ (["a"].foldl (visitElements titleOnly.normalizer fun key => .ok (titling key)) {}).plotting.keys,
      ∃ d, titleOnly.entry id = .ok d := by
  have hforms : HasShippedForms titleOnly.normalizer := (hasShippedForms_iff _).2 rfl
  have htypes : HasShippedTypes titleOnly.normalizer := rfl
  have hplain : (titling "a").PlainNames := by decide
  have hsimple : (titling "a").SimpleKeywords := by decide
  have hkeys : ∀ m ∈ callsMined (fun key => .ok (titling key)) sessionTable ["a"], ∀ a ∈ argumentsOf m.2,
      ∀ k ∈ tableKeys a.2, Plain k := by
    decide
  refine ⟨hforms, htypes, hplain, hsimple, (mined_documented_iff hforms htypes ?_).2.2 ?_⟩
  · rintro code hcode p ⟨rfl⟩
    obtain rfl := List.mem_singleton.1 hcode
    exact ⟨hplain, hsimple⟩
  · exact fun m hm a ha k hk _ => .inl (hkeys m hm a ha k hk)

/-- With the tables that come with the library, the key `a@b` is mined and cannot be documented, whatever else is
known. -/
theorem key_with_mark_undocumented : ∃ n, Normalizer.ofSources Knowledge.Sources.shipped = .ok n ∧
    "plt.title@0@a@b" ∈ (["a@b"].foldl (visitElements n fun key => .ok (titling key)) {}).plotting.keys ∧
    ∀ b : Base, b.normalizer = n → b.entry "plt.title@0@a@b" = .error (.broken "") := by
  obtain ⟨n, hn, hforms, htypes⟩ := ofSources_tables
  have hmet : ∃ m ∈ callsMined (fun key => .ok (titling key)) sessionTable ["a@b"], ∃ u ∈ usesAt m.1 m.2,
      u.id = "matplotlib.pyplot.title@0@a@b" := by
    decide
  have hshort : n.shorten "matplotlib.pyplot.title@0@a@b" = "plt.title@0@a@b" := by
    rw [Normalizer.shorten, (hasShippedForms_iff n).1 hforms]
    decide
  have hsimplify : n.simplify "matplotlib.pyplot.title@0@a@b" = "plt.title@0@a@b" := by
    rw [Normalizer.simplify, fromInteractive_of_first_ne _ (by decide), hshort,
      (fromCurrent_of_few_dots n.functions (by decide)).1]
  obtain ⟨m, hm, u, hu, hid⟩ := hmet
  refine ⟨n, hn, mem_kept_iff.2 ⟨m, hm, u, hu, ?_⟩, fun b hb => ?_⟩
  · rw [hid, hsimplify]
    decide
  · have hsome : "plt.title@0@a@b" ≠ "" := by decide
    rcases entry_cases (b := b) (hb ▸ htypes) hsome with ⟨hfew, -⟩ | ⟨-, hfails⟩
    · exact absurd hfew (by decide)
    · exact hfails

end Base

end Documentation

end PlotAdvisor
