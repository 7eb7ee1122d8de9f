import Mathlib.Tactic.ByContra
import PlotAdvisor.Program.Marking
import PlotAdvisor.Proofs.Faults

/-! When the ranges of a tree can be marked. Visits are aligned with tokens, up to a place, if every node with a place
finds its end among the tokens between its start and what follows it, and every keyword of a call its name.

* `Visit.induction` - induction over a visit.
* `consumes_settle` - settling starts uses one string token for each literal text, and fails for lack of them only.
* `Aligned`, `Visit.alignedAlone` - marking goes through exactly where the visit is aligned.
* `Aligned.orderly` - in what is aligned, children start in the order of the visit and keywords have names.
-/
set_option autoImplicit false

namespace PlotAdvisor.Program

namespace Visit

mutual

@[elab_as_elim]
theorem induction {motive : Visit → Prop} (missing : motive .missing)
    (node : ∀ site children, (∀ v ∈ children, motive v) → motive (.node site children)) : ∀ v, motive v
  | .missing => missing
  | .node site children => node site children (inductionIn missing node children)

theorem inductionIn {motive : Visit → Prop} (missing : motive .missing)
    (node : ∀ site children, (∀ v ∈ children, motive v) → motive (.node site children)) :
    ∀ vs : List Visit, ∀ v ∈ vs, motive v
  | [], v, hv => absurd hv (by simp)
  | w :: ws, v, hv => by
    rcases List.mem_cons.1 hv with heq | hv
    · exact heq ▸ induction missing node w
    · exact inductionIn missing node ws v hv

end

/-! ## The order of a visit -/

theorem inOrder_perm {α : Type} (kind : String) (start : α → Option Place) (xs : List α) :
    (inOrder kind start xs).Perm xs := by
  unfold inOrder
  split
  · exact List.mergeSort_perm xs _
  · exact List.Perm.refl xs

theorem inOrder_map {α β : Type} (kind : String) (start : β → Option Place) (f : α → β) (xs : List α) :
    inOrder kind start (xs.map f) = (inOrder kind (fun x => start (f x)) xs).map f := by
  unfold inOrder
  split
  · symm
    apply List.map_mergeSort
    intro a _ b _
    rfl
  · rfl

theorem settleSteps_eq (lines : List (List Char)) (vs : List Visit) :
    settleSteps lines vs = vs.map fun v => (v, v.settle lines) := by
  induction vs with
  | nil => rw [settleSteps, List.map_nil]
  | cons v vs ih => rw [settleSteps, List.map_cons, ih]

theorem markSteps_eq (vs : List Visit) : markSteps vs = vs.map fun v => (v, v.mark) := by
  induction vs with
  | nil => rw [markSteps, List.map_nil]
  | cons v vs ih => rw [markSteps, List.map_cons, ih]

/-! ## All nodes of a visit -/

mutual

def nodes : Visit → List (Site × List Visit)
  | .missing => []
  | .node site children => (site, children) :: nodesIn children

def nodesIn : List Visit → List (Site × List Visit)
  | [] => []
  | v :: vs => nodes v ++ nodesIn vs

end

theorem mem_nodesIn {vs : List Visit} {n : Site × List Visit} : n ∈ nodesIn vs ↔ ∃ v ∈ vs, n ∈ v.nodes := by
  induction vs with
  | nil => simp [nodesIn]
  | cons v vs ih => simp [nodesIn, ih]

mutual

def all (p : Site → Bool) : Visit → Bool
  | .missing => false
  | .node site children => p site && allIn p children

def allIn (p : Site → Bool) : List Visit → Bool
  | [] => true
  | v :: vs => all p v && allIn p vs

end

theorem allIn_iff {p : Site → Bool} {vs : List Visit} : allIn p vs = true ↔ ∀ v ∈ vs, v.all p = true := by
  induction vs with
  | nil => simp [allIn]
  | cons v vs ih => simp [allIn, ih]

mutual

def texts : Visit → Nat
  | .missing => 0
  | .node site children => textsIn children + if site.isText then 1 else 0

def textsIn : List Visit → Nat
  | [] => 0
  | v :: vs => texts v + textsIn vs

end

theorem textsIn_perm {vs ws : List Visit} (h : vs.Perm ws) : textsIn vs = textsIn ws := by
  induction h with
  | nil => rfl
  | cons v _ ih => rw [textsIn, textsIn, ih]
  | swap v w vs =>
    simp only [textsIn]
    omega
  | trans _ _ ih₁ ih₂ => exact ih₁.trans ih₂

end Visit

/-! ## String tokens -/

def Consumes {α : Type} (k : Nat) (m : Settling α) : Prop :=
  ∀ strings : List Token,
    (k ≤ strings.length → ∃ a, m.run strings = .ok (a, strings.drop k)) ∧
    (strings.length < k → m.run strings = .error .outOfRange)

namespace Consumes

variable {α β : Type}

theorem pure (a : α) : Consumes 0 (Pure.pure a : Settling α) :=
  fun _ => ⟨fun _ => ⟨a, rfl⟩, fun h => absurd h (Nat.not_lt_zero _)⟩

theorem bind {k l : Nat} {m : Settling α} {f : α → Settling β} (hm : Consumes k m) (hf : ∀ a, Consumes l (f a)) :
    Consumes (k + l) (m >>= f) := by
  intro strings
  rw [StateT.run_bind]
  by_cases hk : k ≤ strings.length
  · obtain ⟨a, ha⟩ := (hm strings).1 hk
    obtain ⟨hok, herror⟩ := hf a (strings.drop k)
    rw [List.length_drop] at hok herror
    constructor
    · intro hle
      obtain ⟨b, hb⟩ := hok (by omega)
      refine ⟨b, ?_⟩
      rw [ha, ← List.drop_drop]
      exact hb
    · intro hlt
      rw [ha]
      exact herror (by omega)
  · refine ⟨fun hle => absurd hle (by omega), fun _ => ?_⟩
    rw [(hm strings).2 (by omega)]
    rfl

end Consumes

def Site.placed (lines : List (List Char)) (site : Site) : Bool :=
  site.start.all fun p => (placeInChars lines p).isOk

theorem consumes_settledStart {lines : List (List Char)} {site : Site} (h : site.placed lines = true)
    (children : List Visit) : Consumes (if site.isText then 1 else 0) (settledStart lines site children) := by
  have hplaced (p : Place) (hp : site.start = some p) : ∃ q, placeInChars lines p = .ok q := by
    rw [Site.placed, hp, Option.all_some] at h
    cases hq : placeInChars lines p with
    | error f => simp [hq, Except.isOk, Except.toBool] at h
    | ok q => exact ⟨q, rfl⟩
  intro strings
  -- only a literal text takes a token, and only the other nodes have their column turned
  by_cases htext : site.isText = true
  · rw [if_pos htext]
    cases strings with
    | nil => exact ⟨fun hle => absurd hle (by simp), fun _ => by simp [settledStart, StateT.run, htext]⟩
    | cons t rest =>
      exact ⟨fun _ => ⟨some t.start, by simp [settledStart, StateT.run, htext]⟩, fun hlt => absurd hlt (by simp)⟩
  · rw [if_neg htext]
    refine ⟨fun _ => ?_, fun hlt => absurd hlt (Nat.not_lt_zero _)⟩
    have hturned (p : Place) (hp : site.start = some p) :
        ∃ a, ((placeInChars lines p).map fun q => (some q, strings)) = .ok (a, strings) := by
      obtain ⟨q, hq⟩ := hplaced p hp
      exact ⟨some q, by rw [hq]; rfl⟩
    rw [List.drop_zero, StateT.run]
    unfold settledStart
    dsimp only
    rw [if_neg htext]
    split
    · exact ⟨_, rfl⟩
    · split
      · next p a hp _ =>
        split
        · exact ⟨_, rfl⟩
        · exact hturned p hp
      · next p hp _ => exact hturned p hp
      · exact ⟨_, rfl⟩

namespace Visit

theorem consumes_mapM {lines : List (List Char)} {vs : List Visit}
    (h : ∀ v ∈ vs, Consumes v.texts (v.settle lines)) : Consumes (textsIn vs) (vs.mapM fun v => v.settle lines) := by
  induction vs with
  | nil => exact Consumes.pure []
  | cons v vs ih =>
    rw [List.mapM_cons, textsIn]
    refine (h v (by simp)).bind fun w => ?_
    exact (ih fun u hu => h u (by simp [hu])).bind fun ws => Consumes.pure (w :: ws)

theorem settleInOrder_eq (lines : List (List Char)) (kind : String) (vs : List Visit) :
    settleInOrder kind (settleSteps lines vs) = (do
      let done ← (inOrder kind start? vs).mapM fun v => v.settle lines
      return if kind == "Call" then done.mergeSort fun a b => decide (a.number ≤ b.number) else done) := by
  rw [settleInOrder, settleSteps_eq, inOrder_map, List.mapM_map]
  rfl

theorem consumes_settleInOrder {lines : List (List Char)} {vs : List Visit}
    (h : ∀ v ∈ vs, Consumes v.texts (v.settle lines)) (kind : String) :
    Consumes (textsIn vs) (settleInOrder kind (settleSteps lines vs)) := by
  have hperm := inOrder_perm kind start? vs
  rw [settleInOrder_eq, ← textsIn_perm hperm]
  exact (consumes_mapM fun v hv => h v (hperm.mem_iff.1 hv)).bind fun _ => Consumes.pure _

theorem consumes_settle (lines : List (List Char)) (v : Visit) (h : v.all (Site.placed lines) = true) :
    Consumes v.texts (v.settle lines) := by
  induction v using induction with
  | missing => simp [all] at h
  | node site children ih =>
    rw [all, Bool.and_eq_true, allIn_iff] at h
    rw [settle, texts]
    refine (consumes_settleInOrder (fun v hv => ih v hv (h.2 v hv)) site.kind).bind fun settled => ?_
    exact (consumes_settledStart h.1 settled).bind fun start => Consumes.pure _

/-! ## What settling keeps -/

theorem mem_of_mapM_ok {α β : Type} {f : α → Settling β} {xs : List α} {strings rest : List Token} {ys : List β}
    (h : (xs.mapM f).run strings = .ok (ys, rest)) :
    (∀ x ∈ xs, ∃ y ∈ ys, ∃ before after, (f x).run before = .ok (y, after)) ∧
    ∀ y ∈ ys, ∃ x ∈ xs, ∃ before after, (f x).run before = .ok (y, after) := by
  induction xs generalizing strings rest ys with
  | nil =>
    obtain ⟨rfl, -⟩ := Prod.mk.inj (Except.ok.inj h)
    simp
  | cons x xs ih =>
    rw [List.mapM_cons, StateT.run_bind] at h
    obtain ⟨⟨y, middle⟩, hy, h⟩ := bind_eq_ok h
    rw [StateT.run_bind] at h
    obtain ⟨⟨zs, last⟩, hzs, h⟩ := bind_eq_ok h
    obtain ⟨rfl, -⟩ := Prod.mk.inj (Except.ok.inj h)
    obtain ⟨hxs, hys⟩ := ih hzs
    constructor
    · intro z hz
      rcases List.mem_cons.1 hz with rfl | hz
      · exact ⟨y, by simp, strings, middle, hy⟩
      · obtain ⟨w, hw, hrun⟩ := hxs z hz
        exact ⟨w, by simp [hw], hrun⟩
    · intro z hz
      rcases List.mem_cons.1 hz with rfl | hz
      · exact ⟨x, by simp, strings, middle, hy⟩
      · obtain ⟨w, hw, hrun⟩ := hys z hz
        exact ⟨w, by simp [hw], hrun⟩

theorem settle_node_run {lines : List (List Char)} {site : Site} {children : List Visit} {strings rest : List Token}
    {w : Visit} (h : ((node site children).settle lines).run strings = .ok (w, rest)) :
    ∃ start settled done middle, w = node { site with start } settled ∧ settled.Perm done ∧
      ((inOrder site.kind start? children).mapM (settle lines)).run strings = .ok (done, middle) := by
  rw [settle, StateT.run_bind] at h
  obtain ⟨⟨settled, middle⟩, hsettled, h⟩ := bind_eq_ok h
  rw [StateT.run_bind] at h
  obtain ⟨⟨start, last⟩, -, h⟩ := bind_eq_ok h
  obtain ⟨rfl, -⟩ := Prod.mk.inj (Except.ok.inj h)
  rw [settleInOrder_eq, StateT.run_bind] at hsettled
  obtain ⟨⟨done, last⟩, hdone, h⟩ := bind_eq_ok hsettled
  obtain ⟨hsame, -⟩ := Prod.mk.inj (Except.ok.inj h)
  refine ⟨start, settled, done, last, rfl, ?_, hdone⟩
  rw [← hsame]
  split
  · exact List.mergeSort_perm done _
  · exact List.Perm.refl done

theorem settle_node_ok {lines : List (List Char)} {site : Site} {children : List Visit} {strings rest : List Token}
    {w : Visit} (h : ((node site children).settle lines).run strings = .ok (w, rest)) :
    ∃ start settled, w = node { site with start } settled ∧
      (∀ v ∈ children, ∃ u ∈ settled, ∃ before after, (v.settle lines).run before = .ok (u, after)) ∧
      ∀ u ∈ settled, ∃ v ∈ children, ∃ before after, (v.settle lines).run before = .ok (u, after) := by
  obtain ⟨start, settled, done, middle, rfl, hperm, hdone⟩ := settle_node_run h
  refine ⟨start, settled, rfl, ?_⟩
  obtain ⟨hall, hback⟩ := mem_of_mapM_ok hdone
  have horder (v : Visit) : v ∈ inOrder site.kind start? children ↔ v ∈ children :=
    (inOrder_perm site.kind start? children).mem_iff
  constructor
  · intro v hv
    obtain ⟨u, hu, hrun⟩ := hall v ((horder v).2 hv)
    exact ⟨u, hperm.mem_iff.2 hu, hrun⟩
  · intro u hu
    obtain ⟨v, hv, hrun⟩ := hback u (hperm.mem_iff.1 hu)
    exact ⟨v, (horder v).1 hv, hrun⟩

theorem exists_mem_nodes_settle {lines : List (List Char)} {v w : Visit} {strings rest : List Token}
    (h : (v.settle lines).run strings = .ok (w, rest)) :
    ∀ n ∈ v.nodes, ∃ m ∈ w.nodes, m.1.number = n.1.number ∧ m.1.keywords = n.1.keywords := by
  induction v using induction generalizing w strings rest with
  | missing => simp [nodes]
  | node site children ih =>
    obtain ⟨start, settled, rfl, hall, -⟩ := settle_node_ok h
    intro n hn
    rw [nodes] at hn ⊢
    rcases List.mem_cons.1 hn with rfl | hn
    · exact ⟨_, List.mem_cons_self, rfl, rfl⟩
    · obtain ⟨v, hv, hn⟩ := mem_nodesIn.1 hn
      obtain ⟨u, hu, before, after, hrun⟩ := hall v hv
      obtain ⟨m, hm, hsame⟩ := ih v hv hrun n hn
      exact ⟨m, List.mem_cons_of_mem _ (mem_nodesIn.2 ⟨u, hu, hm⟩), hsame⟩

theorem all_of_settle {lines : List (List Char)} {v w : Visit} {strings rest : List Token}
    (h : (v.settle lines).run strings = .ok (w, rest)) : w.all (fun _ => true) = true := by
  induction v using induction generalizing w strings rest with
  | missing => exact nomatch h
  | node site children ih =>
    obtain ⟨start, settled, rfl, -, hback⟩ := settle_node_ok h
    rw [all, Bool.true_and, allIn_iff]
    intro u hu
    obtain ⟨v, hv, before, after, hrun⟩ := hback u hu
    exact ih v hv hrun

end Visit

/-! ## Ends -/

def Site.Keeps (site : Site) (ts : List Token) (stop : Place) (own : List Token) : Prop :=
  match site.start with
  | none => own = ts
  | some start => ∃ last, realEnd site (tokensBetween start stop ts) = .ok (last, own)

def Site.ownRange (site : Site) (ts : List Token) (stop : Place) : Except Fault (List (Nat × Span) × List Token) :=
  match site.start with
  | none => .ok ([], ts)
  | some start => (realEnd site (tokensBetween start stop ts)).map fun r => ([(site.number, ⟨start, r.1⟩)], r.2)

theorem Site.ownRange_ok_iff {site : Site} {ts own : List Token} {stop : Place} :
    (∃ known, site.ownRange ts stop = .ok (known, own)) ↔ site.Keeps ts stop own := by
  unfold Site.Keeps Site.ownRange
  cases site.start with
  | none => simp [eq_comm]
  | some start =>
    dsimp only
    cases realEnd site (tokensBetween start stop ts) <;> simp [Except.map, Prod.ext_iff]

/-- Visits one behind the other can be marked among the tokens up to a place, and they begin at another. Each is
marked up to where the next begins, its children among the tokens that it keeps, and every keyword is named by the last
name before its value. -/
inductive Aligned : List Token → List Visit → Place → Place → Prop
  | nil (ts : List Token) (stop : Place) : Aligned ts [] stop stop
  | cons {ts own : List Token} {site : Site} {children vs : List Visit} {stop next front : Place}
      (behind : Aligned ts vs stop next) (keeps : site.Keeps ts next own)
      (below : Aligned own (Visit.inOrder site.kind Visit.start? children) next front)
      (named : ∀ kw ∈ site.keywords, ∃ r, keywordSpan own children kw = .ok r) :
      Aligned ts (.node site children :: vs) stop (site.start.getD front)

theorem aligned_cons_iff {ts : List Token} {v : Visit} {vs : List Visit} {stop front : Place} :
    Aligned ts (v :: vs) stop front ↔ ∃ next, Aligned ts vs stop next ∧ Aligned ts [v] next front := by
  constructor
  · intro h
    cases h with
    | cons behind keeps below named => exact ⟨_, behind, .cons (.nil ts _) keeps below named⟩
  · rintro ⟨next, behind, h⟩
    cases h with
    | cons nothing keeps below named =>
      cases nothing
      exact .cons behind keeps below named

theorem markBackward_append (ts : List Token) (first second : List MarkStep) (m : Marks) :
    markBackward ts (first ++ second) m = markBackward ts first m >>= markBackward ts second := by
  induction first generalizing m with
  | nil => rfl
  | cons step first ih =>
    rw [List.cons_append, markBackward, markBackward, bind_assoc]
    congr 1
    funext r
    exact ih _

namespace Visit

theorem mark_node (site : Site) (children : List Visit) (ts : List Token) (stop : Place) :
    (node site children).mark ts stop = site.ownRange ts stop >>= fun own =>
      markBackward own.2 ((inOrder site.kind start? children).map mark).reverse (stop, own.1) >>= fun m =>
        site.keywords.mapM (keywordSpan own.2 children) >>= fun keywords =>
          pure (site.start.getD m.1, keywords ++ m.2) := by
  have hsteps : (inOrder site.kind (fun s => s.1.start?) (markSteps children)).map Prod.snd =
      (inOrder site.kind start? children).map mark := by
    rw [markSteps_eq, inOrder_map, List.map_map]
    rfl
  rw [mark, Site.ownRange]
  dsimp only
  rw [hsteps]
  cases site.start with
  | none => rfl
  | some start =>
    dsimp only
    cases realEnd site (tokensBetween start stop ts) <;> rfl

def AlignedAlone (v : Visit) : Prop :=
  ∀ ts stop front, (∃ found, v.mark ts stop = .ok (front, found)) ↔ Aligned ts [v] stop front

theorem markBackward_ok_iff {vs : List Visit} (h : ∀ v ∈ vs, v.AlignedAlone) (ts : List Token) (stop front : Place)
    (known : List (Nat × Span)) :
    (∃ found, markBackward ts (vs.map mark).reverse (stop, known) = .ok (front, found)) ↔ Aligned ts vs stop front := by
  induction vs generalizing front with
  | nil =>
    constructor
    · rintro ⟨found, hfound⟩
      obtain ⟨rfl, -⟩ := Prod.mk.inj (Except.ok.inj hfound)
      exact .nil ts stop
    · intro haligned
      cases haligned
      exact ⟨known, rfl⟩
  | cons v vs ih =>
    have ih := ih fun w hw => h w (by simp [hw])
    rw [aligned_cons_iff, List.map_cons, List.reverse_cons]
    simp only [markBackward_append, bind_ok_iff]
    constructor
    · rintro ⟨found, ⟨next, later⟩, hbehind, hstep⟩
      obtain ⟨⟨q, own⟩, hmark, hrest⟩ := bind_eq_ok hstep
      obtain ⟨rfl, -⟩ := Prod.mk.inj (Except.ok.inj hrest)
      exact ⟨next, (ih next).1 ⟨later, hbehind⟩, (h v (by simp) ts next q).1 ⟨own, hmark⟩⟩
    · rintro ⟨next, hbehind, haligned⟩
      obtain ⟨later, hbehind⟩ := (ih next).2 hbehind
      obtain ⟨own, hmark⟩ := (h v (by simp) ts next front).2 haligned
      exact ⟨own ++ later, (next, later), hbehind, by rw [markBackward, hmark]; rfl⟩

theorem alignedAlone (v : Visit) : v.AlignedAlone := by
  induction v using induction with
  | missing =>
    intro ts stop front
    constructor
    · rintro ⟨found, h⟩
      exact nomatch h
    · intro h
      exact nomatch h
  | node site children ih =>
    intro ts stop front
    -- sorting the children of a call does not change which they are
    have hchildren : ∀ v ∈ inOrder site.kind start? children, v.AlignedAlone := fun v hv =>
      ih v ((inOrder_perm _ _ _).mem_iff.1 hv)
    have hbelow (own : List Token) (q : Place) := markBackward_ok_iff hchildren own stop q
    rw [mark_node]
    simp only [bind_ok_iff]
    constructor
    · rintro ⟨found, ⟨known, own⟩, hown, ⟨q, more⟩, hmore, keywords, hkeywords, h⟩
      obtain ⟨rfl, -⟩ := Prod.mk.inj (Except.ok.inj h)
      refine .cons (.nil ts stop) (Site.ownRange_ok_iff.1 ⟨known, hown⟩) ((hbelow own q known).1 ⟨more, hmore⟩) ?_
      exact mapM_ok_iff.1 ⟨keywords, hkeywords⟩
    · intro h
      cases h with
      | cons nothing keeps below named =>
        cases nothing
        obtain ⟨known, hown⟩ := Site.ownRange_ok_iff.2 keeps
        obtain ⟨more, hmore⟩ := (hbelow _ _ known).2 below
        obtain ⟨keywords, hkeywords⟩ := mapM_ok_iff.2 named
        exact ⟨_, (known, _), hown, (_, more), hmore, keywords, hkeywords, rfl⟩

end Visit

/-! ## Faults of marking -/

def IsUnfit (f : Fault) : Prop := f = .outOfRange ∨ f = .broken ""

theorem faultsIn_stripEnd (p : Token → Bool) (ts : List Token) : FaultsIn IsUnfit (stripEnd p ts) := by
  unfold stripEnd
  dsimp only
  split
  · exact FaultsIn.error (Or.inl rfl)
  · exact FaultsIn.pure _

def Site.isBehind (site : Site) : Token → Bool := if isStatement site.kind then endsStatement else endsNoExpression

/-- The tokens that can belong to a node: of an expression none from a bracket on that is not its own. -/
def Site.candidates (site : Site) (ts : List Token) : List Token :=
  if isStatement site.kind then ts
  else
    let closed := beforeExtraCloser (site.kind != "Tuple") 0 ts
    (beforeUnclosed 0 closed.reverse closed.reverse).reverse

theorem realEnd_eq (site : Site) (ts : List Token) :
    realEnd site ts = stripEnd site.isBehind (site.candidates ts) >>= fun own =>
      lastToken own >>= fun last =>
        if site.bare then
          ensure (last.string == ")") "" >>= fun _ =>
            stripEnd endsNoExpression own.dropLast >>= fun left => pure (last.stop, left)
        else if site.kind == "Attribute" then
          ensure (last.kind == .name) "" >>= fun _ =>
            stripEnd endsNoExpression own.dropLast >>= fun left => pure (last.stop, left)
        else pure (last.stop, own) := by
  unfold realEnd Site.isBehind Site.candidates
  cases isStatement site.kind <;> rfl

theorem faultsIn_realEnd (site : Site) (ts : List Token) : FaultsIn IsUnfit (realEnd site ts) := by
  rw [realEnd_eq]
  refine (faultsIn_stripEnd _ _).bind fun own => ?_
  refine (FaultsIn.orFault _ (Or.inl rfl)).bind fun last => ?_
  have hleft (holds : Bool) : FaultsIn IsUnfit (ensure holds "" >>= fun _ =>
      stripEnd endsNoExpression own.dropLast >>= fun left => pure (last.stop, left)) :=
    (FaultsIn.ensure holds (Or.inr rfl)).bind fun _ => (faultsIn_stripEnd _ _).bind fun _ => FaultsIn.pure _
  split
  · exact hleft _
  · split
    · exact hleft _
    · exact FaultsIn.pure _

theorem faultsIn_keywordSpan (ts : List Token) (children : List Visit) (kw : KeywordSite) :
    FaultsIn IsUnfit (keywordSpan ts children kw) :=
  (FaultsIn.orFault _ (Or.inr rfl)).bind fun _ => (FaultsIn.orFault _ (Or.inr rfl)).bind fun _ =>
    (FaultsIn.ensure _ (Or.inr rfl)).bind fun _ => FaultsIn.pure _

theorem faultsIn_ownRange (site : Site) (ts : List Token) (stop : Place) :
    FaultsIn IsUnfit (site.ownRange ts stop) := by
  unfold Site.ownRange
  cases site.start with
  | none => exact FaultsIn.pure _
  | some start => exact (faultsIn_realEnd site _).bind fun _ => FaultsIn.pure _

theorem faultsIn_markBackward {steps : List MarkStep} (h : ∀ step ∈ steps, ∀ ts stop, FaultsIn IsUnfit (step ts stop))
    (ts : List Token) (m : Marks) : FaultsIn IsUnfit (markBackward ts steps m) := by
  induction steps generalizing m with
  | nil => exact FaultsIn.pure m
  | cons step steps ih =>
    rw [markBackward]
    exact (h step (by simp) ts m.1).bind fun r => ih (fun step hs => h step (by simp [hs])) _

/-- Where no entry lacks its key, marking fails only for lack of an end or of a name. -/
theorem Visit.faultsIn_mark {v : Visit} (h : v.all (fun _ => true) = true) (ts : List Token) (stop : Place) :
    FaultsIn IsUnfit (v.mark ts stop) := by
  induction v using Visit.induction generalizing ts stop with
  | missing => simp [all] at h
  | node site children ih =>
    rw [all, Bool.true_and, allIn_iff] at h
    rw [mark_node]
    refine (faultsIn_ownRange site ts stop).bind fun own => ?_
    refine (faultsIn_markBackward ?_ own.2 _).bind fun m => ?_
    · intro step hstep ts stop
      obtain ⟨v, hv, rfl⟩ := List.mem_map.1 (List.mem_reverse.1 hstep)
      have hchild : v ∈ children := (inOrder_perm _ _ _).mem_iff.1 hv
      exact ih v hchild (h v hchild) ts stop
    · exact (FaultsIn.mapM fun kw _ => faultsIn_keywordSpan own.2 children kw).bind fun _ => FaultsIn.pure _

/-! ## What is aligned -/

theorem stripEnd_ok {p : Token → Bool} {ts own : List Token} (h : stripEnd p ts = .ok own) :
    own ≠ [] ∧ ∀ t ∈ own, t ∈ ts := by
  unfold stripEnd at h
  dsimp only at h
  split at h
  · exact nomatch h
  · next hne =>
    obtain rfl := Except.ok.inj h
    refine ⟨by simpa using hne, fun t ht => ?_⟩
    exact List.mem_reverse.1 ((List.dropWhile_sublist p).subset (List.mem_reverse.1 ht))

theorem mem_of_mem_beforeExtraCloser {commaEnds : Bool} {level : Int} {ts : List Token} {t : Token}
    (h : t ∈ beforeExtraCloser commaEnds level ts) : t ∈ ts := by
  induction ts generalizing level with
  | nil => exact h
  | cons u ts ih =>
    rw [beforeExtraCloser] at h
    generalize (if u.opens then level + 1 else if u.closes then level - 1 else level) = next at h
    split at h
    · exact absurd h (by simp)
    · rcases List.mem_cons.1 h with rfl | h
      · exact List.mem_cons_self
      · exact List.mem_cons_of_mem u (ih h)

theorem mem_of_mem_beforeUnclosed {level : Int} {kept ts all : List Token} (hkept : ∀ t ∈ kept, t ∈ all)
    (hts : ∀ t ∈ ts, t ∈ all) {t : Token} (h : t ∈ beforeUnclosed level kept ts) : t ∈ all := by
  induction ts generalizing level kept with
  | nil => exact hkept t h
  | cons u ts ih =>
    have hrest : ∀ t ∈ ts, t ∈ all := fun t ht => hts t (by simp [ht])
    rw [beforeUnclosed] at h
    generalize (if u.opens then level - 1 else if u.closes then level + 1 else level) = next at h
    split at h
    · exact ih hrest hrest h
    · exact ih hkept hrest h

theorem Site.mem_of_mem_candidates {site : Site} {ts : List Token} {t : Token} (h : t ∈ site.candidates ts) : t ∈ ts := by
  unfold Site.candidates at h
  split at h
  · exact h
  · apply mem_of_mem_beforeExtraCloser
    rw [List.mem_reverse] at h
    exact mem_of_mem_beforeUnclosed (fun _ => List.mem_reverse.1) (fun _ => List.mem_reverse.1) h

theorem realEnd_ok {site : Site} {ts own : List Token} {last : Place} (h : realEnd site ts = .ok (last, own)) :
    ts ≠ [] ∧ ∀ t ∈ own, t ∈ ts := by
  rw [realEnd_eq] at h
  obtain ⟨kept, hkept, h⟩ := bind_eq_ok h
  obtain ⟨hne, hmem⟩ := stripEnd_ok hkept
  obtain ⟨t, -, h⟩ := bind_eq_ok h
  have hall : ∀ t ∈ kept, t ∈ ts := fun t ht => Site.mem_of_mem_candidates (hmem t ht)
  have hleft (holds : Bool) (hstrip : (ensure holds "" >>= fun _ => stripEnd endsNoExpression kept.dropLast >>=
      fun left => pure (t.stop, left)) = .ok (last, own)) : ∀ t ∈ own, t ∈ ts := by
    obtain ⟨-, -, hstrip⟩ := bind_eq_ok hstrip
    obtain ⟨left, hleft, hstrip⟩ := bind_eq_ok hstrip
    obtain ⟨-, rfl⟩ := Prod.mk.inj (Except.ok.inj hstrip)
    exact fun t ht => hall t ((List.dropLast_sublist kept).subset ((stripEnd_ok hleft).2 t ht))
  constructor
  · rintro rfl
    obtain ⟨t, ht⟩ := List.exists_mem_of_ne_nil kept hne
    exact absurd (hall t ht) (by simp)
  · split at h
    · exact hleft _ h
    · split at h
      · exact hleft _ h
      · obtain ⟨-, rfl⟩ := Prod.mk.inj (Except.ok.inj h)
        exact hall

theorem Place.atOrBefore_refl (p : Place) : p.atOrBefore p = true := by
  simp [Place.atOrBefore, Place.before]

theorem Place.atOrBefore_trans {p q r : Place} (hpq : p.atOrBefore q = true) (hqr : q.atOrBefore r = true) :
    p.atOrBefore r = true := by
  simp only [Place.atOrBefore, Place.before, Bool.not_eq_true', decide_eq_false_iff_not] at hpq hqr ⊢
  omega

def Forward (ts : List Token) : Prop := ∀ t ∈ ts, t.start.atOrBefore t.stop = true

theorem Site.Keeps.forward {site : Site} {ts own : List Token} {stop : Place} (h : site.Keeps ts stop own)
    (hts : Forward ts) : Forward own ∧ ∀ p, site.start = some p → p.atOrBefore stop = true := by
  unfold Site.Keeps at h
  cases hstart : site.start with
  | none =>
    rw [hstart] at h
    exact ⟨h ▸ hts, nofun⟩
  | some start =>
    rw [hstart] at h
    obtain ⟨last, hend⟩ := h
    obtain ⟨hne, hown⟩ := realEnd_ok hend
    refine ⟨fun t ht => hts t (List.mem_filter.1 (hown t ht)).1, fun p hp => ?_⟩
    obtain rfl := Option.some.inj hp
    -- a token between the two places keeps them in order
    obtain ⟨t, ht⟩ := List.exists_mem_of_ne_nil _ hne
    obtain ⟨hmem, hbetween⟩ := List.mem_filter.1 ht
    simp only [Bool.and_eq_true] at hbetween
    exact Place.atOrBefore_trans hbetween.1.1 (Place.atOrBefore_trans (hts t hmem) hbetween.1.2)

def starts (vs : List Visit) : List Place := vs.filterMap Visit.start?

theorem Aligned.inOrder {ts : List Token} {vs : List Visit} {stop front : Place} (h : Aligned ts vs stop front)
    (hts : Forward ts) :
    (starts vs ++ [stop]).Pairwise (fun p q => p.atOrBefore q = true) ∧
      ∀ p ∈ starts vs ++ [stop], front.atOrBefore p = true := by
  induction h with
  | nil ts stop => simp [starts, Place.atOrBefore_refl]
  | @cons ts own site children vs stop next front _ keeps _ _ ihbehind ihbelow =>
    obtain ⟨hordered, hnext⟩ := ihbehind hts
    obtain ⟨hown, hbefore⟩ := keeps.forward hts
    have hfront : front.atOrBefore next = true := (ihbelow hown).2 next (by simp)
    cases hstart : site.start with
    | none =>
      have hsame : starts (.node site children :: vs) = starts vs := by simp [starts, Visit.start?, hstart]
      rw [hsame, Option.getD_none]
      exact ⟨hordered, fun p hp => Place.atOrBefore_trans hfront (hnext p hp)⟩
    | some start =>
      have hmore : starts (.node site children :: vs) = start :: starts vs := by simp [starts, Visit.start?, hstart]
      have hall : ∀ p ∈ starts vs ++ [stop], start.atOrBefore p = true := fun p hp =>
        Place.atOrBefore_trans (hbefore start hstart) (hnext p hp)
      rw [hmore, Option.getD_some, List.cons_append]
      refine ⟨List.pairwise_cons.2 ⟨hall, hordered⟩, fun p hp => ?_⟩
      rcases List.mem_cons.1 hp with rfl | hp
      · exact Place.atOrBefore_refl p
      · exact hall p hp

/-- The children of a node start one behind the other in the order of the visit. -/
def Orderly (n : Site × List Visit) : Prop :=
  (starts (Visit.inOrder n.1.kind Visit.start? n.2)).Pairwise fun p q => p.atOrBefore q = true

instance (n : Site × List Visit) : Decidable (Orderly n) := inferInstanceAs (Decidable (List.Pairwise _ _))

theorem keywordSpan_ok {ts : List Token} {children : List Visit} {kw : KeywordSite} {r : Nat × Span}
    (h : keywordSpan ts children kw = .ok r) : kw.name ≠ none := by
  obtain ⟨value, -, h⟩ := bind_eq_ok h
  obtain ⟨t, -, h⟩ := bind_eq_ok h
  obtain ⟨⟨⟩, hname, -⟩ := bind_eq_ok h
  intro hnone
  simp [hnone, ensure] at hname

theorem Aligned.orderly {ts : List Token} {vs : List Visit} {stop front : Place} (h : Aligned ts vs stop front)
    (hts : Forward ts) : ∀ n ∈ Visit.nodesIn vs, Orderly n ∧ ∀ kw ∈ n.1.keywords, kw.name ≠ none := by
  induction h with
  | nil => simp [Visit.nodesIn]
  | @cons ts own site children vs stop next front _ keeps below named ihbehind ihbelow =>
    have hown := (keeps.forward hts).1
    intro n hn
    rw [Visit.nodesIn, Visit.nodes, List.cons_append] at hn
    rcases List.mem_cons.1 hn with rfl | hn
    · refine ⟨(List.pairwise_append.1 (below.inOrder hown).1).1, fun kw hkw => ?_⟩
      obtain ⟨r, hr⟩ := named kw hkw
      exact keywordSpan_ok hr
    · rcases List.mem_append.1 hn with hn | hn
      · obtain ⟨v, hv, hn⟩ := Visit.mem_nodesIn.1 hn
        exact ihbelow hown n (Visit.mem_nodesIn.2 ⟨v, (Visit.inOrder_perm _ _ _).mem_iff.2 hv, hn⟩)
      · exact ihbehind hts n hn

/-! ## Trees -/

def textLines (text : String) : List (List Char) := Text.Chars.linesKeeping [] text.toList

def lastPlace (text : String) : Place :=
  ⟨(textLines text).length, (((textLines text).getLast?.map List.length).getD 0 : Nat)⟩

def stringsOf (ts : List Token) : List Token := ts.filter fun t => t.kind == .text

def Tree.visit? (t : Tree) : Option Visit := (visitsOf 0 t).1.head?.map Prod.snd

/-- Every entry of a dictionary has its key, and every node starts in a line of the text, between two characters. -/
def Legible (text : String) (t : Tree) : Prop := ∀ v ∈ t.visit?, v.all (Site.placed (textLines text)) = true

instance (text : String) (t : Tree) : Decidable (Legible text t) :=
  inferInstanceAs (Decidable (∀ v ∈ t.visit?, v.all (Site.placed (textLines text)) = true))

def Markable (text : String) (ts : List Token) (t : Tree) : Prop :=
  ∀ v ∈ t.visit?, ∃ settled rest front, (v.settle (textLines text)).run (stringsOf ts) = .ok (settled, rest) ∧
    Aligned ts [settled] (lastPlace text) front

theorem rangesOf_eq (text : String) (ts : List Token) (t : Tree) :
    rangesOf text ts t = match t.visit? with
      | none => pure []
      | some v => (v.settle (textLines text)).run (stringsOf ts) >>= fun r =>
        r.1.mark ts (lastPlace text) >>= fun m => pure m.2 := by
  unfold rangesOf Tree.visit?
  cases (visitsOf 0 t).1 <;> rfl

theorem rangesOf_ok_iff (text : String) (ts : List Token) (t : Tree) :
    (∃ ranges, rangesOf text ts t = .ok ranges) ↔ Markable text ts t := by
  rw [rangesOf_eq, Markable]
  cases t.visit? with
  | none => simp [Pure.pure, Except.pure]
  | some v =>
    simp only [bind_ok_iff, Option.mem_some_iff, forall_eq']
    constructor
    · rintro ⟨ranges, ⟨settled, rest⟩, hsettled, ⟨front, found⟩, hmark, -⟩
      exact ⟨settled, rest, front, hsettled, (settled.alignedAlone ts _ front).1 ⟨found, hmark⟩⟩
    · rintro ⟨settled, rest, front, hsettled, haligned⟩
      obtain ⟨found, hmark⟩ := (settled.alignedAlone ts _ front).2 haligned
      exact ⟨found, (settled, rest), hsettled, (front, found), hmark, rfl⟩

theorem faultsIn_rangesOf {text : String} {t : Tree} (h : Legible text t) (ts : List Token) :
    FaultsIn IsUnfit (rangesOf text ts t) := by
  rw [rangesOf_eq]
  cases hv : t.visit? with
  | none => exact FaultsIn.pure _
  | some v =>
    obtain ⟨hok, herror⟩ := v.consumes_settle (textLines text) (h v hv) (stringsOf ts)
    dsimp only
    by_cases henough : v.texts ≤ (stringsOf ts).length
    · obtain ⟨settled, hsettled⟩ := hok henough
      rw [hsettled]
      exact (Visit.faultsIn_mark (Visit.all_of_settle hsettled) ts (lastPlace text)).bind fun _ => FaultsIn.pure _
    · rw [herror (by omega)]
      exact FaultsIn.error (Or.inl rfl)

theorem Markable.orderly {text : String} {ts : List Token} {t : Tree} (h : Markable text ts t) (hts : Forward ts)
    {v : Visit} (hv : t.visit? = some v) (hlegible : Legible text t) :
    v.texts ≤ (stringsOf ts).length ∧ (∀ n ∈ v.nodes, ∀ kw ∈ n.1.keywords, kw.name ≠ none) ∧
      ∀ settled rest, (v.settle (textLines text)).run (stringsOf ts) = .ok (settled, rest) →
        ∀ n ∈ settled.nodes, Orderly n := by
  obtain ⟨settled, rest, front, hsettled, haligned⟩ := h v hv
  have horderly : ∀ n ∈ settled.nodes, Orderly n ∧ ∀ kw ∈ n.1.keywords, kw.name ≠ none := fun n hn =>
    haligned.orderly hts n (Visit.mem_nodesIn.2 ⟨settled, by simp, hn⟩)
  refine ⟨?_, ?_, ?_⟩
  · by_contra hfew
    have hnone := (v.consumes_settle (textLines text) (hlegible v hv) (stringsOf ts)).2 (by omega)
    exact nomatch hsettled.symm.trans hnone
  · intro n hn kw hkw
    obtain ⟨m, hm, -, hsame⟩ := Visit.exists_mem_nodes_settle hsettled n hn
    exact (horderly m hm).2 kw (hsame ▸ hkw)
  · intro other left hother
    obtain ⟨rfl, -⟩ := Prod.mk.inj (Except.ok.inj (hsettled.symm.trans hother))
    exact fun n hn => (horderly n hn).1

end PlotAdvisor.Program
