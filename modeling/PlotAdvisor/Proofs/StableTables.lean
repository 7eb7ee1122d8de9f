import PlotAdvisor.Proofs.Numbering
import PlotAdvisor.Proofs.SymbolOrder

/-! The tables of a vocabulary and the order in which symbols were met. Where the comparison of symbols is an order,
partial trees that come in another order give the same tables: the same symbols in the same places, and below each of
them the same things with the same counts. Where it is no order, there are programs that show it.

* `orders_lessBelow` - an order of symbols orders what is below them.
* `count_of_mem_sightings` - the counts are those of the partial trees.
* `sameTables_of_perm` - tables that do not depend on the order.
-/
set_option autoImplicit false

namespace PlotAdvisor

open Program

/-! ## Comparing what is below a symbol -/

namespace Models.Productions

section Comparing

variable {S : Symbol → Prop}

theorem lessAll_cons_iff (h : Sorting.Orders Symbol.less Symbol.key S) {a b : Symbol} (ha : S a) (hb : S b)
    (as bs : List Symbol) :
    lessAll (a :: as) (b :: bs) = true ↔ a.less b = true ∨ (a.key = b.key ∧ lessAll as bs = true) := by
  rw [lessAll]
  by_cases hs : a.same b = true
  · have hkey : a.key = b.key := Symbol.same_iff.1 hs
    have hless : ¬ a.less b = true := fun hab => h.apart ha hb hab hkey
    simp [hs, hkey, hless]
  · have hkey : a.key ≠ b.key := mt Symbol.same_iff.2 hs
    simp [hs, hkey]

theorem orders_lessAll (h : Sorting.Orders Symbol.less Symbol.key S) :
    Sorting.Orders lessAll (List.map Symbol.key) (fun ss => ∀ s ∈ ss, S s) where
  apart := by
    intro as bs has hbs hless
    induction as generalizing bs with
    | nil =>
      cases bs with
      | nil => simp [lessAll] at hless
      | cons b bs => simp
    | cons a as ih =>
      cases bs with
      | nil => simp
      | cons b bs =>
        rw [List.forall_mem_cons] at has hbs
        rw [lessAll_cons_iff h has.1 hbs.1] at hless
        simp only [List.map_cons, ne_eq, List.cons.injEq, not_and]
        rcases hless with hless | ⟨-, hless⟩
        · exact fun hkey => absurd hkey (h.apart has.1 hbs.1 hless)
        · exact fun _ => ih has.2 hbs.2 hless
  total := by
    intro as bs has hbs hne
    induction as generalizing bs with
    | nil =>
      cases bs with
      | nil => simp at hne
      | cons b bs => exact Or.inl rfl
    | cons a as ih =>
      cases bs with
      | nil => exact Or.inr rfl
      | cons b bs =>
        rw [List.forall_mem_cons] at has hbs
        rw [lessAll_cons_iff h has.1 hbs.1, lessAll_cons_iff h hbs.1 has.1]
        by_cases hkey : a.key = b.key
        · have hne' : as.map Symbol.key ≠ bs.map Symbol.key := by simpa [hkey] using hne
          rcases ih has.2 hbs.2 hne' with hless | hless
          · exact Or.inl (Or.inr ⟨hkey, hless⟩)
          · exact Or.inr (Or.inr ⟨hkey.symm, hless⟩)
        · exact (h.total has.1 hbs.1 hkey).imp Or.inl Or.inl
  trans := by
    intro as bs cs has hbs hcs hab hbc
    induction as generalizing bs cs with
    | nil =>
      cases cs with
      | nil => cases bs <;> simp [lessAll] at hbc
      | cons c cs => rfl
    | cons a as ih =>
      cases bs with
      | nil => simp [lessAll] at hab
      | cons b bs =>
        cases cs with
        | nil => simp [lessAll] at hbc
        | cons c cs =>
          rw [List.forall_mem_cons] at has hbs hcs
          rw [lessAll_cons_iff h has.1 hbs.1] at hab
          rw [lessAll_cons_iff h hbs.1 hcs.1] at hbc
          rw [lessAll_cons_iff h has.1 hcs.1]
          rcases hab with hab | ⟨hkey, hab⟩
          · rcases hbc with hbc | ⟨hkey', -⟩
            · exact Or.inl (h.trans has.1 hbs.1 hcs.1 hab hbc)
            · exact Or.inl (h.congr_right hbs.1 hcs.1 has.1 hkey' hab)
          · rcases hbc with hbc | ⟨hkey', hbc⟩
            · exact Or.inl (h.congr_left hbs.1 has.1 hcs.1 hkey.symm hbc)
            · exact Or.inr ⟨hkey.trans hkey', ih has.2 hbs.2 hcs.2 hab hbc⟩

theorem orders_lessBelow (h : Sorting.Orders Symbol.less Symbol.key S) :
    Sorting.Orders lessBelow Below.key (fun b => ∀ s ∈ b.symbols, S s) where
  apart := by
    intro a b ha hb hless
    cases a with
    | one s =>
      cases b with
      | one t => simpa [Below.key] using h.apart (ha s List.mem_cons_self) (hb t List.mem_cons_self) hless
      | many ts => simp [Below.key]
    | many ss =>
      cases b with
      | one t => simp [Below.key]
      | many ts => simpa [Below.key, Below.symbols] using (orders_lessAll h).apart ha hb hless
  total := by
    intro a b ha hb hne
    cases a with
    | one s =>
      cases b with
      | one t =>
        exact h.total (ha s List.mem_cons_self) (hb t List.mem_cons_self) (by simpa [Below.key] using hne)
      | many ts => exact Or.inl rfl
    | many ss =>
      cases b with
      | one t => exact Or.inr rfl
      | many ts => exact (orders_lessAll h).total ha hb (by simpa [Below.key] using hne)
  trans := by
    intro a b c ha hb hc hab hbc
    cases a with
    | one s =>
      cases c with
      | many us => rfl
      | one u =>
        cases b with
        | one t =>
          exact h.trans (ha s List.mem_cons_self) (hb t List.mem_cons_self) (hc u List.mem_cons_self) hab hbc
        | many ts => simp [lessBelow] at hbc
    | many ss =>
      cases b with
      | one t => simp [lessBelow] at hab
      | many ts =>
        cases c with
        | one u => simp [lessBelow] at hbc
        | many us => exact (orders_lessAll h).trans ha hb hc hab hbc

end Comparing

/-! ## Counts -/

def sightedUnder (s : Symbol) : List (Symbol × List (Below × Nat)) → List (Below × Nat)
  | [] => []
  | (p, cs) :: rest => if p.same s then cs else sightedUnder s rest

/-- How often something was met, by a list of counts. -/
def timesBelow (b : Below) : List (Below × Nat) → Nat
  | [] => 0
  | (c, n) :: rest => if c.same b then n else timesBelow b rest

theorem sightedUnder_countUnder (s p : Symbol) (b : Below) (met : List (Symbol × List (Below × Nat))) :
    sightedUnder s (countUnder p b met) =
      if p.same s then countBelow b (sightedUnder s met) else sightedUnder s met := by
  induction met with
  | nil => cases hs : p.same s <;> simp [countUnder, sightedUnder, countBelow, hs]
  | cons e met ih =>
    rw [countUnder]
    by_cases hep : e.1.same p = true
    · have hsame : e.1.same s = p.same s := by
        rw [Bool.eq_iff_iff, Symbol.same_iff, Symbol.same_iff, Symbol.same_iff.1 hep]
      rw [if_pos hep, sightedUnder, sightedUnder, hsame]
      cases p.same s <;> simp
    · rw [if_neg hep, sightedUnder, sightedUnder, ih]
      by_cases hes : e.1.same s = true
      · have hps : ¬ p.same s = true := by
          rw [Symbol.same_iff] at hep hes ⊢
          exact fun hps => hep (hes.trans hps.symm)
        simp [hes, hps]
      · simp [hes]

theorem sightedUnder_sightings (s : Symbol) (ts : List PartialTree) :
    sightedUnder s (sightings ts) =
      (ts.filter fun t => t.parent.simple.same s).foldl (fun cs t => countBelow t.children.simple cs) [] := by
  suffices h : ∀ met,
      sightedUnder s (ts.foldl (fun met t => countUnder t.parent.simple t.children.simple met) met) =
        (ts.filter fun t => t.parent.simple.same s).foldl (fun cs t => countBelow t.children.simple cs)
          (sightedUnder s met) from h []
  induction ts with
  | nil => exact fun met => rfl
  | cons t ts ih =>
    intro met
    rw [List.foldl_cons, ih, sightedUnder_countUnder, List.filter_cons]
    cases t.parent.simple.same s <;> simp

theorem timesBelow_countBelow (b d : Below) (cs : List (Below × Nat)) :
    timesBelow b (countBelow d cs) = timesBelow b cs + if d.same b then 1 else 0 := by
  induction cs with
  | nil => simp [countBelow, timesBelow]
  | cons c cs ih =>
    rw [countBelow]
    by_cases hcd : c.1.same d = true
    · have hsame : c.1.same b = d.same b := by
        rw [Bool.eq_iff_iff, Below.same_iff, Below.same_iff, Below.same_iff.1 hcd]
      rw [if_pos hcd, timesBelow, timesBelow, hsame]
      cases hdb : d.same b <;> simp
    · rw [if_neg hcd, timesBelow, timesBelow, ih]
      by_cases hcb : c.1.same b = true
      · have hdb : ¬ d.same b = true := by
          rw [Below.same_iff] at hcd hcb ⊢
          exact fun hdb => hcd (hcb.trans hdb.symm)
        simp [hcb, hdb]
      · simp [hcb]

theorem timesBelow_foldl (b : Below) (ts : List PartialTree) (cs : List (Below × Nat)) :
    timesBelow b (ts.foldl (fun cs t => countBelow t.children.simple cs) cs) =
      timesBelow b cs + ts.countP fun t => t.children.simple.same b := by
  induction ts generalizing cs with
  | nil => rfl
  | cons t ts ih =>
    rw [List.foldl_cons, ih, timesBelow_countBelow, List.countP_cons]
    omega

theorem timesBelow_of_mem {c : Below × Nat} {cs : List (Below × Nat)} (hcs : (cs.map fun c => c.1.key).Nodup)
    (h : c ∈ cs) : timesBelow c.1 cs = c.2 := by
  induction cs with
  | nil => simp at h
  | cons d cs ih =>
    rw [List.map_cons, List.nodup_cons] at hcs
    rw [timesBelow]
    rcases List.mem_cons.1 h with rfl | h
    · rw [if_pos (Below.same_iff.2 rfl)]
    · have hne : ¬ d.1.same c.1 = true := by
        rw [Below.same_iff]
        exact fun hkey => hcs.1 (hkey ▸ List.mem_map_of_mem h)
      rw [if_neg hne, ih hcs.2 h]

theorem Single.sightedUnder_of_mem {met : List (Symbol × List (Below × Nat))} (hmet : Single met)
    {e : Symbol × List (Below × Nat)} (he : e ∈ met) {s : Symbol} (hs : e.1.same s = true) :
    sightedUnder s met = e.2 := by
  have hparents := hmet.parents
  clear hmet
  induction met with
  | nil => simp at he
  | cons d met ih =>
    rw [List.map_cons, List.nodup_cons] at hparents
    rw [sightedUnder]
    rcases List.mem_cons.1 he with rfl | he
    · rw [if_pos hs]
    · have hne : ¬ d.1.same s = true := by
        rw [Symbol.same_iff] at hs ⊢
        exact fun hkey => hparents.1 (hkey.trans hs.symm ▸ List.mem_map_of_mem he)
      rw [if_neg hne, ih he hparents.2]

theorem count_of_mem_sightings {ts : List PartialTree} {e : Symbol × List (Below × Nat)} (he : e ∈ sightings ts)
    {c : Below × Nat} (hc : c ∈ e.2) :
    c.2 = ts.countP fun t => t.children.simple.same c.1 && t.parent.simple.same e.1 := by
  have hsingle := single_sightings ts
  have hunder := hsingle.sightedUnder_of_mem he (Symbol.same_iff.2 rfl)
  rw [← timesBelow_of_mem (hsingle.children e he) hc, ← hunder, sightedUnder_sightings, timesBelow_foldl, timesBelow,
    Nat.zero_add, List.countP_filter]

/-! ## Tables that are the same -/

structure Production.SameAs (p q : Production) : Prop where
  parent : p.parent.same q.parent = true
  offset : p.offset = q.offset
  children : List.Forall₂ (fun c d => c.1.same d.1 = true ∧ c.2 = d.2) p.children q.children

/-- The same symbols in the same places, and below each of them the same things with the same numbers and counts. -/
structure SameTables (v u : Vocabulary) : Prop where
  inner : List.Forall₂ (fun a b => a.same b = true) v.inner u.inner
  terminals : List.Forall₂ (fun a b => a.same b = true) v.terminals u.terminals
  productions : List.Forall₂ Production.SameAs v.productions u.productions

section Lists

variable {β γ κ : Type}

theorem forall₂_of_map_eq {f : β → γ} {R : β → β → Prop} {xs ys : List β} (hR : ∀ x y, f x = f y → R x y)
    (h : xs.map f = ys.map f) : List.Forall₂ R xs ys := by
  rw [← List.forall₂_eq_eq_eq, List.forall₂_map_left_iff, List.forall₂_map_right_iff] at h
  exact h.imp fun x y => hR x y

theorem map_eq_of_map_key_eq {k : β → κ} {f : β → γ} {xs ys : List β} (hk : xs.map k = ys.map k)
    (h : ∀ x ∈ xs, ∀ y ∈ ys, k x = k y → f x = f y) : xs.map f = ys.map f := by
  induction xs generalizing ys with
  | nil =>
    obtain rfl := List.map_eq_nil_iff.1 hk.symm
    rfl
  | cons x xs ih =>
    cases ys with
    | nil => simp at hk
    | cons y ys =>
      rw [List.map_cons, List.map_cons, List.cons.injEq] at hk
      rw [List.map_cons, List.map_cons, h x List.mem_cons_self y List.mem_cons_self hk.1,
        ih hk.2 fun a ha b hb => h a (List.mem_cons_of_mem x ha) b (List.mem_cons_of_mem y hb)]

end Lists

def entryKeys (e : Symbol × List (Below × Nat)) :
    (Symbol ⊕ Literal.Key) × List (((Symbol ⊕ Literal.Key) ⊕ List (Symbol ⊕ Literal.Key)) × Nat) :=
  (e.1.key, e.2.map fun c => (c.1.key, c.2))

theorem sameAs_numbered {es fs : List (Symbol × List (Below × Nat))} (h : es.map entryKeys = fs.map entryKeys)
    (offset : Nat) : List.Forall₂ Production.SameAs (numbered offset es) (numbered offset fs) := by
  induction es generalizing fs offset with
  | nil =>
    obtain rfl := List.map_eq_nil_iff.1 h.symm
    exact List.Forall₂.nil
  | cons e es ih =>
    cases fs with
    | nil => simp at h
    | cons f fs =>
      rw [List.map_cons, List.map_cons, List.cons.injEq] at h
      obtain ⟨hkey, hchildren⟩ := Prod.mk.inj h.1
      have hlength : e.2.length = f.2.length := by simpa using congrArg List.length hchildren
      refine List.Forall₂.cons ⟨Symbol.same_iff.2 hkey, rfl, ?_⟩ ?_
      · refine forall₂_of_map_eq (fun c d hcd => ?_) hchildren
        obtain ⟨hbelow, hcount⟩ := Prod.mk.inj hcd
        exact ⟨Below.same_iff.2 hbelow, hcount⟩
      · rw [hlength]
        exact ih h.2 _

/-! ## Partial trees in another order -/

section Order

variable {S : Symbol → Prop} {ts us : List PartialTree}

structure Within (S : Symbol → Prop) (t : PartialTree) : Prop where
  inner : t.parent.isInner = true
  parent : S t.parent
  terminals : ∀ s ∈ t.terminals, S s.simple
  children : ∀ s ∈ t.children.symbols, S s.simple

theorem mem_of_mem_distinct {ss : List Symbol} {s : Symbol} (h : s ∈ Symbol.distinct ss) : s ∈ ss := by
  suffices hall : ∀ done : List Symbol,
      s ∈ ss.foldl (fun done s => if done.any fun d => d.same s then done else done ++ [s]) done → s ∈ done ∨ s ∈ ss by
    exact (hall [] h).resolve_left List.not_mem_nil
  clear h
  induction ss with
  | nil => exact fun done h => Or.inl h
  | cons r ss ih =>
    intro done h
    rcases ih _ h with h | h
    · dsimp only at h
      split at h
      · exact Or.inl h
      · rcases List.mem_append.1 h with h | h
        · exact Or.inl h
        · exact Or.inr (List.mem_cons.2 (Or.inl (List.mem_singleton.1 h)))
    · exact Or.inr (List.mem_cons_of_mem r h)

theorem foldl_grown_perm {κ : Type} {ks js : List κ} (h : ks.Perm js) :
    (ks.foldl grown []).Perm (js.foldl grown []) := by
  refine (List.perm_ext_iff_of_nodup (nodup_foldl_grown List.nodup_nil ks) (nodup_foldl_grown List.nodup_nil js)).2 ?_
  intro k
  rw [mem_foldl_grown, mem_foldl_grown, h.mem_iff]

theorem map_key_sortedSymbols_eq (h : Sorting.Orders Symbol.less Symbol.key S) {ss rs : List Symbol}
    (hperm : ss.Perm rs) (hss : ∀ s ∈ ss, S s.simple) :
    (sortedSymbols ss).map Symbol.key = (sortedSymbols rs).map Symbol.key := by
  have hmem {qs : List Symbol} (hqs : ∀ s ∈ qs, S s.simple) : ∀ s ∈ Symbol.distinct (qs.map Symbol.simple), S s := by
    intro s hs
    obtain ⟨q, hq, rfl⟩ := List.mem_map.1 (mem_of_mem_distinct hs)
    exact hqs q hq
  refine Sorting.map_key_sortBy_eq h (hmem hss) (hmem fun s hs => hss s (hperm.mem_iff.2 hs)) ?_ ?_
  · rw [Symbol.map_key_distinct]
    exact nodup_foldl_grown List.nodup_nil _
  · rw [Symbol.map_key_distinct, Symbol.map_key_distinct]
    exact foldl_grown_perm ((hperm.map _).map _)

theorem map_key_sortedChildren_eq (h : Sorting.Orders Symbol.less Symbol.key S) {cs ds : List (Below × Nat)}
    (hcs : ∀ c ∈ cs, ∀ s ∈ c.1.symbols, S s) (hds : ∀ c ∈ ds, ∀ s ∈ c.1.symbols, S s)
    (hkey : (cs.map fun c => c.1.key).Nodup) (hperm : (cs.map fun c => c.1.key).Perm (ds.map fun c => c.1.key)) :
    (sortedChildren cs).map (fun c => c.1.key) = (sortedChildren ds).map fun c => c.1.key := by
  have horders := (orders_lessBelow h).comap (Prod.fst : Below × Nat → Below)
  have hsorted (p : Below × Nat → Bool) (q : (Symbol ⊕ Literal.Key) ⊕ List (Symbol ⊕ Literal.Key) → Bool)
      (hp : ∀ c, p c = q c.1.key) :
      (Sorting.sortBy (fun a b => lessBelow a.1 b.1) (cs.filter p)).map (fun c => c.1.key) =
        (Sorting.sortBy (fun a b => lessBelow a.1 b.1) (ds.filter p)).map fun c => c.1.key := by
    have hfilter (es : List (Below × Nat)) :
        (es.filter p).map (fun c => c.1.key) = (es.map fun c => c.1.key).filter q := by
      rw [List.filter_map]
      congr 1
      exact List.filter_congr fun c _ => hp c
    refine Sorting.map_key_sortBy_eq horders (fun c hc => hcs c (List.mem_filter.1 hc).1)
      (fun c hc => hds c (List.mem_filter.1 hc).1) ?_ ?_
    · rw [hfilter]
      exact hkey.filter _
    · rw [hfilter, hfilter]
      exact hperm.filter _
  unfold sortedChildren
  rw [List.map_append, List.map_append]
  congr 1
  · refine hsorted _ Sum.isLeft fun c => ?_
    rcases c with ⟨b | bs, n⟩ <;> rfl
  · refine hsorted _ Sum.isRight fun c => ?_
    rcases c with ⟨b | bs, n⟩ <;> rfl

theorem map_key_sightings (ts : List PartialTree) :
    (sightings ts).map (fun e => e.1.key) = (ts.map fun t => t.parent.simple.key).foldl grown [] := by
  suffices h : ∀ met : List (Symbol × List (Below × Nat)),
      (ts.foldl (fun met t => countUnder t.parent.simple t.children.simple met) met).map (fun e => e.1.key) =
        (ts.map fun t => t.parent.simple.key).foldl grown (met.map fun e => e.1.key) from h []
  induction ts with
  | nil => exact fun met => rfl
  | cons t ts ih =>
    intro met
    rw [List.foldl_cons, ih, map_key_countUnder, List.map_cons, List.foldl_cons]

theorem within_sightings (hts : ∀ t ∈ ts, Within S t) {e : Symbol × List (Below × Nat)} (he : e ∈ sightings ts) :
    S e.1 ∧ ∀ c ∈ e.2, ∀ s ∈ c.1.symbols, S s := by
  have hnone : Counted ts [] := fun e he => absurd he List.not_mem_nil
  obtain ⟨hne, hmet⟩ := counted_foldl hnone (List.Subset.refl ts) e he
  constructor
  · obtain ⟨c, hc⟩ := List.exists_mem_of_ne_nil _ hne
    obtain ⟨t, ht, hs, -⟩ := hmet c hc
    have hw := hts t ht
    rw [Symbol.simple_of_isInner hw.inner] at hs
    rw [Symbol.eq_of_same hw.inner hs]
    exact hw.parent
  · intro c hc s hs
    obtain ⟨t, ht, -, hchild⟩ := hmet c hc
    rw [hchild, Below.symbols_simple] at hs
    obtain ⟨r, hr, rfl⟩ := List.mem_map.1 hs
    exact (hts t ht).children r hr

theorem Single.mem_children_iff {met : List (Symbol × List (Below × Nat))} (hmet : Single met)
    {e : Symbol × List (Below × Nat)} (he : e ∈ met) {q : (Symbol ⊕ Literal.Key) ⊕ List (Symbol ⊕ Literal.Key)} :
    (q ∈ e.2.map fun c => c.1.key) ↔ Sighted met e.1.key q := by
  constructor
  · intro h
    exact ⟨e, he, rfl, h⟩
  · rintro ⟨d, hd, hkey, hq⟩
    rwa [List.inj_on_of_nodup_map hmet.parents hd he hkey] at hq

theorem map_sortedChildren_eq (h : Sorting.Orders Symbol.less Symbol.key S) (hperm : ts.Perm us)
    (hts : ∀ t ∈ ts, Within S t) {e f : Symbol × List (Below × Nat)} (he : e ∈ sightings ts) (hf : f ∈ sightings us)
    (hkey : e.1.key = f.1.key) :
    ((sortedChildren e.2).map fun c => (c.1.key, c.2)) = (sortedChildren f.2).map fun c => (c.1.key, c.2) := by
  have hus : ∀ t ∈ us, Within S t := fun t ht => hts t (hperm.mem_iff.2 ht)
  have hsingle := single_sightings ts
  have hsingle' := single_sightings us
  have hkeys : (e.2.map fun c => c.1.key).Perm (f.2.map fun c => c.1.key) := by
    refine (List.perm_ext_iff_of_nodup (hsingle.children e he) (hsingle'.children f hf)).2 fun q => ?_
    rw [hsingle.mem_children_iff he, hsingle'.mem_children_iff hf, sighted_sightings, sighted_sightings, hkey]
    simp only [hperm.mem_iff]
  refine map_eq_of_map_key_eq (k := fun c => c.1.key) (map_key_sortedChildren_eq h (within_sightings hts he).2
    (within_sightings hus hf).2 (hsingle.children e he) hkeys) fun c hc d hd hcd => Prod.ext hcd ?_
  rw [count_of_mem_sightings he (mem_sortedChildren.1 hc), count_of_mem_sightings hf (mem_sortedChildren.1 hd),
    hperm.countP_eq]
  refine List.countP_congr fun t _ => ?_
  rw [Bool.and_eq_true, Bool.and_eq_true, Symbol.same_iff, Symbol.same_iff, Below.same_iff, Below.same_iff, hkey, hcd]

theorem map_entryKeys_eq (h : Sorting.Orders Symbol.less Symbol.key S) (hperm : ts.Perm us)
    (hts : ∀ t ∈ ts, Within S t) :
    (sortedSightings ts).map entryKeys = (sortedSightings us).map entryKeys := by
  have hus : ∀ t ∈ us, Within S t := fun t ht => hts t (hperm.mem_iff.2 ht)
  have hkeys : ((sightings ts).map fun e => e.1.key).Perm ((sightings us).map fun e => e.1.key) := by
    rw [map_key_sightings, map_key_sightings]
    exact foldl_grown_perm (hperm.map _)
  have hsorted := Sorting.map_key_sortBy_eq (h.comap (Prod.fst : Symbol × List (Below × Nat) → Symbol))
    (fun e he => (within_sightings hts he).1) (fun e he => (within_sightings hus he).1) (single_sightings ts).parents
    hkeys
  rw [sortedSightings, sortedSightings, List.map_map, List.map_map]
  refine map_eq_of_map_key_eq hsorted fun e he f hf hkey => Prod.ext hkey ?_
  exact map_sortedChildren_eq h hperm hts ((Sorting.mem_sortBy _).1 he) ((Sorting.mem_sortBy _).1 hf) hkey

end Order

/-! ## The values of programs -/

section Values

variable {P : Literal → Prop} {m : Memory} {p : Part} {ps : List Part} {v : Literal}

theorem mem_valuesOfAll : v ∈ Part.valuesOfAll ps ↔ ∃ p ∈ ps, v ∈ p.values := by
  induction ps with
  | nil => simp [Part.valuesOfAll]
  | cons p ps ih => simp [Part.valuesOfAll, ih]

theorem mem_values_iff (hp : p.isInner = true) : v ∈ p.values ↔ ∃ q ∈ p.parts, v ∈ q.values := by
  cases p with
  | node kind fields => rw [Part.values, mem_valuesOfAll]; rfl
  | one name child => simp [Part.values, Part.parts]
  | many name children => rw [Part.values, mem_valuesOfAll]; rfl
  | bare name => simp [Part.isInner] at hp
  | leaf w => simp [Part.isInner] at hp

structure ShowsOnly (P : Literal → Prop) (t : PartialTree) : Prop where
  terminals : ∀ s ∈ t.terminals, ∃ v, s = .content v ∧ P v
  children : ∀ v, .content v ∈ t.children.symbols → P v

theorem showsOnly_here (above : List Symbol) {before : List Literal} (hp : p.isInner = true)
    (hvalues : ∀ v ∈ p.values, P v) (hbefore : ∀ v ∈ before, P v) : ShowsOnly P (p.here m above before) := by
  constructor
  · intro s hs
    obtain ⟨v, hv, rfl⟩ := List.mem_map.1 hs
    exact ⟨v, rfl, hbefore v (List.mem_of_mem_take (List.mem_reverse.1 hv))⟩
  · intro v hv
    rw [Part.here, Part.symbols_children] at hv
    obtain ⟨q, hq, hs⟩ := List.mem_map.1 hv
    refine hvalues v ((mem_values_iff hp).2 ⟨q, hq, ?_⟩)
    cases q with
    | leaf w =>
      obtain rfl := Symbol.content.inj hs
      simp [Part.values]
    | _ => simp [Part.symbol] at hs

theorem showsOnly_partialsFromAll
    (hps : ∀ q ∈ ps, ∀ above before, (∀ v ∈ before, P v) →
      (∀ t ∈ (q.partialsFrom m above before).1, ShowsOnly P t) ∧ ∀ v ∈ (q.partialsFrom m above before).2, P v)
    (above : List Symbol) {before : List Literal} (hbefore : ∀ v ∈ before, P v) :
    (∀ t ∈ (Part.partialsFromAll m above before ps).1, ShowsOnly P t) ∧
      ∀ v ∈ (Part.partialsFromAll m above before ps).2, P v := by
  induction ps generalizing before with
  | nil => exact ⟨fun t ht => absurd ht List.not_mem_nil, hbefore⟩
  | cons q ps ih =>
    rw [List.forall_mem_cons] at hps
    obtain ⟨hhere, hafter⟩ := hps.1 above before hbefore
    obtain ⟨hrest, hlast⟩ := ih hps.2 hafter
    rw [Part.partialsFromAll]
    exact ⟨fun t ht => (List.mem_append.1 ht).elim (hhere t) (hrest t), hlast⟩

theorem showsOnly_partialsFrom (p : Part) (hvalues : ∀ v ∈ p.values, P v) (above : List Symbol)
    {before : List Literal} (hbefore : ∀ v ∈ before, P v) :
    (∀ t ∈ (p.partialsFrom m above before).1, ShowsOnly P t) ∧ ∀ v ∈ (p.partialsFrom m above before).2, P v := by
  induction p using Part.inductionOn generalizing above before with
  | h p ih =>
    cases hp : p.isInner with
    | true =>
      have hparts := fun q hq (above : List Symbol) (before : List Literal) (hb : ∀ v ∈ before, P v) =>
        ih q hq (fun v hv => hvalues v ((mem_values_iff hp).2 ⟨q, hq, hv⟩)) above hb
      obtain ⟨hrest, hlast⟩ := showsOnly_partialsFromAll hparts (p.symbol :: above) hbefore
      rw [Part.partialsFrom_eq m above before hp, List.forall_mem_cons]
      exact ⟨⟨showsOnly_here above hp hvalues hbefore, hrest⟩, hlast⟩
    | false =>
      cases p with
      | bare name => exact ⟨fun t ht => absurd ht List.not_mem_nil, hbefore⟩
      | leaf w =>
        refine ⟨fun t ht => absurd ht List.not_mem_nil, ?_⟩
        rw [Part.partialsFrom, List.forall_mem_cons]
        exact ⟨hvalues w (by simp [Part.values]), hbefore⟩
      | _ => simp [Part.isInner] at hp

/-- Classes, fields, and the given values. -/
def symbolsOver (V : Set Literal) : Set Symbol := {s | ∀ v, s = .content v → v ∈ V}

/-- The values of the programs are among the given ones, unknown text being taken as such. -/
def ValuesIn (V : Set Literal) (pairs : List Pair) : Prop := ∀ p ∈ pairs, ∀ v ∈ p.tree.values, v.simple ∈ V

theorem within_corpusTrees {V : Set Literal} {pairs : List Pair} (h : ValuesIn V pairs) :
    ∀ t ∈ Vocabulary.corpusTrees m pairs, Within (· ∈ symbolsOver V) t := by
  intro t ht
  have hinner := Vocabulary.isInner_of_corpusTrees ht
  obtain ⟨p, hp, ht⟩ := List.mem_flatMap.1 ht
  have hshows := (showsOnly_partialsFrom (P := fun v => v.simple ∈ V) p.tree (h p hp) []
    (fun v hv => absurd hv List.not_mem_nil)).1 t ht
  have hsimple (s : Symbol) (hs : ∀ v, s = .content v → v.simple ∈ V) : s.simple ∈ symbolsOver V := by
    intro w hw
    cases s with
    | content v =>
      obtain rfl := Symbol.content.inj hw
      exact hs v rfl
    | _ => simp [Symbol.simple] at hw
  refine ⟨hinner, fun v hv => ?_, fun s hs => hsimple s fun v hv => ?_, fun s hs => hsimple s fun v hv => ?_⟩
  · simp [hv, Symbol.isInner] at hinner
  · obtain ⟨w, hw, hwV⟩ := hshows.terminals s hs
    obtain rfl := Symbol.content.inj (hv.symm.trans hw)
    exact hwV
  · exact hshows.children v (hv ▸ hs)

end Values

/-! ## Stable tables -/

section Stable

variable {α : Type} [Scalar α] {V : Set Literal}

theorem written_of_symbolsOver (hV : ∀ v ∈ V, v.Written) : ∀ s ∈ symbolsOver V, s.Written := by
  intro s hs
  cases s with
  | content v => exact hV v (hs v rfl)
  | _ => trivial

theorem sameTables_of_perm (h : Sorting.Orders Symbol.less Symbol.key (· ∈ symbolsOver V)) {rules : WordRules α}
    {m : Memory} {pairs others : List Pair} (hvalues : ValuesIn V pairs) {σ τ : Type} [Draws σ] [Draws τ] (g : σ) (g' : τ)
    (hperm : (Vocabulary.corpusTrees m pairs).Perm (Vocabulary.corpusTrees m others)) :
    SameTables (Vocabulary.ofPairs rules m pairs g).1 (Vocabulary.ofPairs rules m others g').1 := by
  have hdrawn := Vocabulary.drawTrees_perm m pairs g
  have hperm := (hdrawn.trans hperm).trans (Vocabulary.drawTrees_perm m others g').symm
  have hwithin : ∀ t ∈ (drawTrees m pairs g).1, Within (· ∈ symbolsOver V) t := fun t ht =>
    within_corpusTrees hvalues t (hdrawn.mem_iff.1 ht)
  refine ⟨?_, ?_, ?_⟩
  · refine forall₂_of_map_eq (fun a b => Symbol.same_iff.2) (map_key_sortedSymbols_eq h (hperm.map _) ?_)
    intro s hs
    obtain ⟨t, ht, rfl⟩ := List.mem_map.1 hs
    rw [Symbol.simple_of_isInner (hwithin t ht).inner]
    exact (hwithin t ht).parent
  · refine forall₂_of_map_eq (fun a b => Symbol.same_iff.2) (map_key_sortedSymbols_eq h (hperm.flatMap_right _) ?_)
    intro s hs
    obtain ⟨t, ht, hs⟩ := List.mem_flatMap.1 hs
    exact (hwithin t ht).terminals s hs
  · exact sameAs_numbered (map_entryKeys_eq h hperm hwithin) 0

def assertion (v : Literal) : Pair :=
  ⟨"", .node "Module" [.many "body" [.node "Assert" [.one "test" (.node "Constant" [.one "value" (.leaf v)])]],
    .many "type_ignores" []]⟩

theorem valuesIn_assertions (hV : ∀ v ∈ V, v.Written) {vs : List Literal} (hvs : ∀ v ∈ vs, v ∈ V) :
    ValuesIn V (vs.map assertion) := by
  intro p hp w hw
  obtain ⟨v, hv, rfl⟩ := List.mem_map.1 hp
  obtain rfl : w = v := by simpa [assertion, Part.values, Part.valuesOfAll] using hw
  rw [(hV w (hvs w hv)).simple_eq]
  exact hvs w hv

def tableUnder (s : Symbol) (ts : List PartialTree) : List (Below × Nat) :=
  sortedChildren (sightedUnder s (sightings ts))

def tableOfValues (vs : List Literal) : List (Below × Nat) :=
  sortedChildren (vs.foldl (fun cs v => countBelow (.one (.content v.simple)) cs) [])

theorem tableUnder_assertions (m : Memory) (vs : List Literal) :
    tableUnder (.field "value") (Vocabulary.corpusTrees m (vs.map assertion)) = tableOfValues vs := by
  rw [tableUnder, tableOfValues, sightedUnder_sightings]
  congr 1
  generalize ([] : List (Below × Nat)) = cs
  induction vs generalizing cs with
  | nil => rfl
  | cons v vs ih =>
    rw [Vocabulary.corpusTrees, List.map_cons, List.flatMap_cons, List.filter_append, List.foldl_append, List.foldl_cons]
    exact ih _

theorem sightedUnder_eq_nil {met : List (Symbol × List (Below × Nat))} {s : Symbol}
    (h : ∀ e ∈ met, ¬ e.1.same s = true) : sightedUnder s met = [] := by
  induction met with
  | nil => rfl
  | cons e met ih =>
    rw [List.forall_mem_cons] at h
    rw [sightedUnder, if_neg h.1, ih h.2]

theorem sightedUnder_sortedSightings (s : Symbol) (ts : List PartialTree) :
    sightedUnder s (sortedSightings ts) = tableUnder s ts := by
  have hmem {e : Symbol × List (Below × Nat)} (he : e ∈ sightings ts) :
      (e.1, sortedChildren e.2) ∈ sortedSightings ts := List.mem_map_of_mem ((Sorting.mem_sortBy _).2 he)
  rw [tableUnder]
  by_cases h : ∃ e ∈ sightings ts, e.1.same s = true
  · obtain ⟨e, he, hs⟩ := h
    rw [(single_sortedSightings ts).sightedUnder_of_mem (hmem he) hs, (single_sightings ts).sightedUnder_of_mem he hs]
  · have hnone : ∀ e ∈ sightings ts, ¬ e.1.same s = true := fun e he hs => h ⟨e, he, hs⟩
    have hsorted : ∀ e ∈ sortedSightings ts, ¬ e.1.same s = true := by
      intro e he
      obtain ⟨d, hd, rfl⟩ := List.mem_map.1 he
      exact hnone d ((Sorting.mem_sortBy _).1 hd)
    rw [sightedUnder_eq_nil hnone, sightedUnder_eq_nil hsorted]
    rfl

theorem forall₂_sightedUnder {ps qs : List Production} (h : List.Forall₂ Production.SameAs ps qs) (s : Symbol) :
    List.Forall₂ (fun c d => c.1.same d.1 = true ∧ c.2 = d.2)
      (sightedUnder s (ps.map fun p => (p.parent, p.children)))
      (sightedUnder s (qs.map fun q => (q.parent, q.children))) := by
  induction h with
  | nil => exact List.Forall₂.nil
  | @cons p q ps qs hpq _ ih =>
    have hparent : p.parent.same s = q.parent.same s := by
      rw [Bool.eq_iff_iff, Symbol.same_iff, Symbol.same_iff, Symbol.same_iff.1 hpq.parent]
    rw [List.map_cons, List.map_cons, sightedUnder, sightedUnder, hparent]
    split
    · exact hpq.children
    · exact ih

theorem SameTables.tableUnder {rules : WordRules α} {us vs : List String} {ts others : List PartialTree}
    (h : SameTables (Vocabulary.ofTrees rules us ts) (Vocabulary.ofTrees rules vs others)) (s : Symbol) :
    List.Forall₂ (fun c d => c.1.same d.1 = true ∧ c.2 = d.2) (tableUnder s ts) (tableUnder s others) := by
  have hunder := forall₂_sightedUnder h.productions s
  rw [productions_ofTrees, productions_ofTrees, map_numbered, map_numbered] at hunder
  rwa [sightedUnder_sortedSightings, sightedUnder_sortedSightings] at hunder

/-- The tables of corpora whose partial trees are those of one another in another order are the same, whatever orders are
drawn for them. -/
def Stable (α : Type) [Scalar α] (V : Set Literal) : Prop :=
  ∀ (rules : WordRules α) (m : Memory) (pairs others : List Pair), ValuesIn V pairs →
    (Vocabulary.corpusTrees m pairs).Perm (Vocabulary.corpusTrees m others) →
      ∀ (σ τ : Type) [Draws σ] [Draws τ] (g : σ) (g' : τ),
        SameTables (Vocabulary.ofPairs rules m pairs g).1 (Vocabulary.ofPairs rules m others g').1

theorem Vocabulary.ofPairs_generator (rules : WordRules α) (m : Memory) (pairs : List Pair) (g : Generator) :
    (ofPairs rules m pairs g).1 = ofTrees rules (pairs.map (·.utterance)) (corpusTrees m pairs) := by
  have htrees : (drawTrees m pairs g).1 = corpusTrees m pairs := by
    induction pairs with
    | nil => rfl
    | cons p ps ih => exact congrArg (p.tree.partialTrees m ++ ·) ih
  rw [← htrees]
  rfl

theorem Stable.forall₂_tableOfValues (h : Stable α V) (hV : ∀ v ∈ V, v.Written) {vs ws : List Literal}
    (hvs : ∀ v ∈ vs, v ∈ V) (hperm : vs.Perm ws) :
    List.Forall₂ (fun c d => c.1.same d.1 = true ∧ c.2 = d.2) (tableOfValues vs) (tableOfValues ws) := by
  have htables := h ⟨none, none, none, false, false⟩ ⟨0, 1⟩ (vs.map assertion) (ws.map assertion)
    (valuesIn_assertions hV hvs) ((hperm.map assertion).flatMap_right _) Generator Generator default default
  rw [Vocabulary.ofPairs_generator, Vocabulary.ofPairs_generator] at htables
  have hsame := htables.tableUnder (.field "value")
  rwa [tableUnder_assertions, tableUnder_assertions] at hsame

section Three

variable {x y z : Literal} (hx : x.Written) (hy : y.Written) (hz : z.Written)

include hx hy hz

theorem tableOfValues_again (hxy : (Symbol.content x).same (.content y) = false)
    (hxz : (Symbol.content x).same (.content z) = true) :
    tableOfValues [x, y, z] =
      Sorting.sortBy (fun a b => lessBelow a.1 b.1) [(.one (.content x), 2), (.one (.content y), 1)] := by
  simp [tableOfValues, countBelow, Below.same, hx.simple_eq, hy.simple_eq, hz.simple_eq, hxy, hxz, sortedChildren,
    Sorting.sortBy, Sorting.insertion]

theorem tableOfValues_rising (hxy : (Symbol.content x).less (.content y) = true)
    (hyz : (Symbol.content y).less (.content z) = true) (hxz : (Symbol.content x).same (.content z) = false) :
    tableOfValues [x, y, z] = [(.one (.content x), 1), (.one (.content y), 1), (.one (.content z), 1)] := by
  have hyx : (Symbol.content y).less (.content x) = false := Symbol.less_asymm hx hy hxy
  have hzy : (Symbol.content z).less (.content y) = false := Symbol.less_asymm hy hz hyz
  simp [tableOfValues, countBelow, Below.same, hx.simple_eq, hy.simple_eq, hz.simple_eq, hxz, Symbol.same_of_less hxy,
    Symbol.same_of_less hyz, sortedChildren, Sorting.sortBy, Sorting.insertion, Sorting.firstRun, lessBelow, hyx, hzy]

end Three

/-- Three values one before the other that do not end up in order show two tables. -/
theorem Stable.less_trans (h : Stable α V) (hV : ∀ v ∈ V, v.Written) {x y z : Literal} (hx : x ∈ V) (hy : y ∈ V)
    (hz : z ∈ V) (hxy : (Symbol.content x).less (.content y) = true) (hyz : (Symbol.content y).less (.content z) = true) :
    (Symbol.content x).less (.content z) = true := by
  by_contra hxz
  have hxw := hV x hx
  have hyw := hV y hy
  have hzw := hV z hz
  have hvs : ∀ v ∈ [x, y, z], v ∈ V := by simp [hx, hy, hz]
  have hsame : (Symbol.content x).same (.content y) = false := Symbol.same_of_less hxy
  cases hs : (Symbol.content x).same (.content z) with
  | true =>
    -- The other way round the second comes first, before the third, which stands for the first as well.
    have htables := h.forall₂_tableOfValues hV hvs (List.reverse_perm [x, y, z]).symm
    have hzy : (Symbol.content z).same (.content y) = false := Symbol.same_comm ▸ Symbol.same_of_less hyz
    have hyx : (Symbol.content y).less (.content x) = false := Symbol.less_asymm hxw hyw hxy
    have hzx : (Symbol.content z).same (.content x) = true := Symbol.same_comm ▸ hs
    rw [tableOfValues_again hxw hyw hzw hsame hs,
      show [x, y, z].reverse = [z, y, x] from rfl, tableOfValues_again hzw hyw hxw hzy hzx] at htables
    simp [Sorting.sortBy, Sorting.insertion, Sorting.firstRun, lessBelow, hyx, hyz, Below.same, hsame] at htables
  | false =>
    have hzx : (Symbol.content z).less (.content x) = true :=
      (Symbol.less_or_less (a := .content x) (b := .content z) hxw hzw hs).resolve_left hxz
    have htables := h.forall₂_tableOfValues hV hvs (@List.perm_append_comm _ [x] [y, z])
    have hyx : (Symbol.content y).same (.content x) = false := Symbol.same_comm ▸ hsame
    rw [tableOfValues_rising hxw hyw hzw hxy hyz hs,
      show [y, z] ++ [x] = [y, z, x] from rfl, tableOfValues_rising hyw hzw hxw hyz hzx hyx] at htables
    simp [Below.same, hsame] at htables

theorem orderly_of_contents (h : Symbol.Orderly (Symbol.content '' V)) : Symbol.Orderly (symbolsOver V) := by
  intro a ha b hb w hw hapart hab
  rcases hab.counted with rfl | ⟨x, y, hx, hy, -⟩
  · exact ⟨id, id⟩
  · obtain ⟨u, -, rfl, -⟩ := Symbol.exists_content_of_countedNumber? hx
    obtain ⟨v, -, rfl, -⟩ := Symbol.exists_content_of_countedNumber? hy
    cases w with
    | content w => exact h _ ⟨u, ha u rfl, rfl⟩ _ ⟨v, hb v rfl, rfl⟩ _ ⟨w, hw w rfl, rfl⟩ hapart hab
    | _ => exact hapart.elim

/-- The comparison of symbols tells which of two different ones comes first, whatever values there are. It is transitive
just if imaginary numbers and ellipses fall in line with the sizes of the numbers, and this is when the tables of a
corpus do not depend on the order in which symbols are met. -/
theorem Vocabulary.stable_iff_orderly (α : Type) [Scalar α] (V : Set Literal) (hV : ∀ v ∈ V, v.Written) :
    (∀ a ∈ symbolsOver V, ∀ b ∈ symbolsOver V, [a.less b, a.same b, b.less a].count true = 1) ∧
    ((∀ a ∈ symbolsOver V, ∀ b ∈ symbolsOver V, ∀ c ∈ symbolsOver V,
      a.less b = true → b.less c = true → a.less c = true) ↔ Symbol.Orderly (symbolsOver V)) ∧
    (Stable α V ↔ Symbol.Orderly (symbolsOver V)) := by
  have hwritten := written_of_symbolsOver hV
  refine ⟨fun a ha b hb => Symbol.count_compared (hwritten a ha) (hwritten b hb), Symbol.less_trans_iff hwritten, ?_⟩
  constructor
  · intro h
    refine orderly_of_contents ((Symbol.less_trans_iff ?_).1 ?_)
    · rintro s ⟨v, hv, rfl⟩
      exact hV v hv
    · rintro a ⟨x, hx, rfl⟩ b ⟨y, hy, rfl⟩ c ⟨z, hz, rfl⟩ hab hbc
      exact h.less_trans hV hx hy hz hab hbc
  · intro h rules m pairs others hvalues hperm σ τ _ _ g g'
    have horders := Symbol.orders_of_less_trans hwritten ((Symbol.less_trans_iff hwritten).2 h)
    exact sameTables_of_perm horders hvalues g g' hperm

theorem Vocabulary.stable_iff_orderly_five :
    (∀ v ∈ ({.int 1, .int 12, .imaginary "5j"} : Set Literal), v.Written) ∧
    (∀ a ∈ symbolsOver {.int 1, .int 12, .imaginary "5j"}, ∀ b ∈ symbolsOver {.int 1, .int 12, .imaginary "5j"},
      [a.less b, a.same b, b.less a].count true = 1) ∧
    Stable Float {.int 1, .int 12, .imaginary "5j"} := by
  have hwritten : ∀ v ∈ ({.int 1, .int 12, .imaginary "5j"} : Set Literal), v.Written := by
    rintro v (rfl | rfl | rfl)
    · trivial
    · trivial
    · exact ⟨"5", rfl, Or.inr (Literal.numeral_repr 5)⟩
  obtain ⟨hcompared, -, hstable⟩ := Vocabulary.stable_iff_orderly Float {.int 1, .int 12, .imaginary "5j"} hwritten
  refine ⟨hwritten, hcompared, hstable.2 (orderly_of_contents ?_)⟩
  have hnumber {s : Symbol} {x : WithBot (WithTop ℚ)} (hs : s ∈ Symbol.content '' {.int 1, .int 12, .imaginary "5j"})
      (hx : s.countedNumber? = some x) : s = .content (.int 1) ∨ s = .content (.int 12) := by
    obtain ⟨v, rfl | rfl | rfl, rfl⟩ := hs
    · exact Or.inl rfl
    · exact Or.inr rfl
    · simp [Symbol.countedNumber?, Literal.counted, Literal.size?] at hx
  rintro a ha b hb w ⟨v, rfl | rfl | rfl, rfl⟩ hapart hab
  · exact hapart.elim
  · exact hapart.elim
  · rcases hab.counted with rfl | ⟨x, y, hx, hy, -⟩
    · exact ⟨id, id⟩
    · rcases hnumber ha hx with rfl | rfl <;> rcases hnumber hb hy with rfl | rfl <;> exact ⟨by decide, by decide⟩

/-- A number before a larger one before an imaginary number before the first: the table depends on which is met
first. -/
theorem Vocabulary.tables_of_cycle :
    (Symbol.content (.int 9)).less (.content (.int 10)) = true ∧
    (Symbol.content (.int 10)).less (.content (.imaginary "2j")) = true ∧
    (Symbol.content (.imaginary "2j")).less (.content (.int 9)) = true ∧
    ¬ SameTables
      (ofPairs (⟨none, none, none, false, false⟩ : WordRules Float) ⟨0, 1⟩
        ([.int 10, .imaginary "2j", .int 9].map assertion) (Generator.ofSeed 1)).1
      (ofPairs (⟨none, none, none, false, false⟩ : WordRules Float) ⟨0, 1⟩
        ([.int 9, .int 10, .imaginary "2j"].map assertion) (Generator.ofSeed 1)).1 := by
  refine ⟨by decide, by decide, by decide, fun h => ?_⟩
  rw [ofPairs_generator, ofPairs_generator] at h
  have hvalues := h.tableUnder (.field "value")
  have hten : tableUnder (.field "value") (corpusTrees ⟨0, 1⟩ ([.int 10, .imaginary "2j", .int 9].map assertion)) =
      [(.one (.content (.int 10)), 1), (.one (.content (.imaginary "2j")), 1), (.one (.content (.int 9)), 1)] := by decide
  have hnine : tableUnder (.field "value") (corpusTrees ⟨0, 1⟩ ([.int 9, .int 10, .imaginary "2j"].map assertion)) =
      [(.one (.content (.int 9)), 1), (.one (.content (.int 10)), 1), (.one (.content (.imaginary "2j")), 1)] := by decide
  rw [hten, hnine, List.forall₂_cons] at hvalues
  exact absurd hvalues.1.1 (by decide)

end Stable

end Models.Productions

end PlotAdvisor
