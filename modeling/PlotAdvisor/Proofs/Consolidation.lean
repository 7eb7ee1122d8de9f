import Mathlib.Data.Fintype.EquivFin
import PlotAdvisor.Documentation.Consolidated
import PlotAdvisor.Proofs.Beginnings
import PlotAdvisor.Proofs.Table

/-! Where the utterances of a consolidated table come from.

* `Brought` says which utterances references bring to an argument, rule by rule; `holds_arguments_iff` says that the
  table holds just those.
* `consolidate_preserves` - rows are kept, and nothing is made up.
-/
set_option autoImplicit false

namespace PlotAdvisor

theorem Table.get?_mapValues {κ ν μ : Type} [BEq κ] (f : ν → μ) (t : Table κ ν) (k : κ) :
    (t.mapValues f).get? k = (t.get? k).map f := by
  unfold get? mapValues
  induction t.entries with
  | nil => rfl
  | cons e es ih =>
    rw [List.map_cons, List.lookup_cons, List.lookup_cons, ih]
    cases k == e.1 <;> rfl

namespace Documentation

/-! ## Utterances by key -/

theorem mem_foldl_insert {us have_ : List String} {u : String} :
    u ∈ us.foldl (fun out u => if out.contains u then out else out ++ [u]) have_ ↔ u ∈ have_ ∨ u ∈ us := by
  induction us generalizing have_ with
  | nil => simp
  | cons v us ih =>
    rw [List.foldl_cons, ih, List.mem_cons]
    split
    · next hv =>
      have hmem : v ∈ have_ := by simpa using hv
      constructor
      · rintro (h | h)
        · exact .inl h
        · exact .inr (.inr h)
      · rintro (h | rfl | h)
        · exact .inl h
        · exact .inl hmem
        · exact .inr h
    · simp only [List.mem_append, List.mem_singleton, or_assoc]

theorem nodup_foldl_insert {us have_ : List String} (h : have_.Nodup) :
    (us.foldl (fun out u => if out.contains u then out else out ++ [u]) have_).Nodup := by
  induction us generalizing have_ with
  | nil => exact h
  | cons v us ih =>
    rw [List.foldl_cons]
    apply ih
    split
    · exact h
    · next hv =>
      have hnew : v ∉ have_ := by simpa using hv
      refine List.nodup_append.2 ⟨h, List.nodup_singleton v, ?_⟩
      rintro x hx y hy rfl
      exact hnew (List.mem_singleton.1 hy ▸ hx)

namespace Utterances

section
variable {κ : Type} [BEq κ]

def Holds (t : Utterances κ) (k : κ) (u : String) : Prop := u ∈ t.getD k []

instance (t : Utterances κ) (k : κ) (u : String) : Decidable (Holds t k u) :=
  inferInstanceAs (Decidable (u ∈ t.getD k []))

def Neat (t : Utterances κ) : Prop := ∀ k us, t.get? k = some us → us ≠ [] ∧ us.Nodup

theorem holds_iff {t : Utterances κ} {k : κ} {u : String} : Holds t k u ↔ ∃ us, t.get? k = some us ∧ u ∈ us := by
  unfold Holds Table.getD
  cases t.get? k <;> simp

end

variable {κ : Type} [BEq κ] [LawfulBEq κ] {t : Utterances κ}

theorem holds_add {k x : κ} {us : List String} {u : String} :
    Holds (add t k us) x u ↔ Holds t x u ∨ k = x ∧ u ∈ us := by
  unfold Holds add Table.getD
  rw [Table.get?_alter]
  by_cases hx : x = k
  · subst hx
    rw [if_pos (by simp), Option.getD_some, mem_foldl_insert]
    simp [Table.getD]
  · have hne : ¬ k = x := fun h => hx h.symm
    simp [hx, hne]

theorem holds_gain {k x : κ} {found : Option (List String)} {u : String} :
    Holds (gain t k found) x u ↔ Holds t x u ∨ k = x ∧ ∃ us ∈ found, u ∈ us := by
  cases found with
  | none => simp [gain]
  | some us => simp [gain, holds_add]

theorem Neat.add (ht : Neat t) (k : κ) {us : List String} (hus : us ≠ []) : Neat (add t k us) := by
  intro x vs hvs
  rw [Utterances.add, Table.get?_alter] at hvs
  split at hvs
  · obtain rfl := Option.some.inj hvs
    obtain ⟨u, hu⟩ := List.exists_mem_of_ne_nil us hus
    refine ⟨List.ne_nil_of_mem (mem_foldl_insert.2 (.inr hu)), nodup_foldl_insert ?_⟩
    rw [Table.getD]
    cases hk : t.get? k with
    | none => exact List.nodup_nil
    | some ws => exact (ht k ws hk).2
  · exact ht x vs hvs

theorem Neat.gain (ht : Neat t) (k : κ) {found : Option (List String)} (hfound : ∀ us ∈ found, us ≠ []) :
    Neat (gain t k found) := by
  cases found with
  | none => exact ht
  | some us => exact ht.add k (hfound us rfl)

theorem Neat.mem_keys_iff (ht : Neat t) {k : κ} : k ∈ t.keys ↔ ∃ u, Holds t k u := by
  constructor
  · intro hk
    obtain ⟨us, hus⟩ := Table.exists_get?_of_mem_keys hk
    obtain ⟨u, hu⟩ := List.exists_mem_of_ne_nil us (ht k us hus).1
    exact ⟨u, holds_iff.2 ⟨us, hus, hu⟩⟩
  · rintro ⟨u, hu⟩
    obtain ⟨us, hus, -⟩ := holds_iff.1 hu
    exact Table.mem_keys_of_get? hus

def Joins (text : Option String) (P : String → Prop) : Prop :=
  ∃ us : List String, us.Nodup ∧ (∀ u, u ∈ us ↔ P u) ∧ text = if us = [] then none else some (Text.join "|||" us)

omit [LawfulBEq κ] in
theorem Neat.joins (ht : Neat t) (k : κ) : Joins (t.written.get? k) (Holds t k) := by
  rw [written, Table.get?_mapValues]
  cases hk : t.get? k with
  | none => exact ⟨[], List.nodup_nil, by simp [holds_iff, hk], rfl⟩
  | some us =>
    obtain ⟨hne, hnodup⟩ := ht k us hk
    exact ⟨us, hnodup, by simp [holds_iff, hk], by simp [hne]⟩

/-! ## Rows -/

theorem collect_spec (key : Mapping → Option κ) (rows : List Mapping) (ht : Neat t) :
    let all := rows.foldl (fun t r =>
      match key r with
      | none => t
      | some k => Utterances.add t k [r.utterance]) t
    Neat all ∧ ∀ k u, Holds all k u ↔ Holds t k u ∨ ∃ r ∈ rows, key r = some k ∧ r.utterance = u := by
  induction rows generalizing t with
  | nil => exact ⟨ht, by simp⟩
  | cons r rows ih =>
    rw [List.foldl_cons]
    cases hr : key r with
    | none =>
      obtain ⟨hneat, hholds⟩ := ih ht
      exact ⟨hneat, fun k u => by rw [hholds]; simp [hr]⟩
    | some j =>
      obtain ⟨hneat, hholds⟩ := ih (ht.add j (List.cons_ne_nil r.utterance []))
      refine ⟨hneat, fun k u => ?_⟩
      rw [hholds, holds_add]
      simp [hr, or_assoc, eq_comm]

theorem neat_collect (key : Mapping → Option κ) (rows : List Mapping) : Neat (collect key rows) :=
  (collect_spec key rows (t := .empty) nofun).1

theorem holds_collect {key : Mapping → Option κ} {rows : List Mapping} {k : κ} {u : String} :
    Holds (collect key rows) k u ↔ ∃ r ∈ rows, key r = some k ∧ r.utterance = u := by
  refine ((collect_spec key rows (t := .empty) nofun).2 k u).trans (or_iff_right nofun)

end Utterances

open Utterances Text

def HasArguments (rows : List Mapping) (f : String) : Prop := ∃ r ∈ rows, r.function = f ∧ r.argument.isSome = true

instance (rows : List Mapping) (f : String) : Decidable (HasArguments rows f) :=
  inferInstanceAs (Decidable (∃ r ∈ rows, r.function = f ∧ r.argument.isSome = true))

section
variable {rows : List Mapping} {f a u : String}

theorem hasArguments_iff : HasArguments rows f ↔ ∃ a u, ⟨f, some a, u⟩ ∈ rows := by
  constructor
  · rintro ⟨⟨g, argument, u⟩, hr, rfl, ha⟩
    obtain ⟨a, rfl⟩ := Option.isSome_iff_exists.1 ha
    exact ⟨a, u, hr⟩
  · rintro ⟨a, u, hr⟩
    exact ⟨_, hr, rfl, rfl⟩

theorem holds_functionRows : Holds (functionRows rows) f u ↔ ⟨f, none, u⟩ ∈ rows := by
  rw [functionRows, holds_collect]
  constructor
  · rintro ⟨⟨g, argument, v⟩, hr, hkey, rfl⟩
    cases argument with
    | none => obtain rfl := Option.some.inj hkey; exact hr
    | some b => simp at hkey
  · exact fun hr => ⟨_, hr, rfl, rfl⟩

theorem holds_argumentRows : Holds (argumentRows rows) (f, a) u ↔ ⟨f, some a, u⟩ ∈ rows := by
  rw [argumentRows, holds_collect]
  constructor
  · rintro ⟨⟨g, argument, v⟩, hr, hkey, rfl⟩
    obtain ⟨b, rfl, hb⟩ := Option.map_eq_some_iff.1 hkey
    obtain ⟨rfl, rfl⟩ := Prod.mk.inj hb
    exact hr
  · exact fun hr => ⟨_, hr, rfl, rfl⟩

theorem exists_mem_get?_functionRows : (∃ us ∈ (functionRows rows).get? f, u ∈ us) ↔ ⟨f, none, u⟩ ∈ rows := by
  rw [← holds_functionRows, holds_iff]
  rfl

/-! ## The index of arguments and methods -/

theorem mem_index_arguments :
    a ∈ (Index.ofArguments (argumentRows rows)).arguments.getD f [] ↔ ∃ u, ⟨f, some a, u⟩ ∈ rows := by
  refine (Table.mem_getD_pushed Prod.fst Prod.snd).trans ?_
  constructor
  · rintro ⟨⟨f, a⟩, hk, rfl, rfl⟩
    obtain ⟨u, hu⟩ := (neat_collect _ rows).mem_keys_iff.1 hk
    exact ⟨u, holds_argumentRows.1 hu⟩
  · rintro ⟨u, hr⟩
    exact ⟨(f, a), (neat_collect _ rows).mem_keys_iff.2 ⟨u, holds_argumentRows.2 hr⟩, rfl, rfl⟩

theorem mem_index_keys : f ∈ (Index.ofArguments (argumentRows rows)).arguments.keys ↔ HasArguments rows f := by
  rw [hasArguments_iff]
  refine (Table.mem_keys_pushed Prod.fst Prod.snd).trans ?_
  constructor
  · rintro ⟨⟨f, a⟩, hk, rfl⟩
    obtain ⟨u, hu⟩ := (neat_collect _ rows).mem_keys_iff.1 hk
    exact ⟨a, u, holds_argumentRows.1 hu⟩
  · rintro ⟨a, u, hr⟩
    exact ⟨(f, a), (neat_collect _ rows).mem_keys_iff.2 ⟨u, holds_argumentRows.2 hr⟩, rfl⟩

theorem mem_index_methods {c m : String} :
    m ∈ (Index.ofArguments (argumentRows rows)).methods.getD c [] ↔ HasArguments rows m ∧ classOf m = c := by
  rw [← mem_index_keys]
  refine (Table.mem_getD_pushed classOf id).trans ?_
  constructor
  · rintro ⟨m, hm, rfl, rfl⟩
    exact ⟨hm, rfl⟩
  · rintro ⟨hm, rfl⟩
    exact ⟨m, hm, rfl, rfl⟩

end

/-! ## What references bring -/

/-- What a reference to `target` gives, by one of three rules; `known` says what arguments have so far. A class gives
the utterances of those of its setters that have arguments. -/
inductive Gives (rows : List Mapping) (known : String → String → String → Prop) (target : String) :
    String → String → Prop where
  | setter {a u : String} (property : propertyOf? target = some a) (row : ⟨target, none, u⟩ ∈ rows) :
    Gives rows known target a u
  | keyword {a u v : String} (plain : propertyOf? target = none) (row : ⟨target, some a, v⟩ ∈ rows)
    (told : known target a u) : Gives rows known target a u
  | method {m a u : String} (plain : propertyOf? target = none) (bare : ¬ HasArguments rows target)
    (member : classOf m = target) (property : propertyOf? m = some a) (listed : HasArguments rows m)
    (row : ⟨m, none, u⟩ ∈ rows) : Gives rows known target a u

/-- The utterances of an argument after some references, of which the last comes first. -/
def Brought (rows : List Mapping) : List Reference → String → String → String → Prop
  | [], f, a, u => ⟨f, some a, u⟩ ∈ rows
  | r :: earlier, f, a, u =>
    Brought rows earlier f a u ∨ r.function = f ∧ Gives rows (Brought rows earlier) r.target a u

section
variable {rows : List Mapping} {t : Utterances (String × String)} {f a u : String}

/-- Arguments are merged while they are read: what is read is never changed by what was merged before. -/
theorem holds_foldl_keywords (function target : String) (as : List String) :
    Holds (as.foldl (fun t b => gain t (function, b) (t.get? (target, b))) t) (f, a) u ↔
      Holds t (f, a) u ∨ function = f ∧ a ∈ as ∧ Holds t (target, a) u := by
  induction as generalizing t with
  | nil => simp
  | cons b as ih =>
    have hgain (g c : String) : Holds (gain t (function, b) (t.get? (target, b))) (g, c) u ↔
        Holds t (g, c) u ∨ (function, b) = (g, c) ∧ Holds t (target, b) u := by
      rw [holds_gain, holds_iff (k := (target, b))]
      rfl
    have hread : Holds (gain t (function, b) (t.get? (target, b))) (target, a) u ↔ Holds t (target, a) u := by
      rw [hgain, or_iff_left_iff_imp]
      rintro ⟨hkey, h⟩
      obtain ⟨-, rfl⟩ := Prod.mk.inj hkey
      exact h
    rw [List.foldl_cons, ih, hread, hgain, List.mem_cons, or_assoc]
    refine or_congr_right ?_
    constructor
    · rintro (⟨hkey, h⟩ | ⟨hf, ha, h⟩)
      · obtain ⟨rfl, rfl⟩ := Prod.mk.inj hkey
        exact ⟨rfl, .inl rfl, h⟩
      · exact ⟨hf, .inr ha, h⟩
    · rintro ⟨rfl, rfl | ha, h⟩
      · exact .inl ⟨rfl, h⟩
      · exact .inr ⟨rfl, ha, h⟩

theorem holds_foldl_methods (function : String) (ms : List (String × String)) :
    Holds (ms.foldl (fun t m => gain t (function, m.2) ((functionRows rows).get? m.1)) t) (f, a) u ↔
      Holds t (f, a) u ∨ function = f ∧ ∃ m, (m, a) ∈ ms ∧ ⟨m, none, u⟩ ∈ rows := by
  induction ms generalizing t with
  | nil => simp
  | cons m ms ih =>
    rw [List.foldl_cons, ih, holds_gain, exists_mem_get?_functionRows, or_assoc]
    refine or_congr_right ?_
    constructor
    · rintro (⟨hkey, h⟩ | ⟨hf, x, hx, h⟩)
      · obtain ⟨rfl, rfl⟩ := Prod.mk.inj hkey
        exact ⟨rfl, m.1, List.mem_cons_self, h⟩
      · exact ⟨hf, x, List.mem_cons_of_mem m hx, h⟩
    · rintro ⟨rfl, x, hx, h⟩
      rcases List.mem_cons.1 hx with rfl | hx
      · exact .inl ⟨rfl, h⟩
      · exact .inr ⟨rfl, x, hx, h⟩

theorem holds_applyReference (r : Reference) :
    Holds (applyReference (functionRows rows) (Index.ofArguments (argumentRows rows)) t r) (f, a) u ↔
      Holds t (f, a) u ∨ r.function = f ∧ Gives rows (fun g b v => Holds t (g, b) v) r.target a u := by
  unfold applyReference
  split
  · next p hp =>
    rw [holds_gain, exists_mem_get?_functionRows]
    refine or_congr_right ?_
    constructor
    · rintro ⟨hkey, hrow⟩
      obtain ⟨rfl, rfl⟩ := Prod.mk.inj hkey
      exact ⟨rfl, .setter hp hrow⟩
    · rintro ⟨rfl, hgives⟩
      cases hgives with
      | setter hq hrow => exact ⟨by rw [Option.some.inj (hp.symm.trans hq)], hrow⟩
      | keyword hq => rw [hp] at hq; cases hq
      | method hq => rw [hp] at hq; cases hq
  · next hp =>
    split
    · next as has =>
      have hmem : a ∈ as ↔ ∃ v, ⟨r.target, some a, v⟩ ∈ rows := by
        rw [← mem_index_arguments, Table.getD, has, Option.getD_some]
      have hlisted : HasArguments rows r.target := mem_index_keys.1 (Table.mem_keys_of_get? has)
      rw [holds_foldl_keywords, hmem]
      refine or_congr_right (and_congr_right fun _ => ?_)
      constructor
      · rintro ⟨⟨v, hrow⟩, h⟩
        exact .keyword hp hrow h
      · intro hgives
        cases hgives with
        | setter hq => rw [hp] at hq; cases hq
        | keyword _ hrow h => exact ⟨⟨_, hrow⟩, h⟩
        | method _ hbare => exact absurd hlisted hbare
    · next hnone =>
      have hbare : ¬ HasArguments rows r.target := by
        rw [← mem_index_keys, Table.mem_keys_iff, hnone]
        simp
      refine (holds_foldl_methods r.function _).trans (or_congr_right (and_congr_right fun _ => ?_))
      constructor
      · rintro ⟨m, hm, hrow⟩
        obtain ⟨x, hx, hpair⟩ := List.mem_filterMap.1 hm
        obtain ⟨p, hproperty, heq⟩ := Option.map_eq_some_iff.1 hpair
        obtain ⟨rfl, rfl⟩ := Prod.mk.inj heq
        obtain ⟨hlisted, hclass⟩ := mem_index_methods.1 hx
        exact .method hp hbare hclass hproperty hlisted hrow
      · intro hgives
        cases hgives with
        | setter hq => rw [hp] at hq; cases hq
        | keyword _ hrow => exact absurd (hasArguments_iff.2 ⟨_, _, hrow⟩) hbare
        | @method m _ _ _ _ hclass hproperty hlisted hrow =>
          refine ⟨m, List.mem_filterMap.2 ⟨m, mem_index_methods.2 ⟨hlisted, hclass⟩, ?_⟩, hrow⟩
          rw [hproperty]
          rfl

theorem neat_applyReference (ht : Neat t) (r : Reference) :
    Neat (applyReference (functionRows rows) (Index.ofArguments (argumentRows rows)) t r) := by
  have hfunctions (g : String) : ∀ us ∈ (functionRows rows).get? g, us ≠ [] := fun us hus =>
    (neat_collect _ rows g us hus).1
  unfold applyReference
  split
  · exact ht.gain _ (hfunctions _)
  · split
    · exact List.foldlRecOn _ _ ht fun t ht b _ => ht.gain _ fun us hus => (ht _ us hus).1
    · exact List.foldlRecOn _ _ ht fun t ht m _ => ht.gain _ (hfunctions _)

end

section
variable {rows : List Mapping} {references : List Reference} {f a u : String}

theorem neat_arguments (rows : List Mapping) (references : List Reference) :
    Neat (consolidate rows references).1.arguments :=
  List.foldlRecOn _ _ (neat_collect _ rows) fun _ ht r _ => neat_applyReference ht r

theorem holds_arguments_iff :
    Holds (consolidate rows references).1.arguments (f, a) u ↔ Brought rows references.reverse f a u := by
  change Holds (references.foldl _ _) _ _ ↔ _
  induction references using List.reverseRecOn generalizing f a u with
  | nil => exact holds_argumentRows
  | append_singleton references r ih =>
    rw [List.foldl_concat, holds_applyReference, List.reverse_concat, Brought, ih]
    have hknown : (fun g b v => Holds (references.foldl (applyReference (functionRows rows)
        (Index.ofArguments (argumentRows rows))) (argumentRows rows)) (g, b) v) = Brought rows references.reverse := by
      funext g b v
      exact propext ih
    rw [hknown]

/-! ## Nothing is lost and nothing made up -/

theorem Brought.own {rs : List Reference} (h : ⟨f, some a, u⟩ ∈ rows) : Brought rows rs f a u := by
  induction rs with
  | nil => exact h
  | cons r rs ih => exact .inl ih

theorem Gives.mono {known known' : String → String → String → Prop} {g : String}
    (hknown : ∀ b v, known g b v → known' g b v) (h : Gives rows known g a u) : Gives rows known' g a u := by
  cases h with
  | setter hproperty hrow => exact .setter hproperty hrow
  | keyword hplain hrow htold => exact .keyword hplain hrow (hknown _ _ htold)
  | method hplain hbare hmember hproperty hlisted hrow => exact .method hplain hbare hmember hproperty hlisted hrow

theorem Brought.later {earlier : List Reference} (later : List Reference) (h : Brought rows earlier f a u) :
    Brought rows (later ++ earlier) f a u := by
  induction later with
  | nil => exact h
  | cons r later ih => exact .inl ih

theorem Brought.of_gives {earlier later : List Reference} {r : Reference} (hr : r ∈ later)
    (h : Gives rows (Brought rows earlier) r.target a u) : Brought rows (later ++ earlier) r.function a u := by
  induction later with
  | nil => cases hr
  | cons r' later ih =>
    rcases List.mem_cons.1 hr with rfl | hr
    · exact .inr ⟨rfl, h.mono fun b v hb => hb.later later⟩
    · exact .inl (ih hr)

theorem brought_of_mem {rs : List Reference} {r : Reference} (hr : r ∈ rs)
    (h : Gives rows (Brought rows []) r.target a u) : Brought rows rs r.function a u := by
  rw [← List.append_nil rs]
  exact .of_gives hr h

def Leads (rs : List Reference) : String → String → Prop := Relation.ReflTransGen fun f g => ⟨f, g⟩ ∈ rs

theorem Leads.mono {rs rs' : List Reference} {g : String} (hrs : rs ⊆ rs') (h : Leads rs f g) : Leads rs' f g :=
  Relation.ReflTransGen.mono (fun _ _ hstep => hrs hstep) f g h

inductive Source (rows : List Mapping) (rs : List Reference) (f a u : String) : Prop where
  | argument {g : String} (leads : Leads rs f g) (row : ⟨g, some a, u⟩ ∈ rows)
  | setter {m : String} (name : methodOf m = "set_" ++ a) (row : ⟨m, none, u⟩ ∈ rows)

theorem Source.mono {rs rs' : List Reference} (hrs : rs ⊆ rs') (h : Source rows rs f a u) : Source rows rs' f a u := by
  cases h with
  | argument hleads hrow => exact .argument (hleads.mono hrs) hrow
  | setter hname hrow => exact .setter hname hrow

theorem methodOf_of_property {m p : String} (h : propertyOf? m = some p) : methodOf m = "set_" ++ p := by
  obtain ⟨hsetter, -⟩ := Option.filter_eq_some_iff.1 h
  obtain ⟨cs, hcs, rfl⟩ := Option.map_eq_some_iff.1 hsetter
  rw [Chars.dropStart?_eq_some_iff] at hcs
  apply String.toList_injective
  rw [hcs, String.toList_append, String.toList_ofList (l := cs)]

theorem Brought.source {rs : List Reference} (h : Brought rows rs f a u) : Source rows rs f a u := by
  induction rs generalizing f a u with
  | nil => exact .argument .refl h
  | cons r rs ih =>
    have hmore : rs ⊆ r :: rs := List.subset_cons_self r rs
    rcases h with h | ⟨rfl, hgives⟩
    · exact (ih h).mono hmore
    · cases hgives with
      | setter hproperty hrow => exact .setter (methodOf_of_property hproperty) hrow
      | keyword _ _ htold =>
        cases ih htold with
        | argument hleads hrow => exact .argument (.head List.mem_cons_self (hleads.mono hmore)) hrow
        | setter hname hrow => exact .setter hname hrow
      | method _ _ _ hproperty _ hrow => exact .setter (methodOf_of_property hproperty) hrow

/-- Functions are written with just the utterances of their own rows, joined, each once. The text of an argument joins
what the table holds for it: all that its rows say, and only what has a source in the rows. -/
theorem consolidate_preserves (rows : List Mapping) (references : List Reference) :
    let c := (consolidate rows references).1
    (∀ f, Joins (c.functions.written.get? f) fun u => ⟨f, none, u⟩ ∈ rows) ∧
    ∀ f a, Joins (c.arguments.written.get? (f, a)) (Holds c.arguments (f, a)) ∧
      (∀ u, ⟨f, some a, u⟩ ∈ rows → Holds c.arguments (f, a) u) ∧
      ∀ u, Holds c.arguments (f, a) u → Source rows references f a u := by
  intro c
  refine ⟨fun f => ?_, fun f a => ⟨(neat_arguments rows references).joins (f, a), fun u hrow => ?_, fun u hu => ?_⟩⟩
  · have hrows : (fun u => ⟨f, none, u⟩ ∈ rows) = Holds (functionRows rows) f := by
      funext u
      exact propext holds_functionRows.symm
    rw [hrows]
    exact (neat_collect _ rows).joins f
  · exact holds_arguments_iff.2 (Brought.own hrow)
  · exact (holds_arguments_iff.1 hu).source.mono (List.reverse_subset.2 (List.Subset.refl references))

end

/-! ## Classes and their setters -/

structure IsClass (rows : List Mapping) (c : String) : Prop where
  plain : propertyOf? c = none
  bare : ¬ HasArguments rows c

section
variable {rows : List Mapping}

theorem brought_of_method {rs : List Reference} {r : Reference} (hr : r ∈ rs) (hclass : IsClass rows r.target)
    {m p u : String} (hm : classOf m = r.target) (hp : propertyOf? m = some p) (hlisted : HasArguments rows m)
    (hrow : ⟨m, none, u⟩ ∈ rows) : Brought rows rs r.function p u :=
  brought_of_mem hr (.method hclass.plain hclass.bare hm hp hlisted hrow)

theorem eq_classOf_methodOf {m : String} (h : classOf m ≠ "") : m = classOf m ++ "." ++ methodOf m := by
  obtain ⟨init, last, hsplit⟩ := exists_last_piece Elements.dot_toList m
  have hjoin := join_splitOn Elements.dot_toList m
  rw [classOf, hsplit, List.dropLast_concat] at h ⊢
  have hinit : init ≠ [] := by
    rintro rfl
    exact h rfl
  rw [hsplit, join_append "." init [last] hinit (by simp), join_singleton] at hjoin
  rw [methodOf, lastPart, hsplit, List.getLast?_concat, Option.getD_some, hjoin]

/-- Whatever the references are, those to classes bring the utterances of all setters just when rows name an argument
of every setter that has an utterance. Only of two methods without a class one can stand for the other: with a dot in
front of its name, and without. -/
theorem class_setters_iff (rows : List Mapping) :
    (∀ references f c m p u, ⟨f, c⟩ ∈ references → IsClass rows c → classOf m = c → propertyOf? m = some p →
      ⟨m, none, u⟩ ∈ rows → Holds (consolidate rows references).1.arguments (f, p) u) ↔
    ∀ m p u, IsClass rows (classOf m) → propertyOf? m = some p → ⟨m, none, u⟩ ∈ rows →
      HasArguments rows m ∨ classOf m = "" ∧
        ∃ m', classOf m' = "" ∧ propertyOf? m' = some p ∧ HasArguments rows m' ∧ ⟨m', none, u⟩ ∈ rows := by
  constructor
  · intro hall m p u hclass hp hrow
    -- For a function that no row is about, the class is the only source.
    obtain ⟨f, hf⟩ := Infinite.exists_notMem_finset (rows.map Mapping.function).toFinset
    have hbrought := holds_arguments_iff.1
      (hall [⟨f, classOf m⟩] f (classOf m) m p u List.mem_cons_self hclass rfl hp hrow)
    rcases hbrought with hown | ⟨-, hgives⟩
    · exact absurd (List.mem_toFinset.2 (List.mem_map_of_mem hown)) hf
    · cases hgives with
      | setter hproperty => rw [hclass.plain] at hproperty; cases hproperty
      | keyword _ hargument => exact absurd (hasArguments_iff.2 ⟨_, _, hargument⟩) hclass.bare
      | @method m' _ _ _ _ hmember hproperty hlisted hrow' =>
        by_cases hnamed : classOf m = ""
        · exact .inr ⟨hnamed, m', hmember.trans hnamed, hproperty, hlisted, hrow'⟩
        · have hmember' : classOf m' = classOf m := hmember
          have hnamed' : classOf m' ≠ "" := by rwa [hmember']
          have hsame : m' = m := by
            rw [eq_classOf_methodOf hnamed', eq_classOf_methodOf hnamed, hmember', methodOf_of_property hproperty,
              methodOf_of_property hp]
          exact .inl (hsame ▸ hlisted)
  · rintro hlisted references f _ m p u hreference hclass rfl hp hrow
    refine holds_arguments_iff.2 ?_
    rcases hlisted m p u hclass hp hrow with hm | ⟨hnameless, m', hmember, hproperty, hm', hrow'⟩
    · exact brought_of_method (List.mem_reverse.2 hreference) hclass rfl hp hm hrow
    · exact brought_of_method (List.mem_reverse.2 hreference) hclass (hmember.trans hnameless.symm) hproperty hm' hrow'

/-- A setter without arguments of its own is lost. -/
theorem bare_setter_lost :
    IsClass [⟨"Line.set_width", none, "the width"⟩] "Line" ∧ classOf "Line.set_width" = "Line" ∧
    propertyOf? "Line.set_width" = some "width" ∧
    ¬ Holds (consolidate [⟨"Line.set_width", none, "the width"⟩] [⟨"plot", "Line"⟩]).1.arguments ("plot", "width")
      "the width" := by
  refine ⟨⟨by decide, by decide⟩, by decide, by decide, by decide⟩

end

/-! ## References of references -/

structure SecondHand (rows : List Mapping) (rs : List Reference) (f₁ f₂ f₃ a u : String) : Prop where
  first : ⟨f₁, f₂⟩ ∈ rs
  second : ⟨f₂, f₃⟩ ∈ rs
  plain₂ : propertyOf? f₂ = none
  plain₃ : propertyOf? f₃ = none
  argument : ∃ v, ⟨f₂, some a, v⟩ ∈ rows
  row : ⟨f₃, some a, u⟩ ∈ rows

def FirstHand (rows : List Mapping) (rs : List Reference) (f a u : String) : Prop :=
  ⟨f, some a, u⟩ ∈ rows ∨ ∃ g, ⟨f, g⟩ ∈ rs ∧ Gives rows (Brought rows []) g a u

section
variable {rows : List Mapping} {rs rs' : List Reference} {f f₁ f₂ f₃ a u : String}

theorem SecondHand.mono (hrs : rs ⊆ rs') (h : SecondHand rows rs f₁ f₂ f₃ a u) : SecondHand rows rs' f₁ f₂ f₃ a u :=
  ⟨hrs h.first, hrs h.second, h.plain₂, h.plain₃, h.argument, h.row⟩

theorem FirstHand.mono (hrs : rs ⊆ rs') (h : FirstHand rows rs f a u) : FirstHand rows rs' f a u := by
  rcases h with hrow | ⟨g, hg, hgives⟩
  · exact .inl hrow
  · exact .inr ⟨g, hrs hg, hgives⟩

theorem FirstHand.brought (h : FirstHand rows rs f a u) : Brought rows rs f a u := by
  rcases h with hrow | ⟨g, hg, hgives⟩
  · exact .own hrow
  · exact brought_of_mem hg hgives

theorem Brought.of_append {earlier later : List Reference} (hlater : ∀ r ∈ later, r.function ≠ f)
    (h : Brought rows (later ++ earlier) f a u) : Brought rows earlier f a u := by
  induction later with
  | nil => exact h
  | cons r later ih =>
    rw [List.forall_mem_cons] at hlater
    rcases h with h | ⟨hr, -⟩
    · exact ih hlater.2 h
    · exact absurd hr hlater.1

theorem Brought.firstHand (hrs : ∀ r ∈ rs, r.function = f) (h : Brought rows rs f a u) : FirstHand rows rs f a u := by
  induction rs with
  | nil => exact .inl h
  | cons r rs ih =>
    rw [List.forall_mem_cons] at hrs
    have hmore : rs ⊆ r :: rs := List.subset_cons_self r rs
    rcases h with h | ⟨rfl, hgives⟩
    · exact (ih hrs.2 h).mono hmore
    · cases hgives with
      | setter hproperty hrow => exact .inr ⟨_, List.mem_cons_self, .setter hproperty hrow⟩
      | keyword hplain hrow htold =>
        by_cases htarget : r.target = r.function
        · -- A function that refers to itself is given what it has.
          exact (ih hrs.2 (htarget ▸ htold)).mono hmore
        · have hothers : ∀ r' ∈ rs, r'.function ≠ r.target := fun r' hr' heq => htarget (heq ▸ hrs.2 r' hr')
          rw [← List.append_nil rs] at htold
          exact .inr ⟨_, List.mem_cons_self, .keyword hplain hrow (htold.of_append hothers)⟩
      | method hplain hbare hmember hproperty hlisted hrow =>
        exact .inr ⟨_, List.mem_cons_self, .method hplain hbare hmember hproperty hlisted hrow⟩

def ahead (f : String) (rs : List Reference) : List Reference :=
  rs.filter (fun r => r.function = f) ++ rs.filter fun r => r.function ≠ f

theorem ahead_perm (f : String) (rs : List Reference) : (ahead f rs).Perm rs := by
  simpa [ahead] using List.filter_append_perm (fun r : Reference => r.function = f) rs

theorem firstHand_of_brought_ahead (h : Brought rows (ahead f rs).reverse f a u) : FirstHand rows rs f a u := by
  rw [ahead, List.reverse_append] at h
  have hown := h.of_append fun r hr => by simpa using (List.mem_filter.1 (List.mem_reverse.1 hr)).2
  refine (hown.firstHand fun r hr => by simpa using (List.mem_filter.1 (List.mem_reverse.1 hr)).2).mono fun r hr => ?_
  exact (List.mem_filter.1 (List.mem_reverse.1 hr)).1

end

/-- The references are gone through once. So in every order they bring the utterances of references of references just
when each of those is also there without the second reference. One order is enough: that in which the second reference
comes first. -/
theorem second_hand_iff (rows : List Mapping) (references : List Reference) :
    ((∀ order, order.Perm references → ∀ f₁ f₂ f₃ a u, SecondHand rows order f₁ f₂ f₃ a u →
        Holds (consolidate rows order).1.arguments (f₁, a) u) ↔
      ∀ f₁ f₂ f₃ a u, SecondHand rows references f₁ f₂ f₃ a u → FirstHand rows references f₁ a u) ∧
    ∀ f₁ f₂ f₃ a u, SecondHand rows references f₁ f₂ f₃ a u → List.Sublist [⟨f₂, f₃⟩, ⟨f₁, f₂⟩] references →
      Holds (consolidate rows references).1.arguments (f₁, a) u := by
  refine ⟨⟨fun hall f₁ f₂ f₃ a u h => ?_, fun hfirst order horder f₁ f₂ f₃ a u h => ?_⟩, fun f₁ f₂ f₃ a u h hsub => ?_⟩
  · have hahead := ahead_perm f₁ references
    have hholds := hall _ hahead f₁ f₂ f₃ a u (h.mono hahead.symm.subset)
    exact firstHand_of_brought_ahead (holds_arguments_iff.1 hholds)
  · have hhand := hfirst f₁ f₂ f₃ a u (h.mono horder.subset)
    refine holds_arguments_iff.2 (hhand.mono fun r hr => ?_).brought
    exact List.mem_reverse.2 (horder.symm.subset hr)
  · obtain ⟨front, back, rfl, hsecond, hrest⟩ := List.cons_sublist_iff.1 hsub
    have hfirst : ⟨f₁, f₂⟩ ∈ back := List.singleton_sublist.1 hrest
    obtain ⟨v, hv⟩ := h.argument
    have htold : Brought rows front.reverse f₂ a u :=
      brought_of_mem (List.mem_reverse.2 hsecond) (.keyword h.plain₃ h.row h.row)
    rw [holds_arguments_iff, List.reverse_append]
    exact .of_gives (List.mem_reverse.2 hfirst) (.keyword h.plain₂ hv htold)

/-- With the first reference before the second one, its utterance is lost. -/
theorem second_hand_lost :
    SecondHand [⟨"g", some "color", "the color"⟩, ⟨"h", some "color", "any color"⟩] [⟨"f", "g"⟩, ⟨"g", "h"⟩]
      "f" "g" "h" "color" "any color" ∧
    ¬ Holds (consolidate [⟨"g", some "color", "the color"⟩, ⟨"h", some "color", "any color"⟩]
      [⟨"f", "g"⟩, ⟨"g", "h"⟩]).1.arguments ("f", "color") "any color" := by
  refine ⟨⟨by decide, by decide, by decide, by decide, ⟨"the color", by decide⟩, by decide⟩, by decide⟩

end Documentation
end PlotAdvisor
