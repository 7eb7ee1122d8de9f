import Mathlib.Data.List.MinMax
import Mathlib.Data.Set.Finite.List
import Mathlib.Order.Preorder.Finite
import PlotAdvisor.Proofs.Simplify

/-! Following what functions return. One step replaces the longest dotted beginning of an id that the table has, and
steps are taken until the id stays as it is. A step can make room for a longer beginning or for a shorter one, so that
where the steps end is told from the last of them.

Steps need not end. An id is a stack of parts with the first part on top: a step looks at no more parts than the widest
key has, and replaces some of them. So two ids with the same front take the same step, and a run that comes back to a
front without having gone below it goes round for ever. Every run without end does so, because there are only finitely
many fronts.

* `Inert`, `inert_iff` - ids that a step leaves as they are.
* `returnedUpTo_succ` - one step.
* `nextType_front` - what a step does is told by the front.
* `ComesBack.again`, `ComesBack.not_inert` - a run that has come back to its front comes back again.
* `exists_comesBack` - every run comes back to a front.
-/
set_option autoImplicit false

namespace PlotAdvisor.Elements

open Text

/-! ## Where steps end -/

section
variable {t : Table String String}

/-- No dotted beginning of the id is a key, or the longest that is one stands for itself. -/
def Inert (t : Table String String) (id : String) : Prop :=
  (∀ p, Begins p id → t.contains p = false) ∨ ∃ p, IsLongest t id p ∧ t.get? p = some p

theorem inert_iff (id : String) :
    Inert t id ↔ replaceBeginning t id = none ∨ replaceBeginning t id = some id := by
  rw [Inert, replaceBeginning_eq_none_iff, replaceBeginning_eq_some_iff]
  refine or_congr_right ⟨?_, ?_⟩
  · rintro ⟨p, hlongest, hp⟩
    obtain ⟨rest, hrest⟩ := hlongest.begins.exists_rest
    exact ⟨p, p, rest, hlongest, hp, hrest, hrest⟩
  · rintro ⟨p, v, rest, hlongest, hv, hid, hnext⟩
    have hsame : p = v := by simpa using hid.symm.trans hnext
    exact ⟨p, hlongest, hsame ▸ hv⟩

end

section
variable (n : Normalizer)

theorem returnedUpTo_of_inert {id : String} (h : Inert n.returnTypes id) (more : Nat) :
    n.returnedUpTo (more + 1) id = .ok id := by
  rw [Normalizer.returnedUpTo]
  rcases (inert_iff id).1 h with hnone | hself
  · rw [hnone]
  · rw [hself]
    simp

theorem returnedUpTo_succ {limit : Nat} {id r : String} (h : n.returnedUpTo (limit + 1) id = .ok r) :
    Inert n.returnTypes id ∧ r = id ∨
      ∃ next, Rewrites n.returnTypes id next ∧ n.returnedUpTo limit next = .ok r := by
  rw [Normalizer.returnedUpTo] at h
  split at h
  · next hnone => exact Or.inl ⟨(inert_iff id).2 (Or.inl hnone), (Except.ok.inj h).symm⟩
  · next next hnext =>
    split at h
    · next hsame =>
      have hself : replaceBeginning n.returnTypes id = some id := by rw [hnext, beq_iff_eq.1 hsame]
      exact Or.inl ⟨(inert_iff id).2 (Or.inr hself), (Except.ok.inj h).symm⟩
    · exact Or.inr ⟨next, (replaceBeginning_eq_some_iff id next).1 hnext, h⟩

/-- Where following what functions return comes to an end, an id is reached by steps of the table that the table leaves
as it is, and following it further gives it back. This holds for every limit on the number of steps. -/
theorem returned_inert (limit : Nat) (id r : String) (h : n.returnedUpTo limit id = .ok r) :
    Relation.ReflTransGen (Rewrites n.returnTypes) id r ∧ Inert n.returnTypes r ∧
      ∀ more, n.returnedUpTo (more + 1) r = .ok r := by
  induction limit generalizing id with
  | zero => simp [Normalizer.returnedUpTo] at h
  | succ limit ih =>
    rcases returnedUpTo_succ n h with ⟨hinert, rfl⟩ | ⟨next, hstep, hrest⟩
    · exact ⟨.refl, hinert, returnedUpTo_of_inert n hinert⟩
    · obtain ⟨hsteps, hinert, hagain⟩ := ih next hrest
      exact ⟨.head hstep hsteps, hinert, hagain⟩

theorem returned_inert_axes :
    let n : Normalizer := ⟨.empty, ⟨[("plt.gca", "plt.axes"), ("plt.axes", "ax"), ("ax", "ax")]⟩, []⟩
    n.returned "plt.gca.title" = .ok "ax.title" ∧ Inert n.returnTypes "ax.title" ∧
      n.returned "ax.title" = .ok "ax.title" := by
  intro n
  have h : n.returned "plt.gca.title" = .ok "ax.title" := by decide +kernel
  obtain ⟨-, hinert, hagain⟩ := returned_inert n Normalizer.returnLimit "plt.gca.title" "ax.title" h
  exact ⟨h, hinert, hagain 969⟩

end

/-! ## Parts and fronts -/

def idParts (id : String) : List String := splitOn id "."

theorem idParts_injective : Function.Injective idParts := by
  intro a b h
  rw [← join_splitOn dot_toList a, ← join_splitOn dot_toList b]
  exact congrArg (join ".") h

theorem begins_iff_isPrefix (p id : String) : Begins p id ↔ idParts p <+: idParts id := by
  constructor
  · rintro (rfl | ⟨more, rfl⟩)
    · exact List.prefix_refl _
    · exact ⟨idParts more, (splitOn_append_append dot_toList p more).symm⟩
  · rintro ⟨more, hmore⟩
    exact (begins_iff p id).2
      ⟨idParts p, more, hmore.symm, splitOn_ne_nil dot_toList p, (join_splitOn dot_toList p).symm⟩

def widestKey (t : Table String String) : Nat := (t.keys.map fun k => (idParts k).length).foldr max 0

/-- As many parts of an id as a key can have. -/
def front (t : Table String String) (id : String) : List String := (idParts id).take (widestKey t)

/-- The parts behind the front, which a step neither looks at nor changes. -/
def below (t : Table String String) (id : String) : List String := (idParts id).drop (widestKey t)

section
variable {t : Table String String}

theorem front_append_below (id : String) : front t id ++ below t id = idParts id := List.take_append_drop _ _

theorem below_eq_nil {id : String} (h : (front t id).length < widestKey t) : below t id = [] := by
  rw [front, List.length_take] at h
  exact List.drop_eq_nil_of_le (by omega)

theorem length_le_widestKey {p : String} (hp : t.contains p = true) : (idParts p).length ≤ widestKey t := by
  obtain ⟨v, hv⟩ := Option.isSome_iff_exists.1 hp
  have hkey : p ∈ t.keys := List.mem_map.2 ⟨(p, v), Table.mem_entries_of_get? hv, rfl⟩
  exact List.le_max_of_le (List.mem_map.2 ⟨p, hkey, rfl⟩) le_rfl

theorem begins_congr {a b p : String} (hfront : front t a = front t b) (hp : t.contains p = true) :
    Begins p a ↔ Begins p b := by
  have hwidth := length_le_widestKey hp
  have hin (id : String) : Begins p id ↔ idParts p <+: front t id := by
    rw [begins_iff_isPrefix, front, List.prefix_take_iff]
    exact ⟨fun h => ⟨h, hwidth⟩, fun h => h.1⟩
  rw [hin a, hin b, hfront]

theorem IsLongest.congr {a b p : String} (h : IsLongest t a p) (hfront : front t a = front t b) : IsLongest t b p where
  begins := (begins_congr hfront h.key).1 h.begins
  key := h.key
  longest := fun q hq hkey => h.longest q ((begins_congr hfront hkey).2 hq) hkey

/-! ## One step -/

def nextType (t : Table String String) (id : String) : String := (replaceBeginning t id).getD id

theorem nextType_eq_self_iff (id : String) : nextType t id = id ↔ Inert t id := by
  rw [inert_iff, nextType]
  cases replaceBeginning t id <;> simp

theorem nextType_of_longest {id p v : String} (h : IsLongest t id p) (hv : t.get? p = some v) :
    ∃ rest, idParts id = idParts p ++ rest ∧ idParts (nextType t id) = idParts v ++ rest := by
  have hnext (rest : String) (hid : id = p ++ rest) : nextType t id = v ++ rest := by
    have hstep : replaceBeginning t id = some (v ++ rest) :=
      (replaceBeginning_eq_some_iff id _).2 ⟨p, v, rest, h, hv, hid, rfl⟩
    rw [nextType, hstep, Option.getD_some]
  rcases h.begins with hid | ⟨more, hid⟩
  · refine ⟨[], by rw [hid, List.append_nil], ?_⟩
    rw [hnext "" (by simpa using hid), String.append_empty, List.append_nil]
  · refine ⟨idParts more, by rw [hid]; exact splitOn_append_append dot_toList p more, ?_⟩
    rw [hnext ("." ++ more) (by rw [hid, String.append_assoc]), ← String.append_assoc]
    exact splitOn_append_append dot_toList v more

theorem nextType_front (id : String) : ∃ old new : List String, old.length ≤ widestKey t ∧
    ∀ other, front t other = front t id →
      ∃ rest, idParts other = old ++ rest ∧ idParts (nextType t other) = new ++ rest := by
  cases hstep : replaceBeginning t id with
  | none =>
    refine ⟨[], [], Nat.zero_le _, fun other hother => ⟨idParts other, rfl, ?_⟩⟩
    have hnone : replaceBeginning t other = none := by
      rw [replaceBeginning_eq_none_iff] at hstep ⊢
      intro p hp
      by_contra hkey
      rw [Bool.not_eq_false] at hkey
      exact absurd hkey (by simp [hstep p ((begins_congr hother hkey).1 hp)])
    rw [nextType, hnone, Option.getD_none, List.nil_append]
  | some next =>
    obtain ⟨p, v, -, hlongest, hv, -, -⟩ := (replaceBeginning_eq_some_iff id next).1 hstep
    exact ⟨idParts p, idParts v, length_le_widestKey hlongest.key,
      fun other hother => nextType_of_longest (hlongest.congr hother.symm) hv⟩

theorem inert_congr {a b : String} (hfront : front t a = front t b) : Inert t a ↔ Inert t b := by
  obtain ⟨old, new, -, hstep⟩ := nextType_front (t := t) b
  have hsame (id : String) (hid : front t id = front t b) : Inert t id ↔ new = old := by
    obtain ⟨rest, hparts, hnext⟩ := hstep id hid
    rw [← nextType_eq_self_iff, ← idParts_injective.eq_iff, hparts, hnext, List.append_left_inj]
  rw [hsame a hfront, hsame b rfl]

/-- Two ids that differ only below what a step can look at still differ only there after the step. -/
theorem nextType_framed {a b : String} {x r s : List String} (ha : idParts a = x ++ r) (hb : idParts b = x ++ s)
    (hx : widestKey t ≤ x.length ∨ r = [] ∧ s = []) :
    ∃ y, idParts (nextType t a) = y ++ r ∧ idParts (nextType t b) = y ++ s := by
  rcases hx with hx | ⟨rfl, rfl⟩
  · have hfront : front t b = front t a := by
      rw [front, front, ha, hb, List.take_append_of_le_length hx, List.take_append_of_le_length hx]
    obtain ⟨old, new, hold, hstep⟩ := nextType_front (t := t) a
    obtain ⟨ra, hra, hna⟩ := hstep a rfl
    obtain ⟨rb, hrb, hnb⟩ := hstep b hfront
    have holda : old <+: idParts a := ⟨ra, hra.symm⟩
    have hxa : x <+: idParts a := ⟨r, ha.symm⟩
    obtain ⟨z, rfl⟩ := List.prefix_of_prefix_length_le holda hxa (hold.trans hx)
    rw [ha, List.append_assoc] at hra
    rw [hb, List.append_assoc] at hrb
    rw [← List.append_cancel_left hra, ← List.append_assoc] at hna
    rw [← List.append_cancel_left hrb, ← List.append_assoc] at hnb
    exact ⟨new ++ z, hna, hnb⟩
  · obtain rfl : a = b := idParts_injective (ha.trans hb.symm)
    exact ⟨idParts (nextType t a), by simp, by simp⟩

/-! ## Runs -/

def typeAfter (t : Table String String) (id : String) (k : Nat) : String := (nextType t)^[k] id

theorem typeAfter_succ (id : String) (k : Nat) : typeAfter t id (k + 1) = nextType t (typeAfter t id k) :=
  Function.iterate_succ_apply' _ _ _

theorem typeAfter_add (id : String) (i k : Nat) : typeAfter t id (i + k) = typeAfter t (typeAfter t id i) k := by
  rw [typeAfter, Nat.add_comm, Function.iterate_add_apply]
  rfl

theorem typeAfter_of_inert {id : String} (h : Inert t id) (k : Nat) : typeAfter t id k = id :=
  Function.iterate_fixed ((nextType_eq_self_iff id).2 h) k

structure ComesBack (t : Table String String) (id : String) (d : Nat) : Prop where
  front_eq : front t (typeAfter t id d) = front t id
  parts_le : ∀ k ≤ d, (idParts id).length ≤ (idParts (typeAfter t id k)).length

theorem typeAfter_framed {a b : String} {d : Nat} (hfront : front t b = front t a)
    (hparts : ∀ k ≤ d, (idParts a).length ≤ (idParts (typeAfter t a k)).length) (k : Nat) (hk : k ≤ d) :
    ∃ x, idParts (typeAfter t a k) = x ++ below t a ∧ idParts (typeAfter t b k) = x ++ below t b ∧
      (front t a).length ≤ x.length ∧ (widestKey t ≤ x.length ∨ below t a = [] ∧ below t b = []) := by
  have hlow (x : List String) (hx : (front t a).length ≤ x.length) :
      widestKey t ≤ x.length ∨ below t a = [] ∧ below t b = [] := by
    by_cases hshort : (front t a).length < widestKey t
    · exact Or.inr ⟨below_eq_nil hshort, below_eq_nil (by rwa [hfront])⟩
    · exact Or.inl (by omega)
  induction k with
  | zero =>
    refine ⟨front t a, (front_append_below a).symm, ?_, le_rfl, hlow _ le_rfl⟩
    rw [← hfront]
    exact (front_append_below b).symm
  | succ k ih =>
    obtain ⟨x, ha, hb, -, hx⟩ := ih (by omega)
    obtain ⟨y, hya, hyb⟩ := nextType_framed ha hb hx
    rw [← typeAfter_succ] at hya hyb
    have hy : (front t a).length ≤ y.length := by
      have hlength := hparts (k + 1) hk
      rw [hya, ← front_append_below (t := t) a, List.length_append, List.length_append] at hlength
      omega
    exact ⟨y, hya, hyb, hy, hlow y hy⟩

theorem ComesBack.again {id : String} {d : Nat} (h : ComesBack t id d) : ComesBack t (typeAfter t id d) d := by
  have hframed := typeAfter_framed h.front_eq h.parts_le
  constructor
  · obtain ⟨x, hid, hagain, -, hx⟩ := hframed d le_rfl
    rw [front, front, hid, hagain]
    rcases hx with hx | ⟨hbelow, hbelow'⟩
    · rw [List.take_append_of_le_length hx, List.take_append_of_le_length hx]
    · rw [hbelow, hbelow']
  · intro k hk
    obtain ⟨x, -, hk', hx, -⟩ := hframed k hk
    rw [hk', ← front_append_below (typeAfter t id d), h.front_eq, List.length_append, List.length_append]
    omega

theorem ComesBack.not_inert {id : String} {d : Nat} (h : ComesBack t id d) (hd : 0 < d) (hid : ¬ Inert t id)
    (k : Nat) : ¬ Inert t (typeAfter t id k) := by
  have hround (q : Nat) : ComesBack t (typeAfter t id (q * d)) d ∧ ¬ Inert t (typeAfter t id (q * d)) := by
    induction q with
    | zero => simpa [typeAfter] using ⟨h, hid⟩
    | succ q ih =>
      obtain ⟨hback, hmoves⟩ := ih
      rw [Nat.succ_mul, typeAfter_add]
      exact ⟨hback.again, fun hinert => hmoves ((inert_congr hback.front_eq).1 hinert)⟩
  intro hinert
  have hle : k ≤ k * d := Nat.le_mul_of_pos_right k hd
  have hstays : typeAfter t id (k * d) = typeAfter t id k := by
    rw [← Nat.add_sub_of_le hle, typeAfter_add, typeAfter_of_inert hinert]
  exact (hround k).2 (hstays ▸ hinert)

/-! ## Only finitely many fronts -/

theorem idParts_nextType_subset {alphabet : List String} (hvalues : ∀ v ∈ t.values, idParts v ⊆ alphabet) {id : String}
    (hid : idParts id ⊆ alphabet) : idParts (nextType t id) ⊆ alphabet := by
  cases hstep : replaceBeginning t id with
  | none => rwa [nextType, hstep]
  | some next =>
    obtain ⟨p, v, -, hlongest, hv, -, -⟩ := (replaceBeginning_eq_some_iff id next).1 hstep
    obtain ⟨rest, hparts, hnext⟩ := nextType_of_longest hlongest hv
    rw [hparts] at hid
    rw [hnext]
    have hvalue : v ∈ t.values := List.mem_map.2 ⟨(p, v), Table.mem_entries_of_get? hv, rfl⟩
    exact List.append_subset.2 ⟨hvalues v hvalue, (List.append_subset.1 hid).2⟩

theorem finite_fronts (id : String) : (Set.range fun k => front t (typeAfter t id k)).Finite := by
  let alphabet := idParts id ++ t.values.flatMap idParts
  have hvalues : ∀ v ∈ t.values, idParts v ⊆ alphabet := by
    intro v hv part hpart
    exact List.mem_append_right _ (List.mem_flatMap.2 ⟨v, hv, hpart⟩)
  have hrun (k : Nat) : idParts (typeAfter t id k) ⊆ alphabet := by
    induction k with
    | zero => exact List.subset_append_left _ _
    | succ k ih =>
      rw [typeAfter_succ]
      exact idParts_nextType_subset hvalues ih
  -- a front is a short word over the finite type of the parts in the alphabet
  refine ((List.finite_length_le { part // part ∈ alphabet } (widestKey t)).image
    (List.map Subtype.val)).subset ?_
  rintro _ ⟨k, rfl⟩
  have hfront : front t (typeAfter t id k) ⊆ alphabet := List.Subset.trans (List.take_subset _ _) (hrun k)
  refine ⟨(front t (typeAfter t id k)).attachWith (· ∈ alphabet) fun _ hpart => hfront hpart, ?_, ?_⟩
  · simp [front]
  · simp

/-- From some ids on no later id of the run has fewer parts, and there is no last such id. -/
theorem infinite_lowest (size : Nat → Nat) : {i | ∀ k, i ≤ k → size i ≤ size k}.Infinite := by
  refine Set.infinite_of_forall_exists_gt fun n => ?_
  obtain ⟨_, ⟨i, hi, rfl⟩, hlowest⟩ :=
    WellFounded.has_min (wellFounded_lt (α := Nat)) (size '' Set.Ioi n) ⟨_, n + 1, by simp, rfl⟩
  refine ⟨i, fun k hk => ?_, hi⟩
  exact not_lt.1 (hlowest (size k) ⟨k, lt_of_lt_of_le hi hk, rfl⟩)

theorem exists_comesBack (id : String) : ∃ i d, 0 < d ∧ ComesBack t (typeAfter t id i) d := by
  obtain ⟨i, hi, j, hj, hne, hsame⟩ :=
    (infinite_lowest fun k => (idParts (typeAfter t id k)).length).exists_ne_map_eq_of_mapsTo
      (fun k _ => Set.mem_range_self k) (finite_fronts (t := t) id)
  wlog hij : i < j generalizing i j
  · exact this j hj i hi hne.symm hsame.symm (by omega)
  refine ⟨i, j - i, by omega, ⟨?_, fun k _ => ?_⟩⟩
  · rw [← typeAfter_add, Nat.add_sub_of_le hij.le]
    exact hsame.symm
  · rw [← typeAfter_add]
    exact hi (i + k) (Nat.le_add_right i k)

/-- The run comes to an id that is no end and comes back to the front of that id, without fewer parts on the way. -/
def GoesRound (t : Table String String) (id : String) : Prop :=
  ∃ i d, 0 < d ∧ ¬ Inert t (typeAfter t id i) ∧ ComesBack t (typeAfter t id i) d

theorem goesRound_iff (id : String) : GoesRound t id ↔ ∀ k, ¬ Inert t (typeAfter t id k) := by
  constructor
  · rintro ⟨i, d, hd, hmoves, hback⟩ k hinert
    refine hback.not_inert hd hmoves k ?_
    rwa [← typeAfter_add, Nat.add_comm, typeAfter_add, typeAfter_of_inert hinert]
  · intro hmoves
    obtain ⟨i, d, hd, hback⟩ := exists_comesBack (t := t) id
    exact ⟨i, d, hd, hmoves i, hback⟩

end

/-! ## Ends -/

section
variable (n : Normalizer)

theorem returnedUpTo_of_moves {id : String} (h : ¬ Inert n.returnTypes id) (limit : Nat) :
    n.returnedUpTo (limit + 1) id = n.returnedUpTo limit (nextType n.returnTypes id) := by
  rw [inert_iff, not_or] at h
  rw [Normalizer.returnedUpTo, nextType]
  cases hstep : replaceBeginning n.returnTypes id with
  | none => exact absurd hstep h.1
  | some next =>
    have hne : next ≠ id := fun e => h.2 (e ▸ hstep)
    simp [hne]

theorem exists_returnedUpTo_iff (id : String) :
    (∃ limit r, n.returnedUpTo limit id = .ok r) ↔ ∃ k, Inert n.returnTypes (typeAfter n.returnTypes id k) := by
  constructor
  · rintro ⟨limit, r, h⟩
    induction limit generalizing id with
    | zero => simp [Normalizer.returnedUpTo] at h
    | succ limit ih =>
      by_cases hinert : Inert n.returnTypes id
      · exact ⟨0, hinert⟩
      · rw [returnedUpTo_of_moves n hinert] at h
        obtain ⟨k, hk⟩ := ih _ h
        exact ⟨k + 1, hk⟩
  · rintro ⟨k, hk⟩
    induction k generalizing id with
    | zero => exact ⟨1, id, returnedUpTo_of_inert n hk 0⟩
    | succ k ih =>
      by_cases hinert : Inert n.returnTypes id
      · exact ⟨1, id, returnedUpTo_of_inert n hinert 0⟩
      · obtain ⟨limit, r, h⟩ := ih (nextType n.returnTypes id) hk
        exact ⟨limit + 1, r, by rw [returnedUpTo_of_moves n hinert, h]⟩

theorem returnedUpTo_of_goesRound {id : String} (h : GoesRound n.returnTypes id) (limit : Nat) :
    n.returnedUpTo limit id = .error .endless := by
  rw [goesRound_iff] at h
  induction limit generalizing id with
  | zero => rfl
  | succ limit ih =>
    have hmoves : ¬ Inert n.returnTypes id := h 0
    rw [returnedUpTo_of_moves n hmoves]
    exact ih fun k => h (k + 1)

/-- Following what functions return comes to an end exactly when the run does not go round: when it comes to no id, other
than an end, to whose front it comes back without fewer parts on the way. Otherwise no limit is enough. -/
theorem returned_endless_iff (id : String) :
    ((∃ limit r, n.returnedUpTo limit id = .ok r) ↔ ¬ GoesRound n.returnTypes id) ∧
      ((∀ limit, n.returnedUpTo limit id = .error .endless) ↔ GoesRound n.returnTypes id) := by
  have hends : (∃ limit r, n.returnedUpTo limit id = .ok r) ↔ ¬ GoesRound n.returnTypes id := by
    rw [exists_returnedUpTo_iff, goesRound_iff, not_forall_not]
  refine ⟨hends, ?_, returnedUpTo_of_goesRound n⟩
  intro herror
  by_contra hround
  obtain ⟨limit, r, h⟩ := hends.2 hround
  exact nomatch (herror limit).symm.trans h

end

/-- Two functions that are said to return each other. -/
def figureRows : List (String × String) := [("plt.gcf", "plt.figure"), ("plt.figure", "plt.gcf")]

theorem figures_goRound : GoesRound ⟨figureRows⟩ "plt.gcf" := by
  have hmoves : ¬ Inert ⟨figureRows⟩ (typeAfter ⟨figureRows⟩ "plt.gcf" 0) := by
    rw [← nextType_eq_self_iff]
    decide
  exact ⟨0, 2, by decide, hmoves, by decide, by decide⟩

theorem simplify_figureRows {n : Normalizer} (hn : HasShippedForms n) :
    figureRows.map (fun r => (n.simplify r.1, n.simplify r.2)) = figureRows := by
  have hgcf : n.simplify "plt.gcf" = "plt.gcf" := simplify_of_settled (settled_of_first hn (by decide) (by decide))
  have hfigure : n.simplify "plt.figure" = "plt.figure" :=
    simplify_of_settled (settled_of_first hn (by decide) (by decide))
  simp [figureRows, hgcf, hfigure]

theorem figures_endless : ∃ n, Normalizer.ofSources
      { Knowledge.Sources.shipped with returnTypes := String.join (figureRows.map Csv.row) } = .ok n ∧
    ∀ limit, n.returnedUpTo limit "plt.gcf" = .error .endless := by
  have hshort : (Csv.read Knowledge.Sources.shipped.shortForms).mapM Normalizer.fullRow = .ok shippedRows :=
    read_shortForms
  have htypes : (Csv.read (String.join (figureRows.map Csv.row))).mapM Normalizer.fullRow = .ok figureRows := by
    rw [Csv.read_rows _ (by decide)]
    rfl
  have hdocs : Knowledge.readDocs { Knowledge.Sources.shipped with
      returnTypes := String.join (figureRows.map Csv.row) } {} = .ok ⟨.empty, .empty⟩ := rfl
  unfold Normalizer.ofSources
  rw [hshort, htypes, hdocs]
  generalize Knowledge.definedFunctions Knowledge.Sources.shipped.plottingModule = functions
  refine ⟨_, rfl, returnedUpTo_of_goesRound _ ?_⟩
  have hforms : HasShippedForms ⟨.ofList shippedRows, .empty, functions⟩ := (hasShippedForms_iff _).2 rfl
  simp only [simplify_figureRows hforms]
  exact figures_goRound

end PlotAdvisor.Elements
