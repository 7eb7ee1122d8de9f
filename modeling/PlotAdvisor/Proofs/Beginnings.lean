import PlotAdvisor.Elements.Normalizer
import PlotAdvisor.Proofs.Pieces

/-! The longest dotted beginning of an id that a table has, and what becomes of the id when it is replaced.

* `Begins`, `IsLongest` - the dotted beginnings of an id, and the longest that is a key.
* `longestBeginning_isLongest` - it is found from the parts of the id.
* `replaceBeginning_eq_none_iff`, `replaceBeginning_eq_some_iff` - when it is replaced, and by what.
-/
set_option autoImplicit false

namespace PlotAdvisor.Elements

open Text

theorem dot_toList : ".".toList = ['.'] := rfl

/-! ## Dotted beginnings -/

def Begins (p id : String) : Prop := id = p ∨ ∃ more, id = p ++ "." ++ more

theorem begins_iff (p id : String) :
    Begins p id ↔ ∃ ps more, splitOn id "." = ps ++ more ∧ ps ≠ [] ∧ p = join "." ps := by
  constructor
  · rintro (rfl | ⟨more, rfl⟩)
    · exact ⟨_, [], (List.append_nil _).symm, splitOn_ne_nil dot_toList _, (join_splitOn dot_toList _).symm⟩
    · exact ⟨_, _, splitOn_append_append dot_toList p more, splitOn_ne_nil dot_toList p,
        (join_splitOn dot_toList p).symm⟩
  · rintro ⟨ps, more, hsplit, hps, rfl⟩
    have hid : id = join "." (ps ++ more) := by rw [← hsplit, join_splitOn dot_toList]
    by_cases hmore : more = []
    · exact Or.inl (by rw [hid, hmore, List.append_nil])
    · exact Or.inr ⟨join "." more, by rw [hid, join_append "." _ _ hps hmore]⟩

theorem Begins.exists_rest {p id : String} (h : Begins p id) : ∃ rest, id = p ++ rest := by
  rcases h with rfl | ⟨more, rfl⟩
  · exact ⟨"", by simp⟩
  · exact ⟨"." ++ more, String.append_assoc⟩

theorem eq_of_append_eq {p q rest other : String} (h : p ++ rest = q ++ other) (hlength : p.length = q.length) :
    p = q ∧ rest = other := by
  have hchars : p.toList ++ rest.toList = q.toList ++ other.toList := by
    simpa using congrArg String.toList h
  obtain ⟨hp, hrest⟩ := List.append_inj hchars (by rwa [String.length_toList, String.length_toList])
  exact ⟨String.toList_injective hp, String.toList_injective hrest⟩

/-- A beginning is found in front of everything else. -/
theorem replaceFirst_append (p v rest : String) : replaceFirst (p ++ rest) p v = v ++ rest := by
  apply String.toList_injective
  rw [replaceFirst, String.toList_ofList, String.toList_append, Chars.replaceFirst, Chars.cutAt_append,
    String.toList_append]
  rfl

structure IsLongest (t : Table String String) (id p : String) : Prop where
  begins : Begins p id
  key : t.contains p = true
  longest : ∀ q, Begins q id → t.contains q = true → q.length ≤ p.length

theorem IsLongest.unique {t : Table String String} {id p q : String} (hp : IsLongest t id p)
    (hq : IsLongest t id q) : p = q := by
  obtain ⟨rest, hrest⟩ := hp.begins.exists_rest
  obtain ⟨other, hother⟩ := hq.begins.exists_rest
  have hpq := hq.longest p hp.begins hp.key
  have hqp := hp.longest q hq.begins hq.key
  exact (eq_of_append_eq (hrest.symm.trans hother) (by omega)).1

/-! ## Search -/

theorem longestBeginning_some (t : Table String String) (rev : List String) (path v : String)
    (h : longestBeginning t rev = some (path, v)) :
    ∃ left ps, rev = left ++ ps ∧ ps ≠ [] ∧ path = join "." ps.reverse ∧ t.get? path = some v := by
  induction rev with
  | nil => simp [longestBeginning] at h
  | cons part before ih =>
    rw [longestBeginning] at h
    split at h
    · next w hw =>
      obtain ⟨rfl, rfl⟩ : join "." (part :: before).reverse = path ∧ w = v := by simpa using h
      exact ⟨[], part :: before, rfl, by simp, rfl, hw⟩
    · obtain ⟨left, ps, rfl, hrest⟩ := ih h
      exact ⟨part :: left, ps, rfl, hrest⟩

theorem longestBeginning_none (t : Table String String) (rev left ps : List String)
    (h : longestBeginning t rev = none) (hrev : rev = left ++ ps) (hps : ps ≠ []) :
    t.get? (join "." ps.reverse) = none := by
  induction left generalizing rev with
  | nil =>
    obtain ⟨part, before, rfl⟩ := List.exists_cons_of_ne_nil hps
    rw [hrev, List.nil_append, longestBeginning] at h
    split at h
    · exact nomatch h
    · assumption
  | cons part left ih =>
    rw [hrev, List.cons_append, longestBeginning] at h
    split at h
    · exact nomatch h
    · exact ih (left ++ ps) h rfl

section
variable {t : Table String String}

theorem length_join_le (ps more : List String) (hps : ps ≠ []) :
    (join "." ps).length ≤ (join "." (ps ++ more)).length := by
  by_cases hmore : more = []
  · simp [hmore]
  · rw [join_append "." ps more hps hmore, String.length_append, String.length_append]
    omega

theorem longestBeginning_longest {rev left ps : List String} {path v : String}
    (h : longestBeginning t rev = some (path, v)) (hrev : rev = left ++ ps) (hps : ps ≠ [])
    (hkey : t.contains (join "." ps.reverse) = true) : (join "." ps.reverse).length ≤ path.length := by
  induction rev generalizing left with
  | nil => simp [longestBeginning] at h
  | cons part before ih =>
    rw [longestBeginning] at h
    split at h
    · next w hw =>
      obtain ⟨rfl, -⟩ : join "." (part :: before).reverse = path ∧ w = v := by simpa using h
      rw [hrev, List.reverse_append]
      exact length_join_le ps.reverse left.reverse (by simpa using hps)
    · next hnone =>
      -- all the parts together have no entry, so these are fewer
      cases left with
      | nil =>
        rw [List.nil_append] at hrev
        rw [Table.contains, ← hrev, hnone] at hkey
        exact absurd hkey (by simp)
      | cons first left => exact ih h (List.cons.inj hrev).2

theorem longestBeginning_isLongest {id p v : String}
    (h : longestBeginning t (splitOn id ".").reverse = some (p, v)) : IsLongest t id p ∧ t.get? p = some v := by
  obtain ⟨left, ps, hrev, hps, hpath, hv⟩ := longestBeginning_some t _ p v h
  have hsplit : splitOn id "." = ps.reverse ++ left.reverse := by
    rw [← List.reverse_append, ← hrev, List.reverse_reverse]
  refine ⟨⟨?_, by simp [Table.contains, hv], fun q hq hkey => ?_⟩, hv⟩
  · exact (begins_iff p id).2 ⟨ps.reverse, left.reverse, hsplit, by simpa using hps, hpath⟩
  · obtain ⟨qs, more, hqs, hne, rfl⟩ := (begins_iff q id).1 hq
    have hparts : (splitOn id ".").reverse = more.reverse ++ qs.reverse := by rw [hqs, List.reverse_append]
    have hle := longestBeginning_longest h hparts (by simpa using hne) (by simpa using hkey)
    simpa using hle

theorem replaceBeginning_eq_none_iff (id : String) :
    replaceBeginning t id = none ↔ ∀ p, Begins p id → t.contains p = false := by
  rw [replaceBeginning, Option.map_eq_none_iff]
  constructor
  · intro h p hp
    obtain ⟨ps, more, hsplit, hne, rfl⟩ := (begins_iff p id).1 hp
    have hrev : (splitOn id ".").reverse = more.reverse ++ ps.reverse := by rw [hsplit, List.reverse_append]
    have hnone := longestBeginning_none t _ _ _ h hrev (by simpa using hne)
    simpa [Table.contains] using hnone
  · intro h
    cases hfound : longestBeginning t (splitOn id ".").reverse with
    | none => rfl
    | some e =>
      obtain ⟨hlongest, -⟩ := longestBeginning_isLongest hfound
      exact absurd hlongest.key (by simp [h e.1 hlongest.begins])

theorem replaceBeginning_eq (t : Table String String) (id : String) :
    replaceBeginning t id = (longestBeginning t (splitOn id ".").reverse).map fun found =>
      found.2 ++ String.ofList (id.toList.drop found.1.length) := by
  refine Option.map_congr fun found hfound => ?_
  obtain ⟨rest, rfl⟩ := (longestBeginning_isLongest hfound).1.begins.exists_rest
  have hdrop : String.ofList ((found.1 ++ rest).toList.drop found.1.length) = rest := by
    apply String.toList_injective
    simp [← String.length_toList]
  rw [hdrop, ← replaceFirst_append found.1 found.2 rest]

/-- The longest beginning with an entry becomes the entry. -/
def Rewrites (t : Table String String) (id next : String) : Prop :=
  ∃ p v rest, IsLongest t id p ∧ t.get? p = some v ∧ id = p ++ rest ∧ next = v ++ rest

theorem replaceBeginning_eq_some_iff (id next : String) :
    replaceBeginning t id = some next ↔ Rewrites t id next := by
  have hsound (r : String) (h : replaceBeginning t id = some r) : Rewrites t id r := by
    obtain ⟨⟨p, v⟩, hfound, rfl⟩ := Option.map_eq_some_iff.1 h
    obtain ⟨hlongest, hv⟩ := longestBeginning_isLongest hfound
    obtain ⟨rest, rfl⟩ := hlongest.begins.exists_rest
    exact ⟨p, v, rest, hlongest, hv, rfl, replaceFirst_append p v rest⟩
  refine ⟨hsound next, fun h => ?_⟩
  obtain ⟨p, v, rest, hlongest, hv, hid, rfl⟩ := h
  cases hr : replaceBeginning t id with
  | none =>
    have hnot := (replaceBeginning_eq_none_iff id).1 hr p hlongest.begins
    exact absurd hlongest.key (by simp [hnot])
  | some r =>
    obtain ⟨q, w, other, hlongest', hw, hid', rfl⟩ := hsound r hr
    obtain rfl : p = q := hlongest.unique hlongest'
    obtain ⟨-, rfl⟩ := eq_of_append_eq (hid.symm.trans hid') rfl
    obtain rfl : v = w := Option.some.inj (hv.symm.trans hw)
    rfl

end

/-- Of an id with dotted beginnings that have short forms, the longest becomes its short form, and the rest stays; an id
without one stays as it is. -/
theorem shorten_longest (n : Normalizer) (id : String) :
    ((∃ p, Begins p id ∧ n.shortForms.contains p = true) →
      ∃ p v rest, IsLongest n.shortForms id p ∧ n.shortForms.get? p = some v ∧ id = p ++ rest ∧
        n.shorten id = v ++ rest) ∧
    ((¬ ∃ p, Begins p id ∧ n.shortForms.contains p = true) → n.shorten id = id) := by
  unfold Normalizer.shorten
  cases h : replaceBeginning n.shortForms id with
  | none =>
    have hnone := (replaceBeginning_eq_none_iff id).1 h
    refine ⟨?_, fun _ => rfl⟩
    rintro ⟨p, hp, hkey⟩
    exact absurd hkey (by simp [hnone p hp])
  | some next =>
    obtain ⟨p, v, rest, hlongest, hv, hid, rfl⟩ := (replaceBeginning_eq_some_iff id next).1 h
    exact ⟨fun _ => ⟨p, v, rest, hlongest, hv, hid, rfl⟩, fun hno => absurd ⟨p, hlongest.begins, hlongest.key⟩ hno⟩

/-- Of two beginnings the longer is taken, and what stands in the id once more stays. -/
theorem shorten_longest_twice :
    let n : Normalizer := ⟨⟨[("plt", "p"), ("plt.gca", "ax")]⟩, .empty, []⟩
    (∃ p, Begins p "plt.gca.plt.gca" ∧ n.shortForms.contains p = true) ∧
      ∃ p v rest, IsLongest n.shortForms "plt.gca.plt.gca" p ∧ n.shortForms.get? p = some v ∧
        "plt.gca.plt.gca" = p ++ rest ∧ n.shorten "plt.gca.plt.gca" = v ++ rest ∧ v ++ rest = "ax.plt.gca" := by
  intro n
  have hsome : ∃ p, Begins p "plt.gca.plt.gca" ∧ n.shortForms.contains p = true :=
    ⟨"plt", .inr ⟨"gca.plt.gca", by decide⟩, by decide⟩
  obtain ⟨p, v, rest, hlongest, hv, hid, hshort⟩ := (shorten_longest n "plt.gca.plt.gca").1 hsome
  refine ⟨hsome, p, v, rest, hlongest, hv, hid, hshort, ?_⟩
  rw [← hshort]
  decide

end PlotAdvisor.Elements
