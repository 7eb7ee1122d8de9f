import PlotAdvisor.Elements.Extraction
import PlotAdvisor.Proofs.Table

/-! What following a program reads of the names it starts from, and what it binds.

* `rootName?` - the one name that the head of a node looks up.
* `follow_ids_eq_iff`, `follow_names` - a statement followed from two tables of names.
-/
set_option autoImplicit false

namespace PlotAdvisor.Elements

open Program

/-! ## The name at the root of a head -/

mutual

def rootName? : Tree → Option String
  | .node "Call" _ fields => rootOfField? "func" fields
  | .node "Subscript" _ fields => rootOfField? "value" fields
  | .node "Attribute" _ fields => rootOfField? "value" fields
  | .node "Name" _ fields =>
    match fields.lookup "id" with
    | some (.lit (.text s)) => some s
    | _ => none
  | _ => none

def rootOfField? (name : String) : List (String × Tree) → Option String
  | [] => none
  | (f, t) :: rest => if f == name then rootName? t else rootOfField? name rest

end

def rootValue (names : Names) (root : Option String) : String := root.elim "" fun x => names.getD x x

def attributeText (fields : List (String × Tree)) : String :=
  match fields.lookup "attr" with
  | some (.lit (.text s)) => s
  | _ => ""

mutual

theorem head_eq_append : ∀ t : Tree,
    ∃ tail, ∀ names : Names, head names t = rootValue names (rootName? t) ++ tail
  | .node kind span fields => by
    by_cases hcall : kind = "Call"
    · subst hcall
      simpa only [head, rootName?] using headOfField_eq_append "func" fields
    by_cases hsub : kind = "Subscript"
    · subst hsub
      simpa only [head, rootName?] using headOfField_eq_append "value" fields
    by_cases hattr : kind = "Attribute"
    · subst hattr
      obtain ⟨tail, h⟩ := headOfField_eq_append "value" fields
      refine ⟨tail ++ "." ++ attributeText fields, fun names => ?_⟩
      simp only [head, rootName?, h, String.append_assoc]
      rfl
    by_cases hname : kind = "Name"
    · subst hname
      refine ⟨"", fun names => ?_⟩
      simp only [head, rootName?, rootValue, String.append_empty]
      split <;> simp_all
    · refine ⟨kind, fun names => ?_⟩
      rw [head, rootName?]
      · simp [rootValue]
      all_goals simp_all
  | .list _ => ⟨"list", fun names => by simp [head, rootName?, rootValue]⟩
  | .lit _ => ⟨"", fun names => by simp [head, rootName?, rootValue]⟩

theorem headOfField_eq_append (name : String) : ∀ fields : List (String × Tree),
    ∃ tail, ∀ names : Names, headOfField names name fields = rootValue names (rootOfField? name fields) ++ tail
  | [] => ⟨"", fun names => by simp [headOfField, rootOfField?, rootValue]⟩
  | (f, t) :: rest => by
    by_cases hf : f = name
    · obtain ⟨tail, h⟩ := head_eq_append t
      exact ⟨tail, fun names => by simp [headOfField, rootOfField?, hf, h]⟩
    · obtain ⟨tail, h⟩ := headOfField_eq_append name rest
      exact ⟨tail, fun names => by simp [headOfField, rootOfField?, hf, h]⟩

end

theorem head_eq_head_iff (names others : Names) (t : Tree) :
    head names t = head others t ↔ rootValue names (rootName? t) = rootValue others (rootName? t) := by
  obtain ⟨tail, h⟩ := head_eq_append t
  rw [h names, h others, String.append_left_inj]

/-! ## Ids of uses -/

def tableKeys (t : Tree) : List String :=
  if t.kind == "Dict" then
    ((t.fieldItems "keys").zip (t.fieldItems "values")).filterMap fun p =>
      match p.1.literal? with
      | some (.text s) => some s
      | _ => none
  else if t.kind == "Call" && (t.field "func").kind == "Name" &&
      (t.field "func").fieldText? "id" == some "dict" then
    (t.fieldItems "keywords").map keywordName
  else []

def argumentsOf (call : Tree) : List (String × Tree) :=
  if call.kind == "Call" then
    ((call.fieldItems "args").zipIdx.map fun a => (toString a.2, a.1)) ++
      (call.fieldItems "keywords").map fun kw => (keywordName kw, kw.field "value")
  else []

/-- What stands behind the first `@` of the ids at a call: an argument, or a key of a table and its argument. -/
def marksOf (call : Tree) : List String :=
  (argumentsOf call).flatMap fun a => a.1 :: (tableKeys a.2).map fun k => a.1 ++ ("@" ++ k)

theorem ids_keyUses (owner : String) (call t : Tree) :
    (keyUses owner call t).map Use.id = (tableKeys t).map fun k => owner ++ ("@" ++ k) := by
  unfold keyUses tableKeys
  split
  · rw [List.map_filterMap, List.map_filterMap]
    apply congrArg (List.filterMap · _)
    funext p
    obtain ⟨k, v⟩ := p
    cases hk : k.literal? with
    | none => simp only [hk, Option.map_none]
    | some l => cases l <;> simp only [hk, Option.map_none, Option.map_some, String.append_assoc]
  · split
    · rw [List.map_map, List.map_map]
      exact List.map_congr_left fun kw _ => String.append_assoc
    · rfl

theorem ids_usesOf (id : String) (call : Tree) :
    (usesOf id call).map Use.id = id :: (marksOf call).map fun m => id ++ ("@" ++ m) := by
  unfold usesOf marksOf argumentsOf
  split
  · simp [List.map_flatMap, List.flatMap_map, ids_keyUses, String.append_assoc, Function.comp_def]
  · rfl

theorem usesOf_ids (call : Tree) :
    ∃ marks : List String, ∀ id, (usesOf id call).map Use.id = id :: marks.map fun m => id ++ ("@" ++ m) :=
  ⟨marksOf call, fun id => ids_usesOf id call⟩

theorem usesOf_ids_eq_iff (call : Tree) (a b : String) :
    (usesOf a call).map Use.id = (usesOf b call).map Use.id ↔ a = b := by
  obtain ⟨marks, h⟩ := usesOf_ids call
  refine ⟨fun hab => ?_, fun hab => by rw [hab]⟩
  rw [h a, h b] at hab
  exact (List.cons.inj hab).1

theorem usesOf_length_eq (call : Tree) (a b : String) : (usesOf a call).length = (usesOf b call).length := by
  obtain ⟨marks, h⟩ := usesOf_ids call
  have ha := congrArg List.length (h a)
  have hb := congrArg List.length (h b)
  simp only [List.length_map, List.length_cons] at ha hb
  rw [ha, hb]

theorem usesAt_ids_eq_iff (names others : Names) (calls : List Tree) :
    (calls.flatMap (usesAt names)).map Use.id = (calls.flatMap (usesAt others)).map Use.id ↔
      ∀ c ∈ calls, head names c = head others c := by
  induction calls with
  | nil => simp
  | cons c calls ih =>
    have hlen : ((usesAt names c).map Use.id).length = ((usesAt others c).map Use.id).length := by
      simpa only [List.length_map, usesAt] using usesOf_length_eq c (head names c) (head others c)
    rw [List.flatMap_cons, List.flatMap_cons, List.map_append, List.map_append, List.forall_mem_cons, ← ih]
    constructor
    · intro h
      obtain ⟨hc, hcs⟩ := List.append_inj h hlen
      exact ⟨(usesOf_ids_eq_iff c _ _).1 hc, hcs⟩
    · rintro ⟨hc, hcs⟩
      rw [hcs, usesAt, usesAt, hc]

/-! ## Statements -/

/-- The calls, subscripts and attributes of a statement that are uses; an import has none. -/
def callsOf (t : Tree) : List Tree :=
  if t.kind == "Import" || t.kind == "ImportFrom" then [] else generalCallNodes t

theorem follow_uses (names : Names) (t : Tree) : (follow false names t).2 = (callsOf t).flatMap (usesAt names) := by
  by_cases himp : t.kind = "Import" ∨ t.kind = "ImportFrom"
  · simp [follow, callsOf, himp]
  · simp [follow, callsOf, himp]

theorem mem_generalCallNodes {t c : Tree} (h : c ∈ callsOf t) : c ∈ generalCallNodes t := by
  unfold callsOf at h
  split at h
  · exact absurd h (by simp)
  · exact h

def reads (t : Tree) : List String :=
  if t.kind == "Import" || t.kind == "ImportFrom" then [] else (generalCallNodes t).filterMap rootName?

theorem reads_eq (t : Tree) : reads t = (callsOf t).filterMap rootName? := by
  unfold reads callsOf
  split <;> rfl

/-- The entries that a statement sets, its first call belonging to the element `id`. -/
def bindingsWith (id : String) (t : Tree) : List (String × String) :=
  let plain (a : Tree) : String := (a.fieldText? "name").getD ""
  if t.kind == "Import" then
    (t.fieldItems "names").filterMap fun a => ((a.fieldText? "asname").filter (· != "")).map (·, plain a)
  else if t.kind == "ImportFrom" then
    ((t.fieldText? "module").filter (· != "")).elim [] fun m =>
      (t.fieldItems "names").map fun a => ((a.fieldText? "asname").getD (plain a), m ++ "." ++ plain a)
  else if t.kind == "Assign" && !(generalCallNodes t).isEmpty then
    (t.fieldItems "targets").filterMap fun target =>
      if target.kind = "Name" then (target.fieldText? "id").map (·, id) else none
  else []

def binds (t : Tree) : List String := (bindingsWith "" t).map Prod.fst

theorem bindingsWith_keys (id : String) (t : Tree) : (bindingsWith id t).map Prod.fst = binds t := by
  unfold binds bindingsWith
  split
  · rfl
  · split
    · rfl
    · split
      · rw [List.map_filterMap, List.map_filterMap]
        congr 1
        funext target
        split <;> simp [Function.comp_def]
      · rfl

def firstHead (names : Names) (t : Tree) : String := ((generalCallNodes t).head?.map (head names)).getD ""

theorem foldl_eq_setAll {α : Type} (xs : List α) (names : Names) (step : Names → α → Names)
    (entry : α → Option (String × String)) (h : ∀ ns a, step ns a = ns.setAll (entry a).toList) :
    xs.foldl step names = names.setAll (xs.filterMap entry) := by
  induction xs generalizing names with
  | nil => rfl
  | cons x xs ih =>
    rw [List.foldl_cons, ih, h]
    cases hx : entry x <;> simp [hx, Table.setAll]

theorem importNames_eq (names : Names) (id : String) (t : Tree)
    (ht : t.kind = "Import" ∨ t.kind = "ImportFrom") :
    importNames names t = names.setAll (bindingsWith id t) := by
  unfold importNames bindingsWith
  by_cases hi : t.kind = "Import"
  · simp only [hi, beq_self_eq_true, if_true]
    refine foldl_eq_setAll _ _ _ _ fun ns a => ?_
    cases ha : a.fieldText? "asname" with
    | none => rfl
    | some bound => by_cases hb : bound = "" <;> simp [hb, Option.filter, Table.setAll]
  · have hf : t.kind = "ImportFrom" := ht.resolve_left hi
    simp only [hf]
    cases hm : t.fieldText? "module" with
    | none => rfl
    | some m =>
      by_cases hmm : m = ""
      · simp [hmm, Option.filter, Table.setAll]
      · simp [hmm, Option.filter, Table.setAll, List.foldl_map]

theorem assignNames_eq (names : Names) (t : Tree) (ht : t.kind = "Assign") :
    assignNames names t = names.setAll (bindingsWith (firstHead names t) t) := by
  unfold assignNames bindingsWith firstHead
  simp only [ht]
  cases hc : generalCallNodes t with
  | nil => rfl
  | cons call calls =>
    refine foldl_eq_setAll _ _ _ _ fun ns target => ?_
    by_cases hk : target.kind = "Name"
    · cases hid : target.fieldText? "id" <;> simp [hk, Table.setAll]
    · simp [hk, Table.setAll]

theorem follow_names (names : Names) (t : Tree) :
    (follow false names t).1 = names.setAll (bindingsWith (firstHead names t) t) := by
  by_cases himp : t.kind = "Import" ∨ t.kind = "ImportFrom"
  · have h : (follow false names t).1 = importNames names t := by simp [follow, himp]
    rw [h, importNames_eq names _ t himp]
  · by_cases ha : t.kind = "Assign"
    · have h : (follow false names t).1 = assignNames names t := by simp [follow, ha]
      rw [h, assignNames_eq names t ha]
    · rw [not_or] at himp
      simp [follow, bindingsWith, himp.1, himp.2, ha, Table.setAll]

theorem follow_ids_eq_iff (names others : Names) (t : Tree) :
    (follow false names t).2.map Use.id = (follow false others t).2.map Use.id ↔
      ∀ x ∈ reads t, names.getD x x = others.getD x x := by
  rw [follow_uses, follow_uses, reads_eq, usesAt_ids_eq_iff]
  simp only [head_eq_head_iff, List.mem_filterMap]
  constructor
  · rintro h x ⟨c, hc, hx⟩
    simpa [hx, rootValue] using h c hc
  · intro h c hc
    cases hx : rootName? c with
    | none => rfl
    | some x => exact h x ⟨c, hc, hx⟩

theorem follow_get?_of_notMem (names : Names) (t : Tree) (x : String) (hx : x ∉ binds t) :
    (follow false names t).1.get? x = names.get? x := by
  rw [follow_names]
  refine Table.get?_setAll_of_notMem names _ x ?_
  rwa [bindingsWith_keys]

/-- Where two tables agree on what a statement looks up, it sets the same entries in both. -/
theorem bindingsWith_congr (names others : Names) (t : Tree)
    (h : ∀ x ∈ reads t, names.getD x x = others.getD x x) :
    bindingsWith (firstHead names t) t = bindingsWith (firstHead others t) t := by
  by_cases himp : t.kind = "Import" ∨ t.kind = "ImportFrom"
  · rcases himp with hi | hf
    · simp [bindingsWith, hi]
    · simp [bindingsWith, hf]
  · have hhead : firstHead names t = firstHead others t := by
      unfold firstHead
      cases hc : generalCallNodes t with
      | nil => rfl
      | cons call calls =>
        have hcall : head names call = head others call := by
          rw [head_eq_head_iff]
          cases hx : rootName? call with
          | none => rfl
          | some x => exact h x (by simp [reads, himp, hc, hx])
        simp [hcall]
    rw [hhead]

theorem follow_get?_eq_iff (names others : Names) (t : Tree) (x : String)
    (h : ∀ y ∈ reads t, names.getD y y = others.getD y y) :
    (follow false names t).1.get? x = (follow false others t).1.get? x ↔
      x ∈ binds t ∨ names.get? x = others.get? x := by
  by_cases hx : x ∈ binds t
  · refine iff_of_true ?_ (Or.inl hx)
    rw [follow_names, follow_names, bindingsWith_congr names others t h]
    refine Table.get?_setAll_of_mem names others _ x ?_
    rwa [bindingsWith_keys]
  · rw [follow_get?_of_notMem names t x hx, follow_get?_of_notMem others t x hx]
    simp [hx]

end PlotAdvisor.Elements
