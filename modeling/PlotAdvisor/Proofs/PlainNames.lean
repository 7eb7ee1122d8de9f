import PlotAdvisor.Proofs.Heads
import PlotAdvisor.Proofs.Pruning

/-! Where the `@` in the ids of a program comes from. No name of a program holds one, so that the element of a call
holds none, whatever was bound before, and what stands in front of the first `@` of an argument is the element of
its call.

* `Tree.PlainNames`, `PlainTable` - programs and tables of names without `@`.
* `head_plain`, `plainTable_follow`, `plainTable_after` - heads, one statement, programs one after the other.
* `functionId_mem_extract` - the element of the call of every argument is used.
-/
set_option autoImplicit false

namespace PlotAdvisor

def Plain (s : String) : Prop := '@' ∉ s.toList

instance (s : String) : Decidable (Plain s) := inferInstanceAs (Decidable (¬ _))

theorem Plain.append {s t : String} (hs : Plain s) (ht : Plain t) : Plain (s ++ t) := by
  unfold Plain at hs ht ⊢
  simp [hs, ht]

theorem plain_of_bytes {s : String} (h : 64 ∉ s.toByteArray.data.toList) : Plain s := by
  intro hat
  have hbytes : s.toByteArray = s.toList.utf8Encode := by
    rw [← String.toByteArray_ofList, String.ofList_toList]
  rw [hbytes, List.utf8Encode, List.data_toByteArray] at h
  exact h (List.mem_flatMap.2 ⟨'@', hat, by decide⟩)

/-! ## Names of a program -/

namespace Program

def nameFields : List String := ["id", "attr", "name", "asname", "module"]

def Tree.PlainNames (t : Tree) : Prop :=
  ∀ n ∈ t.preorder, Plain n.kind ∧ ∀ f ∈ nameFields, ∀ s ∈ n.fieldText? f, Plain s

instance (t : Tree) : Decidable t.PlainNames :=
  inferInstanceAs (Decidable (∀ n ∈ t.preorder, Plain n.kind ∧ ∀ f ∈ nameFields, ∀ s ∈ n.fieldText? f, Plain s))

namespace Tree.PlainNames

theorem ofField {t : Tree} (h : t.PlainNames) (name : String) : (t.field name).PlainNames :=
  fun n hn => h n (mem_preorder_of_field hn)

theorem ofFieldItem {t a : Tree} (h : t.PlainNames) {name : String} (ha : a ∈ t.fieldItems name) : a.PlainNames :=
  fun n hn => h n (mem_preorder_of_fieldItem ha hn)

theorem fieldText {t : Tree} (h : t.PlainNames) {name s : String} (hname : name ∈ nameFields)
    (hs : t.fieldText? name = some s) : Plain s := by
  cases t with
  | node kind span fields => exact (h _ (mem_preorder_node.2 (Or.inl rfl))).2 name hname s hs
  | list ts => simp [Tree.fieldText?, Tree.field, Tree.field?, Tree.fields] at hs
  | lit v => simp [Tree.fieldText?, Tree.field, Tree.field?, Tree.fields] at hs

theorem fieldTextD {t : Tree} (h : t.PlainNames) {name : String} (hname : name ∈ nameFields) :
    Plain ((t.fieldText? name).getD "") := by
  cases hs : t.fieldText? name with
  | none => decide
  | some s => exact h.fieldText hname hs

end Tree.PlainNames

end Program

namespace Elements

open Program Text Advice

/-! ## Heads -/

def PlainTable (names : Names) : Prop := ∀ x v, names.get? x = some v → Plain v

theorem PlainTable.getD {names : Names} (h : PlainTable names) {s : String} (hs : Plain s) :
    Plain (names.getD s s) := by
  rw [Table.getD]
  cases hv : names.get? s with
  | none => exact hs
  | some v => exact h s v hv

theorem head_plain {names : Names} (hnames : PlainTable names) (t : Tree) (h : t.PlainNames) :
    Plain (head names t) := by
  induction t using headInduction with
  | call t hkind ih =>
    rw [head_of_call names hkind]
    exact ih (h.ofField "func")
  | subscript t hkind ih =>
    rw [head_of_subscript names hkind]
    exact ih (h.ofField "value")
  | access t hkind ih =>
    rw [head_of_attribute names hkind]
    exact ((ih (h.ofField "value")).append (by decide)).append (h.fieldTextD (by decide))
  | name t hkind =>
    rw [head_of_name names hkind]
    cases hid : t.fieldText? "id" with
    | none => exact (by decide : Plain "")
    | some s => exact hnames.getD (h.fieldText (by decide) hid)
  | other t hkind =>
    cases t with
    | node kind span fields =>
      rw [head_of_other names rfl hkind]
      exact (h _ (Tree.mem_preorder_self rfl)).1
    | list ts =>
      rw [head]
      decide
    | lit v =>
      rw [head]
      decide

/-! ## Statements -/

theorem outermost_plain (isOne : String → Bool) (t : Tree) (h : t.PlainNames) :
    ∀ n ∈ outermost isOne t, n.PlainNames :=
  fun _ hn m hm => h m (mem_preorder_of_mem_outermost hn hm)

theorem bindingsWith_plain {id : String} (hid : Plain id) {t : Tree} (ht : t.PlainNames) :
    ∀ e ∈ bindingsWith id t, Plain e.2 := by
  intro e he
  unfold bindingsWith at he
  split at he
  · obtain ⟨a, ha, hbound⟩ := List.mem_filterMap.1 he
    obtain ⟨x, -, rfl⟩ := Option.map_eq_some_iff.1 hbound
    exact (ht.ofFieldItem ha).fieldTextD (by decide)
  · split at he
    · cases hm : (t.fieldText? "module").filter (· != "") with
      | none => simp [hm] at he
      | some m =>
        rw [hm, Option.elim_some] at he
        obtain ⟨a, ha, rfl⟩ := List.mem_map.1 he
        have hmodule : Plain m := ht.fieldText (by decide) (Option.filter_eq_some_iff.1 hm).1
        exact (hmodule.append (by decide)).append ((ht.ofFieldItem ha).fieldTextD (by decide))
    · split at he
      · obtain ⟨target, -, hbound⟩ := List.mem_filterMap.1 he
        split at hbound
        · obtain ⟨x, -, rfl⟩ := Option.map_eq_some_iff.1 hbound
          exact hid
        · exact nomatch hbound
      · exact absurd he (by simp)

theorem firstHead_plain {names : Names} (hnames : PlainTable names) {t : Tree} (ht : t.PlainNames) :
    Plain (firstHead names t) := by
  unfold firstHead
  cases hc : generalCallNodes t with
  | nil => exact (by decide : Plain "")
  | cons call calls =>
    have hcall : call ∈ outermost isGeneralCall t := by
      rw [generalCallNodes] at hc
      simp [hc]
    exact head_plain hnames call (outermost_plain isGeneralCall t ht call hcall)

theorem plainTable_follow {names : Names} (hnames : PlainTable names) {t : Tree} (ht : t.PlainNames) :
    PlainTable (follow false names t).1 := by
  intro x v hv
  rw [follow_names] at hv
  rcases Table.mem_of_get?_setAll hv with hmem | hold
  · exact bindingsWith_plain (firstHead_plain hnames ht) ht (x, v) hmem
  · exact hnames x v hold

theorem plainTable_followAll {names : Names} (hnames : PlainTable names) (ts : List Tree)
    (h : ∀ t ∈ ts, t.PlainNames) : PlainTable (followAll names ts).1 := by
  induction ts generalizing names with
  | nil => exact hnames
  | cons t ts ih =>
    exact ih (plainTable_follow hnames (h t (by simp))) fun u hu => h u (by simp [hu])

theorem plainTable_session : PlainTable sessionTable := by
  intro x v hv
  have hall : ∀ e ∈ sessionNames, 64 ∉ e.2.toByteArray.data.toList := by decide +kernel
  have hmem : (x, v) ∈ sessionNames := by
    have hlookup : sessionNames.lookup x = some v := hv
    rw [List.lookup_eq_some_iff] at hlookup
    obtain ⟨before, after, hsplit, -⟩ := hlookup
    simp [hsplit]
  exact plain_of_bytes (hall (x, v) hmem)

theorem Extractor.plainTable_after (programs : List Tree) (h : ∀ p ∈ programs, p.PlainNames) :
    PlainTable (after {} programs).names := by
  have hrun (e : Extractor) (he : PlainTable e.names) : PlainTable (e.after programs).names := by
    induction programs generalizing e with
    | nil => exact he
    | cons p programs ih =>
      refine ih (fun q hq => h q (by simp [hq])) _ ?_
      rw [names_extract]
      exact plainTable_followAll he _ (outermost_plain isFollowed p (h p (by simp)))
  exact hrun {} plainTable_session

/-! ## Ids of arguments -/

theorem id_of_mem_usesOf {id : String} {call : Tree} {u : Use} (h : u ∈ usesOf id call) :
    u.id = id ∨ ∃ m, u.id = id ++ ("@" ++ m) := by
  obtain ⟨marks, hids⟩ := usesOf_ids call
  have hu : u.id ∈ (usesOf id call).map Use.id := List.mem_map_of_mem h
  rw [hids, List.mem_cons] at hu
  refine hu.imp_right fun hmark => ?_
  obtain ⟨m, -, hm⟩ := List.mem_map.1 hmark
  exact ⟨m, hm.symm⟩

theorem exists_mem_usesOf (id : String) (call : Tree) : ∃ w ∈ usesOf id call, w.id = id := by
  obtain ⟨marks, hids⟩ := usesOf_ids call
  have hself : id ∈ (usesOf id call).map Use.id := by
    rw [hids]
    exact List.mem_cons_self
  exact List.mem_map.1 hself

theorem functionId_plain {s : String} (h : Plain s) : functionId s = s := by
  rw [functionId_eq, upTo_of_notMem h]

theorem functionId_append {p : String} (hp : Plain p) (m : String) : functionId (p ++ ("@" ++ m)) = p := by
  have hnone : upTo '@' ("@" ++ m) = "" := by
    apply String.toList_injective
    simp [upTo]
  rw [functionId_eq, upTo_append hp, hnone, String.append_empty]

theorem functionId_mem_follow {names : Names} (hnames : PlainTable names) {t : Tree} (ht : t.PlainNames) {u : Use}
    (hu : u ∈ (follow false names t).2) : ∃ w ∈ (follow false names t).2, w.id = functionId u.id := by
  rw [follow_uses] at hu ⊢
  obtain ⟨call, hcall, hu⟩ := List.mem_flatMap.1 hu
  have hplain : Plain (head names call) :=
    head_plain hnames call (outermost_plain isGeneralCall t ht call (mem_generalCallNodes hcall))
  obtain ⟨w, hw, hwid⟩ := exists_mem_usesOf (head names call) call
  refine ⟨w, List.mem_flatMap.2 ⟨call, hcall, hw⟩, ?_⟩
  rcases id_of_mem_usesOf hu with hid | ⟨m, hid⟩
  · rw [hid, hwid, functionId_plain hplain]
  · rw [hid, hwid, functionId_append hplain]

theorem functionId_mem_extract {names : Names} (hnames : PlainTable names) {program : Tree}
    (h : program.PlainNames) {u : Use} (hu : u ∈ (extract false names program).2) :
    ∃ w ∈ (extract false names program).2, w.id = functionId u.id := by
  rw [extract_eq_followAll] at hu ⊢
  have hstatements : ∀ t ∈ outermost isFollowed program, t.PlainNames := outermost_plain isFollowed program h
  generalize outermost isFollowed program = ts at hu hstatements ⊢
  induction ts generalizing names with
  | nil => exact absurd hu (by simp [followAll])
  | cons t ts ih =>
    have ht : t.PlainNames := hstatements t (by simp)
    simp only [followAll] at hu ⊢
    rcases List.mem_append.1 hu with hu | hu
    · obtain ⟨w, hw, hid⟩ := functionId_mem_follow hnames ht hu
      exact ⟨w, List.mem_append_left _ hw, hid⟩
    · obtain ⟨w, hw, hid⟩ := ih (plainTable_follow hnames ht) hu fun v hv => hstatements v (by simp [hv])
      exact ⟨w, List.mem_append_right _ hw, hid⟩

end Elements

end PlotAdvisor
