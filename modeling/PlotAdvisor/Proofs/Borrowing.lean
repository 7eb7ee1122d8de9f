import Mathlib.Data.String.Basic
import PlotAdvisor.Documentation.Borrowed
import PlotAdvisor.Proofs.Faults
import PlotAdvisor.Proofs.Table

/-! What is borrowed, and that the full and the shortened documentation stay in step.

* `Lends`, `Refers` - what a reference lends, and the references there are.
-/
set_option autoImplicit false

namespace PlotAdvisor

namespace Documentation

open Elements Knowledge Text

namespace Book

theorem get?_page_put (b : Book) (level l : Level) (k x : String × String) (u : String) :
    ((b.put level k u).page l).get? x = if l = level ∧ x = k then some u else (b.page l).get? x := by
  cases level <;> cases l <;> simp [put, page, Table.get?_set]

theorem keys_page_put (b : Book) (level l : Level) (k : String × String) (u : String) :
    ((b.put level k u).page l).keys =
      if l = level ∧ k ∉ (b.page l).keys then (b.page l).keys ++ [k] else (b.page l).keys := by
  cases level <;> cases l <;> simp [put, page, Table.keys_set, ite_not]

theorem functions_put (b : Book) (level : Level) (k : String × String) (u : String) :
    (b.put level k u).functions = b.functions := by
  cases level <;> rfl

end Book

structure Aligned (full short : Docs) : Prop where
  functions : full.functions.keys = short.functions.keys
  arguments : full.arguments.keys = short.arguments.keys

inductive Lends (full short : Docs) (r : Borrowing) (a u v : String) : Prop where
  | property {f : String} (kind : r.kind = "property_as_keyword") (owner : classOf f = lengthen r.target)
    (name : propertyOf? f = some a) (long : full.functions.get? f = some u) (brief : short.functions.get? f = some v)
  | keyword (kind : r.kind = "keyword_as_keyword") (long : full.arguments.get? (lengthen r.target, a) = some u)
    (brief : short.arguments.get? (lengthen r.target, a) = some v)

inductive Refers (n : Normalizer) (full : Docs) (given : List Borrowing) : Borrowing → Prop where
  | given {r : Borrowing} (mem : r ∈ given) : Refers n full given r
  | followed {r r' : Borrowing} {f p : String} (borrows : Refers n full given r) (kind : r.kind = "property_as_keyword")
    (level : r.level = .argument) (documented : f ∈ full.functions.keys) (owner : classOf f = lengthen r.target)
    (name : propertyOf? f = some p) (lends : Refers n full given r') (setter : r'.element = n.simplify f) :
    Refers n full given { r' with element := r.element ++ "@" ++ p }

namespace Books

variable {b b' : Books} {n : Normalizer} {r : Borrowing}

def Knows (b : Books) (r : Borrowing) : Prop := r ∈ b.borrowings.getD r.element []

/-- Nothing that is there changes. -/
def Keeps (b b' : Books) : Prop := ∀ level k u,
  ((b.full.page level).get? k = some u → (b'.full.page level).get? k = some u) ∧
  ((b.short.page level).get? k = some u → (b'.short.page level).get? k = some u)

/-- The books after references that are known were carried out, in any order and in any round. -/
inductive Reached (n : Normalizer) (b : Books) : Books → Prop where
  | start : Reached n b b
  | borrow {c d : Books} {r : Borrowing} (first : Bool) (before : Reached n b c) (known : c.Knows r)
    (goes : c.borrow n first r = .ok d) : Reached n b d

/-! ## What holds all the time -/

/-- What holds of the books, given the documentation and the references at the start. -/
structure Sound (n : Normalizer) (full short : Docs) (given : List Borrowing) (b : Books) : Prop where
  functions_full : b.full.functions = full.functions
  functions_short : b.short.functions = short.functions
  in_step : ∀ level, (b.full.page level).keys = (b.short.page level).keys
  methods : ∀ c, ∀ f ∈ b.functionsOf.getD c [], classOf f = c ∧ f ∈ full.functions.keys
  listed : ∀ f, ∀ a ∈ b.argumentsOf.getD f [], (f, a) ∈ full.arguments.keys
  kept_full : ∀ k u, full.arguments.get? k = some u → b.full.arguments.get? k = some u
  kept_short : ∀ k u, short.arguments.get? k = some u → b.short.arguments.get? k = some u
  filed : ∀ e, ∀ r ∈ b.borrowings.getD e [], r.element = e ∧ Refers n full given r
  sources : ∀ level s a u v, (b.full.page level).get? (s, a) = some u → (b.short.page level).get? (s, a) = some v →
    ((Book.ofDocs full).page level).get? (s, a) = some u ∧ ((Book.ofDocs short).page level).get? (s, a) = some v ∨
    ∃ r, Refers n full given r ∧ r.level = level ∧ lengthen r.element = s ∧ Lends full short r a u v

/-- The books go on from others: the indexes stay, references are only added, and nothing that is there changes. -/
structure GoesOn (b b' : Books) : Prop where
  functionsOf : b'.functionsOf = b.functionsOf
  argumentsOf : b'.argumentsOf = b.argumentsOf
  borrowings : ∀ e, ∀ r ∈ b.borrowings.getD e [], r ∈ b'.borrowings.getD e []
  keeps : b.Keeps b'

theorem GoesOn.refl (b : Books) : b.GoesOn b := ⟨rfl, rfl, fun _ _ h => h, fun _ _ _ => ⟨id, id⟩⟩

theorem GoesOn.trans {c : Books} (h : b.GoesOn b') (h' : b'.GoesOn c) : b.GoesOn c where
  functionsOf := h'.functionsOf.trans h.functionsOf
  argumentsOf := h'.argumentsOf.trans h.argumentsOf
  borrowings := fun e r hr => h'.borrowings e r (h.borrowings e r hr)
  keeps := fun level k u =>
    ⟨fun hu => (h'.keeps level k u).1 ((h.keeps level k u).1 hu),
      fun hu => (h'.keeps level k u).2 ((h.keeps level k u).2 hu)⟩

theorem GoesOn.knows (h : b.GoesOn b') (hr : b.Knows r) : b'.Knows r := h.borrowings _ r hr

theorem mem_getD_addBorrowing (b : Books) (r x : Borrowing) (e : String) :
    x ∈ (b.addBorrowing r).borrowings.getD e [] ↔ x ∈ b.borrowings.getD e [] ∨ e = r.element ∧ x = r := by
  unfold addBorrowing Table.getD
  rw [Table.get?_alter]
  by_cases he : e = r.element
  · subst he
    rw [if_pos (by simp), Option.getD_some]
    split
    · next hmem =>
      have hmem' : r ∈ (b.borrowings.get? r.element).getD [] := by simpa [Table.getD] using hmem
      constructor
      · exact .inl
      · rintro (h | ⟨-, rfl⟩)
        · exact h
        · exact hmem'
    · simp [Table.getD]
  · simp [he]

section
variable {full short : Docs} {given : List Borrowing}

theorem Sound.complain (h : Sound n full short given b) (target shown what : String) :
    Sound n full short given (b.complain target shown what) :=
  ⟨h.functions_full, h.functions_short, h.in_step, h.methods, h.listed, h.kept_full, h.kept_short, h.filed, h.sources⟩

theorem goesOn_complain (b : Books) (target shown what : String) : b.GoesOn (b.complain target shown what) :=
  ⟨rfl, rfl, fun _ _ h => h, fun _ _ _ => ⟨id, id⟩⟩

theorem Sound.addBorrowing (h : Sound n full short given b) (hr : Refers n full given r) :
    Sound n full short given (b.addBorrowing r) := by
  refine ⟨h.functions_full, h.functions_short, h.in_step, h.methods, h.listed, h.kept_full, h.kept_short, ?_, h.sources⟩
  intro e x hx
  rcases (mem_getD_addBorrowing b r x e).1 hx with hx | ⟨rfl, rfl⟩
  · exact h.filed e x hx
  · exact ⟨rfl, hr⟩

theorem goesOn_addBorrowing (b : Books) (r : Borrowing) : b.GoesOn (b.addBorrowing r) :=
  ⟨rfl, rfl, fun e x hx => (mem_getD_addBorrowing b r x e).2 (.inl hx), fun _ _ _ => ⟨id, id⟩⟩

@[simp] theorem full_enter (b : Books) (level : Level) (k : String × String) (u v : String) :
    (b.enter level k u v).full = b.full.put level k u := rfl

@[simp] theorem short_enter (b : Books) (level : Level) (k : String × String) (u v : String) :
    (b.enter level k u v).short = b.short.put level k v := rfl

theorem Sound.goesOn_enter (h : Sound n full short given b) {level : Level} {k : String × String}
    (hnew : k ∉ (b.full.page level).keys) (u v : String) : b.GoesOn (b.enter level k u v) := by
  refine ⟨rfl, rfl, fun _ _ hr => hr, fun l x w => ⟨fun hw => ?_, fun hw => ?_⟩⟩
  · rw [full_enter, Book.get?_page_put, if_neg, hw]
    rintro ⟨rfl, rfl⟩
    exact hnew (Table.mem_keys_of_get? hw)
  · rw [short_enter, Book.get?_page_put, if_neg, hw]
    rintro ⟨rfl, rfl⟩
    rw [h.in_step] at hnew
    exact hnew (Table.mem_keys_of_get? hw)

theorem Sound.enter (h : Sound n full short given b) (hr : Refers n full given r) {level : Level}
    (hlevel : r.level = level) {source a u v : String} (hsource : lengthen r.element = source)
    (hlends : Lends full short r a u v) (hnew : (source, a) ∉ (b.full.page level).keys) :
    Sound n full short given (b.enter level (source, a) u v) := by
  have hkeeps := (h.goesOn_enter hnew u v).keeps .argument
  refine ⟨?_, ?_, fun l => ?_, h.methods, h.listed, fun k w hw => ?_, fun k w hw => ?_, h.filed, ?_⟩
  · rw [full_enter, Book.functions_put, h.functions_full]
  · rw [short_enter, Book.functions_put, h.functions_short]
  · rw [full_enter, short_enter, Book.keys_page_put, Book.keys_page_put, h.in_step l]
  · exact (hkeeps k w).1 (h.kept_full k w hw)
  · exact (hkeeps k w).2 (h.kept_short k w hw)
  · intro l s x w z hw hz
    rw [full_enter, Book.get?_page_put] at hw
    rw [short_enter, Book.get?_page_put] at hz
    by_cases hkey : l = level ∧ (s, x) = (source, a)
    · rw [if_pos hkey] at hw hz
      obtain ⟨rfl, heq⟩ := hkey
      obtain ⟨rfl, rfl⟩ := Prod.mk.inj heq
      obtain rfl := Option.some.inj hw
      obtain rfl := Option.some.inj hz
      exact .inr ⟨r, hr, hlevel, hsource, hlends⟩
    · rw [if_neg hkey] at hw hz
      exact h.sources l s x w z hw hz

/-! ## One reference -/

theorem take_eq {level : Level} {k : String × String} {found : Book → Except Fault String} {u v : String}
    (hu : found b.full = .ok u) (hv : found b.short = .ok v) : b.take level k found = .ok (b.enter level k u v) := by
  rw [take, hu, hv]
  rfl

theorem Sound.followSetter (h : Sound n full short given b) (hr : Refers n full given r)
    (hkind : r.kind = "property_as_keyword") (hlevel : r.level = .argument) {f p : String}
    (hf : f ∈ full.functions.keys) (howner : classOf f = lengthen r.target) (hp : propertyOf? f = some p) :
    Sound n full short given (b.followSetter n f r.element p) ∧ b.GoesOn (b.followSetter n f r.element p) := by
  refine List.foldlRecOn (motive := fun c => Sound n full short given c ∧ b.GoesOn c) _ _ ⟨h, .refl b⟩ ?_
  rintro c ⟨hc, hon⟩ r' hr'
  obtain ⟨helement, hrefers⟩ := h.filed _ r' hr'
  exact ⟨hc.addBorrowing (.followed hr hkind hlevel hf howner hp hrefers helement),
    hon.trans (goesOn_addBorrowing c _)⟩

variable (hdocs : Aligned full short)
include hdocs

/-- A setter that the books list has an utterance in both versions. -/
theorem Sound.exists_function (h : Sound n full short given b) {f : String} (hf : f ∈ full.functions.keys) :
    ∃ u v, full.functions.get? f = some u ∧ short.functions.get? f = some v ∧ b.full.function f = .ok u ∧
      b.short.function f = .ok v := by
  obtain ⟨u, hu⟩ := Table.exists_get?_of_mem_keys hf
  obtain ⟨v, hv⟩ := Table.exists_get?_of_mem_keys (hdocs.functions ▸ hf)
  refine ⟨u, v, hu, hv, ?_, ?_⟩
  · rw [Book.function, h.functions_full, hu, orFault]
  · rw [Book.function, h.functions_short, hv, orFault]

theorem Sound.exists_argument (h : Sound n full short given b) {k : String × String} (hk : k ∈ full.arguments.keys) :
    ∃ u v, full.arguments.get? k = some u ∧ short.arguments.get? k = some v ∧ b.full.argument k = .ok u ∧
      b.short.argument k = .ok v := by
  obtain ⟨u, hu⟩ := Table.exists_get?_of_mem_keys hk
  obtain ⟨v, hv⟩ := Table.exists_get?_of_mem_keys (hdocs.arguments ▸ hk)
  refine ⟨u, v, hu, hv, ?_, ?_⟩
  · rw [Book.argument, h.kept_full k u hu, orFault]
  · rw [Book.argument, h.kept_short k v hv, orFault]

theorem Sound.borrowProperties (h : Sound n full short given b) (hr : Refers n full given r)
    (hkind : r.kind = "property_as_keyword") {level : Level} (hlevel : r.level = level) {follow : Bool}
    (hfollow : follow = true → level = .argument) {source target : String} (hsource : lengthen r.element = source)
    (htarget : lengthen r.target = target) :
    ∃ c, b.borrowProperties n level follow source target r.element = .ok c ∧
      Sound n full short given c ∧ b.GoesOn c := by
  refine foldlM_goes_through (P := fun c => Sound n full short given c ∧ b.GoesOn c) ?_ ⟨h, .refl b⟩
  rintro c ⟨hc, hon⟩ f hf
  obtain ⟨howner, hdocumented⟩ := h.methods target f hf
  cases hp : propertyOf? f with
  | none => exact ⟨c, rfl, hc, hon⟩
  | some p =>
    by_cases hthere : (c.full.page level).contains (source, p) = true
    · exact ⟨c, by simp [hthere, Pure.pure, Except.pure], hc, hon⟩
    · obtain ⟨u, v, hu, hv, hfull, hshort⟩ := hc.exists_function hdocs hdocumented
      have hnew : (source, p) ∉ (c.full.page level).keys := fun hmem => hthere (Table.mem_keys_iff.1 hmem)
      have howner' : classOf f = lengthen r.target := howner.trans htarget.symm
      have hentered := hc.enter hr hlevel hsource (.property hkind howner' hp hu hv) hnew
      have hon' := hon.trans (hc.goesOn_enter hnew u v)
      have htake : c.take level (source, p) (·.function f) = .ok (c.enter level (source, p) u v) :=
        take_eq hfull hshort
      simp only [hthere, htake, Bool.false_eq_true, if_false, Bind.bind, Except.bind, Pure.pure, Except.pure]
      cases follow with
      | false => exact ⟨_, rfl, hentered, hon'⟩
      | true =>
        obtain ⟨hsound, hgoes⟩ :=
          hentered.followSetter hr hkind (hlevel.trans (hfollow rfl)) hdocumented howner' hp
        exact ⟨_, rfl, hsound, hon'.trans hgoes⟩

theorem Sound.borrowArguments (h : Sound n full short given b) (hr : Refers n full given r)
    (hkind : r.kind = "keyword_as_keyword") {level : Level} (hlevel : r.level = level) {source target : String}
    (hsource : lengthen r.element = source) (htarget : lengthen r.target = target) :
    ∃ c, b.borrowArguments level source target = .ok c ∧ Sound n full short given c ∧ b.GoesOn c := by
  refine foldlM_goes_through (P := fun c => Sound n full short given c ∧ b.GoesOn c) ?_ ⟨h, .refl b⟩
  rintro c ⟨hc, hon⟩ a hmem
  by_cases hthere : (c.full.page level).contains (source, a) = true
  · exact ⟨c, by rw [if_pos hthere]; rfl, hc, hon⟩
  · obtain ⟨u, v, hu, hv, hfull, hshort⟩ := hc.exists_argument hdocs (h.listed target a hmem)
    have hnew : (source, a) ∉ (c.full.page level).keys := fun hmem => hthere (Table.mem_keys_iff.1 hmem)
    rw [if_neg hthere, take_eq hfull hshort]
    subst htarget
    exact ⟨_, rfl, hc.enter hr hlevel hsource (.keyword hkind hu hv) hnew, hon.trans (hc.goesOn_enter hnew u v)⟩

theorem Sound.borrow (h : Sound n full short given b) (hr : b.Knows r) (first : Bool) :
    (∃ c, b.borrow n first r = .ok c ∧ Sound n full short given c ∧ b.GoesOn c) ∨
    r.kind ≠ "property_as_keyword" ∧ r.kind ≠ "keyword_as_keyword" ∧
      b.borrow n first r = .error (.broken r.kind) := by
  have hrefers := (h.filed _ r hr).2
  unfold Books.borrow
  by_cases hproperty : r.kind = "property_as_keyword"
  · refine .inl ?_
    rw [if_pos (by simpa using hproperty)]
    split
    · exact ⟨_, rfl, h.complain _ _ _, goesOn_complain b _ _ _⟩
    · exact h.borrowProperties hdocs hrefers hproperty rfl (by simp) rfl rfl
  · rw [if_neg (by simpa using hproperty)]
    by_cases hkeyword : r.kind = "keyword_as_keyword"
    · refine .inl ?_
      have hknown : ensure (r.kind == "keyword_as_keyword") r.kind = .ok () := by simp [ensure, hkeyword]
      rw [hknown]
      dsimp only [Bind.bind, Except.bind]
      split
      · exact ⟨_, rfl, h.complain _ _ _, goesOn_complain b _ _ _⟩
      · exact h.borrowArguments hdocs hrefers hkeyword rfl rfl rfl
    · have hunknown : ensure (r.kind == "keyword_as_keyword") r.kind = .error (.broken r.kind) := by
        simp [ensure, hkeyword]
      refine .inr ⟨hproperty, hkeyword, ?_⟩
      rw [hunknown]
      rfl

/-! ## Rounds -/

theorem Reached.sound {c : Books} (h : Sound n full short given b) (hc : Reached n b c) :
    Sound n full short given c ∧ b.GoesOn c := by
  induction hc with
  | start => exact ⟨h, .refl b⟩
  | @borrow c d r first _ hknown hgoes ih =>
    obtain ⟨hsound, hon⟩ := ih
    rcases hsound.borrow hdocs hknown first with ⟨e, he, hsound', hon'⟩ | ⟨-, -, hfails⟩
    · obtain rfl := Except.ok.inj (hgoes.symm.trans he)
      exact ⟨hsound', hon.trans hon'⟩
    · cases hgoes.symm.trans hfails

def Unknown (n : Normalizer) (b : Books) (fault : Fault) : Prop :=
  ∃ c r, Reached n b c ∧ c.Knows r ∧ r.kind ≠ "property_as_keyword" ∧ r.kind ≠ "keyword_as_keyword" ∧
    fault = .broken r.kind

theorem Sound.round {c : Books} (h : Sound n full short given b) (hc : Reached n b c) (first : Bool) :
    Yields (Reached n b) (Unknown n b) (c.round n first) := by
  refine Yields.foldlM (fun c hc element _ => ?_) hc
  obtain ⟨hsound, -⟩ := hc.sound hdocs h
  have hlist : Yields (fun d => Reached n b d ∧ c.GoesOn d) (Unknown n b)
      ((c.borrowings.getD element []).foldlM (Books.borrow n first) c) := by
    refine Yields.foldlM (fun d hd r hr => ?_) ⟨hc, .refl c⟩
    obtain ⟨hreached, hon⟩ := hd
    have hknown : c.Knows r := by rwa [Knows, (hsound.filed element r hr).1]
    replace hknown := hon.knows hknown
    rcases (hreached.sound hdocs h).1.borrow hdocs hknown first with ⟨e, he, -, hon'⟩ | ⟨hp, hk, hfails⟩
    · rw [he]
      exact ⟨.borrow first hreached hknown he, hon.trans hon'⟩
    · rw [hfails]
      exact ⟨d, r, hreached, hknown, hp, hk, rfl⟩
  exact hlist.imp fun _ hd => hd.1

theorem Sound.rounds (h : Sound n full short given b) : Yields (Reached n b) (Unknown n b) (b.rounds n) :=
  (h.round hdocs .start true).bind fun _ hc => (h.round hdocs hc false).bind fun _ hd => h.round hdocs hd false

theorem sound_start : Sound n full short given (Books.start full short given) := by
  refine List.foldlRecOn (motive := Sound n full short given) _ _ ?_ fun b hb r hr => hb.addBorrowing (.given hr)
  refine ⟨rfl, rfl, fun level => ?_, fun c f hf => ?_, fun f a ha => ?_, fun _ _ h => h, fun _ _ h => h, ?_, ?_⟩
  · cases level with
    | argument => exact hdocs.arguments
    | key => rfl
  · obtain ⟨g, hg, hclass, rfl⟩ := (Table.mem_getD_pushed classOf id).1 hf
    exact ⟨hclass, hg⟩
  · obtain ⟨⟨g, a⟩, hk, rfl, rfl⟩ := (Table.mem_getD_pushed Prod.fst Prod.snd).1 ha
    exact hk
  · exact fun e r hr => absurd hr List.not_mem_nil
  · exact fun level s a u v hu hv => .inl ⟨hu, hv⟩

end

end Books

/-! ## Both versions of one text -/

section
variable {κ : Type} [BEq κ]

theorem keys_settle {met : List (κ × String)} {t : Table κ String} (h : settle met = .ok t) :
    t.keys = (met.foldl (fun (t : Table κ Counter) e => t.alter e.1 .empty fun c => c.count e.2) .empty).keys := by
  obtain ⟨entries, hentries, h⟩ := bind_eq_ok h
  obtain rfl := Except.ok.inj h
  refine map_eq_of_mapM (fun e d hd => ?_) hentries
  obtain ⟨u, -, h⟩ := bind_eq_ok hd
  obtain rfl := Except.ok.inj h
  rfl

variable [LawfulBEq κ]

theorem keys_counted_congr {α : Type} (key : α → κ) (f g : α → String) (xs : List α) {t t' : Table κ Counter}
    (h : t.keys = t'.keys) :
    ((xs.map fun x => (key x, f x)).foldl (fun t e => t.alter e.1 .empty fun c => c.count e.2) t).keys =
    ((xs.map fun x => (key x, g x)).foldl (fun t e => t.alter e.1 .empty fun c => c.count e.2) t').keys := by
  induction xs generalizing t t' with
  | nil => exact h
  | cons x xs ih =>
    rw [List.map_cons, List.map_cons, List.foldl_cons, List.foldl_cons]
    apply ih
    rw [Table.alter, Table.alter, Table.keys_set, Table.keys_set, h]

theorem keys_settle_congr {α : Type} {key : α → κ} {f g : α → String} {xs : List α} {t t' : Table κ String}
    (ht : settle (xs.map fun x => (key x, f x)) = .ok t) (ht' : settle (xs.map fun x => (key x, g x)) = .ok t') :
    t.keys = t'.keys := by
  rw [keys_settle ht, keys_settle ht']
  exact keys_counted_congr key f g xs rfl

end

theorem aligned_readDocs {s : Sources} {r r' : DocsReading} {full short : Docs} (hfull : readDocs s r = .ok full)
    (hshort : readDocs s r' = .ok short) (hname : r.lastNameOnly = r'.lastNameOnly) : Aligned full short := by
  obtain ⟨fs, hfs, h⟩ := bind_eq_ok hfull
  obtain ⟨as, has, h⟩ := bind_eq_ok h
  obtain ⟨functions, hfunctions, h⟩ := bind_eq_ok h
  obtain ⟨arguments, harguments, h⟩ := bind_eq_ok h
  obtain rfl := Except.ok.inj h
  obtain ⟨fs', hfs', h'⟩ := bind_eq_ok hshort
  obtain ⟨as', has', h'⟩ := bind_eq_ok h'
  obtain ⟨functions', hfunctions', h'⟩ := bind_eq_ok h'
  obtain ⟨arguments', harguments', h'⟩ := bind_eq_ok h'
  obtain rfl := Except.ok.inj h'
  obtain rfl := Except.ok.inj (hfs.symm.trans hfs')
  obtain rfl := Except.ok.inj (has.symm.trans has')
  have hsame : r'.name = r.name := by
    funext x
    rw [DocsReading.name, DocsReading.name, hname]
  rw [hsame] at hfunctions' harguments'
  exact ⟨keys_settle_congr hfunctions hfunctions', keys_settle_congr harguments harguments'⟩

namespace Books

theorem start_full_short (full short : Docs) (given : List Borrowing) :
    (Books.start full short given).full = .ofDocs full ∧ (Books.start full short given).short = .ofDocs short :=
  List.foldlRecOn (motive := fun b : Books => b.full = .ofDocs full ∧ b.short = .ofDocs short) _ _ ⟨rfl, rfl⟩
    fun _ h _ _ => h

/-- In whatever order references are carried out, and all through the rounds, the full and the shortened tables have
the same keys, and what they hold never changes. Nothing that is looked up is missing: only a reference of unknown kind
fails. What is new has, in both tables, what its source holds at the start: a reference of the function or argument is
to a class with that setter, or to a function with that argument. -/
theorem versions_in_step {s : Sources} {full short : Docs}
    (hfull : readDocs s { lastNameOnly := false, shorten := false } = .ok full)
    (hshort : readDocs s { lastNameOnly := false, shorten := true } = .ok short) (n : Normalizer)
    (given : List Borrowing) :
    let start := Books.start full short given
    (∀ b, Reached n start b →
      (∀ level, (b.full.page level).keys = (b.short.page level).keys) ∧ (∀ c, Reached n b c → b.Keeps c) ∧
      (∀ r first, b.Knows r → (∃ c, b.borrow n first r = .ok c) ∨
        r.kind ≠ "property_as_keyword" ∧ r.kind ≠ "keyword_as_keyword" ∧
          b.borrow n first r = .error (.broken r.kind)) ∧
      ∀ level source a u, (b.full.page level).get? (source, a) = some u →
        ∃ v, (b.short.page level).get? (source, a) = some v ∧
          ((start.full.page level).get? (source, a) = some u ∧ (start.short.page level).get? (source, a) = some v ∨
            ∃ r, Refers n full given r ∧ r.level = level ∧ lengthen r.element = source ∧ Lends full short r a u v)) ∧
    Yields (Reached n start) (Unknown n start) (start.rounds n) := by
  intro start
  have hdocs : Aligned full short := aligned_readDocs hfull hshort rfl
  have hstart : Sound n full short given start := sound_start hdocs
  obtain ⟨hlong, hbrief⟩ := start_full_short full short given
  refine ⟨fun b hb => ?_, hstart.rounds hdocs⟩
  obtain ⟨hsound, -⟩ := hb.sound hdocs hstart
  refine ⟨hsound.in_step, fun c hc => (hc.sound hdocs hsound).2.keeps, fun r first hr => ?_, ?_⟩
  · rcases hsound.borrow hdocs hr first with ⟨c, hc, -⟩ | hfails
    · exact .inl ⟨c, hc⟩
    · exact .inr hfails
  · intro level source a u hu
    have hmem : (source, a) ∈ (b.short.page level).keys := hsound.in_step level ▸ Table.mem_keys_of_get? hu
    obtain ⟨v, hv⟩ := Table.exists_get?_of_mem_keys hmem
    rw [hlong, hbrief]
    exact ⟨v, hv, hsound.sources level source a u v hu hv⟩

/-- Titles are texts, and the box of a text is a patch. -/
def titleReferences : List Borrowing :=
  [⟨"title", "Text", "property_as_keyword"⟩, ⟨"Text.set_box", "Patch", "property_as_keyword"⟩]

def titleSources : Sources :=
  { Sources.shipped with functionDocs := "\nText.set_box,a box\nPatch.set_hatch,a b c d e f g h i j k l m n o p" }

def titleFull : Docs := ⟨⟨[("Text.set_box", "a box"), ("Patch.set_hatch", "a b c d e f g h i j k l m n o p")]⟩, .empty⟩

def titleShort : Docs := ⟨⟨[("Text.set_box", "a box"), ("Patch.set_hatch", "a b c d e f g h i j k l m n o")]⟩, .empty⟩

theorem versions_in_step_title :
    readDocs titleSources { lastNameOnly := false, shorten := false } = .ok titleFull ∧
    readDocs titleSources { lastNameOnly := false, shorten := true } = .ok titleShort ∧
    ∃ done, (Books.start titleFull titleShort titleReferences).rounds ⟨.empty, .empty, []⟩ = .ok done ∧
      done.full.keys.keys = [("title@box", "hatch")] ∧ done.short.keys.keys = [("title@box", "hatch")] := by
  have hfull : readDocs titleSources { lastNameOnly := false, shorten := false } = .ok titleFull := by rfl
  have hshort : readDocs titleSources { lastNameOnly := false, shorten := true } = .ok titleShort := by rfl
  obtain ⟨hreached, hrounds⟩ := versions_in_step hfull hshort ⟨.empty, .empty, []⟩ titleReferences
  have hkeys : ((Books.start titleFull titleShort titleReferences).rounds ⟨.empty, .empty, []⟩).map
      (fun b => b.full.keys.keys) = .ok [("title@box", "hatch")] := by
    rfl
  cases hrun : (Books.start titleFull titleShort titleReferences).rounds ⟨.empty, .empty, []⟩ with
  | error fault => rw [hrun] at hkeys; cases hkeys
  | ok done =>
    rw [hrun] at hkeys hrounds
    have hdone : done.full.keys.keys = [("title@box", "hatch")] := Except.ok.inj hkeys
    exact ⟨hfull, hshort, done, rfl, hdone, ((hreached done hrounds).1 .key).symm.trans hdone⟩

end Books

end Documentation
end PlotAdvisor
