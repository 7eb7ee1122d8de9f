import PlotAdvisor.Elements.Context
import PlotAdvisor.Proofs.PlainNames
import PlotAdvisor.Proofs.Simplify

/-! The normal forms of a call and of its arguments. Every id is brought into normal form on its own, and an entry of
the short forms is compared with whole parts of a path, `@` and all, so that a call and its argument can come out under
different functions. -/
set_option autoImplicit false

namespace PlotAdvisor.Elements

open Program Text Advice

/-! ## A new module -/

theorem begins_plain {f m p r : String} (hp : Plain p) (h : f ++ ("@" ++ m) = p ++ r) :
    ∃ q, f = p ++ q ∧ r = q ++ ("@" ++ m) := by
  have hchars : f.toList ++ '@' :: m.toList = p.toList ++ r.toList := by
    simpa using congrArg String.toList h
  rcases List.append_eq_append_iff.1 hchars with ⟨cs, hpf, hat⟩ | ⟨cs, hf, hr⟩
  · cases cs with
    | nil =>
      refine ⟨"", String.toList_injective (by simpa using hpf.symm), String.toList_injective ?_⟩
      simpa using hat.symm
    | cons d cs =>
      obtain ⟨rfl, -⟩ := List.cons.inj hat
      exact absurd (by simp [hpf]) hp
  · refine ⟨String.ofList cs, String.toList_injective (by simpa using hf), String.toList_injective ?_⟩
    simpa using hr

theorem fromInteractive_pylab (functions : List String) (r : String) :
    fromInteractive functions ("pylab" ++ "." ++ r) =
      if beforeAt (upTo '.' r) ∈ functions then "matplotlib.pyplot" ++ "." ++ r else "pylab" ++ "." ++ r := by
  obtain ⟨ps, hsplit, hjoin⟩ := splitOn_eq_cons dot_toList r
  unfold fromInteractive
  rw [splitOn_append dot_toList (by decide), hsplit]
  simp only [List.contains_iff_mem, join_cons_cons, hjoin, upTo_append_fromFirst]

/-- What stands in front of the first dot and the first `@` does not go into an argument. -/
theorem beforeAt_append (r m : String) : beforeAt (upTo '.' (r ++ ("@" ++ m))) = beforeAt (upTo '.' r) := by
  rw [beforeAt_eq, beforeAt_eq]
  apply String.toList_injective
  simp only [upTo, String.toList_append, String.toList_ofList]
  induction r.toList with
  | nil => simp
  | cons c cs ih =>
    by_cases hdot : c = '.'
    · simp [hdot]
    · by_cases hat : c = '@'
      · simp [hat]
      · simpa [hdot, hat] using ih

/-- A new module is put in front of a call and of its arguments alike. -/
theorem fromInteractive_argument (functions : List String) (f m : String) :
    fromInteractive functions (f ++ ("@" ++ m)) = fromInteractive functions f ++ ("@" ++ m) := by
  by_cases h : ∃ r, f = "pylab" ++ "." ++ r
  · obtain ⟨r, rfl⟩ := h
    rw [String.append_assoc, fromInteractive_pylab, fromInteractive_pylab, beforeAt_append]
    split <;> simp only [String.append_assoc]
  · have hcall : fromInteractive functions f = f := by
      refine (fromInteractive_cases functions f).resolve_right ?_
      rintro ⟨r, hr, -⟩
      exact h ⟨r, hr⟩
    rw [hcall]
    refine (fromInteractive_cases functions _).resolve_right ?_
    rintro ⟨r, hr, -⟩
    obtain ⟨q, hq, -⟩ := begins_plain (p := "pylab" ++ ".") (by decide) hr
    exact h ⟨q, hq⟩

/-! ## A short form -/

theorem longestBeginning_marked {t : Table String String} (ht : ∀ k v, t.get? k = some v → Plain k)
    (left : List String) {x : String} (hx : '@' ∈ x.toList) (ps : List String) :
    longestBeginning t (left ++ x :: ps) = longestBeginning t ps := by
  have hskip (part : String) (before : List String) (hmem : x ∈ part :: before) :
      longestBeginning t (part :: before) = longestBeginning t before := by
    rw [longestBeginning]
    cases hv : t.get? (join "." (part :: before).reverse) with
    | none => rfl
    | some v => exact absurd (mem_join (List.mem_reverse.2 hmem) hx) (ht _ v hv)
  induction left with
  | nil => exact hskip x ps (by simp)
  | cons part left ih =>
    rw [List.cons_append, hskip part _ (by simp), ih]

/-- The short form of the longest beginning that has one and is not the whole path. -/
def Normalizer.shortenBelow (n : Normalizer) (id : String) : String :=
  ((longestBeginning n.shortForms (splitOn id ".").reverse.tail).map fun found =>
    found.2 ++ String.ofList (id.toList.drop found.1.length)).getD id

theorem Normalizer.shorten_eq (n : Normalizer) (id : String) :
    n.shorten id = (n.shortForms.get? id).getD (n.shortenBelow id) := by
  obtain ⟨init, last, hsplit⟩ := exists_last_piece dot_toList id
  have hjoin : join "." (last :: init.reverse).reverse = id := by
    rw [List.reverse_cons, List.reverse_reverse, ← hsplit, join_splitOn dot_toList]
  unfold Normalizer.shorten Normalizer.shortenBelow
  rw [replaceBeginning_eq, hsplit, List.reverse_append, List.reverse_singleton, List.singleton_append, longestBeginning, hjoin,
    List.tail_cons]
  cases n.shortForms.get? id with
  | none => rfl
  | some v =>
    have hdrop : id.toList.drop id.length = [] := by simp [← String.length_toList]
    simp [hdrop]

theorem Normalizer.shorten_argument {n : Normalizer} (hn : ∀ k v, n.shortForms.get? k = some v → Plain k)
    (g m : String) : n.shorten (g ++ ("@" ++ m)) = n.shortenBelow g ++ ("@" ++ m) := by
  obtain ⟨init, last, hg⟩ := exists_last_piece dot_toList g
  obtain ⟨more, hm, -⟩ := splitOn_eq_cons dot_toList ("@" ++ m)
  have hfirst : '@' ∈ (last ++ upTo '.' ("@" ++ m)).toList := by simp [upTo]
  unfold Normalizer.shorten Normalizer.shortenBelow
  rw [replaceBeginning_eq, splitOn_append_last dot_toList hg hm, List.reverse_append, List.reverse_cons, List.append_assoc,
    List.singleton_append, longestBeginning_marked hn _ hfirst, hg, List.reverse_append, List.reverse_singleton,
    List.singleton_append, List.tail_cons]
  cases hl : longestBeginning n.shortForms init.reverse with
  | none => rfl
  | some found =>
    obtain ⟨path, v⟩ := found
    obtain ⟨left, ps, hinit, hps, hpath, -⟩ := longestBeginning_some _ _ _ _ hl
    obtain ⟨rest, hrest⟩ : ∃ rest, g = path ++ rest := by
      have hpieces : splitOn g "." = ps.reverse ++ (left.reverse ++ [last]) := by
        rw [hg, ← List.reverse_reverse init, hinit, List.reverse_append, List.append_assoc]
      refine ⟨"." ++ join "." (left.reverse ++ [last]), ?_⟩
      rw [← join_splitOn dot_toList g, hpieces, join_append "." _ _ (by simpa using hps) (by simp), ← hpath,
        String.append_assoc]
    rw [Option.map_some, Option.getD_some, Option.map_some, Option.getD_some, String.append_assoc]
    apply String.toList_injective
    simp [hrest, ← String.length_toList]

/-! ## A holder taken out -/

theorem plain_iff (s : String) : Plain s ↔ argumentPart s = "" := (fromFirst_eq_empty_iff '@' s).symm

theorem plain_plt {s : String} (h : Plain s) : Plain ("plt" ++ "." ++ s) :=
  (show Plain ("plt" ++ ".") by decide).append h

theorem IsMember.plain_tail {id holder member tail : String} (h : IsMember id holder member tail) (hid : Plain id) :
    Plain tail := by
  rw [plain_iff, ← argumentPart_of_member h, ← plain_iff]
  exact hid

theorem IsMember.plain {id holder member tail : String} (h : IsMember id holder member tail) :
    Plain ("plt" ++ "." ++ (holder ++ "." ++ member)) := by
  have hholders : ∀ x ∈ ["gca", "gcf", "figure"], Plain x := by decide
  have hholder : Plain holder := hholders holder h.holder_mem
  exact plain_plt ((hholder.append (by decide)).append h.no_at)

theorem IsMember.argument {id holder member tail : String} (h : IsMember id holder member tail) (m : String) :
    IsMember (id ++ ("@" ++ m)) holder member (tail ++ ("@" ++ m)) := by
  refine ⟨?_, h.holder_mem, h.no_dot, h.no_at, fun c hc => ?_⟩
  · simp only [h.eq, String.append_assoc]
  · rw [String.toList_append, List.head?_append] at hc
    cases htail : tail.toList.head? with
    | none => exact Or.inr (by simpa [htail, eq_comm] using hc)
    | some d => exact h.tail_begins c (by simpa [htail] using hc)

theorem IsMember.ofArgument {id m holder member tail : String} (h : IsMember (id ++ ("@" ++ m)) holder member tail) :
    ∃ rest, IsMember id holder member rest := by
  have heq : id ++ ("@" ++ m) = "plt" ++ "." ++ (holder ++ "." ++ member) ++ tail := by
    simp only [h.eq, String.append_assoc]
  obtain ⟨rest, hid, htail⟩ := begins_plain h.plain heq
  refine ⟨rest, ?_, h.holder_mem, h.no_dot, h.no_at, fun c hc => h.tail_begins c ?_⟩
  · simp only [hid, String.append_assoc]
  · simp [htail, hc]

theorem IsMember.member_unique {id holder member tail holder' member' tail' : String}
    (h : IsMember id holder member tail) (h' : IsMember id holder' member' tail') : member = member' := by
  have hrest : holder ++ "." ++ (member ++ tail) = holder' ++ "." ++ (member' ++ tail') :=
    (String.append_right_inj _).1 (h.eq.symm.trans h'.eq)
  have hholder : holder = holder' := by
    rw [← upTo_dot holder (member ++ tail) h.holder_no_dot, hrest, upTo_dot holder' _ h'.holder_no_dot]
  subst hholder
  have hname : member ++ tail = member' ++ tail' := (String.append_right_inj _).1 hrest
  rw [← h.name_eq, hname, h'.name_eq]

def DropsSetter (functions : List String) (id : String) : Prop :=
  ∃ holder g, IsMember id holder ("set_" ++ g) "" ∧ "set_" ++ g ∉ functions ∧ g ∈ functions

theorem two_dots_of_dropsSetter {functions : List String} {id : String} (h : DropsSetter functions id) :
    dots id = 2 := by
  obtain ⟨holder, g, hm, -, -⟩ := h
  exact dots_of_member hm

/-- The holder of a call and of its argument go alike, unless the argument has a dot and goes in part with `set_`. -/
theorem functionId_fromCurrent_iff (functions : List String) {id : String} (hid : Plain id) (m : String) :
    functionId (fromCurrent functions (id ++ ("@" ++ m))) = fromCurrent functions id ↔
      ¬ (DropsSetter functions id ∧ '.' ∈ m.toList) := by
  rcases fromCurrent_cases functions id with
    ⟨hstays, h⟩ | ⟨holder, member, tail, hm, hmem, h⟩ | ⟨holder, g, tail, hm, hset, hg, h⟩
  · have hargument : ¬ Movable functions (id ++ ("@" ++ m)) := by
      rintro ⟨holder, member, tail, hm, hf⟩
      obtain ⟨rest, hrest⟩ := hm.ofArgument
      exact hstays ⟨holder, member, rest, hrest, hf⟩
    have hno : ¬ DropsSetter functions id := by
      rintro ⟨holder, g, hm, -, hg⟩
      exact hstays ⟨holder, _, "", hm, Or.inr ⟨g, hg, rfl⟩⟩
    simp [h, (fromCurrent_eq_self_iff functions _).2 hargument, functionId_append hid, hno]
  · have hno : ¬ DropsSetter functions id := by
      rintro ⟨holder', g, hm', hset, -⟩
      exact hset (hm.member_unique hm' ▸ hmem)
    have hplain : Plain ("plt" ++ "." ++ (member ++ tail)) :=
      plain_plt (Plain.append hm.no_at (hm.plain_tail hid))
    have hargument : fromCurrent functions (id ++ ("@" ++ m)) =
        "plt" ++ "." ++ (member ++ tail) ++ ("@" ++ m) := by
      rw [fromCurrent_of_member (hm.argument m), if_pos hmem]
      simp only [String.append_assoc]
    rw [h, hargument, functionId_append hplain]
    simp [hno]
  · have htail : Plain tail := hm.plain_tail hid
    have hname : Plain g := fun hat => hm.no_at (by simp [hat])
    rw [h, fromCurrent_of_setter (hm.argument m) hset hg]
    cases hchars : tail.toList with
    | nil =>
      -- the argument goes up to its first dot, and what is left of it belongs to the function
      obtain rfl : tail = "" := String.toList_injective hchars
      have hdrops : DropsSetter functions id := ⟨holder, g, hm, hset, hg⟩
      have hplain : Plain ("plt" ++ "." ++ g) := plain_plt hname
      have hleft : fromFirst '.' ("" ++ ("@" ++ m)) = fromFirst '.' m := by
        rw [String.empty_append, fromFirst_append (by decide)]
      have hnone : fromFirst '.' "" = "" := rfl
      rw [hleft, hnone, ← String.append_assoc, ← String.append_assoc, String.append_empty, functionId_eq,
        upTo_append hplain, String.append_eq_left_iff, upTo_fromFirst_eq_empty_iff '@' '.' (by decide)]
      simp [hdrops]
    | cons c cs =>
      obtain rfl : c = '.' := by
        refine (hm.tail_begins c (by simp [hchars])).resolve_right ?_
        rintro rfl
        exact htail (by simp [hchars])
      have hdots : 0 < dots tail := by simp [dots, hchars]
      have hno : ¬ DropsSetter functions id := fun hdrops => by
        have htwo := two_dots_of_dropsSetter hdrops
        rw [dots_of_member hm] at htwo
        omega
      have hfrom (s : String) : fromFirst '.' (tail ++ s) = tail ++ s := by
        apply String.toList_injective
        simp [fromFirst, hchars]
      have hplain : Plain ("plt" ++ "." ++ (g ++ tail)) := plain_plt (hname.append htail)
      have hself : fromFirst '.' tail = tail := by simpa using hfrom ""
      rw [hfrom, hself, ← @String.append_assoc g, ← String.append_assoc, functionId_append hplain]
      simp [hno]

/-! ## The normal form of a call and of its arguments -/

theorem plain_simplify {n : Normalizer} (hn : HasShippedForms n) {id : String} (h : Plain id) :
    Plain (n.simplify id) := by
  have hbegin : argumentPart (n.shorten (fromInteractive n.functions id)) = "" := by
    rw [argumentPart_shortened hn, (plain_iff id).1 h]
  rw [plain_iff, Normalizer.simplify, ← hbegin, argumentPart_fromCurrent_iff]
  rintro ⟨holder, g, argument, hm, -, -⟩
  rw [argumentPart_of_member hm, ← plain_iff] at hbegin
  exact hbegin (by simp)

theorem not_member_of_few_dots {id : String} (h : dots id ≤ 1 ∨ upTo '.' id ≠ "plt") (holder member tail : String) :
    ¬ IsMember id holder member tail := by
  intro hm
  rcases h with h | h
  · rw [dots_of_member hm] at h
    omega
  · rw [hm.eq, upTo_dot "plt" _ (by decide)] at h
    exact h rfl

theorem fromCurrent_of_few_dots (functions : List String) {id : String} (h : dots id ≤ 1 ∨ upTo '.' id ≠ "plt") :
    fromCurrent functions id = id ∧ ¬ DropsSetter functions id := by
  have hno := not_member_of_few_dots h
  refine ⟨fromCurrent_of_no_member functions hno, ?_⟩
  rintro ⟨holder, g, hm, -⟩
  exact hno holder ("set_" ++ g) "" hm

/-- In front of an argument a path that has a short form is shortened to another path. Only a few of these are
members of the current figure, and of those only `gca` can be moved to the short form. -/
theorem shortenBelow_shippedRows (functions : List String) :
    ∀ row ∈ shippedRows, let below := (shippedWith functions).shortenBelow row.1
      dots row.2 ≤ 1 ∧ Plain below ∧
      ((dots below ≤ 1 ∨ upTo '.' below ≠ "plt") ∧ below ≠ row.2 ∧ row.1 ≠ "matplotlib.pyplot.figure.gca" ∨
        ∃ holder ∈ ["gcf", "figure"], ∃ member ∈ ["add_axes", "add_subplot", "gca"],
          below = "plt" ++ "." ++ (holder ++ "." ++ (member ++ "")) ∧ row.2 = "plt.gca" ∧
            (row.1 = "matplotlib.pyplot.figure.gca" ↔ member = "gca")) := by
  have hsame (row : String × String) :
      (shippedWith functions).shortenBelow row.1 = (shippedWith []).shortenBelow row.1 := rfl
  simp only [hsame]
  decide +kernel

theorem fromCurrent_shortenBelow {n : Normalizer} (hn : HasShippedForms n) {row : String × String}
    (hrow : row ∈ shippedRows) :
    Plain (n.shortenBelow row.1) ∧ ¬ DropsSetter n.functions (n.shortenBelow row.1) ∧
    (fromCurrent n.functions (n.shortenBelow row.1) = fromCurrent n.functions row.2 ↔
      row.1 = "matplotlib.pyplot.figure.gca" ∧ "gca" ∈ n.functions) := by
  have hbelow : n.shortenBelow row.1 = (shippedWith n.functions).shortenBelow row.1 := by
    unfold Normalizer.shortenBelow
    rw [(hasShippedForms_iff n).1 hn, shippedWith]
  obtain ⟨hfew, hplain, hcases⟩ := shortenBelow_shippedRows n.functions row hrow
  rw [← hbelow] at hplain hcases
  rw [(fromCurrent_of_few_dots n.functions (Or.inl hfew)).1]
  refine ⟨hplain, ?_⟩
  rcases hcases with ⟨hno, hne, hgca⟩ | ⟨holder, hholder, member, hmember, hb, hv, hgca⟩
  · obtain ⟨hself, hdrops⟩ := fromCurrent_of_few_dots n.functions hno
    exact ⟨hdrops, by simp [hself, hne, hgca]⟩
  · have hholders : ∀ x ∈ ["gcf", "figure"], x ∈ ["gca", "gcf", "figure"] := by decide
    have hmembers : ∀ x ∈ ["add_axes", "add_subplot", "gca"], '.' ∉ x.toList ∧ '@' ∉ x.toList ∧
        Chars.dropStart? "set_".toList x.toList = none ∧ ("plt" ++ "." ++ (x ++ "") = "plt.gca" ↔ x = "gca") := by
      decide
    obtain ⟨hdot, hat, hset, hplt⟩ := hmembers member hmember
    have hm : IsMember (n.shortenBelow row.1) holder member "" :=
      ⟨hb, hholders holder hholder, hdot, hat, by simp⟩
    have hstays : n.shortenBelow row.1 ≠ "plt.gca" := fun heq => by
      have htwo := dots_of_member hm
      rw [heq] at htwo
      exact absurd htwo (by decide)
    constructor
    · rintro ⟨holder', g, hm', -, -⟩
      rw [hm.member_unique hm', dropStart?_set] at hset
      exact nomatch hset
    · rw [fromCurrent_of_member hm, hset, hv, hgca]
      by_cases hmem : member ∈ n.functions
      · rw [if_pos hmem, hplt]
        exact ⟨fun h => ⟨h, h ▸ hmem⟩, And.left⟩
      · rw [if_neg hmem]
        exact ⟨fun h => absurd h hstays, fun h => absurd (h.1 ▸ h.2) hmem⟩

/-- An argument of a call that the short forms or the setters part from its call: the path of the call has a short
form of its own, or it names a setter and the argument has a dot. -/
def Torn (n : Normalizer) (id : String) : Prop :=
  ∃ m, id = functionId id ++ ("@" ++ m) ∧
    let f := fromInteractive n.functions (functionId id)
    (f ∈ shippedRows.map Prod.fst ∧ ¬ (f = "matplotlib.pyplot.figure.gca" ∧ "gca" ∈ n.functions) ∨
      DropsSetter n.functions (n.shorten f) ∧ '.' ∈ m.toList)

theorem exists_argument {id : String} (h : ¬ Plain id) : ∃ m, id = functionId id ++ ("@" ++ m) := by
  have hpart : fromFirst '@' id ≠ "" := fun hnone => h ((plain_iff id).2 hnone)
  cases hchars : (fromFirst '@' id).toList with
  | nil => exact absurd (String.toList_injective hchars) hpart
  | cons c cs =>
    obtain rfl : c = '@' := eq_of_head?_fromFirst (s := id) (by simp [hchars])
    refine ⟨String.ofList cs, ?_⟩
    have hfrom : fromFirst '@' id = "@" ++ String.ofList cs := String.toList_injective (by simp [hchars])
    rw [functionId_eq, ← hfrom, upTo_append_fromFirst]

theorem get?_shortForms_of_mem {n : Normalizer} (hn : HasShippedForms n) {row : String × String}
    (h : row ∈ shippedRows) : n.shortForms.get? row.1 = some row.2 := by
  have hall : ∀ row ∈ shippedRows, (Table.ofList shippedRows).get? row.1 = some row.2 := by decide +kernel
  rw [(hasShippedForms_iff n).1 hn, hall row h]

theorem get?_shortForms_of_notMem {n : Normalizer} (hn : HasShippedForms n) {f : String}
    (h : f ∉ shippedRows.map Prod.fst) : n.shortForms.get? f = none := by
  cases hv : n.shortForms.get? f with
  | none => rfl
  | some v => exact absurd (List.mem_map.2 ⟨(f, v), mem_shippedRows hn hv, rfl⟩) h

theorem functionId_simplify_iff {n : Normalizer} (hn : HasShippedForms n) (id : String) :
    functionId (n.simplify id) = n.simplify (functionId id) ↔ ¬ Torn n id := by
  by_cases hid : Plain id
  · rw [functionId_plain (plain_simplify hn hid), functionId_plain hid]
    refine ⟨fun _ => ?_, fun _ => rfl⟩
    rintro ⟨m, hm, -⟩
    rw [hm] at hid
    exact hid (by simp)
  obtain ⟨m, hm⟩ := exists_argument hid
  have hkeys : ∀ k v, n.shortForms.get? k = some v → Plain k := by
    intro k v hv
    have hrows : ∀ row ∈ shippedRows, Plain row.1 := by decide +kernel
    exact hrows (k, v) (mem_shippedRows hn hv)
  have hcall : Plain (functionId id) := notMem_functionId id
  generalize hf : functionId id = f at hm hcall
  have hg : Plain (fromInteractive n.functions f) := by
    rw [plain_iff, argumentPart_fromInteractive, ← plain_iff]
    exact hcall
  have hargument : n.simplify id =
      fromCurrent n.functions (n.shortenBelow (fromInteractive n.functions f) ++ ("@" ++ m)) := by
    rw [hm, Normalizer.simplify, fromInteractive_argument, Normalizer.shorten_argument hkeys]
  have htorn : Torn n id ↔ (fromInteractive n.functions f ∈ shippedRows.map Prod.fst ∧
        ¬ (fromInteractive n.functions f = "matplotlib.pyplot.figure.gca" ∧ "gca" ∈ n.functions) ∨
      DropsSetter n.functions (n.shorten (fromInteractive n.functions f)) ∧ '.' ∈ m.toList) := by
    rw [Torn, hf]
    constructor
    · rintro ⟨m', hm', h⟩
      obtain rfl : m = m' := by
        have hsame : f ++ "@" ++ m = f ++ "@" ++ m' := by
          rw [String.append_assoc, String.append_assoc, ← hm, hm']
        exact (String.append_right_inj _).1 hsame
      exact h
    · exact fun h => ⟨m, hm, h⟩
  rw [htorn, hargument, Normalizer.simplify, Normalizer.shorten_eq]
  generalize fromInteractive n.functions f = g at hg
  by_cases hkey : g ∈ shippedRows.map Prod.fst
  · obtain ⟨row, hrow, rfl⟩ := List.mem_map.1 hkey
    have hentry : n.shortForms.get? row.1 = some row.2 := get?_shortForms_of_mem hn hrow
    obtain ⟨hbelow, hdrops, hsame⟩ := fromCurrent_shortenBelow hn hrow
    have hcallee := (functionId_fromCurrent_iff n.functions hbelow m).2 fun h => hdrops h.1
    have hfew := (shortenBelow_shippedRows n.functions row hrow).1
    have hvalue := (fromCurrent_of_few_dots n.functions (Or.inl hfew)).2
    rw [hentry, Option.getD_some, hcallee, hsame]
    simp only [hkey, hvalue, true_and, false_and, or_false, not_not]
  · have hentry : n.shortForms.get? g = none := get?_shortForms_of_notMem hn hkey
    have hbelow : Plain (n.shortenBelow g) := by
      have hshort := argumentPart_shorten hn g
      rw [Normalizer.shorten_eq, hentry, Option.getD_none, (plain_iff g).1 hg, ← plain_iff] at hshort
      exact hshort
    rw [hentry, Option.getD_none, functionId_fromCurrent_iff n.functions hbelow]
    simp only [hkey, false_and, false_or]

/-! ## The used elements of a program -/

/-- Among the used elements of a program is the function of each of them exactly when it is there for those whose
call has another normal form; and these are the arguments that are torn from their call. -/
theorem used_closed_iff (n : Normalizer) (hn : HasShippedForms n) (earlier : List Tree) (program : Tree)
    (h : ∀ p ∈ program :: earlier, p.PlainNames) :
    let names := (Extractor.after {} earlier).names
    let uses := (extract false names program).2
    let used := (Context.ofTree n names program).1.used
    ((∀ id ∈ used, functionId id ∈ used) ↔
      ∀ u ∈ uses, Torn n u.id → functionId (n.simplify u.id) ∈ used) ∧
    ∀ u ∈ uses, functionId (n.simplify u.id) = n.simplify (functionId u.id) ↔ ¬ Torn n u.id := by
  intro names uses used
  have hnames : PlainTable names := Extractor.plainTable_after earlier fun p hp => h p (by simp [hp])
  have hused : used = uses.map fun u => n.simplify u.id := by
    simp [used, uses, Context.ofTree, Context.used, Function.comp_def]
  refine ⟨⟨fun hclosed u hu _ => ?_, fun htorn id hid => ?_⟩, fun u _ => functionId_simplify_iff hn u.id⟩
  · exact hclosed _ (hused ▸ List.mem_map.2 ⟨u, hu, rfl⟩)
  · rw [hused] at hid
    obtain ⟨u, hu, rfl⟩ := List.mem_map.1 hid
    by_cases ht : Torn n u.id
    · exact htorn u hu ht
    · obtain ⟨w, hw, hid⟩ := functionId_mem_extract hnames (h program (by simp)) hu
      rw [(functionId_simplify_iff hn u.id).2 ht, ← hid, hused]
      exact List.mem_map.2 ⟨w, hw, rfl⟩

theorem used_closed_iff_grid :
    let n := shippedWith ["bar"]
    let names := (Extractor.after {} [Extractor.rebinding]).names
    let used := (Context.ofTree n names Extractor.calling).1.used
    HasShippedForms n ∧ (∀ p ∈ [Extractor.calling, Extractor.rebinding], p.PlainNames) ∧
      used = ["f.g", "f.g@0"] ∧ ∀ id ∈ used, functionId id ∈ used := by
  intro n names used
  have hn : HasShippedForms n := (hasShippedForms_iff n).2 rfl
  have hplain : ∀ p ∈ [Extractor.calling, Extractor.rebinding], p.PlainNames := by decide +kernel
  have hsame : ∀ u ∈ (extract false names Extractor.calling).2,
      functionId (n.simplify u.id) = n.simplify (functionId u.id) := by decide +kernel
  have hclosed := used_closed_iff n hn [Extractor.rebinding] Extractor.calling hplain
  refine ⟨hn, hplain, by decide +kernel, hclosed.1.2 fun u hu htorn => ?_⟩
  exact absurd htorn ((hclosed.2 u hu).1 (hsame u hu))

def callingSubplot : Tree :=
  let call : Tree := .node "Call" (Extractor.range 0 10) [
    ("func", Extractor.nameNode "subplot" "Load" 0 7),
    ("args", .list [.node "Constant" (Extractor.range 8 9) [("value", .lit (.int 1)), ("kind", .lit .none)]]),
    ("keywords", .list [])]
  .node "Module" none [
    ("body", .list [.node "Expr" (Extractor.range 0 10) [("value", call)]]), ("type_ignores", .list [])]

/-- With the short forms and functions that come with the library, the argument of `subplot(1)` is used and its
function is not. -/
theorem argument_used_without_function :
    ∃ n, Normalizer.ofSources Knowledge.Sources.shipped = .ok n ∧
      let used := (Context.ofTree n (Extractor.after {} []).names callingSubplot).1.used
      used = ["plt.gca", "plt.subplot@0"] ∧ functionId "plt.subplot@0" = "plt.subplot" ∧ "plt.subplot" ∉ used := by
  obtain ⟨n, hn, hforms, -⟩ := ofSources_shipped
  have hids : ((extract false (Extractor.after {} []).names callingSubplot).2.map Use.id) =
      ["matplotlib.pyplot.subplot", "matplotlib.pyplot.subplot@0"] := by decide +kernel
  have hrow : ("matplotlib.pyplot.subplot", "plt.gca") ∈ shippedRows := by decide
  have hcall : n.simplify "matplotlib.pyplot.subplot" = "plt.gca" := by
    rw [Normalizer.simplify, fromInteractive_of_first_ne _ (by decide), Normalizer.shorten_eq,
      get?_shortForms_of_mem hforms hrow, Option.getD_some, (fromCurrent_of_few_dots n.functions (by decide)).1]
  have hargument : n.simplify "matplotlib.pyplot.subplot@0" = "plt.subplot@0" := by
    have hshort : n.shorten "matplotlib.pyplot.subplot@0" = "plt.subplot@0" := by
      unfold Normalizer.shorten
      rw [(hasShippedForms_iff n).1 hforms]
      decide +kernel
    rw [Normalizer.simplify, fromInteractive_of_first_ne _ (by decide), hshort,
      (fromCurrent_of_few_dots n.functions (by decide)).1]
  have hused : (Context.ofTree n (Extractor.after {} []).names callingSubplot).1.used =
      ["plt.gca", "plt.subplot@0"] := by
    calc (Context.ofTree n (Extractor.after {} []).names callingSubplot).1.used
      _ = ((extract false (Extractor.after {} []).names callingSubplot).2.map Use.id).map n.simplify := by
        simp [Context.ofTree, Context.used, Function.comp_def]
      _ = ["plt.gca", "plt.subplot@0"] := by rw [hids, List.map_cons, List.map_singleton, hcall, hargument]
  refine ⟨n, hn, hused, by decide, ?_⟩
  rw [hused]
  decide

end PlotAdvisor.Elements
