import Mathlib.Data.List.DropRight
import PlotAdvisor.Forum.Goals
import PlotAdvisor.Proofs.Separators

/-! Which characters of a title stay in its goal. Asking words are taken out of a title one after another, wherever they
stand. The same is done here with characters that know their places.

* `withoutAsking_toList` - the characters that stay are those of the goal.
* `kept_block` - characters that stand together stay together if no asking word begins between them.
* `AsksOnce.withoutAsking` - the goal of a title that asks at its beginning only.
-/
set_option autoImplicit false

namespace PlotAdvisor.Forum

open Text

/-! ## Characters with their places -/

structure Placed where
  char : Char
  place : Nat

/-- Places do not count when characters are compared. -/
instance : BEq Placed := ⟨fun a b => a.char == b.char⟩

def placed (n : Nat) : List Char → List Placed
  | [] => []
  | c :: cs => ⟨c, n⟩ :: placed (n + 1) cs

namespace Placed

def blank (p : Placed) : Bool := isBlank p.char

theorem beq_char (a b : Placed) : (a.char == b.char) = (a == b) := rfl

end Placed

theorem map_char_placed (n : Nat) (cs : List Char) : (placed n cs).map Placed.char = cs := by
  induction cs generalizing n with
  | nil => rfl
  | cons c cs ih => rw [placed, List.map_cons, ih]

theorem placed_ne_nil {n : Nat} {cs : List Char} (h : cs ≠ []) : placed n cs ≠ [] := by
  obtain ⟨c, cs, rfl⟩ := List.exists_cons_of_ne_nil h
  exact List.cons_ne_nil _ _

theorem length_placed (n : Nat) (cs : List Char) : (placed n cs).length = cs.length := by
  rw [← List.length_map Placed.char, map_char_placed]

theorem placed_append (n : Nat) (xs ys : List Char) :
    placed n (xs ++ ys) = placed n xs ++ placed (n + xs.length) ys := by
  induction xs generalizing n with
  | nil => rfl
  | cons x xs ih =>
    rw [List.cons_append, placed, placed, ih, List.length_cons, List.cons_append]
    congr 3
    omega

theorem le_place {n : Nat} {cs : List Char} {p : Placed} (h : p ∈ placed n cs) : n ≤ p.place := by
  induction cs generalizing n with
  | nil => cases h
  | cons c cs ih =>
    rcases List.mem_cons.1 h with rfl | h
    · exact Nat.le_refl n
    · have := ih h
      omega

theorem ordered_placed (n : Nat) (cs : List Char) : (placed n cs).Pairwise fun p q => p.place < q.place := by
  induction cs generalizing n with
  | nil => exact .nil
  | cons c cs ih =>
    refine .cons (fun p hp => ?_) (ih (n + 1))
    have := le_place hp
    show n < p.place
    omega

theorem nodup_placed (n : Nat) (cs : List Char) : (placed n cs).Nodup := by
  refine (ordered_placed n cs).imp fun {p q} hlt => ?_
  rintro rfl
  omega

theorem map_char_of_placed_eq {cs : List Char} {before rest : List Placed} {p : Placed}
    (h : placed 0 cs = before ++ p :: rest) : (p :: rest).map Placed.char = cs.drop p.place := by
  have hchars : cs = before.map Placed.char ++ (p :: rest).map Placed.char := by
    rw [← List.map_append, ← h, map_char_placed]
  have hplaced := placed_append 0 (before.map Placed.char) ((p :: rest).map Placed.char)
  rw [← hchars, h] at hplaced
  obtain ⟨-, hrest⟩ := List.append_inj hplaced (by rw [length_placed, List.length_map])
  obtain ⟨hp, -⟩ := List.cons.inj hrest
  have hplace : p.place = (before.map Placed.char).length := by
    rw [hp]
    simp
  rw [hplace]
  conv_rhs => rw [hchars, List.drop_left]

/-! ## Blanks at the ends -/

def pared (ps : List Placed) : List Placed := (ps.dropWhile Placed.blank).rdropWhile Placed.blank

theorem pared_sublist (ps : List Placed) : (pared ps).Sublist ps :=
  (List.rdropWhile_prefix Placed.blank _).sublist.trans (List.dropWhile_sublist Placed.blank)

theorem map_char_rdropWhile (ps : List Placed) :
    (ps.rdropWhile Placed.blank).map Placed.char = Chars.trimEnd (ps.map Placed.char) := by
  rw [Chars.trimEnd, ← List.map_reverse, List.dropWhile_map, ← List.map_reverse]
  rfl

theorem map_char_pared (ps : List Placed) : (pared ps).map Placed.char = Chars.trim (ps.map Placed.char) := by
  rw [pared, map_char_rdropWhile, Chars.trim, Chars.trimStart, List.dropWhile_map]
  rfl

def Ended (ps : List Placed) : Prop := ps.rdropWhile Placed.blank = ps

theorem ended_iff {ps : List Placed} : Ended ps ↔ ∀ hne : ps ≠ [], ¬ (ps.getLast hne).blank :=
  List.rdropWhile_eq_self_iff

theorem Ended.rdropWhile_append {xs ys : List Placed} (h : Ended xs) :
    (xs ++ ys).rdropWhile Placed.blank = xs ++ ys.rdropWhile Placed.blank := by
  unfold Ended List.rdropWhile at h
  unfold List.rdropWhile
  rw [List.reverse_append, List.dropWhile_append]
  split
  · next hempty => rw [h, List.isEmpty_iff.1 hempty, List.reverse_nil, List.append_nil]
  · rw [List.reverse_append, List.reverse_reverse]

theorem placed_trimEnd (cs : List Char) : placed 0 (Chars.trimEnd cs) = (placed 0 cs).rdropWhile Placed.blank := by
  have hchars := map_char_rdropWhile (placed 0 cs)
  rw [map_char_placed] at hchars
  have hwhole : placed 0 (Chars.trimEnd cs) <+: placed 0 cs := by
    obtain ⟨rest, hrest⟩ : Chars.trimEnd cs <+: cs := List.rdropWhile_prefix isBlank cs
    nth_rewrite 2 [← hrest]
    rw [placed_append]
    exact List.prefix_append _ _
  have hlength : (placed 0 (Chars.trimEnd cs)).length = ((placed 0 cs).rdropWhile Placed.blank).length := by
    rw [length_placed, ← hchars, List.length_map]
  exact (List.prefix_of_prefix_length_le hwhole (List.rdropWhile_prefix _ _) hlength.le).eq_of_length hlength

theorem exists_block {x : Placed} (hx : x.blank = false) (rest : List Placed) : ∃ block after, rest = block ++ after ∧
    Ended (x :: block) ∧ ∀ p ∈ after, p.blank = true := by
  refine ⟨rest.rdropWhile Placed.blank, rest.rtakeWhile Placed.blank, List.rdropWhile_append_rtakeWhile.symm, ?_,
    fun p hp => List.mem_rtakeWhile_imp hp⟩
  have hone : Ended [x] := ended_iff.2 fun _ => by simp [hx]
  unfold Ended
  rw [← List.singleton_append, hone.rdropWhile_append, List.rdropWhile_idempotent]

theorem Ended.append {x : Placed} {block : List Placed} (h : Ended (x :: block)) (front : List Placed) :
    Ended (front ++ x :: block) := by
  rw [ended_iff] at h ⊢
  intro hne
  rw [List.getLast_append_of_ne_nil _ (List.cons_ne_nil x block)]
  exact h (List.cons_ne_nil x block)

theorem mem_rdropWhile {ps : List Placed} {p : Placed} (hp : p ∈ ps) (hblank : p.blank = false) :
    p ∈ ps.rdropWhile Placed.blank := by
  rw [← List.rdropWhile_append_rtakeWhile (p := Placed.blank) (l := ps), List.mem_append] at hp
  rcases hp with hp | hp
  · exact hp
  · rw [List.mem_rtakeWhile_imp hp] at hblank
    cases hblank

theorem pared_block {before block after : List Placed} {x : Placed}
    (hnodup : (before ++ x :: (block ++ after)).Nodup) (hend : Ended (x :: block))
    (hx : x ∈ pared (before ++ x :: (block ++ after))) :
    ∃ before', pared (before ++ x :: (block ++ after)) = before' ++ x :: (block ++ after.rdropWhile Placed.blank) := by
  have hstart : x ∈ (before ++ x :: (block ++ after)).dropWhile Placed.blank :=
    (List.rdropWhile_prefix Placed.blank _).subset hx
  obtain ⟨front, hfront⟩ : ∃ front, (before ++ x :: (block ++ after)).dropWhile Placed.blank =
      front ++ x :: block ++ after := by
    rw [List.dropWhile_append] at hstart ⊢
    split at hstart
    · next hempty =>
      rw [if_pos hempty]
      cases hblank : x.blank with
      | true =>
        rw [List.dropWhile_cons_of_pos hblank] at hstart
        have hin := (List.dropWhile_sublist Placed.blank).subset hstart
        exact absurd hin (List.nodup_cons.1 (List.nodup_append.1 hnodup).2.1).1
      | false => exact ⟨[], by rw [List.dropWhile_cons_of_neg (by simp [hblank])]; rfl⟩
    · next hempty => exact ⟨_, by rw [if_neg hempty, List.append_assoc]; rfl⟩
  refine ⟨front, ?_⟩
  rw [pared, hfront, (hend.append front).rdropWhile_append, List.append_assoc]
  rfl

theorem startsWith_placed_iff {w : String} {ps : List Placed} :
    Chars.startsWith (placed 0 w.toList) ps = false ↔ ¬ w.toList <+: ps.map Placed.char := by
  rw [← Chars.startsWith_map Placed.beq_char, map_char_placed, Chars.startsWith_eq_false_iff]

/-! ## Taking words out -/

/-- A text without a word and without blanks around it. -/
def stripped (t w : String) : String := Text.trim (Text.replace t w "")

theorem withoutAsking_eq (s : String) : withoutAsking s = askingWords.foldl stripped s := rfl

def leaving (ps : List Placed) (w : String) : List Placed := pared (Chars.replace (placed 0 w.toList) [] ps)

def kept (s : String) : List Placed := askingWords.foldl leaving (placed 0 s.toList)

theorem leaving_sublist {w : String} (hw : w.toList ≠ []) (ps : List Placed) : (leaving ps w).Sublist ps :=
  (pared_sublist _).trans (Chars.replace_sublist (placed_ne_nil hw) ps)

theorem leaving_words_sublist {ws : List String} (hws : ∀ w ∈ ws, w.toList ≠ []) (ps : List Placed) :
    (ws.foldl leaving ps).Sublist ps := by
  induction ws generalizing ps with
  | nil => exact .refl ps
  | cons w ws ih =>
    rw [List.forall_mem_cons] at hws
    exact (ih hws.2 _).trans (leaving_sublist hws.1 ps)

theorem map_char_leaving {w : String} (hw : w.toList ≠ []) {ps : List Placed} {t : String}
    (h : ps.map Placed.char = t.toList) :
    (leaving ps w).map Placed.char = (stripped t w).toList := by
  have hreplace : (Chars.replace (placed 0 w.toList) [] ps).map Placed.char = _ :=
    Chars.replace_map Placed.beq_char (placed_ne_nil hw) ps
  rw [map_char_placed, h] at hreplace
  rw [leaving, map_char_pared, hreplace, stripped, Text.trim, Text.replace, String.toList_ofList, String.toList_ofList]
  rfl

theorem map_char_leaving_words {ws : List String} (hws : ∀ w ∈ ws, w.toList ≠ []) {ps : List Placed} {t : String}
    (h : ps.map Placed.char = t.toList) : (ws.foldl leaving ps).map Placed.char = (ws.foldl stripped t).toList := by
  induction ws generalizing ps t with
  | nil => exact h
  | cons w ws ih =>
    rw [List.forall_mem_cons] at hws
    rw [List.foldl_cons, List.foldl_cons, ih hws.2 (map_char_leaving hws.1 h)]

/-! ## Asking words -/

def askingMarks : List String := ["how", "do i have to"]

def Asks (cs : List Char) : Prop := ∃ m ∈ askingMarks, m.toList <:+: cs

instance (cs : List Char) : Decidable (Asks cs) := inferInstanceAs (Decidable (∃ m ∈ askingMarks, m.toList <:+: cs))

theorem Asks.mono {cs ds : List Char} (hin : cs <:+: ds) (h : Asks cs) : Asks ds := by
  obtain ⟨m, hm, hcs⟩ := h
  exact ⟨m, hm, hcs.trans hin⟩

theorem not_asks_drop {cs : List Char} (h : ¬ Asks (cs.drop 1)) {n : Nat} (hn : n ≠ 0) : ¬ Asks (cs.drop n) := by
  have hdrop : cs.drop n = (cs.drop 1).drop (n - 1) := by
    rw [List.drop_drop]
    congr 1
    omega
  rw [hdrop]
  exact fun hin => h (hin.mono (List.drop_suffix _ _).isInfix)

theorem askingWords_begun : ∀ w ∈ askingWords, w.toList.head?.map isBlank = some false := by decide

theorem askingWords_ended : ∀ w ∈ askingWords, w.toList.getLast?.map isBlank = some false := by decide

theorem prefix_of_prefix_blanks {w : String} (hw : w ∈ askingWords) {cs bs : List Char}
    (hbs : ∀ c ∈ bs, isBlank c = true) (h : w.toList <+: cs ++ bs) : w.toList <+: cs := by
  rcases List.prefix_or_prefix_of_prefix h (List.prefix_append cs bs) with hshort | ⟨more, hmore⟩
  · exact hshort
  · rw [← hmore, List.prefix_append_right_inj] at h
    rcases List.eq_nil_or_concat' more with rfl | ⟨more, z, rfl⟩
    · rw [← hmore, List.append_nil]
    · have hz : isBlank z = false := by simpa [← hmore] using askingWords_ended w hw
      rw [hbs z (h.subset (by simp))] at hz
      cases hz

theorem askingWords_ne_nil : ∀ w ∈ askingWords, w.toList ≠ [] := by
  intro w hw hnil
  have hbegun := askingWords_begun w hw
  rw [hnil] at hbegun
  cases hbegun

theorem askingWords_concat : ∃ ws w, askingWords = ws ++ [w] := ⟨askingWords.dropLast, "how", by decide⟩

theorem asks_askingWords : ∀ w ∈ askingWords, Asks w.toList := by decide

theorem askingMarks_mem : ∀ m ∈ askingMarks, m ∈ askingWords := by decide

theorem askingMarks_unbroken : ∀ m ∈ askingMarks, ∀ w ∈ askingWords,
    ¬ w.toList <:+: m.toList.tail ∧ ¬ Chars.Meets m.toList.tail w.toList := by decide

theorem withoutAsking_toList (s : String) : (withoutAsking s).toList = (kept s).map Placed.char := by
  unfold kept
  rw [withoutAsking_eq, map_char_leaving_words askingWords_ne_nil (map_char_placed 0 s.toList)]

theorem kept_sublist (s : String) : (kept s).Sublist (placed 0 s.toList) := by
  unfold kept
  exact leaving_words_sublist askingWords_ne_nil _

theorem kept_eq_pared (s : String) : ∃ ps, kept s = pared ps := by
  unfold kept
  obtain ⟨ws, w, hws⟩ := askingWords_concat
  rw [hws, List.foldl_concat]
  exact ⟨_, rfl⟩

/-! ## What stands together stays together -/

/-- No word begins inside the block, whichever characters follow of those that may. -/
def Unbroken (ws : List String) (block : List Placed) (Follows : List Placed → Prop) : Prop :=
  ∀ after, Follows after → ∀ w ∈ ws, ∀ n < block.length,
    Chars.startsWith (placed 0 w.toList) (block.drop n ++ after) = false

section
variable {ws : List String} {before block after : List Placed} {x : Placed} {Follows : List Placed → Prop}

theorem Unbroken.tail {w : String} (h : Unbroken (w :: ws) block Follows) : Unbroken ws block Follows :=
  fun after hafter v hv => h after hafter v (List.mem_cons_of_mem w hv)

theorem leaving_block {w : String} (hw : w.toList ≠ []) (hnodup : (before ++ x :: (block ++ after)).Nodup)
    (hend : Ended (x :: block))
    (hblock : ∀ n < block.length, Chars.startsWith (placed 0 w.toList) (block.drop n ++ after) = false)
    (hx : x ∈ leaving (before ++ x :: (block ++ after)) w) :
    Chars.startsWith (placed 0 w.toList) (x :: (block ++ after)) = false ∧
      ∃ before' after', after'.Sublist after ∧
        leaving (before ++ x :: (block ++ after)) w = before' ++ x :: (block ++ after') := by
  have hsub := Chars.replace_sublist (placed_ne_nil (n := 0) hw) (before ++ x :: (block ++ after))
  obtain ⟨hstart, front, hfront⟩ := Chars.replace_at_kept (placed_ne_nil hw) hnodup ((pared_sublist _).subset hx)
  rw [Chars.replace_append_of_next (placed_ne_nil hw) hblock] at hfront
  rw [leaving, hfront] at hx ⊢
  rw [hfront] at hsub
  obtain ⟨before', hpared⟩ := pared_block (hnodup.sublist hsub) hend hx
  refine ⟨hstart, before', _, ?_, hpared⟩
  exact (List.rdropWhile_prefix _ _).sublist.trans (Chars.replace_sublist (placed_ne_nil hw) after)

theorem kept_block (hws : ∀ w ∈ ws, w.toList ≠ [])
    (hend : Ended (x :: block)) (hblock : Unbroken ws block Follows)
    (hfollows : ∀ {as bs : List Placed}, bs.Sublist as → Follows as → Follows bs)
    (hnodup : (before ++ x :: (block ++ after)).Nodup) (hafter : Follows after)
    (hx : x ∈ ws.foldl leaving (before ++ x :: (block ++ after))) :
    ∃ before' after', Follows after' ∧
      ws.foldl leaving (before ++ x :: (block ++ after)) = before' ++ x :: (block ++ after') := by
  induction ws generalizing before after with
  | nil => exact ⟨before, after, hafter, rfl⟩
  | cons w ws ih =>
    rw [List.forall_mem_cons] at hws
    rw [List.foldl_cons] at hx ⊢
    have hkept := (leaving_words_sublist hws.2 _).subset hx
    obtain ⟨-, before', after', hsub, hleft⟩ :=
      leaving_block hws.1 hnodup hend (hblock after hafter w List.mem_cons_self) hkept
    have hnodup' := hnodup.sublist (leaving_sublist hws.1 _)
    rw [hleft] at hx hnodup' ⊢
    exact ih hws.2 hblock.tail hnodup' (hfollows hsub hafter) hx

theorem not_mem_of_word {m : String} (hm : m ∈ ws) (hws : ∀ w ∈ ws, w.toList ≠ [])
    (hchars : (x :: block).map Placed.char = m.toList) (hend : Ended (x :: block))
    (hblock : Unbroken ws block fun _ => True) (hnodup : (before ++ x :: (block ++ after)).Nodup) :
    x ∉ ws.foldl leaving (before ++ x :: (block ++ after)) := by
  intro hx
  induction ws generalizing before after with
  | nil => cases hm
  | cons w ws ih =>
    rw [List.forall_mem_cons] at hws
    rw [List.foldl_cons] at hx
    have hkept := (leaving_words_sublist hws.2 _).subset hx
    obtain ⟨hstart, before', after', -, hleft⟩ :=
      leaving_block hws.1 hnodup hend (hblock after trivial w List.mem_cons_self) hkept
    rcases List.mem_cons.1 hm with rfl | hm
    · rw [startsWith_placed_iff, ← List.cons_append, List.map_append, hchars] at hstart
      exact hstart (List.prefix_append _ _)
    · have hnodup' := hnodup.sublist (leaving_sublist hws.1 _)
      rw [hleft] at hx hnodup'
      exact ih hm hws.2 hblock.tail hnodup' hx

end

theorem unbroken_mark {m : String} (hm : m ∈ askingMarks) {block : List Placed}
    (hchars : block.map Placed.char = m.toList.tail) : Unbroken askingWords block fun _ => True := by
  intro after _ w hw n hn
  obtain ⟨hinside, hmeets⟩ := askingMarks_unbroken m hm w hw
  rw [← hchars] at hinside hmeets
  rw [startsWith_placed_iff, List.map_append, List.map_drop]
  intro hstart
  rcases List.prefix_or_prefix_of_prefix hstart (List.prefix_append _ _) with hshort | hlong
  · exact hinside (hshort.isInfix.trans (List.drop_suffix n _).isInfix)
  · refine hmeets (Chars.meets_of ?_ (List.drop_suffix n _) hlong)
    intro hnil
    rw [List.drop_eq_nil_iff, List.length_map] at hnil
    omega

theorem unbroken_of_not_asks {block : List Placed} (h : ¬ Asks (block.map Placed.char)) :
    Unbroken askingWords block fun after => ∀ p ∈ after, p.blank = true := by
  intro after hafter w hw n _
  rw [startsWith_placed_iff, List.map_append, List.map_drop]
  intro hstart
  have hin := prefix_of_prefix_blanks hw (List.forall_mem_map.2 hafter) hstart
  exact h ((asks_askingWords w hw).mono (hin.isInfix.trans (List.drop_suffix n _).isInfix))

/-! ## Goals that are ends of titles -/

/-- The characters that stay are, with their places, an end of the title, blanks behind it apart. -/
def TailOnly (s : String) : Prop := kept s <:+ placed 0 (Text.trimEnd s).toList

/-- A character that stays looks like one that is taken out behind it, and all characters behind that one stay. -/
def Coincidence (s : String) : Prop :=
  ∃ before gone rest p q, kept s = before ++ p :: rest ∧ placed 0 (Text.trimEnd s).toList = gone ++ q :: rest ∧
    p.place < q.place ∧ p.char = q.char

section
variable {s : String} {p : Placed}

theorem placed_trimEnd_toList (s : String) :
    placed 0 (Text.trimEnd s).toList = (placed 0 s.toList).rdropWhile Placed.blank := by
  rw [Text.trimEnd, String.toList_ofList, placed_trimEnd]

theorem not_mark_at_kept (hp : p ∈ kept s) {m : String} (hm : m ∈ askingMarks) :
    ¬ m.toList <+: s.toList.drop p.place := by
  intro hstart
  obtain ⟨before, rest, hplaced⟩ := List.append_of_mem ((kept_sublist s).subset hp)
  rw [← map_char_of_placed_eq hplaced] at hstart
  have hne := askingWords_ne_nil m (askingMarks_mem m hm)
  obtain ⟨c, cs, hcs⟩ := List.exists_cons_of_ne_nil hne
  rw [hcs, List.map_cons, List.cons_prefix_cons] at hstart
  obtain ⟨hc, more, hmore⟩ := hstart
  obtain ⟨block, after, rfl, hblock, -⟩ := List.map_eq_append_iff.1 hmore.symm
  have hchars : (p :: block).map Placed.char = m.toList := by rw [List.map_cons, ← hc, hblock, hcs]
  have hend : Ended (p :: block) := by
    rw [ended_iff]
    intro hne'
    have hlast := askingWords_ended m (askingMarks_mem m hm)
    rw [← hchars, List.getLast?_map, List.getLast?_eq_some_getLast hne'] at hlast
    simpa [Placed.blank] using hlast
  refine not_mem_of_word (askingMarks_mem m hm) askingWords_ne_nil hchars hend
    (unbroken_mark hm (by rw [hblock, hcs, List.tail_cons])) (hplaced ▸ nodup_placed 0 s.toList) ?_
  rw [← hplaced]
  exact hp

theorem not_blank_head_pared {ps tail : List Placed} {x : Placed} (h : pared ps = x :: tail) : x.blank = false := by
  obtain ⟨more, hmore⟩ := List.rdropWhile_prefix Placed.blank (ps.dropWhile Placed.blank)
  change pared ps ++ more = _ at hmore
  have hhead := List.head?_dropWhile_not Placed.blank ps
  rw [← hmore, h] at hhead
  simpa using hhead

theorem eq_nil_of_kept_eq {ks bs : List Placed} (h : kept s = ks ++ bs) (hbs : ∀ p ∈ bs, p.blank = true) :
    bs = [] := by
  obtain ⟨ps, hps⟩ := kept_eq_pared s
  have hended : Ended (kept s) := by
    rw [hps]
    exact List.rdropWhile_idempotent _ _
  rcases List.eq_nil_or_concat' bs with rfl | ⟨bs, b, rfl⟩
  · rfl
  · rw [h, ← List.append_assoc, ended_iff] at hended
    exact absurd (hbs b (by simp)) (by simpa using hended)

theorem kept_from (hp : p ∈ kept s) (hblank : p.blank = false) (h : ¬ Asks (s.toList.drop p.place)) :
    ∃ before before' block, placed 0 (Text.trimEnd s).toList = before ++ p :: block ∧
      kept s = before' ++ p :: block := by
  obtain ⟨before, rest, hplaced⟩ := List.append_of_mem ((kept_sublist s).subset hp)
  obtain ⟨block, after, rfl, hend, hafter⟩ := exists_block hblank rest
  have hasks : ¬ Asks (block.map Placed.char) := by
    refine fun hin => h (hin.mono ?_)
    rw [← map_char_of_placed_eq hplaced, List.map_cons, List.map_append]
    exact List.infix_cons_iff.2 (.inr (List.prefix_append _ _).isInfix)
  have htitle : placed 0 (Text.trimEnd s).toList = before ++ p :: block := by
    rw [placed_trimEnd_toList, hplaced, ← List.cons_append, ← List.append_assoc,
      (hend.append before).rdropWhile_append, List.rdropWhile_eq_nil_iff.2 hafter, List.append_nil]
  obtain ⟨before', after', hafter', hleft⟩ : ∃ before' after', (∀ q ∈ after', q.blank = true) ∧
      kept s = before' ++ p :: (block ++ after') := by
    unfold kept at hp ⊢
    rw [hplaced] at hp ⊢
    exact kept_block askingWords_ne_nil hend (unbroken_of_not_asks hasks) (fun hsub has q hq => has q (hsub.subset hq))
      (hplaced ▸ nodup_placed 0 s.toList) hafter hp
  rw [← List.cons_append, ← List.append_assoc] at hleft
  obtain rfl := eq_nil_of_kept_eq hleft hafter'
  exact ⟨before, before', block, htitle, by rw [hleft, List.append_nil]⟩

theorem nodup_kept (s : String) : (kept s).Nodup := (nodup_placed 0 s.toList).sublist (kept_sublist s)

theorem tailOnly_of_not_asks (h : ∀ p ∈ kept s, ¬ Asks (s.toList.drop p.place)) : TailOnly s := by
  unfold TailOnly
  cases hkept : kept s with
  | nil => exact List.nil_suffix
  | cons p tail =>
    have hp : p ∈ kept s := hkept ▸ List.mem_cons_self
    obtain ⟨ps, hps⟩ := kept_eq_pared s
    obtain ⟨before, before', block, htitle, hleft⟩ :=
      kept_from hp (not_blank_head_pared (hps.symm.trans hkept)) (h p hp)
    rw [htitle, ← hkept, hleft]
    cases before' with
    | nil => exact List.suffix_append _ _
    | cons q before' =>
      have hnodup := nodup_kept s
      rw [hleft, List.cons_append] at hkept hnodup
      obtain ⟨rfl, -⟩ := List.cons.inj hkept
      exact absurd (by simp) (List.nodup_cons.1 hnodup).1

theorem not_asks_of_tailOnly (h : TailOnly s) (hp : p ∈ kept s) : ¬ Asks (s.toList.drop p.place) := by
  rintro ⟨m, hm, u, v, hin⟩
  obtain ⟨before, rest, hplaced⟩ := List.append_of_mem ((kept_sublist s).subset hp)
  have hordered := ordered_placed 0 s.toList
  -- The mark begins at `q`, which is `p` or stands behind it.
  rw [← map_char_of_placed_eq hplaced, List.append_assoc] at hin
  obtain ⟨us, ms, hrest, -, hms⟩ := List.map_eq_append_iff.1 hin.symm
  have hbegin := askingWords_begun m (askingMarks_mem m hm)
  obtain ⟨c, cs, hcs⟩ := List.exists_cons_of_ne_nil (askingWords_ne_nil m (askingMarks_mem m hm))
  rw [hcs, List.cons_append] at hms
  obtain ⟨q, ms, rfl, rfl, hcs'⟩ := List.map_eq_cons_iff.1 hms
  have hblank : q.blank = false := by simpa [hcs, Placed.blank] using hbegin
  have hle : p.place ≤ q.place := by
    have hq : q ∈ p :: rest := by simp [hrest]
    rw [hplaced, List.pairwise_append, List.pairwise_cons] at hordered
    rcases List.mem_cons.1 hq with rfl | hq
    · exact Nat.le_refl _
    · exact (hordered.2.1.1 q hq).le
  rw [hrest, ← List.append_assoc] at hplaced
  have hqplaced : q ∈ placed 0 s.toList := by simp [hplaced]
  have hqkept : q ∈ kept s := by
    obtain ⟨gone, hgone⟩ := h
    have hq : q ∈ gone ++ kept s := by
      rw [hgone, placed_trimEnd_toList]
      exact mem_rdropWhile hqplaced hblank
    have hsorted := ordered_placed 0 (Text.trimEnd s).toList
    rw [← hgone, List.pairwise_append] at hsorted
    rcases List.mem_append.1 hq with hq | hq
    · exact absurd (hsorted.2.2 q hq p hp) (by omega)
    · exact hq
  refine not_mark_at_kept hqkept hm ?_
  rw [← map_char_of_placed_eq hplaced, List.map_cons, hcs', hcs, ← List.cons_append]
  exact List.prefix_append _ _

end

theorem suffix_or_parted {α β : Type} (f : α → β) {ks qs : List α} (h : ks.map f <:+ qs.map f) :
    ks <:+ qs ∨ ∃ before gone rest k q, ks = before ++ k :: rest ∧ qs = gone ++ q :: rest ∧ k ≠ q ∧ f k = f q := by
  induction ks using List.reverseRecOn generalizing qs with
  | nil => exact .inl List.nil_suffix
  | append_singleton ks k ih =>
    rcases List.eq_nil_or_concat' qs with rfl | ⟨qs, q, rfl⟩
    · simp at h
    · rw [List.map_append, List.map_append, List.map_singleton, List.map_singleton] at h
      obtain ⟨hlast, hinit⟩ : f k = f q ∧ ks.map f <:+ qs.map f := by
        obtain ⟨gone, hgone⟩ := h
        rw [← List.append_assoc] at hgone
        obtain ⟨hinit, hlast⟩ := List.append_inj' hgone rfl
        exact ⟨List.singleton_inj.1 hlast, gone, hinit⟩
      by_cases hkq : k = q
      · subst hkq
        rcases ih hinit with ⟨gone, rfl⟩ | ⟨before, gone, rest, k', q', rfl, rfl, hne, heq⟩
        · exact .inl ⟨gone, by rw [List.append_assoc]⟩
        · exact .inr ⟨before, gone, rest ++ [k], k', q', by simp, by simp, hne, heq⟩
      · exact .inr ⟨ks, qs, [], k, q, rfl, rfl, hkq, hlast⟩

section
variable {s : String}

theorem kept_subset_trimmed (s : String) : kept s ⊆ placed 0 (Text.trimEnd s).toList := by
  have hsub := kept_sublist s
  rw [← List.rdropWhile_append_rtakeWhile (p := Placed.blank) (l := placed 0 s.toList), ← placed_trimEnd_toList] at hsub
  obtain ⟨ks, bs, hkept, hks, hbs⟩ := List.sublist_append_iff.1 hsub
  obtain rfl := eq_nil_of_kept_eq hkept fun p hp => List.mem_rtakeWhile_imp (hbs.subset hp)
  rw [hkept, List.append_nil]
  exact hks.subset

theorem tailOnly_or_coincidence (h : (withoutAsking s).toList <:+ (Text.trimEnd s).toList) :
    TailOnly s ∨ Coincidence s := by
  rw [withoutAsking_toList, ← map_char_placed 0 (Text.trimEnd s).toList] at h
  rcases suffix_or_parted Placed.char h with h | ⟨before, gone, rest, p, q, hkept, htitle, hne, hchar⟩
  · exact .inl h
  · refine .inr ⟨before, gone, rest, p, q, hkept, htitle, ?_, hchar⟩
    have hp : p ∈ gone ++ q :: rest := htitle ▸ kept_subset_trimmed s (by simp [hkept])
    have hnodup := nodup_kept s
    rw [hkept] at hnodup
    have hordered := ordered_placed 0 (Text.trimEnd s).toList
    rw [htitle, List.pairwise_append] at hordered
    rcases List.mem_append.1 hp with hp | hp
    · exact hordered.2.2 p hp q List.mem_cons_self
    · rcases List.mem_cons.1 hp with hp | hp
      · exact absurd hp hne
      · exact absurd hp (List.nodup_cons.1 (List.nodup_append.1 hnodup).2.1).1

theorem trim_of_asked (h : Text.startsWith s "how" = true) : Text.trim s = Text.trimEnd s := by
  obtain ⟨rest, hrest⟩ := (Chars.startsWith_iff _ _).1 h
  have hstart : Chars.trimStart s.toList = s.toList := by
    rw [← hrest]
    exact List.dropWhile_cons_of_neg (by decide)
  rw [Text.trim, Text.trimEnd, Chars.trim, hstart]

end

/-! ## Titles that ask once -/

theorem trim_append_blanks {bs : List Char} (hbs : ∀ c ∈ bs, isBlank c = true) (cs : List Char) :
    Chars.trim (cs ++ bs) = Chars.trim cs := by
  have hend (xs : List Char) : Chars.trimEnd (xs ++ bs) = Chars.trimEnd xs := by
    have hreverse : ∀ c ∈ bs.reverse, isBlank c = true := fun c hc => hbs c (List.mem_reverse.1 hc)
    rw [Chars.trimEnd, List.reverse_append, List.dropWhile_append_of_pos hreverse, Chars.trimEnd]
  rw [Chars.trim, Chars.trim, Chars.trimStart, Chars.trimStart, List.dropWhile_append]
  split
  · next hempty =>
    rw [List.isEmpty_iff.1 hempty, List.dropWhile_eq_nil_iff.2 hbs]
  · exact hend _

theorem exists_trimEnd_append (cs : List Char) :
    ∃ bs, (∀ c ∈ bs, isBlank c = true) ∧ cs = Chars.trimEnd cs ++ bs :=
  ⟨cs.rtakeWhile isBlank, fun _ hc => List.mem_rtakeWhile_imp hc, List.rdropWhile_append_rtakeWhile.symm⟩

theorem trim_trim (cs : List Char) : Chars.trim (Chars.trim cs) = Chars.trim cs := by
  obtain ⟨bs, hbs, heq⟩ := exists_trimEnd_append (Chars.trimStart cs)
  have htrim := trim_append_blanks hbs (Chars.trimEnd (Chars.trimStart cs))
  rw [← heq] at htrim
  change Chars.trim (Chars.trimEnd (Chars.trimStart cs)) = _
  rw [← htrim, Chars.trim, Chars.trimStart, Chars.trimStart, List.dropWhile_idempotent]
  rfl

theorem trim_isInfix (cs : List Char) : Chars.trim cs <:+: cs :=
  (List.rdropWhile_prefix isBlank _).isInfix.trans (List.dropWhile_suffix isBlank).isInfix

section
variable {t w : String} {ws : List String}

theorem trim_trim_text (t : String) : Text.trim (Text.trim t) = Text.trim t := by
  rw [Text.trim, Text.trim, String.toList_ofList, trim_trim]

theorem stripped_of_not_infix (h : ¬ w.toList <:+: t.toList) : stripped t w = Text.trim t := by
  rw [stripped, Text.replace, Chars.replace_of_not_infix h, String.ofList_toList]

theorem not_infix_of_not_asks (hw : w ∈ askingWords) {cs : List Char} (h : ¬ Asks cs) : ¬ w.toList <:+: cs :=
  fun hin => h ((asks_askingWords w hw).mono hin)

theorem trim_foldl_of_not_asks (hws : ∀ w ∈ ws, w ∈ askingWords) (h : ¬ Asks t.toList) :
    Text.trim (ws.foldl stripped t) = Text.trim t := by
  induction ws generalizing t with
  | nil => rfl
  | cons w ws ih =>
    rw [List.forall_mem_cons] at hws
    have htrim : ¬ Asks (Text.trim t).toList := by
      rw [Text.trim, String.toList_ofList]
      exact fun hin => h (hin.mono (trim_isInfix _))
    rw [List.foldl_cons, stripped_of_not_infix (not_infix_of_not_asks hws.1 h), ih hws.2 htrim, trim_trim_text]

structure AsksOnce (t : String) : Prop where
  begins : Text.startsWith t "how" = true
  rest : ¬ Asks (t.toList.drop 1)

theorem AsksOnce.prefix_of_infix (h : AsksOnce t) (hw : w ∈ askingWords) (hin : w.toList <:+: t.toList) :
    w.toList <+: t.toList := by
  obtain ⟨more, hmore⟩ := (Chars.startsWith_iff _ _).1 h.begins
  have hrest := h.rest
  rw [← hmore] at hin hrest ⊢
  exact (List.infix_cons_iff.1 hin).resolve_right (not_infix_of_not_asks hw hrest)

/-- At its beginning, a title asks as before when the blanks behind it are gone. -/
theorem AsksOnce.prefix_trim_iff (h : AsksOnce t) (hw : w ∈ askingWords) :
    w.toList <+: (Text.trim t).toList ↔ w.toList <+: t.toList := by
  obtain ⟨bs, hbs, hblanks⟩ := exists_trimEnd_append t.toList
  rw [trim_of_asked h.begins, Text.trimEnd, String.toList_ofList]
  constructor
  · exact fun hstart => hstart.trans (List.rdropWhile_prefix isBlank t.toList)
  · intro hstart
    rw [hblanks] at hstart
    exact prefix_of_prefix_blanks hw hbs hstart

theorem AsksOnce.trim (h : AsksOnce t) : AsksOnce (Text.trim t) := by
  refine ⟨?_, fun hasks => h.rest (hasks.mono ?_)⟩
  · have hhow := (h.prefix_trim_iff (w := "how") (by decide)).2 ((Chars.startsWith_iff _ _).1 h.begins)
    exact (Chars.startsWith_iff _ _).2 hhow
  · rw [trim_of_asked h.begins, Text.trimEnd, String.toList_ofList]
    exact ((List.rdropWhile_prefix isBlank t.toList).drop 1).isInfix

theorem AsksOnce.trim_foldl_of_begin (h : AsksOnce t) (hw : w ∈ askingWords) (hws : ∀ v ∈ ws, v ∈ askingWords)
    (hbegin : w.toList <+: t.toList) :
    Text.trim ((w :: ws).foldl stripped t) = Text.trim (String.ofList (t.toList.drop w.length)) := by
  obtain ⟨rest, hsplit⟩ := hbegin
  have hwne := askingWords_ne_nil w hw
  have hdrop : t.toList.drop w.length = rest := by
    rw [← hsplit, ← String.length_toList, List.drop_left]
  have hasks : ¬ Asks rest := by
    rw [← hdrop]
    exact not_asks_drop h.rest (by simpa [← String.length_toList] using hwne)
  have hstep : stripped t w = Text.trim (String.ofList rest) := by
    rw [stripped, Text.replace, ← hsplit]
    change Text.trim (String.ofList (Chars.replace w.toList [] (w.toList ++ rest))) = _
    rw [Chars.replace_append hwne, List.nil_append, Chars.replace_of_not_infix (not_infix_of_not_asks hw hasks)]
  have htrim : ¬ Asks (Text.trim (String.ofList rest)).toList := by
    rw [Text.trim, String.toList_ofList, String.toList_ofList]
    exact fun hin => hasks (hin.mono (trim_isInfix _))
  rw [List.foldl_cons, hstep, trim_foldl_of_not_asks hws htrim, trim_trim_text, hdrop]

theorem AsksOnce.trim_drop_trim (h : AsksOnce t) (hw : w ∈ askingWords) (hbegin : w.toList <+: t.toList) :
    Text.trim (String.ofList ((Text.trim t).toList.drop w.length)) =
      Text.trim (String.ofList (t.toList.drop w.length)) := by
  obtain ⟨bs, hbs, hblanks⟩ := exists_trimEnd_append t.toList
  have hlength := ((h.prefix_trim_iff hw).2 hbegin).length_le
  rw [trim_of_asked h.begins, Text.trimEnd, String.toList_ofList, String.length_toList] at hlength
  rw [trim_of_asked h.begins, Text.trimEnd, String.toList_ofList]
  conv_rhs => rw [hblanks, List.drop_append_of_le_length hlength]
  rw [Text.trim, Text.trim, String.toList_ofList, String.toList_ofList, trim_append_blanks hbs]

theorem AsksOnce.trim_foldl_of_first {before after : List String} (h : AsksOnce t)
    (hbefore : ∀ v ∈ before, v ∈ askingWords) (hw : w ∈ askingWords) (hafter : ∀ v ∈ after, v ∈ askingWords)
    (hnone : ∀ v ∈ before, ¬ v.toList <+: t.toList) (hbegin : w.toList <+: t.toList) :
    Text.trim ((before ++ w :: after).foldl stripped t) = Text.trim (String.ofList (t.toList.drop w.length)) := by
  induction before generalizing t with
  | nil => exact h.trim_foldl_of_begin hw hafter hbegin
  | cons v before ih =>
    rw [List.forall_mem_cons] at hbefore hnone
    have hstep : stripped t v = Text.trim t :=
      stripped_of_not_infix fun hin => hnone.1 (h.prefix_of_infix hbefore.1 hin)
    have hnone' : ∀ x ∈ before, ¬ x.toList <+: (Text.trim t).toList := fun x hx hstart =>
      hnone.2 x hx ((h.prefix_trim_iff (hbefore.2 x hx)).1 hstart)
    rw [List.cons_append, List.foldl_cons, hstep,
      ih h.trim hbefore.2 hnone' ((h.prefix_trim_iff hw).2 hbegin), h.trim_drop_trim hw hbegin]

theorem trim_withoutAsking (t : String) : Text.trim (withoutAsking t) = withoutAsking t := by
  obtain ⟨ws, w, hws⟩ := askingWords_concat
  rw [withoutAsking_eq, hws, List.foldl_concat, stripped, trim_trim_text]

theorem AsksOnce.withoutAsking (h : AsksOnce t) : ∃ w, askingWords.find? (Text.startsWith t) = some w ∧
    withoutAsking t = Text.trim (String.ofList (t.toList.drop w.length)) := by
  have hsome : (askingWords.find? (Text.startsWith t)).isSome = true :=
    List.find?_isSome.2 ⟨"how", by decide, h.begins⟩
  obtain ⟨w, hfind⟩ := Option.isSome_iff_exists.1 hsome
  obtain ⟨hbegin, before, after, hwords, hnone⟩ := List.find?_eq_some_iff_append.1 hfind
  refine ⟨w, hfind, ?_⟩
  have hmem : ∀ v ∈ before ++ w :: after, v ∈ askingWords := fun v hv => hwords ▸ hv
  rw [← trim_withoutAsking, withoutAsking_eq, hwords]
  refine h.trim_foldl_of_first (fun v hv => hmem v (by simp [hv])) (hmem w (by simp)) (fun v hv => hmem v (by simp [hv]))
    (fun v hv hstart => ?_) ((Chars.startsWith_iff _ _).1 hbegin)
  have hfalse := hnone v hv
  rw [Text.startsWith, (Chars.startsWith_iff _ _).2 hstart] at hfalse
  cases hfalse

theorem AsksOnce.tailOnly (h : AsksOnce t) : TailOnly t := by
  refine tailOnly_of_not_asks fun p hp => not_asks_drop h.rest ?_
  intro hzero
  have hmark := not_mark_at_kept hp (m := "how") (by decide)
  rw [hzero, List.drop_zero] at hmark
  exact hmark ((Chars.startsWith_iff _ _).1 h.begins)

end

/-- For each line with an id and a title that begins with `how`, a goal is recorded. Only text at the beginning of the
title is taken out just when nothing asks from a character that stays on, and then the goal is an end of the title; else
it is one by chance only. If nothing asks behind the first character, the goal is what stands behind the first asking
word that begins the title. -/
theorem asked_goal_tail_iff (titles line id title : String) (hline : line ∈ Text.splitOn titles "\n")
    (hfields : Text.splitOn line "\t" = [id, title]) (hhow : Text.startsWith (Text.lower title) "how" = true) :
    let t := Text.lower title
    (id, withoutAsking t) ∈ askedGoals ((Text.splitOn titles "\n").filterMap threadOf?) ∧
    (TailOnly t ↔ ∀ p ∈ kept t, ¬ Asks (t.toList.drop p.place)) ∧
    (TailOnly t → (withoutAsking t).toList <:+ (Text.trim t).toList) ∧
    ((withoutAsking t).toList <:+ (Text.trim t).toList → TailOnly t ∨ Coincidence t) ∧
    (¬ Asks (t.toList.drop 1) → TailOnly t ∧ ∃ w, askingWords.find? (Text.startsWith t) = some w ∧
      withoutAsking t = Text.trim (String.ofList (t.toList.drop w.length))) := by
  intro t
  refine ⟨?_, ⟨fun h p hp => not_asks_of_tailOnly h hp, tailOnly_of_not_asks⟩, fun h => ?_, fun h => ?_, fun h => ?_⟩
  · have hthread : threadOf? line = some (id, t) := by
      unfold threadOf?
      rw [hfields]
    refine List.mem_map.2 ⟨(id, t), List.mem_filter.2 ⟨?_, hhow⟩, rfl⟩
    exact List.mem_filterMap.2 ⟨line, hline, hthread⟩
  · rw [withoutAsking_toList, trim_of_asked hhow, ← map_char_placed 0 (Text.trimEnd t).toList]
    exact List.IsSuffix.map Placed.char h
  · rw [trim_of_asked hhow] at h
    exact tailOnly_or_coincidence h
  · have honce : AsksOnce t := ⟨hhow, h⟩
    exact ⟨honce.tailOnly, honce.withoutAsking⟩

theorem asked_goal_tail_plot :
    TailOnly "how to plot" ∧ ("7", "plot") ∈
      askedGoals ((Text.splitOn "6\tLegends\n7\tHow to plot" "\n").filterMap threadOf?) := by
  have h := asked_goal_tail_iff "6\tLegends\n7\tHow to plot" "7\tHow to plot" "7" "How to plot" (by decide)
    (by decide) (by decide)
  have hgoal : withoutAsking (Text.lower "How to plot") = "plot" := by decide +kernel
  exact ⟨(h.2.2.2.2 (by decide)).1, hgoal ▸ h.1⟩

/-- An asking word is taken out of another word. -/
theorem asked_goal_cut_inside :
    ("1", "s a legend") ∈ askedGoals ((Text.splitOn "1\tHow to show a legend" "\n").filterMap threadOf?) ∧
    ¬ "s a legend".toList <:+ (Text.trim (Text.lower "How to show a legend")).toList := by
  decide +kernel

end PlotAdvisor.Forum
