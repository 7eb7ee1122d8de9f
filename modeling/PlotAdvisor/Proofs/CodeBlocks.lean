import PlotAdvisor.Forum.Command
import PlotAdvisor.Proofs.Faults
import PlotAdvisor.Proofs.Separators

/-! Blocks of code: in posts between their tags, and in a file one behind the other.

* `withSigns_eq_undone` - escapes that are undone one sign after the other are undone once each.
* `ComesBack`, `readBehind_eq_iff` - the ways in which a file gives back what was put into it. A file has two line ends
  behind each block, and is cut at every three.
-/
set_option autoImplicit false

namespace PlotAdvisor.Forum

open Text

/-! ## Blocks between tags -/

/-- A block in its tags, and the text behind it. -/
def tagged (part : String × String) : String := "<pre><code>" ++ part.1 ++ "</code></pre>" ++ part.2

theorem opening_borderless : Chars.Borderless "<pre><code>".toList := by decide

theorem closing_borderless : Chars.Borderless "</code></pre>".toList := by decide

theorem without_opening_closed {block text : String} (hblock : Without "<pre><code>" block)
    (htext : Without "<pre><code>" text) : Without "<pre><code>" (block ++ ("</code></pre>" ++ text)) := by
  unfold Without
  rw [String.toList_append, String.toList_append, ← List.append_assoc]
  exact Chars.not_infix_append_mark (by decide) (by decide) (by decide) (by decide) hblock htext

theorem splitOn_tagged {first : String} {parts : List (String × String)} (hfirst : Without "<pre><code>" first)
    (hparts : ∀ p ∈ parts, Without "<pre><code>" p.1 ∧ Without "<pre><code>" p.2) :
    splitOn (first ++ String.join (parts.map tagged)) "<pre><code>" =
      first :: parts.map fun p => p.1 ++ ("</code></pre>" ++ p.2) := by
  induction parts generalizing first with
  | nil => simpa using splitOn_of_without hfirst
  | cons p parts ih =>
    obtain ⟨hblock, htext⟩ := hparts p List.mem_cons_self
    have hrest := ih (without_opening_closed hblock htext) fun q hq => hparts q (List.mem_cons_of_mem p hq)
    rw [List.map_cons, List.map_cons, String.join_cons, tagged]
    simp only [String.append_assoc] at hrest ⊢
    rw [splitOn_append_mark opening_borderless (by decide) hfirst, hrest]

/-- Blocks without tags in them come back from a text of them in their tags, whatever stands between. -/
theorem codeBlocks_tagged (first : String) (parts : List (String × String)) (hfirst : Without "<pre><code>" first)
    (hparts : ∀ p ∈ parts, Without "<pre><code>" p.1 ∧ Without "</code></pre>" p.1 ∧ Without "<pre><code>" p.2) :
    codeBlocks (first ++ String.join (parts.map tagged)) = parts.map Prod.fst := by
  rw [codeBlocks, splitOn_tagged hfirst fun p hp => ⟨(hparts p hp).1, (hparts p hp).2.2⟩, List.drop_one,
    List.tail_cons, List.filterMap_map, ← List.filterMap_eq_map]
  apply List.filterMap_congr
  intro p hp
  simp only [Function.comp_apply, splitOnce_append_mark closing_borderless (by decide) (hparts p hp).2.1]

theorem codeBlocks_tagged_two :
    codeBlocks ("</code></pre> <pre>" ++
      String.join ([("<pre>\n", "a <code> b"), ("x < y;\n", "</code></pre>")].map tagged)) = ["<pre>\n", "x < y;\n"] :=
  codeBlocks_tagged "</code></pre> <pre>" [("<pre>\n", "a <code> b"), ("x < y;\n", "</code></pre>")] (by decide)
    (by decide)

/-! ## Escapes -/

/-- A text read from the left, with signs in the place of their escapes. -/
def undone : List Char → List Char
  | '&' :: 'l' :: 't' :: ';' :: cs => '<' :: undone cs
  | '&' :: 'g' :: 't' :: ';' :: cs => '>' :: undone cs
  | '&' :: 'a' :: 'm' :: 'p' :: ';' :: cs => '&' :: undone cs
  | c :: cs => c :: undone cs
  | [] => []

def withSign (name : String) (sign : Char) (cs : List Char) : List Char :=
  Chars.replace ('&' :: name.toList) [sign] cs

theorem unescaped_toList (s : String) :
    (unescaped s).toList = withSign "amp;" '&' (withSign "gt;" '>' (withSign "lt;" '<' s.toList)) := by
  simp only [unescaped, Text.replace, String.toList_ofList]
  rfl

section
variable (name : String) (sign : Char)

theorem withSign_escape (cs : List Char) :
    withSign name sign ('&' :: (name.toList ++ cs)) = sign :: withSign name sign cs :=
  Chars.replace_append (List.cons_ne_nil '&' name.toList) cs

theorem withSign_cons {c : Char} (hc : c ≠ '&') (cs : List Char) :
    withSign name sign (c :: cs) = c :: withSign name sign cs := by
  refine Chars.replace_cons (List.cons_ne_nil '&' name.toList) fun h => ?_
  exact hc (List.cons_prefix_cons.1 h).1.symm

/-- An ampersand that begins no escape of the sign stays, with the letters behind it. -/
theorem withSign_amp {x : List Char} (hx : '&' ∉ x) {cs : List Char} (h : ¬ name.toList <+: x ++ cs) :
    withSign name sign ('&' :: (x ++ cs)) = '&' :: (x ++ withSign name sign cs) := by
  have hamp : ¬ '&' :: name.toList <+: '&' :: (x ++ cs) := fun hstart => h (List.cons_prefix_cons.1 hstart).2
  have hletters : withSign name sign (x ++ cs) = x ++ withSign name sign cs := by
    clear h hamp
    induction x with
    | nil => rfl
    | cons d x ih =>
      rw [List.mem_cons, not_or] at hx
      rw [List.cons_append, withSign_cons name sign (fun e => hx.1 e.symm), ih hx.2, List.cons_append]
  rw [← hletters]
  exact Chars.replace_cons (List.cons_ne_nil '&' name.toList) hamp

theorem prefix_of_prefix_withSign {start cs : List Char} (hsign : sign ∉ start)
    (h : start <+: withSign name sign cs) : start <+: cs :=
  Chars.prefix_of_prefix_replace (List.cons_ne_nil '&' name.toList) hsign h

end

theorem withSigns_eq_undone (cs : List Char) :
    withSign "amp;" '&' (withSign "gt;" '>' (withSign "lt;" '<' cs)) = undone cs := by
  fun_induction undone cs with
  | case1 cs ih =>
    have hlt : withSign "lt;" '<' ('&' :: 'l' :: 't' :: ';' :: cs) = '<' :: withSign "lt;" '<' cs :=
      withSign_escape "lt;" '<' cs
    rw [hlt, withSign_cons _ _ (by decide), withSign_cons _ _ (by decide), ih]
  | case2 cs ih =>
    have hlt : withSign "lt;" '<' ('&' :: 'g' :: 't' :: ';' :: cs) = '&' :: ("gt;".toList ++ withSign "lt;" '<' cs) :=
      withSign_amp "lt;" '<' (x := "gt;".toList) (by decide) (by simp)
    rw [hlt, withSign_escape, withSign_cons _ _ (by decide), ih]
  | case3 cs ih =>
    have hpass (name : String) (sign : Char) (ds : List Char) (h : ¬ name.toList <+: "amp;".toList ++ ds) :
        withSign name sign ('&' :: ("amp;".toList ++ ds)) = '&' :: ("amp;".toList ++ withSign name sign ds) :=
      withSign_amp name sign (by decide) h
    have hlt := hpass "lt;" '<' cs (by simp)
    have hgt := hpass "gt;" '>' (withSign "lt;" '<' cs) (by simp)
    change withSign _ _ (withSign _ _ (withSign _ _ ('&' :: ("amp;".toList ++ cs)))) = _
    rw [hlt, hgt, withSign_escape, ih]
  | case4 c cs hlt hgt hamp ih =>
    by_cases hc : c = '&'
    · subst hc
      have hlt : ¬ "lt;".toList <+: cs := by
        rintro ⟨rest, h⟩
        exact hlt rest rfl h.symm
      have hgt : ¬ "gt;".toList <+: withSign "lt;" '<' cs := by
        intro h
        obtain ⟨rest, h⟩ := prefix_of_prefix_withSign _ _ (by decide) h
        exact hgt rest rfl h.symm
      have hamp : ¬ "amp;".toList <+: withSign "gt;" '>' (withSign "lt;" '<' cs) := by
        intro h
        obtain ⟨rest, h⟩ := prefix_of_prefix_withSign _ _ (by decide) (prefix_of_prefix_withSign _ _ (by decide) h)
        exact hamp rest rfl h.symm
      have hstay (name : String) (sign : Char) {ds : List Char} (h : ¬ name.toList <+: ds) :
          withSign name sign ('&' :: ds) = '&' :: withSign name sign ds :=
        withSign_amp name sign (x := []) (by decide) h
      rw [hstay _ _ hlt, hstay _ _ hgt, hstay _ _ hamp, ih]
    · rw [withSign_cons _ _ hc, withSign_cons _ _ hc, withSign_cons _ _ hc, ih]
  | case5 => rfl

/-- The ampersand is escaped first, since the other escapes bring ampersands of their own. -/
def escaped (s : String) : String := replace (replace (replace s "&" "&amp;") "<" "&lt;") ">" "&gt;"

def escape (c : Char) : List Char :=
  if c = '&' then "&amp;".toList else if c = '<' then "&lt;".toList else if c = '>' then "&gt;".toList else [c]

theorem escaped_toList (s : String) : (escaped s).toList = s.toList.flatMap escape := by
  have hsteps : (escaped s).toList = Chars.replace ['>'] "&gt;".toList
      (Chars.replace ['<'] "&lt;".toList (Chars.replace ['&'] "&amp;".toList s.toList)) := by
    simp only [escaped, replace, String.toList_ofList]
    rfl
  rw [hsteps, Chars.replace_singleton, Chars.replace_singleton, Chars.replace_singleton, List.flatMap_assoc,
    List.flatMap_assoc]
  refine List.flatMap_congr fun c _ => ?_
  unfold escape
  split_ifs with hamp hlt hgt
  · rfl
  · subst hlt
    rfl
  · subst hgt
    rfl
  · simp [hlt, hgt]

theorem undone_escape_append (c : Char) (cs : List Char) : undone (escape c ++ cs) = c :: undone cs := by
  unfold escape
  split_ifs with hamp hlt hgt
  · subst hamp
    rfl
  · subst hlt
    rfl
  · subst hgt
    rfl
  · rw [List.singleton_append, undone] <;> exact fun _ h => absurd h hamp

theorem undone_escapes (cs : List Char) : undone (cs.flatMap escape) = cs := by
  induction cs with
  | nil => rfl
  | cons c cs ih => rw [List.flatMap_cons, undone_escape_append, ih]

/-- Undoing the escapes of an escaped text gives the text, also if it has escapes of its own. -/
theorem unescaped_escaped (s : String) : unescaped (escaped s) = s := by
  apply String.toList_injective
  rw [unescaped_toList, withSigns_eq_undone, escaped_toList, undone_escapes]

/-- With the ampersand undone first, an escape of the text is undone with those that were put in. -/
example : escaped "&lt;" = "&amp;lt;" ∧ replace (replace "&amp;lt;" "&amp;" "&") "&lt;" "<" = "<" := by decide

/-! ## Line ends -/

def lineEnds (n : Nat) : List Char := List.replicate n '\n'

theorem lineEnds_add (m n : Nat) : lineEnds (m + n) = lineEnds m ++ lineEnds n := List.replicate_add m n '\n'

theorem length_lineEnds (n : Nat) : (lineEnds n).length = n := List.length_replicate

def leading (cs : List Char) : Nat := (cs.takeWhile (· == '\n')).length

def ending (cs : List Char) : Nat := leading cs.reverse

/-- A text without the line end at its end, if there is one. -/
def chomp (cs : List Char) : List Char := if cs.getLast? = some '\n' then cs.dropLast else cs

/-- What texts are up to a line end at their end, those left out of which nothing remains. -/
def essence (ps : List (List Char)) : List (List Char) := (ps.map chomp).filter (· ≠ [])

theorem leading_lineEnds_append (n : Nat) (cs : List Char) : leading (lineEnds n ++ cs) = n + leading cs := by
  have hall : ∀ c ∈ lineEnds n, (c == '\n') = true := by simp [lineEnds]
  rw [leading, List.takeWhile_append_of_pos hall, List.length_append, length_lineEnds, leading]

theorem leading_append_cons {c : Char} (hc : c ≠ '\n') (x y : List Char) : leading (x ++ c :: y) = leading x := by
  rw [leading, List.takeWhile_append]
  split
  · next hall =>
    have hself := (List.takeWhile_prefix (l := x) (· == '\n')).eq_of_length hall
    simp [hc, leading, hself]
  · rfl

theorem leading_append {d : List Char} (h : ∃ c ∈ d, c ≠ '\n') (cs : List Char) : leading (d ++ cs) = leading d := by
  obtain ⟨c, hc, hne⟩ := h
  obtain ⟨x, y, rfl⟩ := List.append_of_mem hc
  rw [List.append_assoc, List.cons_append, leading_append_cons hne, leading_append_cons hne]

theorem ending_lineEnds (n : Nat) : ending (lineEnds n) = n := by
  have h := leading_lineEnds_append n []
  rw [List.append_nil] at h
  rw [ending, lineEnds, List.reverse_replicate]
  exact h

theorem ending_append {d : List Char} (hne : d ≠ []) (hlast : d.getLast? ≠ some '\n') (x y : List Char) :
    ending (x ++ (d ++ y)) = ending y := by
  obtain ⟨init, c, rfl⟩ : ∃ init c, d = init ++ [c] := ⟨_, _, (List.dropLast_append_getLast hne).symm⟩
  have hc : c ≠ '\n' := by simpa using hlast
  have hreverse : (x ++ (init ++ [c] ++ y)).reverse = y.reverse ++ c :: (x ++ init).reverse := by simp
  rw [ending, hreverse, leading_append_cons hc, ending]

theorem chomp_of_getLast? {cs : List Char} (h : cs.getLast? ≠ some '\n') : chomp cs = cs := if_neg h

theorem exists_eq_chomp_append (cs : List Char) : ∃ t ≤ 1, cs = chomp cs ++ lineEnds t := by
  unfold chomp
  split
  · next h => exact ⟨1, Nat.le_refl 1, (List.dropLast_append_getLast? _ h).symm⟩
  · exact ⟨0, Nat.zero_le 1, (List.append_nil cs).symm⟩

theorem chomp_lineEnds (n : Nat) : chomp (lineEnds n) = lineEnds (n - 1) := by
  cases n with
  | zero => rfl
  | succ n => simp [chomp, lineEnds, List.getLast?_replicate]

theorem chomp_eq_nil_iff {cs : List Char} : chomp cs = [] ↔ ∃ n ≤ 1, cs = lineEnds n := by
  constructor
  · intro h
    obtain ⟨t, ht, hcs⟩ := exists_eq_chomp_append cs
    exact ⟨t, ht, by rwa [h] at hcs⟩
  · rintro ⟨n, hn, rfl⟩
    rw [chomp_lineEnds, Nat.sub_eq_zero_of_le hn]
    rfl

theorem mem_chomp {cs : List Char} {c : Char} (h : c ∈ cs) (hc : c ≠ '\n') : c ∈ chomp cs := by
  obtain ⟨t, -, hcs⟩ := exists_eq_chomp_append cs
  rw [hcs] at h
  rcases List.mem_append.1 h with h | h
  · exact h
  · exact absurd (List.eq_of_mem_replicate h) hc

theorem essence_cons (p : List Char) (ps : List (List Char)) :
    essence (p :: ps) = if chomp p = [] then essence ps else chomp p :: essence ps := by
  by_cases h : chomp p = [] <;> simp [essence, h]

theorem essence_append (ps qs : List (List Char)) : essence (ps ++ qs) = essence ps ++ essence qs := by
  simp [essence]

theorem essence_replicate_nil (q : Nat) (ps : List (List Char)) :
    essence (List.replicate q [] ++ ps) = essence ps := by
  have hnil : essence (List.replicate q []) = [] := by simp [essence, chomp]
  rw [essence_append, hnil, List.nil_append]

theorem essence_eq_nil_iff {ps : List (List Char)} : essence ps = [] ↔ ∀ p ∈ ps, chomp p = [] := by
  simp [essence]

/-! ## Pieces between three line ends -/

/-- Three line ends stand nowhere in the text, and none at its end. -/
structure Whole (d : List Char) : Prop where
  unparted : ¬ lineEnds 3 <:+: d
  closed : d.getLast? ≠ some '\n'

theorem lineEnds_three_ne_nil : lineEnds 3 ≠ [] := by decide

theorem first_iff {d : List Char} : Chars.First (lineEnds 3) d ↔ Whole d := by
  constructor
  · intro h
    refine ⟨h.not_infix, fun hlast => h ?_⟩
    rw [← List.dropLast_append_getLast? _ hlast, List.append_assoc]
    exact (List.suffix_append d.dropLast (lineEnds 3)).isInfix
  · intro h hin
    rcases List.infix_append_iff_ne_nil.1 hin with hin | hin | ⟨x, y, hx, -, hxy, hend, -⟩
    · exact h.unparted hin
    · exact absurd hin.length_le (by decide)
    · have hlast : x.getLast hx = '\n' := by
        have hmem : x.getLast hx ∈ lineEnds 3 := hxy ▸ List.mem_append_left y (List.getLast_mem hx)
        exact List.eq_of_mem_replicate hmem
      obtain ⟨z, rfl⟩ := hend
      refine h.closed ?_
      rw [List.getLast?_append_of_ne_nil _ hx, List.getLast?_eq_some_getLast hx, hlast]

theorem splitOn_lineEnds_append (q : Nat) (cs : List Char) :
    Chars.splitOn (lineEnds 3) (lineEnds (3 * q) ++ cs) = List.replicate q [] ++ Chars.splitOn (lineEnds 3) cs := by
  induction q with
  | zero => rfl
  | succ q ih =>
    rw [Nat.mul_succ, Nat.add_comm, lineEnds_add, List.append_assoc, Chars.splitOn_append lineEnds_three_ne_nil, ih]
    rfl

theorem splitOn_lineEnds (n : Nat) :
    Chars.splitOn (lineEnds 3) (lineEnds n) = List.replicate (n / 3) [] ++ [lineEnds (n % 3)] := by
  have hrest : ¬ lineEnds 3 <:+: lineEnds (n % 3) := by
    intro h
    have hle := h.length_le
    rw [length_lineEnds, length_lineEnds] at hle
    omega
  have hn : lineEnds n = lineEnds (3 * (n / 3)) ++ lineEnds (n % 3) := by
    rw [← lineEnds_add, Nat.div_add_mod]
  rw [hn, splitOn_lineEnds_append, Chars.splitOn_of_notInfix hrest]

/-- Before the first piece of which something remains, there are only empty ones. -/
theorem essence_eq_cons {ps : List (List Char)} (hps : Chars.Parted (lineEnds 3) ps) {d : List Char}
    {ds : List (List Char)} (h : essence ps = d :: ds) :
    ∃ q p more, ps = List.replicate q [] ++ p :: more ∧ chomp p = d ∧ essence more = ds ∧
      Chars.Parted (lineEnds 3) (p :: more) := by
  induction ps with
  | nil => simp [essence] at h
  | cons p ps ih =>
    rw [essence_cons] at h
    split at h
    · next hnil =>
      have hne : ps ≠ [] := by
        rintro rfl
        simp [essence] at h
      obtain ⟨hfirst, hrest⟩ := (Chars.parted_cons hne).1 hps
      obtain ⟨q, p', more, rfl, hp', hmore, hparted⟩ := ih hrest h
      have hp : p = [] := by
        rw [← hnil, chomp_of_getLast? (first_iff.1 hfirst).closed]
      exact ⟨q + 1, p', more, by rw [hp]; rfl, hp', hmore, hparted⟩
    · obtain ⟨hd, hds⟩ := List.cons.inj h
      exact ⟨0, p, ps, rfl, hd, hds, hps⟩

theorem joinWith_replicate_nil (q : Nat) {ps : List (List Char)} (h : ps ≠ []) :
    Chars.joinWith (lineEnds 3) (List.replicate q [] ++ ps) = lineEnds (3 * q) ++ Chars.joinWith (lineEnds 3) ps := by
  induction q with
  | zero => rfl
  | succ q ih =>
    rw [List.replicate_succ, List.cons_append, Chars.joinWith_cons (by simp [h]), ih, Nat.mul_succ, Nat.add_comm,
      lineEnds_add]
    simp

/-! ## The file of blocks -/

def filed (us : List (List Char)) : List Char := us.flatMap (· ++ lineEnds 2)

theorem filed_cons (u : List Char) (us : List (List Char)) : filed (u :: us) = u ++ (lineEnds 2 ++ filed us) := by
  simp [filed]

theorem filed_cons_eq (u : List Char) (us : List (List Char)) :
    filed (u :: us) = chomp u ++ (lineEnds (u.length - (chomp u).length + 2) ++ filed us) := by
  obtain ⟨t, -, hchomp⟩ := exists_eq_chomp_append u
  have hlength : u.length - (chomp u).length = t := by
    have := congrArg List.length hchomp
    rw [List.length_append, length_lineEnds] at this
    omega
  rw [hlength, lineEnds_add, List.append_assoc, ← List.append_assoc (chomp u), ← hchomp, filed_cons]

def readBehind (g : Nat) (us : List (List Char)) : List (List Char) :=
  essence (Chars.splitOn (lineEnds 3) (lineEnds g ++ filed us))

theorem readBehind_nil_iff (g : Nat) : readBehind g [] = essence [] ↔ g % 3 ≠ 2 := by
  have hlt : g % 3 < 3 := Nat.mod_lt g (by decide)
  have hnil : essence [lineEnds (g % 3)] = [] ↔ g % 3 - 1 = 0 := by
    rw [essence_eq_nil_iff, List.forall_mem_singleton, chomp_lineEnds]
    exact List.replicate_eq_nil_iff '\n'
  rw [readBehind, filed, List.flatMap_nil, List.append_nil, splitOn_lineEnds, essence_replicate_nil]
  refine hnil.trans ?_
  omega

theorem exists_joinWith_eq (p : List Char) (more : List (List Char)) :
    ∃ x, Chars.joinWith (lineEnds 3) (p :: more) = chomp p ++ x := by
  obtain ⟨t, -, hp⟩ := exists_eq_chomp_append p
  by_cases hmore : more = []
  · subst hmore
    exact ⟨lineEnds t, hp⟩
  · refine ⟨lineEnds t ++ (lineEnds 3 ++ Chars.joinWith (lineEnds 3) more), ?_⟩
    rw [Chars.joinWith_cons hmore, ← List.append_assoc (chomp p), ← hp, List.append_assoc]

theorem exists_of_essence_eq_cons {cs d : List Char} {ds : List (List Char)}
    (h : essence (Chars.splitOn (lineEnds 3) cs) = d :: ds) :
    ∃ q p more, chomp p = d ∧ essence more = ds ∧ Chars.Parted (lineEnds 3) (p :: more) ∧
      cs = lineEnds (3 * q) ++ Chars.joinWith (lineEnds 3) (p :: more) := by
  obtain ⟨hparted, hjoin⟩ := Chars.splitOn_spec lineEnds_three_ne_nil cs
  obtain ⟨q, p, more, hpieces, hp, hmore, hrest⟩ := essence_eq_cons hparted h
  refine ⟨q, p, more, hp, hmore, hrest, ?_⟩
  rw [← joinWith_replicate_nil q (List.cons_ne_nil p more), ← hpieces, hjoin]

theorem eq_of_lineEnds_append {d x y : List Char} (h : ∃ c ∈ d, c ≠ '\n') {m n : Nat}
    (heq : lineEnds m ++ (d ++ x) = lineEnds n ++ (d ++ y)) : m = n ∧ x = y := by
  have hlead := congrArg leading heq
  rw [leading_lineEnds_append, leading_lineEnds_append, leading_append h, leading_append h] at hlead
  obtain rfl : m = n := by omega
  exact ⟨rfl, List.append_cancel_left (List.append_cancel_left heq)⟩

theorem readBehind_skip (g : Nat) {u : List Char} (us : List (List Char)) (hu : chomp u = []) :
    readBehind g (u :: us) = essence (u :: us) ↔ readBehind (g + u.length + 2) us = essence us := by
  obtain ⟨n, -, rfl⟩ := chomp_eq_nil_iff.1 hu
  have htext : lineEnds g ++ filed (lineEnds n :: us) = lineEnds (g + n + 2) ++ filed us := by
    rw [filed_cons, lineEnds_add, lineEnds_add]
    simp only [List.append_assoc]
  rw [readBehind, htext, essence_cons, if_pos hu, length_lineEnds, readBehind]

theorem three_of_readBehind {t : Nat} {us : List (List Char)} (h : readBehind (t + 2) us = essence us) :
    lineEnds 3 <+: lineEnds (t + 2) ++ filed us := by
  cases t with
  | succ t =>
    refine ⟨lineEnds t ++ filed us, ?_⟩
    rw [← List.append_assoc, ← lineEnds_add, Nat.add_comm 3 t]
  | zero =>
    cases us with
    | nil => exact absurd rfl ((readBehind_nil_iff 2).1 h)
    | cons v us =>
      cases v with
      | nil => exact ⟨lineEnds 1 ++ filed us, rfl⟩
      | cons c v =>
        by_cases hc : c = '\n'
        · subst hc
          exact ⟨v ++ (lineEnds 2 ++ filed us), by rw [filed_cons]; rfl⟩
        · have hd : ∃ a ∈ chomp (c :: v), a ≠ '\n' := ⟨c, mem_chomp List.mem_cons_self hc, hc⟩
          have hdne : chomp (c :: v) ≠ [] := List.ne_nil_of_mem (mem_chomp List.mem_cons_self hc)
          obtain ⟨t, -, hv⟩ := exists_eq_chomp_append (c :: v)
          rw [essence_cons, if_neg hdne] at h
          obtain ⟨q, p, more, hp, -, -, hcs⟩ := exists_of_essence_eq_cons h
          obtain ⟨x, hx⟩ := exists_joinWith_eq p more
          rw [hx, hp, filed_cons] at hcs
          nth_rewrite 1 [hv] at hcs
          rw [List.append_assoc] at hcs
          have := (eq_of_lineEnds_append hd hcs).1
          omega

theorem readBehind_solid (g : Nat) {u : List Char} (us : List (List Char)) (hu : ∃ c ∈ u, c ≠ '\n') :
    readBehind g (u :: us) = essence (u :: us) ↔
      3 ∣ g ∧ Whole (chomp u) ∧ readBehind (u.length - (chomp u).length + 2) us = essence us := by
  obtain ⟨c, hc, hcne⟩ := hu
  have hd : ∃ c ∈ chomp u, c ≠ '\n' := ⟨c, mem_chomp hc hcne, hcne⟩
  have hdne : chomp u ≠ [] := List.ne_nil_of_mem (mem_chomp hc hcne)
  rw [essence_cons, if_neg hdne]
  constructor
  · intro h
    obtain ⟨q, p, more, hp, hmore, hparted, hcs⟩ := exists_of_essence_eq_cons h
    rw [filed_cons_eq] at hcs
    by_cases hnil : more = []
    · -- the block would be the last piece, with the two line ends behind it
      obtain ⟨s, hs, hps⟩ := exists_eq_chomp_append p
      rw [hnil, Chars.joinWith, hps, hp] at hcs
      have hrest := congrArg List.length (eq_of_lineEnds_append hd hcs).2
      rw [List.length_append, length_lineEnds, length_lineEnds] at hrest
      omega
    · obtain ⟨hfirst, hrest⟩ := (Chars.parted_cons hnil).1 hparted
      have hwhole := first_iff.1 hfirst
      rw [chomp_of_getLast? hwhole.closed] at hp
      rw [hp] at hwhole
      rw [Chars.joinWith_cons hnil, hp, List.append_assoc] at hcs
      obtain ⟨hg, hbehind⟩ := eq_of_lineEnds_append hd hcs
      refine ⟨⟨q, hg⟩, hwhole, ?_⟩
      rw [readBehind, hbehind, Chars.splitOn_append lineEnds_three_ne_nil,
        Chars.splitOn_joinWith lineEnds_three_ne_nil hrest, ← hmore]
      rfl
  · rintro ⟨⟨q, rfl⟩, hwhole, h⟩
    obtain ⟨z, hz⟩ := three_of_readBehind h
    rw [readBehind, filed_cons_eq, splitOn_lineEnds_append, essence_replicate_nil, ← hz, ← List.append_assoc,
      Chars.splitOn_of_first lineEnds_three_ne_nil (first_iff.2 hwhole), essence_cons,
      chomp_of_getLast? hwhole.closed, if_neg hdne]
    rw [readBehind, ← hz, Chars.splitOn_append lineEnds_three_ne_nil] at h
    exact congrArg _ h

theorem exists_filed_eq {us : List (List Char)} (h : essence us = []) : ∃ n, filed us = lineEnds n := by
  induction us with
  | nil => exact ⟨0, rfl⟩
  | cons u us ih =>
    have hu := essence_eq_nil_iff.1 h
    obtain ⟨m, -, rfl⟩ := chomp_eq_nil_iff.1 (hu u List.mem_cons_self)
    obtain ⟨n, hn⟩ := ih (essence_eq_nil_iff.2 fun v hv => hu v (List.mem_cons_of_mem _ hv))
    exact ⟨m + (2 + n), by rw [filed_cons, hn, lineEnds_add, lineEnds_add]⟩

theorem readBehind_blank (g n : Nat) (us : List (List Char)) :
    readBehind g (lineEnds (n + 2) :: us) = essence (lineEnds (n + 2) :: us) ↔
      n = 0 ∧ essence us = [] ∧ ending (lineEnds g ++ filed (lineEnds (n + 2) :: us)) % 3 = 2 := by
  have hne : chomp (lineEnds (n + 2)) ≠ [] := by
    rw [chomp_lineEnds]
    simp [lineEnds]
  rw [essence_cons, if_neg hne]
  constructor
  · intro h
    obtain ⟨q, p, more, hp, hmore, hparted, hcs⟩ := exists_of_essence_eq_cons h
    obtain ⟨t, -, hpt⟩ := exists_eq_chomp_append p
    rw [hp, chomp_lineEnds, ← lineEnds_add] at hpt
    have hnil : more = [] := by
      by_contra hnil
      refine (first_iff.1 ((Chars.parted_cons hnil).1 hparted).1).closed ?_
      rw [hpt, lineEnds, List.getLast?_replicate, if_neg (by omega)]
    subst hnil
    have hshort : n + 2 - 1 + t < 3 := by
      by_contra hlong
      refine hparted ⟨[], lineEnds (n + 2 - 1 + t - 3), ?_⟩
      rw [List.nil_append, ← lineEnds_add, hpt]
      congr 1
      omega
    have ht : n + 2 - 1 + t - 1 = n + 2 - 1 := by
      have := congrArg List.length hp
      rwa [hpt, chomp_lineEnds, chomp_lineEnds, length_lineEnds, length_lineEnds] at this
    refine ⟨by omega, hmore.symm, ?_⟩
    rw [hcs, Chars.joinWith, hpt, ← lineEnds_add, ending_lineEnds]
    omega
  · rintro ⟨rfl, hnil, hending⟩
    obtain ⟨m, hm⟩ := exists_filed_eq hnil
    rw [filed_cons, hm, ← lineEnds_add, ← lineEnds_add, ← lineEnds_add, ending_lineEnds] at hending
    rw [readBehind, filed_cons, hm, ← lineEnds_add, ← lineEnds_add, ← lineEnds_add, splitOn_lineEnds,
      essence_replicate_nil, hending, hnil]
    decide

/-! ## When blocks come back -/

/-- Behind a number of line ends, every block of which something remains begins at a multiple of three line ends, and
is whole. -/
def Orderly (g : Nat) (us : List (List Char)) : Prop :=
  ∀ before u behind, us = before ++ u :: behind → chomp u ≠ [] →
    3 ∣ ending (lineEnds g ++ filed before) ∧ Whole (chomp u)

/-- The line ends behind a block that are not its own, and those before it if it is empty. -/
def gapBehind (g : Nat) (u : List Char) : Nat :=
  if chomp u = [] then g + u.length + 2 else u.length - (chomp u).length + 2

theorem ending_filed_cons (g : Nat) {u : List Char} (hu : chomp u ≠ [] → Whole (chomp u)) (us : List (List Char)) :
    ending (lineEnds g ++ filed (u :: us)) = ending (lineEnds (gapBehind g u) ++ filed us) := by
  unfold gapBehind
  split
  · next hnil =>
    obtain ⟨n, -, rfl⟩ := chomp_eq_nil_iff.1 hnil
    rw [filed_cons, length_lineEnds, lineEnds_add, lineEnds_add]
    simp only [List.append_assoc]
  · next hne =>
    rw [filed_cons_eq, ending_append hne (hu hne).closed]

theorem orderly_cons (g : Nat) (u : List Char) (us : List (List Char)) :
    Orderly g (u :: us) ↔ (chomp u ≠ [] → 3 ∣ g ∧ Whole (chomp u)) ∧ Orderly (gapBehind g u) us := by
  constructor
  · intro h
    have hu : chomp u ≠ [] → 3 ∣ g ∧ Whole (chomp u) := by
      intro hne
      have hfirst := h [] u us rfl hne
      rwa [filed, List.flatMap_nil, List.append_nil, ending_lineEnds] at hfirst
    refine ⟨hu, fun before v behind hus hne => ?_⟩
    rw [← ending_filed_cons g fun hne => (hu hne).2]
    exact h (u :: before) v behind (by rw [hus]; rfl) hne
  · rintro ⟨hu, h⟩ before v behind hus hne
    cases before with
    | nil =>
      obtain ⟨rfl, -⟩ := List.cons.inj hus
      rw [filed, List.flatMap_nil, List.append_nil, ending_lineEnds]
      exact hu hne
    | cons w before =>
      obtain ⟨rfl, hrest⟩ := List.cons.inj hus
      rw [ending_filed_cons g fun hne => (hu hne).2]
      exact h before v behind hrest hne

/-- The ways in which a file gives back what was put into it: the blocks are orderly, and no line ends are left over at
the end; or two are left over, and they stand for a last block of two line ends. -/
def ComesBack (g : Nat) (us : List (List Char)) : Prop :=
  Orderly g us ∧ ending (lineEnds g ++ filed us) % 3 ≠ 2 ∨
  ∃ before behind, us = before ++ lineEnds 2 :: behind ∧ Orderly g before ∧ essence behind = [] ∧
    ending (lineEnds g ++ filed us) % 3 = 2

theorem comesBack_cons (g : Nat) {u : List Char} (us : List (List Char)) (hu : u ≠ lineEnds 2) :
    ComesBack g (u :: us) ↔ (chomp u ≠ [] → 3 ∣ g ∧ Whole (chomp u)) ∧ ComesBack (gapBehind g u) us := by
  constructor
  · rintro (⟨horderly, hending⟩ | ⟨before, behind, hus, horderly, hbehind, hending⟩)
    · obtain ⟨hfirst, hrest⟩ := (orderly_cons g u us).1 horderly
      rw [ending_filed_cons g fun hne => (hfirst hne).2] at hending
      exact ⟨hfirst, .inl ⟨hrest, hending⟩⟩
    · cases before with
      | nil => exact absurd (List.cons.inj hus).1 hu
      | cons v before =>
        obtain ⟨rfl, htail⟩ := List.cons.inj hus
        obtain ⟨hfirst, hrest⟩ := (orderly_cons g u before).1 horderly
        rw [ending_filed_cons g fun hne => (hfirst hne).2] at hending
        exact ⟨hfirst, .inr ⟨before, behind, htail, hrest, hbehind, hending⟩⟩
  · rintro ⟨hfirst, ⟨horderly, hending⟩ | ⟨before, behind, hus, horderly, hbehind, hending⟩⟩
    · rw [← ending_filed_cons g fun hne => (hfirst hne).2] at hending
      exact .inl ⟨(orderly_cons g u us).2 ⟨hfirst, horderly⟩, hending⟩
    · rw [← ending_filed_cons g fun hne => (hfirst hne).2] at hending
      exact .inr ⟨u :: before, behind, by rw [hus]; rfl, (orderly_cons g u before).2 ⟨hfirst, horderly⟩, hbehind,
        hending⟩

theorem not_orderly_blank (g n : Nat) (us : List (List Char)) : ¬ Orderly g (lineEnds (n + 2) :: us) := by
  intro h
  have hchomp : chomp (lineEnds (n + 2)) = lineEnds (n + 1) := chomp_lineEnds (n + 2)
  have hwhole := ((orderly_cons g _ us).1 h).1 (by rw [hchomp]; simp [lineEnds])
  refine hwhole.2.closed ?_
  rw [hchomp, lineEnds, List.getLast?_replicate, if_neg (Nat.succ_ne_zero n)]

theorem comesBack_blank (g n : Nat) (us : List (List Char)) :
    ComesBack g (lineEnds (n + 2) :: us) ↔
      n = 0 ∧ essence us = [] ∧ ending (lineEnds g ++ filed (lineEnds (n + 2) :: us)) % 3 = 2 := by
  constructor
  · rintro (⟨horderly, -⟩ | ⟨before, behind, hus, horderly, hbehind, hending⟩)
    · exact absurd horderly (not_orderly_blank g n us)
    · cases before with
      | nil =>
        obtain ⟨htwo, rfl⟩ := List.cons.inj hus
        have hlength := congrArg List.length htwo
        rw [length_lineEnds, length_lineEnds] at hlength
        exact ⟨by omega, hbehind, hending⟩
      | cons v before =>
        obtain ⟨rfl, -⟩ := List.cons.inj hus
        exact absurd horderly (not_orderly_blank g n before)
  · rintro ⟨rfl, hnil, hending⟩
    refine .inr ⟨[], us, rfl, fun before v behind hus => ?_, hnil, hending⟩
    simp at hus

theorem readBehind_eq_iff (g : Nat) (us : List (List Char)) : readBehind g us = essence us ↔ ComesBack g us := by
  induction us generalizing g with
  | nil =>
    rw [readBehind_nil_iff]
    simp [ComesBack, Orderly, filed, ending_lineEnds]
  | cons u us ih =>
    by_cases hnil : chomp u = []
    · have hu : u ≠ lineEnds 2 := by
        rintro rfl
        exact absurd hnil (by decide)
      rw [readBehind_skip g us hnil, ih, comesBack_cons g us hu, gapBehind, if_pos hnil]
      simp [hnil]
    · by_cases hsolid : ∃ c ∈ u, c ≠ '\n'
      · have hu : u ≠ lineEnds 2 := by
          rintro rfl
          obtain ⟨c, hc, hne⟩ := hsolid
          exact hne (List.eq_of_mem_replicate hc)
        rw [readBehind_solid g us hsolid, ih, comesBack_cons g us hu, gapBehind, if_neg hnil, ← and_assoc]
        simp [hnil]
      · obtain ⟨n, rfl⟩ : ∃ n, u = lineEnds (n + 2) := by
          push Not at hsolid
          have hu : u = lineEnds u.length := List.eq_replicate_of_mem hsolid
          have hlong : 2 ≤ u.length := by
            by_contra hshort
            exact hnil (chomp_eq_nil_iff.2 ⟨u.length, by omega, hu⟩)
          exact ⟨u.length - 2, by rw [Nat.sub_add_cancel hlong]; exact hu⟩
        rw [readBehind_blank, comesBack_blank]

theorem comesBack_of_ended {g : Nat} (hg : 3 ∣ g) {us : List (List Char)}
    (h : ∀ u ∈ us, ∃ d, d ≠ [] ∧ Whole d ∧ u = d ++ lineEnds 1) : ComesBack g us := by
  induction us generalizing g with
  | nil =>
    refine .inl ⟨fun before u behind hus => by simp at hus, ?_⟩
    rw [filed, List.flatMap_nil, List.append_nil, ending_lineEnds]
    omega
  | cons u us ih =>
    obtain ⟨d, hne, hwhole, rfl⟩ := h u List.mem_cons_self
    have hchomp : chomp (d ++ lineEnds 1) = d := by simp [chomp, lineEnds]
    have hu : d ++ lineEnds 1 ≠ lineEnds 2 := by
      intro htwo
      have hd : d = ['\n'] := List.append_cancel_right (htwo : d ++ ['\n'] = ['\n'] ++ ['\n'])
      exact hwhole.closed (by rw [hd]; rfl)
    have hgap : gapBehind g (d ++ lineEnds 1) = 3 := by
      rw [gapBehind, hchomp, if_neg hne, List.length_append, length_lineEnds]
      omega
    rw [comesBack_cons g us hu, hchomp, hgap]
    exact ⟨fun _ => ⟨hg, hwhole⟩, ih (by decide) fun v hv => h v (List.mem_cons_of_mem _ hv)⟩

/-! ## From answers to blocks and back -/

theorem undone_append_cons (x y : List Char) : undone (x ++ '\n' :: y) = undone x ++ '\n' :: undone y := by
  have hpass (name : String) (sign : Char) (hname : '\n' ∉ '&' :: name.toList) (x y : List Char) :
      withSign name sign (x ++ '\n' :: y) = withSign name sign x ++ '\n' :: withSign name sign y :=
    Chars.replace_append_cons (List.cons_ne_nil '&' name.toList) hname x y
  simp only [← withSigns_eq_undone]
  rw [hpass "lt;" '<' (by decide), hpass "gt;" '>' (by decide), hpass "amp;" '&' (by decide)]

theorem undone_filed (us : List (List Char)) : undone (filed us) = filed (us.map undone) := by
  induction us with
  | nil => rfl
  | cons u us ih =>
    rw [List.map_cons, filed_cons, filed_cons, ← ih]
    change undone (u ++ '\n' :: ([] ++ '\n' :: filed us)) = _
    rw [undone_append_cons, undone_append_cons]
    rfl

theorem toList_blocksFile (blocks : List String) : (blocksFile blocks).toList = filed (blocks.map String.toList) := by
  induction blocks with
  | nil => rfl
  | cons b blocks ih =>
    rw [blocksFile, List.map_cons, String.join_cons, String.toList_append, String.toList_append, List.map_cons,
      filed_cons, ← ih, List.append_assoc]
    rfl

theorem toList_readBlocks (blocks : List String) :
    (readBlocks (blocksFile blocks)).map String.toList =
      Chars.splitOn (lineEnds 3) (filed (blocks.map fun b => undone b.toList)) := by
  have htext : (unescaped (blocksFile blocks)).toList = filed (blocks.map fun b => undone b.toList) := by
    rw [unescaped_toList, withSigns_eq_undone, toList_blocksFile, undone_filed, List.map_map]
    rfl
  rw [readBlocks, splitOn, htext, List.map_map]
  have hid : String.toList ∘ String.ofList = id := by
    funext cs
    exact String.toList_ofList
  rw [hid, List.map_id]
  rfl

theorem codeCommand_eq_ok {saved : Option (List Thread)} {posts : List Post} {bodies : List String}
    (h : ((savedOrLoaded saved posts).1.flatMap Thread.answers).map Answer.body = bodies.map some) :
    ∃ o, codeCommand saved posts = .ok o ∧
      o.files.get? "output/mpl_code_blocks.txt" = some (blocksFile (bodies.flatMap codeBlocks)) := by
  rcases hload : savedOrLoaded saved posts with ⟨ts, told⟩
  rw [hload] at h
  have hblocks : (ts.flatMap Thread.answers).mapM (fun a => do return codeBlocks (← orFault a.body (.broken ""))) =
      .ok (bodies.map codeBlocks) := by
    have hmap := congrArg (List.map fun body : Option String => codeBlocks (body.getD "")) h
    rw [List.map_map, List.map_map] at hmap
    refine (mapM_eq_ok fun a ha => ?_).trans (congrArg Except.ok hmap)
    have hbody : a.body ∈ bodies.map some := h ▸ List.mem_map_of_mem ha
    obtain ⟨b, -, hb⟩ := List.mem_map.1 hbody
    rw [Function.comp_apply, ← hb]
    rfl
  unfold codeCommand
  rw [hload]
  dsimp only
  rw [hblocks, List.flatMap_def]
  exact ⟨_, rfl, rfl⟩

/-- The blocks of all answers, their escapes undone, are what is read of the file of them, up to a line end at the end
of each and but for empty ones, just when they come back from it. -/
theorem readBlocks_written_iff (saved : Option (List Thread)) (posts : List Post) (bodies : List String)
    (hbodies : ((savedOrLoaded saved posts).1.flatMap Thread.answers).map Answer.body = bodies.map some) :
    ∃ o file, codeCommand saved posts = .ok o ∧ o.files.get? "output/mpl_code_blocks.txt" = some file ∧
      let blocks := (bodies.flatMap codeBlocks).map fun b => undone b.toList
      (essence ((readBlocks file).map String.toList) = essence blocks ↔ ComesBack 0 blocks) := by
  obtain ⟨o, hcommand, hfile⟩ := codeCommand_eq_ok hbodies
  refine ⟨o, _, hcommand, hfile, ?_⟩
  intro blocks
  rw [toList_readBlocks]
  exact readBehind_eq_iff 0 blocks

/-- Blocks that end in one line end come back. -/
theorem readBlocks_written_two :
    let threads : List Thread := [⟨1, none, none, none, [⟨2, some "<pre><code>x &lt; 1\n</code></pre>", none⟩,
      ⟨3, some "<pre><code>f()\n\ny\n</code></pre>", none⟩]⟩]
    ∃ o file, codeCommand (some threads) [] = .ok o ∧ o.files.get? "output/mpl_code_blocks.txt" = some file ∧
      essence ((readBlocks file).map String.toList) = ["x < 1".toList, "f()\n\ny".toList] := by
  intro threads
  obtain ⟨o, file, hcommand, hfile, hiff⟩ := readBlocks_written_iff (some threads) []
    ["<pre><code>x &lt; 1\n</code></pre>", "<pre><code>f()\n\ny\n</code></pre>"] rfl
  refine ⟨o, file, hcommand, hfile, (hiff.2 (comesBack_of_ended (by decide) ?_)).trans (by decide)⟩
  refine List.forall_mem_cons.2 ⟨⟨"x < 1".toList, by decide, ⟨by decide, by decide⟩, by decide⟩, ?_⟩
  exact List.forall_mem_singleton.2 ⟨"f()\n\ny".toList, by decide, ⟨by decide, by decide⟩, by decide⟩

/-- Two blocks that do not end in a line end are read as one. -/
theorem unended_blocks_merged :
    let blocks := codeBlocks "<pre><code>x</code></pre><pre><code>y</code></pre>"
    blocks = ["x", "y"] ∧ readBlocks (blocksFile blocks) = ["x\n\ny\n\n"] ∧
      essence ((readBlocks (blocksFile blocks)).map String.toList) ≠ essence (blocks.map fun b => undone b.toList) := by
  decide

end PlotAdvisor.Forum
