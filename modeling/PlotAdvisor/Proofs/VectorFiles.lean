import PlotAdvisor.Proofs.Faults
import PlotAdvisor.Proofs.Floats
import PlotAdvisor.Proofs.Words

/-! Files of word vectors, read into rows and into one list.

Behind its header a file is cut into pieces, each a word up to its blank and the bytes of its values. Reading goes
through as many pieces as the header tells. It can stop in two ways: in the values of a word, which is a fault, or in
a word, and then no read brings the blank that ends it.

* `Piece` - a word and the bytes of its values.
* `pieces_or_cut` - what can stand behind a header.
* `readEntries_pieces` - reading goes on behind whole pieces.
-/
set_option autoImplicit false

namespace PlotAdvisor

namespace Models.Vectors

/-! ## Words -/

/-- The bytes of a word that are kept: all but line ends. -/
def lettersOf (word : List Nat) : List Nat := word.filter fun b => b != 10 && b != 13

theorem readWordUpTo_blank {word : List Nat} (hword : 32 ∉ word) {reads : Nat} (hreads : word.length < reads)
    (done rest : List Nat) : readWordUpTo reads done (word ++ 32 :: rest) = .ok (done.reverse ++ lettersOf word, rest) := by
  induction word generalizing reads done with
  | nil =>
    obtain ⟨reads, rfl⟩ := Nat.exists_eq_succ_of_ne_zero (Nat.ne_of_gt hreads)
    simp [readWordUpTo, lettersOf]
  | cons b word ih =>
    obtain ⟨reads, rfl⟩ := Nat.exists_eq_succ_of_ne_zero (Nat.ne_of_gt (Nat.zero_lt_of_lt hreads))
    rw [List.mem_cons, not_or] at hword
    have hfewer : word.length < reads := Nat.lt_of_succ_lt_succ hreads
    rw [List.cons_append, readWordUpTo]
    by_cases hend : b = 10 ∨ b = 13
    · rw [if_pos hend, ih hword.2 hfewer, lettersOf, lettersOf, List.filter_cons_of_neg (by rcases hend with rfl | rfl <;> simp)]
    · rw [if_neg hend, if_neg (Ne.symm hword.1), ih hword.2 hfewer, lettersOf, lettersOf,
        List.filter_cons_of_pos (by simpa [not_or] using hend), List.reverse_cons, List.append_assoc, List.singleton_append]

theorem readWordUpTo_unending {bytes : List Nat} {reads : Nat} (h : 32 ∉ bytes.take reads) (done : List Nat) :
    readWordUpTo reads done bytes = .error .unending := by
  induction reads generalizing bytes done with
  | zero => rfl
  | succ reads ih =>
    cases bytes with
    | nil => exact ih (by simp) done
    | cons b bytes =>
      rw [List.take_succ_cons, List.mem_cons, not_or] at h
      rw [readWordUpTo, if_neg (Ne.symm h.1), ih h.2, ih h.2, ite_self]

theorem readWord_blank {word : List Nat} (hword : 32 ∉ word) {reads : Nat} (hreads : word.length < reads)
    (rest : List Nat) :
    readWord reads (word ++ 32 :: rest) = .ok (String.ofList ((lettersOf word).map Char.ofNat), rest) := by
  rw [readWord, readWordUpTo_blank hword hreads]
  rfl

theorem readWord_unending {bytes : List Nat} {reads : Nat} (h : 32 ∉ bytes.take reads) :
    readWord reads bytes = .error .unending := by
  rw [readWord, readWordUpTo_unending h]
  rfl

/-! ## Values -/

def numbersIn : List Nat → List Nat
  | a :: b :: c :: d :: bytes => (a + 256 * (b + 256 * (c + 256 * d))) :: numbersIn bytes
  | _ => []

theorem exists_four {n : Nat} {bytes : List Nat} (h : bytes.length = 4 * (n + 1)) :
    ∃ a b c d rest, bytes = a :: b :: c :: d :: rest ∧ rest.length = 4 * n := by
  rcases bytes with _ | ⟨a, _ | ⟨b, _ | ⟨c, _ | ⟨d, rest⟩⟩⟩⟩ <;> simp only [List.length_cons, List.length_nil] at h
  case cons.cons.cons.cons => exact ⟨a, b, c, d, rest, rfl, by omega⟩
  all_goals omega

theorem length_numbersIn {n : Nat} {bytes : List Nat} (h : bytes.length = 4 * n) : (numbersIn bytes).length = n := by
  induction n generalizing bytes with
  | zero =>
    obtain rfl := List.length_eq_zero_iff.1 h
    rfl
  | succ n ih =>
    obtain ⟨a, b, c, d, rest, rfl, hrest⟩ := exists_four h
    exact congrArg Nat.succ (ih hrest)

section
variable {α τ : Type}

/-- Puts values into a table one after the other, from a place on. -/
def putAll (put : Nat → α → τ → τ) : Nat → List α → τ → τ
  | _, [], t => t
  | j, x :: xs, t => putAll put (j + 1) xs (put j x t)

variable (valueOf : Nat → α) (put : Nat → α → τ → τ)

theorem readValues_whole {n : Nat} {bytes : List Nat} (h : bytes.length = 4 * n) (j : Nat) (t : τ) (rest : List Nat) :
    readValues valueOf put n j t (bytes ++ rest) = .ok (putAll put j ((numbersIn bytes).map valueOf) t, rest) := by
  induction n generalizing bytes j t with
  | zero =>
    obtain rfl := List.length_eq_zero_iff.1 h
    rfl
  | succ n ih =>
    obtain ⟨a, b, c, d, more, rfl, hmore⟩ := exists_four h
    exact ih hmore _ _

theorem readValues_short {n : Nat} {bytes : List Nat} (h : bytes.length < 4 * n) (j : Nat) (t : τ) :
    readValues valueOf put n j t bytes = .error .shortRecord := by
  induction n generalizing bytes j t with
  | zero => simp at h
  | succ n ih =>
    rcases bytes with _ | ⟨a, _ | ⟨b, _ | ⟨c, _ | ⟨d, bytes⟩⟩⟩⟩
    case cons.cons.cons.cons => exact ih (by simp only [List.length_cons] at h; omega) _ _
    all_goals rfl

end

/-! ## Pieces -/

structure Piece where
  word : List Nat
  values : List Nat

namespace Piece

def bytes (p : Piece) : List Nat := p.word ++ 32 :: p.values

/-- There is no blank inside the word, and there are bytes for all values. -/
def Whole (size : Nat) (p : Piece) : Prop := 32 ∉ p.word ∧ p.values.length = 4 * size

def name (p : Piece) : String := String.ofList ((lettersOf p.word).map Char.ofNat)

def row {α : Type} (valueOf : Nat → α) (p : Piece) : List α := (numbersIn p.values).map valueOf

theorem length_word_lt {p : Piece} {ps : List Piece} (hp : p ∈ ps) (rest : List Nat) :
    p.word.length < (ps.flatMap bytes ++ rest).length := by
  obtain ⟨before, after, rfl⟩ := List.append_of_mem hp
  simp only [List.flatMap_append, List.flatMap_cons, bytes, List.length_append, List.length_cons]
  omega

end Piece

/-- Fewer pieces than asked for, and then bytes without a blank. -/
def StopsInWord (size n : Nat) (bytes : List Nat) : Prop :=
  ∃ (ps : List Piece) (tail : List Nat), ps.length < n ∧ (∀ p ∈ ps, p.Whole size) ∧ 32 ∉ tail ∧
    bytes = ps.flatMap Piece.bytes ++ tail

def StopsInValues (size n : Nat) (bytes : List Nat) : Prop :=
  ∃ (ps : List Piece) (p : Piece), ps.length < n ∧ (∀ p ∈ ps, p.Whole size) ∧ 32 ∉ p.word ∧ p.values.length < 4 * size ∧
    bytes = ps.flatMap Piece.bytes ++ p.bytes

theorem pieces_or_cut (size n : Nat) (bytes : List Nat) :
    (∃ (ps : List Piece) (rest : List Nat), ps.length = n ∧ (∀ p ∈ ps, p.Whole size) ∧
      bytes = ps.flatMap Piece.bytes ++ rest) ∨ StopsInWord size n bytes ∨ StopsInValues size n bytes := by
  induction n generalizing bytes with
  | zero => exact Or.inl ⟨[], bytes, rfl, by simp, rfl⟩
  | succ n ih =>
    by_cases hblank : 32 ∈ bytes
    · obtain ⟨word, more, rfl, hword⟩ := List.eq_append_cons_of_mem hblank
      by_cases hshort : more.length < 4 * size
      · exact Or.inr (Or.inr ⟨[], ⟨word, more⟩, Nat.succ_pos n, by simp, hword, hshort, rfl⟩)
      · -- a whole piece, and what is behind it
        have hp : (⟨word, more.take (4 * size)⟩ : Piece).Whole size := ⟨hword, by rw [List.length_take]; omega⟩
        have hbytes : word ++ 32 :: more = (⟨word, more.take (4 * size)⟩ : Piece).bytes ++ more.drop (4 * size) := by
          rw [Piece.bytes, List.append_assoc, List.cons_append, List.take_append_drop]
        rw [hbytes]
        rcases ih (more.drop (4 * size)) with ⟨ps, rest, hn, hps, heq⟩ | ⟨ps, tail, hn, hps, htail, heq⟩ |
          ⟨ps, p, hn, hps, hlast, hcut, heq⟩
        · exact Or.inl ⟨_ :: ps, rest, congrArg Nat.succ hn, List.forall_mem_cons.2 ⟨hp, hps⟩,
            by rw [heq, List.flatMap_cons, List.append_assoc]⟩
        · exact Or.inr (Or.inl ⟨_ :: ps, tail, Nat.succ_lt_succ hn, List.forall_mem_cons.2 ⟨hp, hps⟩, htail,
            by rw [heq, List.flatMap_cons, List.append_assoc]⟩)
        · exact Or.inr (Or.inr ⟨_ :: ps, p, Nat.succ_lt_succ hn, List.forall_mem_cons.2 ⟨hp, hps⟩, hlast, hcut,
            by rw [heq, List.flatMap_cons, List.append_assoc]⟩)
    · exact Or.inr (Or.inl ⟨[], bytes, Nat.succ_pos n, by simp, hblank, rfl⟩)

/-! ## Reading pieces -/

section
variable {α τ : Type} (store : Store α τ) (valueOf : Nat → α) (h : Header)

def stored : Nat → List Piece → τ → τ
  | _, [], t => t
  | i, p :: ps, t => stored (i + 1) ps (putAll (store.put h i) 0 (p.row valueOf) t)

variable {store valueOf h} {reads n i : Nat} {t : τ}

theorem readEntries_piece {p : Piece} (hp : p.Whole h.size.toNat) (hreads : p.word.length < reads) (rest : List Nat) :
    readEntries reads store valueOf h (n + 1) i t (p.bytes ++ rest) =
      (readEntries reads store valueOf h n (i + 1) (putAll (store.put h i) 0 (p.row valueOf) t) rest).map fun r =>
        (p.name :: r.1, r.2) := by
  have hbytes : p.bytes ++ rest = p.word ++ 32 :: (p.values ++ rest) := by rw [Piece.bytes, List.append_assoc]; rfl
  have hvalues : readValues valueOf (store.put h i) h.size.toNat 0 t (p.values ++ rest) =
      .ok (putAll (store.put h i) 0 (p.row valueOf) t, rest) := readValues_whole valueOf (store.put h i) hp.2 0 t rest
  rw [readEntries, hbytes, readWord_blank hp.1 hreads]
  simp only [Bind.bind, Except.bind, hvalues]
  cases readEntries reads store valueOf h n (i + 1) (putAll (store.put h i) 0 (p.row valueOf) t) rest <;> rfl

theorem readEntries_pieces {ps : List Piece} (hps : ∀ p ∈ ps, p.Whole h.size.toNat)
    (hreads : ∀ p ∈ ps, p.word.length < reads) (rest : List Nat) :
    readEntries reads store valueOf h (ps.length + n) i t (ps.flatMap Piece.bytes ++ rest) =
      (readEntries reads store valueOf h n (i + ps.length) (stored store valueOf h i ps t) rest).map fun r =>
        (ps.map Piece.name ++ r.1, r.2) := by
  induction ps generalizing i t with
  | nil =>
    rw [List.length_nil, Nat.zero_add, List.flatMap_nil, List.nil_append, Nat.add_zero, stored]
    cases readEntries reads store valueOf h n i t rest <;> rfl
  | cons p ps ih =>
    rw [List.forall_mem_cons] at hps hreads
    rw [List.length_cons, Nat.succ_add, List.flatMap_cons, List.append_assoc, readEntries_piece hps.1 hreads.1,
      ih hps.2 hreads.2, stored, Nat.add_assoc i, Nat.add_comm 1]
    cases readEntries reads store valueOf h n (i + (ps.length + 1)) _ rest <;> rfl

theorem readEntries_done {ps : List Piece} (hps : ∀ p ∈ ps, p.Whole h.size.toNat)
    (hreads : ∀ p ∈ ps, p.word.length < reads) (rest : List Nat) :
    readEntries reads store valueOf h ps.length i t (ps.flatMap Piece.bytes ++ rest) =
      .ok (ps.map Piece.name, stored store valueOf h i ps t) := by
  have hrun : readEntries reads store valueOf h (ps.length + 0) i t (ps.flatMap Piece.bytes ++ rest) = _ :=
    readEntries_pieces hps hreads rest
  rw [Nat.add_zero] at hrun
  rw [hrun, readEntries, Except.map, List.append_nil]

theorem readEntries_stopsInWord {bytes : List Nat} (hstop : StopsInWord h.size.toNat n bytes) :
    readEntries reads store valueOf h n i t bytes = .error .unending := by
  obtain ⟨ps, tail, hn, hps, htail, rfl⟩ := hstop
  induction ps generalizing n i t with
  | nil =>
    obtain ⟨n, rfl⟩ := Nat.exists_eq_succ_of_ne_zero (Nat.ne_of_gt hn)
    rw [List.flatMap_nil, List.nil_append, readEntries,
      readWord_unending fun hmem => htail (List.mem_of_mem_take hmem)]
    rfl
  | cons p ps ih =>
    obtain ⟨n, rfl⟩ := Nat.exists_eq_succ_of_ne_zero (Nat.ne_of_gt (Nat.zero_lt_of_lt hn))
    rw [List.forall_mem_cons] at hps
    rw [List.flatMap_cons, List.append_assoc]
    by_cases hreads : p.word.length < reads
    · rw [readEntries_piece hps.1 hreads, ih (Nat.lt_of_succ_lt_succ hn) hps.2]
      rfl
    · have hnone : 32 ∉ (p.bytes ++ (ps.flatMap Piece.bytes ++ tail)).take reads := by
        rw [Piece.bytes, List.append_assoc, List.take_append_of_le_length (Nat.le_of_not_lt hreads)]
        exact fun hmem => hps.1.1 (List.mem_of_mem_take hmem)
      rw [readEntries, readWord_unending hnone]
      rfl

theorem readEntries_stopsInValues {bytes : List Nat} (hstop : StopsInValues h.size.toNat n bytes)
    (hreads : bytes.length ≤ reads) : readEntries reads store valueOf h n i t bytes = .error .shortRecord := by
  obtain ⟨ps, p, hn, hps, hword, hshort, rfl⟩ := hstop
  obtain ⟨n, rfl⟩ : ∃ m, n = ps.length + (m + 1) := ⟨n - ps.length - 1, by omega⟩
  have hlast : p.word.length < reads := by
    simp only [List.length_append, Piece.bytes, List.length_cons] at hreads
    omega
  rw [readEntries_pieces hps fun q hq => Nat.lt_of_lt_of_le (Piece.length_word_lt hq p.bytes) hreads, readEntries,
    Piece.bytes, readWord_blank hword hlast]
  simp only [Bind.bind, Except.bind]
  rw [readValues_short valueOf _ hshort]
  rfl

theorem readEntries_unending_iff {bytes : List Nat} (hreads : bytes.length ≤ reads) :
    readEntries reads store valueOf h n i t bytes = .error .unending ↔ StopsInWord h.size.toNat n bytes := by
  refine ⟨fun hrun => ?_, readEntries_stopsInWord⟩
  rcases pieces_or_cut h.size.toNat n bytes with ⟨ps, rest, rfl, hps, rfl⟩ | hstop | hstop
  · rw [readEntries_done hps fun p hp => Nat.lt_of_lt_of_le (Piece.length_word_lt hp rest) hreads] at hrun
    cases hrun
  · exact hstop
  · rw [readEntries_stopsInValues hstop hreads] at hrun
    cases hrun

theorem readEntries_enough {bytes : List Nat} (hreads : bytes.length ≤ reads) {more : Nat} (hmore : bytes.length ≤ more) :
    readEntries more store valueOf h n i t bytes = readEntries reads store valueOf h n i t bytes := by
  rcases pieces_or_cut h.size.toNat n bytes with ⟨ps, rest, rfl, hps, rfl⟩ | hstop | hstop
  · have hlengths {reads : Nat} (hreads : (ps.flatMap Piece.bytes ++ rest).length ≤ reads) :
        ∀ p ∈ ps, p.word.length < reads := fun p hp => Nat.lt_of_lt_of_le (Piece.length_word_lt hp rest) hreads
    rw [readEntries_done hps (hlengths hreads), readEntries_done hps (hlengths hmore)]
  · rw [readEntries_stopsInWord hstop, readEntries_stopsInWord hstop]
  · rw [readEntries_stopsInValues hstop hreads, readEntries_stopsInValues hstop hmore]

/-! ## When reading ends -/

theorem readHeader_avoids (bytes : List Nat) : Avoids .unending (readHeader bytes) := by
  unfold readHeader
  dsimp only
  split
  · have hnumber (cs : List Char) : Avoids .unending (Text.readIntOfBytes 10 cs) :=
      .orFault _ (by simp [Text.noInteger])
    exact (hnumber _).bind fun count => (hnumber _).bind fun size => .pure _
  · exact .error (by simp)

theorem readHeader_rest {bytes rest : List Nat} (hheader : readHeader bytes = .ok (h, rest)) :
    rest = (cutLine bytes).2 := by
  unfold readHeader at hheader
  dsimp only at hheader
  split at hheader
  · obtain ⟨count, -, hheader⟩ := bind_eq_ok hheader
    obtain ⟨size, -, hheader⟩ := bind_eq_ok hheader
    exact (Prod.mk.inj (Except.ok.inj hheader)).2.symm
  · cases hheader

theorem length_rest_le {bytes rest : List Nat} (hheader : readHeader bytes = .ok (h, rest)) :
    rest.length ≤ bytes.length := by
  have hdrop := (List.dropWhile_suffix (l := bytes) fun b => decide (b ≠ 10)).length_le
  rw [readHeader_rest hheader, cutLine, List.length_drop]
  omega

theorem readWithin_eq {bytes rest : List Nat} (hheader : readHeader bytes = .ok (h, rest)) (hstart : store.start h = .ok t) :
    readWithin reads store valueOf bytes =
      (readEntries reads store valueOf h h.count.toNat 0 t rest).map fun r => ⟨h, r.1, r.2⟩ := by
  rw [readWithin, hheader]
  simp only [Bind.bind, Except.bind, hstart]
  cases readEntries reads store valueOf h h.count.toNat 0 t rest <;> rfl

variable (valueOf) in
/-- A file is refused before the first word, or has a header and a table for it. -/
theorem readWithin_cases (hstart : ∀ h, Avoids .unending (store.start h)) (bytes : List Nat) :
    (∃ f, f ≠ .unending ∧ ∀ reads, readWithin reads store valueOf bytes = .error f) ∨
      ∃ h rest t, readHeader bytes = .ok (h, rest) ∧ store.start h = .ok t := by
  cases hheader : readHeader bytes with
  | error f =>
    refine Or.inl ⟨f, fun hf => readHeader_avoids bytes (hf ▸ hheader), fun reads => ?_⟩
    rw [readWithin, hheader]
    rfl
  | ok r =>
    cases htable : store.start r.1 with
    | error f =>
      refine Or.inl ⟨f, fun hf => hstart r.1 (hf ▸ htable), fun reads => ?_⟩
      rw [readWithin, hheader]
      simp only [Bind.bind, Except.bind, htable]
    | ok t => exact Or.inr ⟨r.1, r.2, t, rfl, htable⟩

/-- A file with a header and a table for it, of which the rest stops in a word. -/
def CutInWord (store : Store α τ) (bytes : List Nat) : Prop :=
  ∃ h rest t, readHeader bytes = .ok (h, rest) ∧ store.start h = .ok t ∧ StopsInWord h.size.toNat h.count.toNat rest

theorem CutInWord.unending {bytes : List Nat} (hcut : CutInWord store bytes) (reads : Nat) :
    readWithin reads store valueOf bytes = .error .unending := by
  obtain ⟨h, rest, t, hheader, hstart, hstop⟩ := hcut
  rw [readWithin_eq hheader hstart, readEntries_stopsInWord hstop]
  rfl

theorem readFile_unending_iff (hstart : ∀ h, Avoids .unending (store.start h)) (bytes : List Nat) :
    readFile store valueOf bytes = .error .unending ↔ CutInWord store bytes := by
  refine ⟨fun hrun => ?_, fun hcut => hcut.unending _⟩
  rcases readWithin_cases valueOf hstart bytes with ⟨f, hf, hfault⟩ | ⟨h, rest, t, hheader, htable⟩
  · exact absurd (Except.error.inj ((hfault _).symm.trans hrun)) hf
  · rw [readFile, readWithin_eq hheader htable] at hrun
    cases hentries : readEntries bytes.length store valueOf h h.count.toNat 0 t rest with
    | error f =>
      rw [hentries] at hrun
      rw [Except.error.inj hrun] at hentries
      exact ⟨h, rest, t, hheader, htable, (readEntries_unending_iff (length_rest_le hheader)).1 hentries⟩
    | ok r =>
      rw [hentries] at hrun
      cases hrun

theorem readWithin_enough (hstart : ∀ h, Avoids .unending (store.start h)) {bytes : List Nat}
    (hreads : bytes.length ≤ reads) : readWithin reads store valueOf bytes = readFile store valueOf bytes := by
  rcases readWithin_cases valueOf hstart bytes with ⟨f, -, hfault⟩ | ⟨h, rest, t, hheader, htable⟩
  · rw [readFile, hfault, hfault]
  · have hrest := length_rest_le hheader
    rw [readFile, readWithin_eq hheader htable, readWithin_eq hheader htable,
      readEntries_enough hrest (Nat.le_trans hrest hreads)]

def EndsWith {γ : Type} (run : Nat → Except Fault γ) (answer : Except Fault γ) : Prop :=
  answer ≠ .error .unending ∧ ∃ enough, ∀ reads, enough ≤ reads → run reads = answer

variable (valueOf) in
theorem readFile_endsWith_iff (hstart : ∀ h, Avoids .unending (store.start h)) (bytes : List Nat) :
    EndsWith (fun reads => readWithin reads store valueOf bytes) (readFile store valueOf bytes) ↔
      ¬ CutInWord store bytes := by
  rw [← readFile_unending_iff hstart]
  exact ⟨And.left, fun hends => ⟨hends, bytes.length, fun reads => readWithin_enough hstart⟩⟩

variable (valueOf) in
theorem readWithin_never_iff (hstart : ∀ h, Avoids .unending (store.start h)) (bytes : List Nat) :
    (∀ reads, readWithin reads store valueOf bytes = .error .unending) ↔ CutInWord store bytes :=
  ⟨fun hrun => (readFile_unending_iff hstart bytes).1 (hrun _), CutInWord.unending⟩

end

section
variable {α : Type}

/-! ## Tables -/

theorem putAll_set (base : Nat) {j : Nat} {done old xs : List α} (hdone : done.length = base + j)
    (hold : old.length = xs.length) (rest : List α) :
    putAll (fun j x (t : List α) => t.set (base + j) x) j xs (done ++ (old ++ rest)) = done ++ (xs ++ rest) := by
  induction xs generalizing j done old with
  | nil =>
    obtain rfl := List.length_eq_zero_iff.1 hold
    rfl
  | cons x xs ih =>
    obtain ⟨y, old, rfl⟩ := List.exists_cons_of_length_eq_add_one hold
    have hset : (done ++ (y :: old ++ rest)).set (base + j) x = (done ++ [x]) ++ (old ++ rest) := by
      rw [List.set_append_right _ _ (Nat.le_of_eq hdone), hdone, Nat.sub_self]
      simp
    rw [putAll, hset, ih (by simp [hdone, Nat.add_assoc]) (Nat.succ.inj hold)]
    simp

theorem putAll_modify (i j : Nat) (xs : List α) (t : List (List α)) :
    putAll (fun j x (t : List (List α)) => t.modify i fun row => row.set j x) j xs t =
      t.modify i (putAll (fun j x row => row.set j x) j xs) := by
  induction xs generalizing j t with
  | nil => exact (List.modify_id i t).symm
  | cons x xs ih =>
    rw [putAll, ih, List.modify_modify_eq]
    rfl

variable {valueOf : Nat → α} {h : Header} {zero : α}

theorem Piece.length_row {size : Nat} {p : Piece} (hp : p.Whole size) : (p.row valueOf).length = size := by
  rw [row, List.length_map, length_numbersIn hp.2]

theorem modify_length_append (done : List α) (y : α) (rest : List α) (f : α → α) :
    (done ++ y :: rest).modify done.length f = done ++ f y :: rest := by
  induction done with
  | nil => rfl
  | cons d done ih => rw [List.cons_append, List.length_cons, List.modify_succ_cons, ih, List.cons_append]

theorem stored_rows {ps : List Piece} (hps : ∀ p ∈ ps, p.Whole h.size.toNat) (done : List (List α)) :
    stored (.rows zero) valueOf h done.length ps (done ++ List.replicate ps.length (List.replicate h.size.toNat zero)) =
      done ++ ps.map (Piece.row valueOf) := by
  induction ps generalizing done with
  | nil => rfl
  | cons p ps ih =>
    rw [List.forall_mem_cons] at hps
    have hlength : (p.row valueOf).length = h.size.toNat := p.length_row hps.1
    have hrow : putAll (fun j x (row : List α) => row.set j x) 0 (p.row valueOf) (List.replicate h.size.toNat zero) =
        p.row valueOf := by
      have hold : (List.replicate h.size.toNat zero).length = (p.row valueOf).length := by
        rw [hlength, List.length_replicate]
      have hnil : ([] : List α).length = 0 + 0 := rfl
      simpa using putAll_set 0 hnil hold []
    have hnext := ih hps.2 (done ++ [p.row valueOf])
    rw [List.length_append, List.length_singleton, List.append_assoc, List.append_assoc] at hnext
    rw [stored, List.length_cons, List.replicate_succ]
    change stored (.rows zero) valueOf h (done.length + 1) ps (putAll (fun j x (t : List (List α)) =>
      t.modify done.length fun row => row.set j x) 0 (p.row valueOf) _) = _
    rw [putAll_modify, modify_length_append, hrow]
    exact hnext

theorem stored_flat {ps : List Piece} (hps : ∀ p ∈ ps, p.Whole h.size.toNat) {i : Nat} {done : List α}
    (hdone : done.length = i * h.size.toNat) :
    stored (.flat zero) valueOf h i ps (done ++ List.replicate (ps.length * h.size.toNat) zero) =
      done ++ ps.flatMap (Piece.row valueOf) := by
  induction ps generalizing i done with
  | nil => simp [stored]
  | cons p ps ih =>
    rw [List.forall_mem_cons] at hps
    have hlength : (p.row valueOf).length = h.size.toNat := p.length_row hps.1
    have hmore : (done ++ p.row valueOf).length = (i + 1) * h.size.toNat := by
      rw [List.length_append, hdone, hlength, Nat.succ_mul]
    have hnext := ih hps.2 hmore
    rw [List.append_assoc, List.append_assoc] at hnext
    have hzeros : List.replicate ((ps.length + 1) * h.size.toNat) zero =
        List.replicate h.size.toNat zero ++ List.replicate (ps.length * h.size.toNat) zero := by
      rw [List.replicate_append_replicate, Nat.succ_mul, Nat.add_comm]
    rw [stored, List.length_cons, hzeros]
    change stored (.flat zero) valueOf h (i + 1) ps (putAll (fun j x (t : List α) =>
      t.set (i * h.size.toNat + j) x) 0 (p.row valueOf) _) = _
    rw [putAll_set _ hdone (by rw [List.length_replicate, hlength])]
    exact hnext

/-! ## Whole files -/

theorem Store.rows_start_iff {t : List (List α)} :
    (rows zero).start h = .ok t ↔
      0 ≤ h.count ∧ 0 ≤ h.size ∧ t = List.replicate h.count.toNat (List.replicate h.size.toNat zero) := by
  rw [rows]
  dsimp only
  split
  · next hneg => exact ⟨nofun, fun ht => by omega⟩
  · next hneg => exact ⟨fun ht => ⟨by omega, by omega, (Except.ok.inj ht).symm⟩, fun ht => by rw [ht.2.2]⟩

theorem Store.rows_start_avoids (h : Header) : Avoids .unending ((rows zero).start h) :=
  .ite (fun _ => .error (by simp)) fun _ => .ok _

theorem cutInWord_rows_iff {bytes : List Nat} :
    CutInWord (.rows zero) bytes ↔ ∃ h rest, readHeader bytes = .ok (h, rest) ∧ 0 ≤ h.count ∧ 0 ≤ h.size ∧
      StopsInWord h.size.toNat h.count.toNat rest := by
  simp only [CutInWord, Store.rows_start_iff]
  grind

theorem cutInWord_flat_iff {bytes : List Nat} :
    CutInWord (.flat zero) bytes ↔
      ∃ h rest, readHeader bytes = .ok (h, rest) ∧ StopsInWord h.size.toNat h.count.toNat rest := by
  simp [CutInWord, Store.flat]

/-- Both readers end on a file with the answer that they give, unless the file stops in a word, behind fewer entries than
its header tells; then they go on forever. The reader of rows asks for numbers that are not negative before it begins. -/
theorem reading_ends_iff (valueOf : Nat → α) (bytes : List Nat) :
    (EndsWith (fun reads => readWithin reads (.rows (valueOf 0)) valueOf bytes) (readRows valueOf bytes) ↔
      ¬ ∃ h rest, readHeader bytes = .ok (h, rest) ∧ 0 ≤ h.count ∧ 0 ≤ h.size ∧
        StopsInWord h.size.toNat h.count.toNat rest) ∧
    ((∀ reads, readWithin reads (.rows (valueOf 0)) valueOf bytes = .error .unending) ↔
      ∃ h rest, readHeader bytes = .ok (h, rest) ∧ 0 ≤ h.count ∧ 0 ≤ h.size ∧
        StopsInWord h.size.toNat h.count.toNat rest) ∧
    (EndsWith (fun reads => readWithin reads (.flat (valueOf 0)) valueOf bytes) (readFlat valueOf bytes) ↔
      ¬ ∃ h rest, readHeader bytes = .ok (h, rest) ∧ StopsInWord h.size.toNat h.count.toNat rest) ∧
    ((∀ reads, readWithin reads (.flat (valueOf 0)) valueOf bytes = .error .unending) ↔
      ∃ h rest, readHeader bytes = .ok (h, rest) ∧ StopsInWord h.size.toNat h.count.toNat rest) := by
  have hflat : ∀ h, Avoids .unending ((Store.flat (valueOf 0)).start h) := fun h => .ok _
  refine ⟨?_, ?_, ?_, ?_⟩
  · rw [← cutInWord_rows_iff]
    exact readFile_endsWith_iff valueOf Store.rows_start_avoids bytes
  · rw [← cutInWord_rows_iff]
    exact readWithin_never_iff valueOf Store.rows_start_avoids bytes
  · rw [← cutInWord_flat_iff]
    exact readFile_endsWith_iff valueOf hflat bytes
  · rw [← cutInWord_flat_iff]
    exact readWithin_never_iff valueOf hflat bytes

/-- A file of a header alone, which tells of one word with one value: no number of reads brings an answer. -/
theorem header_alone_unending :
    (¬ ∃ reads, readWithin reads (.rows (single 0)) single [49, 32, 49, 10] ≠ .error .unending) ∧
      ¬ ∃ reads, readWithin reads (.flat (single 0)) single [49, 32, 49, 10] ≠ .error .unending := by
  have hheader : readHeader [49, 32, 49, 10] = .ok (⟨1, 1⟩, []) := rfl
  have hstop : StopsInWord 1 1 [] := ⟨[], [], Nat.one_pos, by simp, by simp, rfl⟩
  constructor
  · rintro ⟨reads, hends⟩
    exact hends (CutInWord.unending (cutInWord_rows_iff.2 ⟨_, _, hheader, by decide, by decide, hstop⟩) reads)
  · rintro ⟨reads, hends⟩
    exact hends (CutInWord.unending (cutInWord_flat_iff.2 ⟨_, _, hheader, hstop⟩) reads)

theorem readFile_pieces {τ : Type} {store : Store α τ} {t : τ} {bytes rest : List Nat} {ps : List Piece}
    (hheader : readHeader bytes = .ok (h, ps.flatMap Piece.bytes ++ rest)) (hstart : store.start h = .ok t)
    (hcount : ps.length = h.count.toNat) (hps : ∀ p ∈ ps, p.Whole h.size.toNat) :
    readFile store valueOf bytes = .ok ⟨h, ps.map Piece.name, stored store valueOf h 0 ps t⟩ := by
  have hreads : ∀ p ∈ ps, p.word.length < bytes.length := fun p hp =>
    Nat.lt_of_lt_of_le (Piece.length_word_lt hp rest) (length_rest_le hheader)
  rw [readFile, readWithin_eq hheader hstart, ← hcount, readEntries_done hps hreads]
  rfl

theorem exists_pieces {τ : Type} {store : Store α τ} {bytes : List Nat} {r : Contents τ}
    (hrun : readFile store valueOf bytes = .ok r) :
    ∃ (h : Header) (ps : List Piece) (rest : List Nat) (t : τ),
      readHeader bytes = .ok (h, ps.flatMap Piece.bytes ++ rest) ∧ store.start h = .ok t ∧
        ps.length = h.count.toNat ∧ ∀ p ∈ ps, p.Whole h.size.toNat := by
  have hkept := hrun
  rw [readFile, readWithin] at hrun
  obtain ⟨⟨h, rest⟩, hheader, hrun⟩ := bind_eq_ok hrun
  obtain ⟨t, hstart, -⟩ := bind_eq_ok hrun
  have hreads := length_rest_le hheader
  rw [readFile, readWithin_eq hheader hstart] at hkept
  rcases pieces_or_cut h.size.toNat h.count.toNat rest with ⟨ps, rest, hcount, hps, rfl⟩ | hstop | hstop
  · exact ⟨h, ps, rest, t, hheader, hstart, hcount, hps⟩
  · rw [readEntries_stopsInWord hstop] at hkept
    cases hkept
  · rw [readEntries_stopsInValues hstop hreads] at hkept
    cases hkept

theorem readRows_pieces {bytes rest : List Nat} {ps : List Piece} {size : Nat}
    (hheader : readHeader bytes = .ok (⟨ps.length, size⟩, ps.flatMap Piece.bytes ++ rest))
    (hps : ∀ p ∈ ps, p.Whole size) :
    readRows valueOf bytes = .ok ⟨⟨ps.length, size⟩, ps.map Piece.name, ps.map (Piece.row valueOf)⟩ := by
  have hstart : (Store.rows (valueOf 0)).start ⟨ps.length, size⟩ =
      .ok (List.replicate ps.length (List.replicate size (valueOf 0))) :=
    Store.rows_start_iff.2 ⟨Int.natCast_nonneg _, Int.natCast_nonneg _, rfl⟩
  have htable : stored (.rows (valueOf 0)) valueOf ⟨ps.length, size⟩ 0 ps
      (List.replicate ps.length (List.replicate size (valueOf 0))) = ps.map (Piece.row valueOf) := stored_rows hps []
  rw [readRows, readFile_pieces hheader hstart rfl hps, htable]

theorem readFlat_pieces {bytes rest : List Nat} {ps : List Piece} {size : Nat}
    (hheader : readHeader bytes = .ok (⟨ps.length, size⟩, ps.flatMap Piece.bytes ++ rest))
    (hps : ∀ p ∈ ps, p.Whole size) :
    readFlat valueOf bytes = .ok ⟨⟨ps.length, size⟩, ps.map Piece.name, ps.flatMap (Piece.row valueOf)⟩ := by
  have hstart : (Store.flat (valueOf 0)).start ⟨ps.length, size⟩ = .ok (List.replicate (ps.length * size) (valueOf 0)) := by
    change Except.ok (List.replicate ((ps.length : Int) * (size : Int)).toNat (valueOf 0)) = _
    rw [← Int.natCast_mul, Int.toNat_natCast]
  have htable : stored (.flat (valueOf 0)) valueOf ⟨ps.length, size⟩ 0 ps
      (List.replicate (ps.length * size) (valueOf 0)) = ps.flatMap (Piece.row valueOf) := by
    have hnone : ([] : List α).length = 0 * (⟨ps.length, size⟩ : Header).size.toNat := (Nat.zero_mul _).symm
    exact stored_flat hps hnone
  rw [readFlat, readFile_pieces hheader hstart rfl hps, htable]

theorem exists_pieces_of_rows {bytes : List Nat} {r : Contents (List (List α))} (hrun : readRows valueOf bytes = .ok r) :
    ∃ (ps : List Piece) (rest : List Nat) (size : Nat),
      readHeader bytes = .ok (⟨ps.length, size⟩, ps.flatMap Piece.bytes ++ rest) ∧ ∀ p ∈ ps, p.Whole size := by
  obtain ⟨⟨count, size⟩, ps, rest, t, hheader, hstart, hcount, hps⟩ := exists_pieces hrun
  obtain ⟨hn, hk, -⟩ := Store.rows_start_iff.1 hstart
  obtain ⟨n, rfl⟩ := Int.eq_ofNat_of_zero_le hn
  obtain ⟨k, rfl⟩ := Int.eq_ofNat_of_zero_le hk
  rw [Int.toNat_natCast] at hcount
  subst hcount
  exact ⟨ps, rest, k, hheader, hps⟩

theorem getElem?_flatten_rows {rows : List (List α)} {size : Nat} (hrows : ∀ row ∈ rows, row.length = size) (i : Nat)
    {j : Nat} (hj : j < size) : rows.flatten[i * size + j]? = rows[i]?.bind fun row => row[j]? := by
  induction rows generalizing i with
  | nil => simp
  | cons row rows ih =>
    rw [List.forall_mem_cons] at hrows
    rw [List.flatten_cons]
    cases i with
    | zero =>
      rw [Nat.zero_mul, Nat.zero_add, List.getElem?_append_left (by rw [hrows.1]; exact hj)]
      rfl
    | succ i =>
      have hskip : (i + 1) * size + j - row.length = i * size + j := by
        rw [hrows.1, Nat.succ_mul]
        omega
      have hlong : row.length ≤ (i + 1) * size + j := by
        rw [hrows.1, Nat.succ_mul]
        omega
      rw [List.getElem?_append_right hlong, hskip, ih hrows.2, List.getElem?_cons_succ]

end

/-! ## Written files -/

def fourBytes (bits : UInt32) : List Nat :=
  [bits.toNat % 256, bits.toNat / 256 % 256, bits.toNat / 65536 % 256, bits.toNat / 16777216 % 256]

def written (words : List String) (size : Nat) (rows : List (List Float32)) : List Nat :=
  (toString words.length ++ " " ++ toString size).toList.map Char.toNat ++ 10 ::
    (words.zip rows).flatMap fun e =>
      e.1.toList.map Char.toNat ++ 32 :: (e.2.flatMap fun x => fourBytes x.toBits) ++ [10]

theorem readHeader_written (count size : Nat) (body : List Nat) :
    readHeader ((toString count ++ " " ++ toString size).toList.map Char.toNat ++ 10 :: body) =
      .ok (⟨count, size⟩, body) := by
  have hchars : (toString count ++ " " ++ toString size).toList =
      (toString count).toList ++ ' ' :: (toString size).toList := by simp [String.toList_append]
  have hline : ∀ b ∈ (toString count ++ " " ++ toString size).toList.map Char.toNat, decide (b ≠ 10) = true := by
    intro b hb
    obtain ⟨c, hc, rfl⟩ := List.mem_map.1 hb
    rw [decide_eq_true_iff]
    rw [hchars, List.mem_append, List.mem_cons] at hc
    have hdigit {n : Nat} (hc : c ∈ (toString n).toList) : c.toNat ≠ 10 := by
      have hlow : 48 ≤ c.toNat := (Char.isDigit_iff_toNat.1 (Text.isDigit_of_mem_toString hc)).1
      omega
    rcases hc with hc | rfl | hc
    · exact hdigit hc
    · decide
    · exact hdigit hc
  have hcut : cutLine ((toString count ++ " " ++ toString size).toList.map Char.toNat ++ 10 :: body) =
      ((toString count ++ " " ++ toString size).toList.map Char.toNat, body) := by
    rw [cutLine, List.takeWhile_append_of_pos hline, List.dropWhile_append_of_pos hline]
    simp
  have hback : ((toString count ++ " " ++ toString size).toList.map Char.toNat).map Char.ofNat =
      (toString count).toList ++ ' ' :: (toString size).toList := by
    rw [List.map_map, hchars]
    exact (List.map_congr_left fun c _ => Char.ofNat_toNat c).trans (List.map_id _)
  rw [readHeader, hcut]
  simp only [hback, Text.Chars.asciiWords_pair (Text.toString_ne_nil count) (Text.toString_ne_nil size)
    Text.isAsciiBlank_of_mem_toString Text.isAsciiBlank_of_mem_toString, Text.readIntOfBytes_toString]
  rfl

/-- Pieces of which the first begins with given bytes, and the others with a line end. -/
def led (lead : List Nat) : List Piece → List Piece
  | [] => []
  | p :: ps => ⟨lead ++ p.word, p.values⟩ :: led [10] ps

theorem length_led (lead : List Nat) (ps : List Piece) : (led lead ps).length = ps.length := by
  induction ps generalizing lead with
  | nil => rfl
  | cons p ps ih => exact congrArg Nat.succ (ih [10])

/-- The line end behind a piece is read in front of the next one. -/
theorem exists_led_bytes (lead : List Nat) (ps : List Piece) :
    ∃ rest, lead ++ ps.flatMap (fun p => p.bytes ++ [10]) = (led lead ps).flatMap Piece.bytes ++ rest := by
  induction ps generalizing lead with
  | nil => exact ⟨lead, by simp [led]⟩
  | cons p ps ih =>
    obtain ⟨rest, hrest⟩ := ih [10]
    refine ⟨rest, ?_⟩
    rw [led, List.flatMap_cons, List.flatMap_cons, List.append_assoc _ _ rest, ← hrest]
    simp [Piece.bytes]

theorem led_names {lead : List Nat} (hlead : lettersOf lead = []) (ps : List Piece) :
    (led lead ps).map Piece.name = ps.map Piece.name := by
  induction ps generalizing lead with
  | nil => rfl
  | cons p ps ih =>
    have hname : (⟨lead ++ p.word, p.values⟩ : Piece).name = p.name := by
      unfold lettersOf at hlead
      rw [Piece.name, Piece.name, lettersOf, List.filter_append, hlead, List.nil_append, lettersOf]
    rw [led, List.map_cons, List.map_cons, hname, ih rfl]

theorem led_rows {α : Type} (valueOf : Nat → α) (lead : List Nat) (ps : List Piece) :
    (led lead ps).map (Piece.row valueOf) = ps.map (Piece.row valueOf) := by
  induction ps generalizing lead with
  | nil => rfl
  | cons p ps ih => exact congrArg (p.row valueOf :: ·) (ih [10])

theorem led_whole {lead : List Nat} (hlead : 32 ∉ lead) {size : Nat} {ps : List Piece} (h : ∀ p ∈ ps, p.Whole size) :
    ∀ p ∈ led lead ps, p.Whole size := by
  induction ps generalizing lead with
  | nil => simp [led]
  | cons p ps ih =>
    rw [List.forall_mem_cons] at h
    rw [led, List.forall_mem_cons]
    exact ⟨⟨by simp [hlead, h.1.1], h.1.2⟩, ih (by simp) h.2⟩

theorem numbersIn_fourBytes (bits : List UInt32) : numbersIn (bits.flatMap fourBytes) = bits.map UInt32.toNat := by
  induction bits with
  | nil => rfl
  | cons x bits ih =>
    have hx := x.toNat_lt
    rw [List.flatMap_cons, List.map_cons, fourBytes]
    simp only [List.cons_append, List.nil_append, numbersIn, ih]
    congr 1
    omega

def pieceOf (e : String × List Float32) : Piece :=
  ⟨e.1.toList.map Char.toNat, e.2.flatMap fun x => fourBytes x.toBits⟩

theorem pieceOf_whole {e : String × List Float32} (hword : ∀ c ∈ e.1.toList, c ≠ ' ') :
    (pieceOf e).Whole e.2.length := by
  constructor
  · intro hmem
    obtain ⟨c, hc, hcode⟩ := List.mem_map.1 hmem
    exact hword c hc (Char.toNat_inj.1 hcode)
  · rw [pieceOf, List.length_flatMap]
    simp [fourBytes, Nat.mul_comm]

theorem name_pieceOf {e : String × List Float32} (hword : ∀ c ∈ e.1.toList, c ≠ '\n' ∧ c ≠ '\r') :
    (pieceOf e).name = e.1 := by
  have hletters : lettersOf (e.1.toList.map Char.toNat) = e.1.toList.map Char.toNat := by
    refine List.filter_eq_self.2 fun b hb => ?_
    obtain ⟨c, hc, rfl⟩ := List.mem_map.1 hb
    have hline : c.toNat ≠ 10 := fun hcode => (hword c hc).1 (Char.toNat_inj.1 hcode)
    have hreturn : c.toNat ≠ 13 := fun hcode => (hword c hc).2 (Char.toNat_inj.1 hcode)
    simp [hline, hreturn]
  have hback : e.1.toList.map (Char.ofNat ∘ Char.toNat) = e.1.toList :=
    (List.map_congr_left fun c _ => Char.ofNat_toNat c).trans (List.map_id _)
  rw [Piece.name, pieceOf, hletters, List.map_map, hback, String.ofList_toList]

theorem row_pieceOf (e : String × List Float32) : (pieceOf e).row single = e.2.map Float32.toFloat := by
  have hbits : e.2.flatMap (fun x => fourBytes x.toBits) = (e.2.map Float32.toBits).flatMap fourBytes := by
    rw [List.flatMap_map]
  rw [Piece.row, pieceOf, hbits, numbersIn_fourBytes, List.map_map, List.map_map]
  exact List.map_congr_left fun x _ => single_toBits x

/-- The pieces of a written file, the line end of an entry in front of the next word. -/
def piecesOf (words : List String) (rows : List (List Float32)) : List Piece := led [] ((words.zip rows).map pieceOf)

section
variable {words : List String} {rows : List (List Float32)} {size : Nat}

theorem piecesOf_whole (hwords : ∀ w ∈ words, ∀ c ∈ w.toList, c ≠ ' ') (hrows : ∀ row ∈ rows, row.length = size) :
    ∀ p ∈ piecesOf words rows, p.Whole size := by
  refine led_whole List.not_mem_nil fun p hp => ?_
  obtain ⟨e, he, rfl⟩ := List.mem_map.1 hp
  obtain ⟨hw, hrow⟩ := List.of_mem_zip he
  rw [← hrows e.2 hrow]
  exact pieceOf_whole (hwords e.1 hw)

theorem names_piecesOf (hwords : ∀ w ∈ words, ∀ c ∈ w.toList, c ≠ '\n' ∧ c ≠ '\r')
    (hcount : rows.length = words.length) : (piecesOf words rows).map Piece.name = words := by
  have hname : ∀ e ∈ words.zip rows, (Piece.name ∘ pieceOf) e = e.1 := fun e he =>
    name_pieceOf (hwords e.1 (List.of_mem_zip he).1)
  rw [piecesOf, led_names rfl, List.map_map, List.map_congr_left hname]
  exact List.map_fst_zip (Nat.le_of_eq hcount.symm)

theorem rows_piecesOf (hcount : rows.length = words.length) :
    (piecesOf words rows).map (Piece.row single) = rows.map fun row => row.map Float32.toFloat := by
  have hrow : ∀ e ∈ words.zip rows, (Piece.row single ∘ pieceOf) e = (List.map Float32.toFloat ∘ Prod.snd) e :=
    fun e _ => row_pieceOf e
  rw [piecesOf, led_rows, List.map_map, List.map_congr_left hrow, List.comp_map,
    List.map_snd_zip (Nat.le_of_eq hcount)]

theorem length_piecesOf (hcount : rows.length = words.length) : (piecesOf words rows).length = words.length := by
  rw [piecesOf, length_led, List.length_map, List.length_zip, hcount, Nat.min_self]

theorem readHeader_piecesOf (size : Nat) (hcount : rows.length = words.length) :
    ∃ rest, readHeader (written words size rows) =
      .ok (⟨(piecesOf words rows).length, size⟩, (piecesOf words rows).flatMap Piece.bytes ++ rest) := by
  obtain ⟨rest, hrest⟩ := exists_led_bytes [] ((words.zip rows).map pieceOf)
  refine ⟨rest, ?_⟩
  rw [length_piecesOf hcount, piecesOf, ← hrest, written, readHeader_written, List.nil_append, List.flatMap_map]
  rfl

end

/-- Files of vectors. A file of words without blanks and line ends and of as many rows of one size is read back, by both
readers; and what both readers find in any bytes has the same words, with the value of row `i` and place `j` at place
`i * k + j` of the list. -/
theorem vectors_read_back {α : Type} :
    (∀ (words : List String) (size : Nat) (rows : List (List Float32)),
      (∀ w ∈ words, ∀ c ∈ w.toList, c ≠ ' ' ∧ c ≠ '\n' ∧ c ≠ '\r') → rows.length = words.length →
      (∀ row ∈ rows, row.length = size) →
      readRows single (written words size rows) =
          .ok ⟨⟨words.length, size⟩, words, rows.map fun row => row.map Float32.toFloat⟩ ∧
        readFlat single (written words size rows) =
          .ok ⟨⟨words.length, size⟩, words, rows.flatten.map Float32.toFloat⟩) ∧
    ∀ (valueOf : Nat → α) (bytes : List Nat) (r : Contents (List (List α))) (f : Contents (List α)),
      readRows valueOf bytes = .ok r → readFlat valueOf bytes = .ok f →
      ∃ n k : Nat, r.header = ⟨n, k⟩ ∧ f.header = ⟨n, k⟩ ∧ f.words = r.words ∧ r.words.length = n ∧
        r.values.length = n ∧ (∀ row ∈ r.values, row.length = k) ∧ f.values.length = n * k ∧
        ∀ i j, j < k → f.values[i * k + j]? = r.values[i]?.bind fun row => row[j]? := by
  constructor
  · intro words size rows hwords hcount hrows
    obtain ⟨rest, hheader⟩ := readHeader_piecesOf size hcount
    have hps := piecesOf_whole (fun w hw c hc => (hwords w hw c hc).1) hrows
    have hnames := names_piecesOf (fun w hw c hc => (hwords w hw c hc).2) hcount
    constructor
    · rw [readRows_pieces hheader hps, hnames, rows_piecesOf hcount, length_piecesOf hcount]
    · rw [readFlat_pieces hheader hps, hnames, List.flatMap_def, rows_piecesOf hcount, length_piecesOf hcount,
        List.map_flatten]
  · intro valueOf bytes r f hr hf
    obtain ⟨ps, rest, size, hheader, hps⟩ := exists_pieces_of_rows hr
    obtain rfl := Except.ok.inj ((readRows_pieces hheader hps).symm.trans hr)
    obtain rfl := Except.ok.inj ((readFlat_pieces hheader hps).symm.trans hf)
    have hrows : ∀ row ∈ ps.map (Piece.row valueOf), row.length = size := by
      intro row hrow
      obtain ⟨p, hp, rfl⟩ := List.mem_map.1 hrow
      exact Piece.length_row (hps p hp)
    refine ⟨ps.length, size, rfl, rfl, rfl, List.length_map _, List.length_map _, hrows, ?_, fun i j hj => ?_⟩
    · rw [List.flatMap_def, List.length_flatten, List.map_congr_left hrows, List.map_const', List.length_map]
      exact List.sum_replicate_nat
    · rw [List.flatMap_def]
      exact getElem?_flatten_rows hrows i hj

/-- Values whose bytes are blanks, line ends and digits, and a word of no characters. -/
theorem vectors_read_back_blanks :
    let words := ["", "1"]
    let rows := [[Float32.ofBits 0x20202020, Float32.ofBits 0x0a0d0a31], [Float32.ofBits 0x200a2032, Float32.ofBits 0x20]]
    (∀ w ∈ words, ∀ c ∈ w.toList, c ≠ ' ' ∧ c ≠ '\n' ∧ c ≠ '\r') ∧ rows.length = words.length ∧
      (∀ row ∈ rows, row.length = 2) ∧
      readRows single (written words 2 rows) = .ok ⟨⟨2, 2⟩, words, rows.map fun row => row.map Float32.toFloat⟩ ∧
      readFlat single (written words 2 rows) = .ok ⟨⟨2, 2⟩, words, rows.flatten.map Float32.toFloat⟩ ∧
      ∀ i j, j < 2 → (rows.flatten.map Float32.toFloat)[i * 2 + j]? =
        (rows.map fun row => row.map Float32.toFloat)[i]?.bind fun row => row[j]? := by
  intro words rows
  have hwords : ∀ w ∈ words, ∀ c ∈ w.toList, c ≠ ' ' ∧ c ≠ '\n' ∧ c ≠ '\r' := by simp [words]
  have hrows : ∀ row ∈ rows, row.length = 2 := by simp [rows]
  obtain ⟨hr, hf⟩ := (vectors_read_back (α := Float)).1 words 2 rows hwords rfl hrows
  obtain ⟨n, k, hheader, -, -, -, -, -, -, hplaces⟩ := vectors_read_back.2 single _ _ _ hr hf
  obtain ⟨-, hk⟩ := Header.mk.inj hheader
  obtain rfl : k = 2 := Int.natCast_inj.1 hk.symm
  exact ⟨hwords, rfl, hrows, hr, hf, hplaces⟩

end Models.Vectors

end PlotAdvisor
