import Mathlib.Data.List.Induction
import PlotAdvisor.Proofs.Answers
import PlotAdvisor.Proofs.Isolation

/-! How the context that is held fits the program of a request, over all requests from the first on. The digest is
kept before the program is read, so that a text that cannot be read is let through when it comes again, with the
context of the last program that could be read; an empty text is let through with that context too.

* `Desk.prepare_cases` - what taking up one text can do.
* `Setup.taken`, `Setup.programs` - the texts of which the digest is kept, and those of them that can be read.
* `last_takeUp`, `context_takeUp` - what is held after texts, in terms of the texts alone.
-/
set_option autoImplicit false

namespace PlotAdvisor.Assistant

open Program Elements

/-! ## One text -/

theorem Desk.prepare_cases (s : Setup) (d : Desk) (code : String) :
    ((code = "" ∨ d.last = some (s.digest code)) ∧ d.prepare s code = (.ok (), d)) ∨
    (code ≠ "" ∧ d.last ≠ some (s.digest code) ∧
      ((∃ f, s.read code = .error f ∧ d.prepare s code = (.error f, { d with last := some (s.digest code) })) ∨
        ∃ t, s.read code = .ok t ∧
          d.prepare s code = (.ok (), { last := some (s.digest code)
                                        context := some (Context.ofTree s.normalizer d.names t).1
                                        names := (Context.ofTree s.normalizer d.names t).2 }))) := by
  by_cases hskip : code = "" ∨ d.last = some (s.digest code)
  · exact Or.inl ⟨hskip, by simp [prepare, hskip]⟩
  · obtain ⟨hne, hlast⟩ := not_or.1 hskip
    refine Or.inr ⟨hne, hlast, ?_⟩
    cases hread : s.read code with
    | error f => exact Or.inl ⟨f, rfl, by simp [prepare, hne, hlast, hread]⟩
    | ok t => exact Or.inr ⟨t, rfl, by simp [prepare, hne, hlast, hread]⟩

/-! ## Texts one after the other -/

def Desk.takeUp (s : Setup) (d : Desk) (texts : List String) : Desk :=
  texts.foldl (fun d code => (d.prepare s code).2) d

theorem takeUp_concat (s : Setup) (d : Desk) (texts : List String) (code : String) :
    d.takeUp s (texts ++ [code]) = ((d.takeUp s texts).prepare s code).2 := by
  simp [Desk.takeUp]

def lastText (texts : List String) : Option String := (texts.filter (· != "")).getLast?

theorem lastText_append (xs ys : List String) : lastText (xs ++ ys) = (lastText ys).or (lastText xs) := by
  simp [lastText, List.getLast?_append]

theorem lastText_singleton (code : String) : lastText [code] = if code = "" then none else some code := by
  by_cases hc : code = "" <;> simp [lastText, hc]

theorem last_takeUp (s : Setup) (d : Desk) (texts : List String) :
    (d.takeUp s texts).last = ((lastText texts).map s.digest).or d.last := by
  induction texts using List.reverseRecOn with
  | nil => simp [Desk.takeUp, lastText]
  | append_singleton texts code ih =>
    rw [takeUp_concat, lastText_append, lastText_singleton]
    rcases (d.takeUp s texts).prepare_cases s code with ⟨hskip, h⟩ | ⟨hne, -, ⟨f, -, h⟩ | ⟨t, -, h⟩⟩
    · rw [h]
      by_cases hc : code = ""
      · simpa [hc] using ih
      · simp [hc, hskip.resolve_left hc]
    · simp [h, hne]
    · simp [h, hne]

theorem last_takeUp_fresh (s : Setup) (texts : List String) :
    (Desk.takeUp s {} texts).last = (lastText texts).map s.digest := by
  rw [last_takeUp, Option.or_none]

/-! ## Programs that are taken up -/

def Setup.taken (s : Setup) (last : Option Int) : List String → List String
  | [] => []
  | code :: texts =>
    if code = "" ∨ last = some (s.digest code) then s.taken last texts
    else code :: s.taken (some (s.digest code)) texts

theorem taken_append (s : Setup) (last : Option Int) (xs ys : List String) :
    s.taken last (xs ++ ys) = s.taken last xs ++ s.taken (((lastText xs).map s.digest).or last) ys := by
  induction xs generalizing last with
  | nil => rfl
  | cons c xs ih =>
    have hlast : ((lastText (c :: xs)).map s.digest).or last =
        ((lastText xs).map s.digest).or (if c = "" then last else some (s.digest c)) := by
      rw [← List.singleton_append, lastText_append, lastText_singleton]
      by_cases hc : c = ""
      · simp [hc]
      · cases lastText xs <;> simp [hc]
    rw [hlast, List.cons_append, Setup.taken, Setup.taken]
    by_cases hskip : c = "" ∨ last = some (s.digest c)
    · rw [if_pos hskip, if_pos hskip, ih]
      rcases hskip with hc | hd
      · simp [hc]
      · simp [hd]
    · rw [if_neg hskip, if_neg hskip, ih]
      simp [(not_or.1 hskip).1]

theorem mem_of_mem_taken (s : Setup) (last : Option Int) (texts : List String) (code : String)
    (h : code ∈ s.taken last texts) : code ∈ texts := by
  induction texts generalizing last with
  | nil => exact h
  | cons c texts ih =>
    rw [Setup.taken] at h
    split at h
    · exact List.mem_cons_of_mem c (ih last h)
    · rcases List.mem_cons.1 h with rfl | h
      · exact List.mem_cons_self
      · exact List.mem_cons_of_mem c (ih _ h)

theorem digest_taken (s : Setup) (texts : List String) :
    ((s.taken none texts).getLast?).map s.digest = (lastText texts).map s.digest := by
  induction texts using List.reverseRecOn with
  | nil => rfl
  | append_singleton texts code ih =>
    rw [taken_append, lastText_append, lastText_singleton, Option.or_none]
    by_cases hc : code = ""
    · simpa [Setup.taken, hc] using ih
    · by_cases hd : (lastText texts).map s.digest = some (s.digest code)
      · simp [Setup.taken, hc, hd, ih]
      · simp [Setup.taken, hc, hd]

def Setup.reads (s : Setup) (code : String) : Bool := (s.read code).isOk

theorem reads_iff {s : Setup} {code : String} : s.reads code = true ↔ ∃ t, s.read code = .ok t := by
  unfold Setup.reads
  cases s.read code <;> simp [Except.isOk, Except.toBool]

def Setup.programs (s : Setup) (last : Option Int) (texts : List String) : List String :=
  (s.taken last texts).filter s.reads

theorem programs_append (s : Setup) (last : Option Int) (xs ys : List String) :
    s.programs last (xs ++ ys) = s.programs last xs ++ s.programs (((lastText xs).map s.digest).or last) ys := by
  rw [Setup.programs, taken_append, List.filter_append, Setup.programs, Setup.programs]

theorem programs_cons_of_read (s : Setup) {last : Option Int} {code : String} (texts : List String)
    (hne : code ≠ "") (hnot : last ≠ some (s.digest code)) (hr : s.reads code = true) :
    s.programs last (code :: texts) = code :: s.programs (some (s.digest code)) texts := by
  rw [Setup.programs, Setup.taken, if_neg (by simp [hne, hnot]), List.filter_cons_of_pos hr, Setup.programs]

theorem programs_singleton_eq_nil {s : Setup} {last : Option Int} {code : String}
    (h : code = "" ∨ last = some (s.digest code) ∨ s.reads code = false) : s.programs last [code] = [] := by
  rw [Setup.programs, Setup.taken]
  split
  · rfl
  · next hskip =>
    have hr : s.reads code = false := by
      rcases h with hc | hd | hr
      · exact absurd (Or.inl hc) hskip
      · exact absurd (Or.inr hd) hskip
      · exact hr
    simp [Setup.taken, hr]

def Setup.lastProgram (s : Setup) (texts : List String) : Option String := (s.programs none texts).getLast?

/-! ## The context that is held -/

def HeldFrom (s : Setup) (texts : List String) (code : String) (held : Option Context) : Prop :=
  ∃ before later t, texts = before ++ code :: later ∧
    code ≠ "" ∧ (lastText before).map s.digest ≠ some (s.digest code) ∧ s.read code = .ok t ∧
    s.programs (some (s.digest code)) later = [] ∧
    held = some (Context.ofTree s.normalizer (Desk.takeUp s {} before).names t).1

theorem HeldFrom.lastProgram {s : Setup} {texts : List String} {code : String} {held : Option Context}
    (h : HeldFrom s texts code held) : s.lastProgram texts = some code := by
  obtain ⟨before, later, t, rfl, hne, hnot, hread, hlater, -⟩ := h
  rw [Setup.lastProgram, programs_append, Option.or_none,
    programs_cons_of_read s later hne hnot (reads_iff.2 ⟨t, hread⟩), hlater]
  simp

theorem HeldFrom.concat {s : Setup} {texts : List String} {code next : String} {held : Option Context}
    (h : HeldFrom s texts code held)
    (hquiet : next = "" ∨ (lastText texts).map s.digest = some (s.digest next) ∨ s.reads next = false) :
    HeldFrom s (texts ++ [next]) code held := by
  obtain ⟨before, later, t, rfl, hne, hnot, hread, hlater, hheld⟩ := h
  have hlast : ((lastText later).map s.digest).or (some (s.digest code)) =
      (lastText (before ++ code :: later)).map s.digest := by
    rw [← List.singleton_append, lastText_append, lastText_append, lastText_singleton, if_neg hne]
    cases lastText later <;> simp
  refine ⟨before, later ++ [next], t, by simp, hne, hnot, hread, ?_, hheld⟩
  rw [programs_append, hlater, hlast, programs_singleton_eq_nil hquiet, List.append_nil]

def HeldFromLast (s : Setup) (texts : List String) (held : Option Context) : Prop :=
  (s.lastProgram texts = none ∧ held = none) ∨ ∃ code, HeldFrom s texts code held

theorem context_takeUp (s : Setup) (texts : List String) :
    HeldFromLast s texts (Desk.takeUp s {} texts).context := by
  induction texts using List.reverseRecOn with
  | nil => exact Or.inl ⟨rfl, rfl⟩
  | append_singleton texts code ih =>
    -- what is held stays when the text changes neither the context nor the programs
    have hkeep (hquiet : code = "" ∨ (lastText texts).map s.digest = some (s.digest code) ∨ s.reads code = false) :
        HeldFromLast s (texts ++ [code]) (Desk.takeUp s {} texts).context := by
      rcases ih with ⟨hnone, hheld⟩ | ⟨c, hc⟩
      · refine Or.inl ⟨?_, hheld⟩
        rw [Setup.lastProgram, programs_append, Option.or_none, programs_singleton_eq_nil hquiet, List.append_nil]
        exact hnone
      · exact Or.inr ⟨c, hc.concat hquiet⟩
    rw [takeUp_concat]
    rcases (Desk.takeUp s {} texts).prepare_cases s code with
      ⟨hskip, h⟩ | ⟨hne, hnot, ⟨f, hread, h⟩ | ⟨t, hread, h⟩⟩
    · rw [last_takeUp_fresh] at hskip
      rw [h]
      exact hkeep (by rw [← or_assoc]; exact Or.inl hskip)
    · have hr : s.reads code = false := by simp [Setup.reads, hread, Except.isOk, Except.toBool]
      rw [h]
      exact hkeep (Or.inr (Or.inr hr))
    · rw [last_takeUp_fresh] at hnot
      rw [h]
      exact Or.inr ⟨code, texts, [], t, rfl, hne, hnot, hread, rfl, rfl⟩

theorem heldFrom_iff (s : Setup) (texts : List String) (code : String) :
    HeldFrom s texts code (Desk.takeUp s {} texts).context ↔ s.lastProgram texts = some code := by
  constructor
  · exact HeldFrom.lastProgram
  · intro hlast
    rcases context_takeUp s texts with ⟨hnone, -⟩ | ⟨c, hc⟩
    · exact nomatch hnone.symm.trans hlast
    · obtain rfl : c = code := Option.some.inj (hc.lastProgram.symm.trans hlast)
      exact hc

theorem lastProgram_concat_iff (s : Setup) (texts : List String) (code : String) (hne : code ≠ "")
    (hsep : ∀ a ∈ texts, s.digest a = s.digest code → a = code) :
    s.lastProgram (texts ++ [code]) = some code ↔ ∃ t, s.read code = .ok t := by
  constructor
  · intro hlast
    have hmem : code ∈ s.programs none (texts ++ [code]) := List.mem_of_getLast? hlast
    exact reads_iff.1 (List.mem_filter.1 hmem).2
  · intro hread
    have hr := reads_iff.2 hread
    rw [Setup.lastProgram, programs_append, Option.or_none]
    by_cases hd : (lastText texts).map s.digest = some (s.digest code)
    · -- the text that was taken up last has the same digest, so that it is this one
      rw [programs_singleton_eq_nil (Or.inr (Or.inl hd)), List.append_nil]
      rw [← digest_taken] at hd
      obtain ⟨p, hp, hpd⟩ := Option.map_eq_some_iff.1 hd
      obtain ⟨before, hbefore⟩ := List.getLast?_eq_some_iff.1 hp
      have hmem : p ∈ texts := mem_of_mem_taken s none texts p (by simp [hbefore])
      obtain rfl : p = code := hsep p hmem hpd
      simp [Setup.programs, hbefore, hr]
    · rw [programs_cons_of_read s [] hne hd hr]
      simp [Setup.programs, Setup.taken]

/-! ## An empty text -/

/-- No element is used in a program, whatever names stand for. -/
def UsesNothing (t : Tree) : Prop := (extract false .empty t).2 = []

theorem ofTree_eq_empty_iff (n : Normalizer) (names : Names) (t : Tree) :
    (Context.ofTree n names t).1 = ⟨[]⟩ ↔ UsesNothing t := by
  have hlen := extract_length_eq names .empty t
  rw [UsesNothing, ← List.length_eq_zero_iff, ← hlen, List.length_eq_zero_iff]
  simp [Context.ofTree]

theorem context_eq_empty_iff (s : Setup) (texts : List String) :
    (Desk.takeUp s {} (texts ++ [""])).context = some ⟨[]⟩ ↔
      ∃ p t, s.lastProgram texts = some p ∧ s.read p = .ok t ∧ UsesNothing t := by
  have hsame : Desk.takeUp s {} (texts ++ [""]) = Desk.takeUp s {} texts := by
    simp [takeUp_concat, Desk.prepare]
  rw [hsame]
  rcases context_takeUp s texts with ⟨hnone, hheld⟩ | ⟨p, hp⟩
  · simp [hnone, hheld]
  · have hlast := hp.lastProgram
    obtain ⟨before, later, t, -, -, -, hread, -, hc⟩ := hp
    rw [hc, Option.some.injEq, ofTree_eq_empty_iff]
    simp [hlast, hread]

/-! ## Requests one after the other -/

/-- A request as it comes in, with the text of the mode file at that time. -/
structure Visit where
  modeText : Option String
  params : Datum

namespace Visit

def request (v : Visit) : Request := Request.ofDatum v.params

def code (v : Visit) : String := v.request.code

def answer (s : Setup) (d : Desk) (v : Visit) : Except Fault Response × Desk := handle s v.modeText d v.request

def deskAfter (s : Setup) (visits : List Visit) : Desk := visits.foldl (fun d v => (v.answer s d).2) {}

theorem answer_snd (s : Setup) (d : Desk) (v : Visit) : (v.answer s d).2 = (d.prepare s v.code).2 := by
  unfold answer handle code
  split
  · next h => rw [h]
  · next h => rw [h]

theorem deskAfter_eq (s : Setup) (visits : List Visit) :
    deskAfter s visits = Desk.takeUp s {} (visits.map code) := by
  simp only [deskAfter, Desk.takeUp, List.foldl_map, answer_snd]

theorem read_of_parse {s : Setup} {code : String} {f : Fault} (h : s.parse code = .error f) :
    s.read code = .error f := by
  simp [Setup.read, h]

def mode (v : Visit) : String := (v.modeText.map Text.trim).getD noMode

/-- Of a text that is let through the response decides, and of any other whether it can be read. -/
theorem answer_unparsable_iff (s : Setup) (d : Desk) (v : Visit) :
    (v.answer s d).1 = .error .unparsable ↔
      if v.code = "" ∨ d.last = some (s.digest v.code) then respond s v.mode d v.request = .error .unparsable
      else s.read v.code = .error .unparsable := by
  rcases d.prepare_cases s v.code with ⟨hskip, h⟩ | ⟨hne, hlast, ⟨f, hread, h⟩ | ⟨t, hread, h⟩⟩
  · rw [if_pos hskip]
    unfold code at h
    simp only [answer, handle, h, mode]
  · rw [if_neg (by simp [hne, hlast]), hread]
    unfold code at h
    simp only [answer, handle, h]
    simp
  · rw [if_neg (by simp [hne, hlast]), hread]
    unfold code at h hread
    simp only [answer, handle, h]
    constructor
    · intro hr
      have hparse := (respond_unparsable s _ _ v.params hr).2.2
      exact nomatch hread.symm.trans (read_of_parse hparse)
    · exact nofun

theorem unreadable_of_answer {s : Setup} {d : Desk} {v : Visit} (h : (v.answer s d).1 = .error .unparsable) :
    v.code ≠ "" ∧ s.read v.code = .error .unparsable := by
  rw [answer_unparsable_iff] at h
  split at h
  · obtain ⟨-, hblank, hparse⟩ := respond_unparsable s v.mode d v.params h
    refine ⟨fun hempty => ?_, read_of_parse hparse⟩
    have hcode : (Request.ofDatum v.params).code = "" := hempty
    rw [hcode] at hblank
    exact hblank rfl
  · next hskip => exact ⟨(not_or.1 hskip).1, h⟩

theorem last_deskAfter (s : Setup) (earlier later : List Visit) (v : Visit) (hne : v.code ≠ "") :
    (deskAfter s (earlier ++ v :: later)).last =
      some (((lastText (later.map code)).map s.digest).getD (s.digest v.code)) := by
  have hv : (Desk.takeUp s {} (earlier.map code ++ [v.code])).last = some (s.digest v.code) := by
    rw [last_takeUp_fresh, lastText_append, lastText_singleton, if_neg hne]
    rfl
  have hsplit : deskAfter s (earlier ++ v :: later) =
      (Desk.takeUp s {} (earlier.map code ++ [v.code])).takeUp s (later.map code) := by
    simp [deskAfter_eq, Desk.takeUp]
  rw [hsplit, last_takeUp, hv]
  cases lastText (later.map code) <;> simp

theorem answer_again_iff (s : Setup) (earlier later : List Visit) (v : Visit) (modeText : Option String)
    (h : (v.answer s (deskAfter s earlier)).1 = .error .unparsable) :
    let d := deskAfter s (earlier ++ v :: later)
    let again := { v with modeText := modeText }
    (again.answer s d).1 = .error .unparsable ↔
      (∃ p, lastText (later.map code) = some p ∧ s.digest p ≠ s.digest v.code) ∨
        ((v.request.type = "summary" ∨ v.request.type = "suggest") ∧
          respond s again.mode d v.request = .error .unparsable) := by
  intro d again
  obtain ⟨hne, hread⟩ := unreadable_of_answer h
  have hcode : again.code = v.code := rfl
  have hrespond (hr : respond s again.mode d v.request = .error .unparsable) :
      v.request.type = "summary" ∨ v.request.type = "suggest" := (respond_unparsable s again.mode d v.params hr).1
  rw [answer_unparsable_iff, hcode, last_deskAfter s earlier later v hne]
  cases hl : lastText (later.map code) with
  | none =>
    simp only [Option.map_none, Option.getD_none, or_true, if_true, reduceCtorEq, false_and, exists_false, false_or]
    exact ⟨fun hr => ⟨hrespond hr, hr⟩, fun hr => hr.2⟩
  | some p =>
    by_cases hp : s.digest p = s.digest v.code
    · simp only [Option.map_some, Option.getD_some, hp, or_true, if_true, Option.some.injEq]
      constructor
      · exact fun hr => Or.inr ⟨hrespond hr, hr⟩
      · rintro (⟨q, rfl, hq⟩ | hr)
        · exact absurd hp hq
        · exact hr.2
    · simp [hne, hp, hread]

theorem prepare_ok_iff (s : Setup) (texts : List String) (code : String) :
    ((Desk.takeUp s {} texts).prepare s code).1 = .ok () ↔
      code = "" ∨ (lastText texts).map s.digest = some (s.digest code) ∨ ∃ t, s.read code = .ok t := by
  rw [← last_takeUp_fresh]
  rcases (Desk.takeUp s {} texts).prepare_cases s code with
    ⟨hskip, h⟩ | ⟨hne, hnot, ⟨f, hread, h⟩ | ⟨t, hread, h⟩⟩
  · rw [h, ← or_assoc]
    exact iff_of_true rfl (Or.inl hskip)
  · simp [h, hne, hnot, hread]
  · simp [h, hread]

/-- A request gets past the taking up of its text exactly when that is empty, has the digest of the text before it or
can be read, and the context then held is that of the last text that was taken up and could be read. So it is the
one without uses, for an empty text, exactly when that program uses nothing. It is that of any other text exactly
when this was taken up and read last: when it can be read, unless an earlier text shares its digest.

A text that was answered as no program is answered so again, after any further requests, exactly when another text
was taken up last or when the response reads it again. -/
theorem coherent_iff (s : Setup) (earlier : List Visit) (v : Visit) :
    let texts := (earlier ++ [v]).map code
    let held := (deskAfter s (earlier ++ [v])).context
    (((deskAfter s earlier).prepare s v.code).1 = .ok () ↔
      v.code = "" ∨ (lastText (earlier.map code)).map s.digest = some (s.digest v.code) ∨
        ∃ t, s.read v.code = .ok t) ∧
    HeldFromLast s texts held ∧
    (v.code = "" → (held = some ⟨[]⟩ ↔
      ∃ p t, s.lastProgram (earlier.map code) = some p ∧ s.read p = .ok t ∧ UsesNothing t)) ∧
    (HeldFrom s texts v.code held ↔ s.lastProgram texts = some v.code) ∧
    (v.code ≠ "" → (∀ a ∈ earlier, s.digest a.code = s.digest v.code → a.code = v.code) →
      (HeldFrom s texts v.code held ↔ ∃ t, s.read v.code = .ok t)) ∧
    ((v.answer s (deskAfter s earlier)).1 = .error .unparsable →
      ∀ (later : List Visit) (modeText : Option String),
        let d := deskAfter s (earlier ++ v :: later)
        let again := { v with modeText := modeText }
        (again.answer s d).1 = .error .unparsable ↔
          (∃ p, lastText (later.map code) = some p ∧ s.digest p ≠ s.digest v.code) ∨
            ((v.request.type = "summary" ∨ v.request.type = "suggest") ∧
              respond s again.mode d v.request = .error .unparsable)) := by
  intro texts held
  have htexts : texts = earlier.map code ++ [v.code] := by simp [texts]
  have hheld : held = (Desk.takeUp s {} (earlier.map code ++ [v.code])).context := by
    simp [held, deskAfter_eq]
  have hfrom : HeldFrom s texts v.code held ↔ s.lastProgram texts = some v.code := by
    rw [htexts, hheld]
    exact heldFrom_iff s (earlier.map code ++ [v.code]) v.code
  refine ⟨?_, ?_, ?_, hfrom, ?_, fun h later modeText => answer_again_iff s earlier later v modeText h⟩
  · rw [deskAfter_eq]
    exact prepare_ok_iff s (earlier.map code) v.code
  · rw [htexts, hheld]
    exact context_takeUp s (earlier.map code ++ [v.code])
  · intro hempty
    rw [hheld, hempty]
    exact context_eq_empty_iff s (earlier.map code)
  · intro hne hsep
    rw [hfrom, htexts]
    refine lastProgram_concat_iff s (earlier.map code) v.code hne fun a ha => ?_
    obtain ⟨w, hw, rfl⟩ := List.mem_map.1 ha
    exact hsep w hw

/-! ## A text that cannot be read comes twice -/

/-- Nothing is known, and `GridSpec(2)` is the only program. -/
def plain : Setup where
  normalizer := default
  library := default
  plotting := default
  counts := .empty
  values := .empty
  positions := default
  samples := .empty
  located := .empty
  model := ⟨[], .additive, default, default, ⟨[], [], []⟩⟩
  parse := fun code => if code = "GridSpec(2)" then .ok Extractor.calling else .error .unparsable
  marked := fun _ => .ok Extractor.calling
  digest := fun code => code.length

/-- A request for the matches of a query that is left out. -/
def asking (code : String) : Visit := ⟨none, .object [("type", .text "nlp"), ("code", .text code)]⟩

theorem coherent_iff_unreadable :
    let earlier := [asking "GridSpec(2)", asking "bad("]
    ((deskAfter plain earlier).prepare plain "bad(").1 = .ok () ∧
    (∀ a ∈ earlier, plain.digest a.code = plain.digest "bad(" → a.code = "bad(") ∧
    ¬ HeldFrom plain ["GridSpec(2)", "bad(", "bad("] "bad("
        (deskAfter plain (earlier ++ [asking "bad("])).context := by
  intro earlier
  have hsep : ∀ a ∈ earlier, plain.digest a.code = plain.digest "bad(" → a.code = "bad(" := by
    simp only [earlier]
    decide
  obtain ⟨hpast, -, -, -, hown, -⟩ := coherent_iff plain earlier (asking "bad(")
  refine ⟨hpast.2 (Or.inr (Or.inl (by decide))), hsep, ?_⟩
  intro h
  obtain ⟨t, ht⟩ := (hown (by decide) hsep).1 h
  exact nomatch ht

/-- A text that cannot be read is answered as such when it comes first and as a program when it comes again, without
a context. An empty text leaves the context with the uses of the program before it. -/
theorem unreadable_let_through :
    ((asking "bad(").answer plain {}).1 = .error .unparsable ∧
    ((asking "bad(").answer plain (deskAfter plain [asking "bad("])).1 = .ok (.matched []) ∧
    (deskAfter plain [asking "bad(", asking "bad("]).context.isNone = true ∧
    (deskAfter plain [asking "GridSpec(2)", asking ""]).context.map (·.uses.length) = some 2 :=
  ⟨rfl, rfl, rfl, rfl⟩

end Visit

end PlotAdvisor.Assistant
