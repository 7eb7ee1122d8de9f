import PlotAdvisor.Proofs.Coherence
import PlotAdvisor.Proofs.Markable

/-! Which texts are answered as no programs. A text that the parser accepts is answered so too where its ranges cannot
be marked.

* `mark_unfit_iff` - when a tree cannot be marked, so that its text is taken for no program.
* `Setup.Reads`, `answer_fresh_iff` - how texts are read, and the answer to a first request.
-/
set_option autoImplicit false

namespace PlotAdvisor.Program

theorem mark_blank {text : String} (h : Text.trim text = "") (tokens : Except Fault (List Token)) (t : Tree) :
    mark text tokens t = .error (.broken "source must be non-empty") := by
  have hempty : (!(Text.trim text).isEmpty) = false := by simpa [String.isEmpty_iff] using h
  rw [mark, hempty]
  rfl

theorem mark_of_not_blank {text : String} (h : Text.trim text ≠ "") (ts : List Token) (t : Tree) :
    mark text (.ok ts) t = rangesOf text ts t >>= fun ranges => pure (respan ranges 0 t).1 := by
  have hfull : (!(Text.trim text).isEmpty) = true := by simpa [String.isEmpty_iff] using h
  rw [mark, hfull]
  rfl

theorem mark_unfit_iff {text : String} {t : Tree} (h : Legible text t) (ts : List Token) :
    (mark text (.ok ts) t).mapError Assistant.asUnparsable = .error .unparsable ↔
      Text.trim text = "" ∨ ¬ Markable text ts t := by
  by_cases hblank : Text.trim text = ""
  · rw [mark_blank hblank]
    exact iff_of_true rfl (Or.inl hblank)
  · rw [mark_of_not_blank hblank, ← rangesOf_ok_iff]
    have hfaults := faultsIn_rangesOf h ts
    cases hranges : rangesOf text ts t with
    | ok ranges => simp [hblank, Pure.pure, Except.pure, Bind.bind, Except.bind, Except.mapError]
    | error f =>
      have htold : Assistant.asUnparsable f = .unparsable := by
        rcases hfaults f hranges with rfl | rfl <;> rfl
      simp [Bind.bind, Except.bind, Except.mapError, htold]

theorem Parses.tree_error {p : Parses} {code : String} {f : Fault} (h : p.tree code = .error f) : f = .unparsable := by
  unfold Parses.tree at h
  split at h
  · exact nomatch h
  · exact (Except.error.inj h).symm

end PlotAdvisor.Program

namespace PlotAdvisor.Assistant

open Program Elements

/-- A setup whose programs are those that are known, with their marked ranges. -/
structure Setup.Reads (s : Setup) (p : Parses) : Prop where
  parse : s.parse = p.tree
  marked : s.marked = p.marked

theorem Setup.Reads.read_error {s : Setup} {p : Parses} (hs : s.Reads p) {code : String} {f : Fault}
    (h : p.tree code = .error f) : s.read code = .error .unparsable := by
  rw [Setup.read, hs.parse, h, p.tree_error h]

theorem Setup.Reads.read_ok {s : Setup} {p : Parses} (hs : s.Reads p) {code : String} {t : Tree}
    (h : p.tree code = .ok t) : s.read code = (mark code (p.tokensOf code) t).mapError asUnparsable := by
  rw [Setup.read, hs.parse, h, hs.marked, Parses.marked, h]
  simp only [Bind.bind, Except.bind]

theorem mapError_eq_error_iff {α : Type} {x : Except Fault α} {g : Fault → Fault} {e : Fault} :
    x.mapError g = .error e ↔ ∃ f, x = .error f ∧ g f = e := by
  cases x <;> simp [Except.mapError]

namespace Visit

theorem answer_fresh_iff (s : Setup) (v : Visit) :
    (v.answer s {}).1 = .error .unparsable ↔ v.code ≠ "" ∧ s.read v.code = .error .unparsable := by
  refine ⟨unreadable_of_answer, ?_⟩
  rintro ⟨hne, hread⟩
  rw [answer_unparsable_iff, if_neg (by simp [hne])]
  exact hread

/-- A first request is answered as no program, whatever it asks for, if the parser rejects its text, unless that is
empty. If the parser accepts it, it is answered so exactly when its ranges cannot be marked: when it is blank, or when
a node does not find its end or a keyword its name. This is so whenever there are fewer string tokens than literal
texts, a keyword without a name, or children that do not start in the order in which they are visited. -/
theorem told_unparsable_iff (s : Setup) (p : Parses) (hs : s.Reads p) (v : Visit) :
    let told := (v.answer s {}).1 = .error .unparsable
    (∀ f, p.tree v.code = .error f → (told ↔ v.code ≠ "")) ∧
    ∀ t, p.tree v.code = .ok t →
      (told ↔ v.code ≠ "" ∧ ∃ f, mark v.code (p.tokensOf v.code) t = .error f ∧ asUnparsable f = .unparsable) ∧
      ∀ ts, p.tokensOf v.code = .ok ts → Legible v.code t →
        (told ↔ v.code ≠ "" ∧ (Text.trim v.code = "" ∨ ¬ Markable v.code ts t)) ∧
        ∀ w ∈ t.visit?, v.code ≠ "" → Forward ts →
          (stringsOf ts).length < w.texts ∨
          (∃ n ∈ w.nodes, ∃ kw ∈ n.1.keywords, kw.name = none) ∨
          (∃ settled rest, (w.settle (textLines v.code)).run (stringsOf ts) = .ok (settled, rest) ∧
            ∃ n ∈ settled.nodes, ¬ Orderly n) → told := by
  intro told
  have htold : told ↔ v.code ≠ "" ∧ s.read v.code = .error .unparsable := answer_fresh_iff s v
  clear_value told
  refine ⟨fun f hf => ?_, fun t ht => ?_⟩
  · rw [hs.read_error hf] at htold
    exact htold.trans (and_iff_left rfl)
  · rw [hs.read_ok ht] at htold
    refine ⟨htold.trans (and_congr_right fun _ => mapError_eq_error_iff), fun ts hts hlegible => ?_⟩
    rw [hts, mark_unfit_iff hlegible] at htold
    refine ⟨htold, fun w hw hne hforward hunfit => htold.2 ⟨hne, Or.inr fun hmarkable => ?_⟩⟩
    obtain ⟨henough, hnamed, horderly⟩ := hmarkable.orderly hforward hw hlegible
    rcases hunfit with hfew | ⟨n, hn, kw, hkw, hnone⟩ | ⟨settled, rest, hsettled, n, hn, hdisorder⟩
    · omega
    · exact hnamed n hn kw hkw hnone
    · exact hdisorder (horderly settled rest hsettled n hn)

/-! ## Two expressions -/

/-- The program that is one expression in the first columns of its line. -/
def expression (stop : Int) (value : Tree) : Tree :=
  .node "Module" none [
    ("body", .list [.node "Expr" (Extractor.range 0 stop) [("value", value)]]), ("type_ignores", .list [])]

def nameToken (name : String) (start stop : Int) : Token := ⟨.name, name, ⟨1, start⟩, ⟨1, stop⟩⟩

def line (names : List Token) (stop : Int) : List Token :=
  ⟨.encoding, "utf-8", ⟨0, 0⟩, ⟨0, 0⟩⟩ :: names ++
    [⟨.newline, "", ⟨1, stop⟩, ⟨1, stop + 1⟩⟩, ⟨.other, "", ⟨2, 0⟩, ⟨2, 0⟩⟩]

def name : Tree := expression 1 (Extractor.nameNode "a" "Load" 0 1)

def nameTokens : List Token := line [nameToken "a" 0 1] 1

def conditional : Tree :=
  expression 13 (.node "IfExp" (Extractor.range 0 13) [
    ("test", Extractor.nameNode "b" "Load" 5 6), ("body", Extractor.nameNode "a" "Load" 0 1),
    ("orelse", Extractor.nameNode "c" "Load" 12 13)])

def conditionalTokens : List Token :=
  line [nameToken "a" 0 1, nameToken "if" 2 4, nameToken "b" 5 6, nameToken "else" 7 11, nameToken "c" 12 13] 13

def expressions : Parses where
  trees := [("a", some name), ("a if b else c", some conditional)]
  tokens := [("a", ⟨nameTokens, .ok ()⟩), ("a if b else c", ⟨conditionalTokens, .ok ()⟩)]

/-- The two expressions are the only programs. -/
def reading : Setup := { plain with parse := expressions.tree, marked := expressions.marked }

theorem reading_reads : reading.Reads expressions := ⟨rfl, rfl⟩

theorem told_unparsable_iff_name :
    expressions.tree "a" = .ok name ∧ expressions.tokensOf "a" = .ok nameTokens ∧ Legible "a" name ∧
      ((asking "a").answer reading {}).1 ≠ .error .unparsable := by
  have htree : expressions.tree "a" = .ok name := rfl
  have htokens : expressions.tokensOf "a" = .ok nameTokens := rfl
  have hlegible : Legible "a" name := by decide
  have hmarkable : Markable "a" nameTokens name := (rangesOf_ok_iff "a" nameTokens name).1 ⟨_, rfl⟩
  refine ⟨htree, htokens, hlegible, fun htold => ?_⟩
  obtain ⟨-, haccepted⟩ := told_unparsable_iff reading expressions reading_reads (asking "a")
  rcases (((haccepted name htree).2 nameTokens htokens hlegible).1.1 htold).2 with hblank | hunfit
  · exact absurd hblank (by decide)
  · exact hunfit hmarkable

/-- The parser accepts `a if b else c`, but a request about it is answered as if it did not: its parts are visited with
the condition first. -/
theorem conditional_told_unparsable :
    expressions.tree "a if b else c" = .ok conditional ∧
    expressions.tokensOf "a if b else c" = .ok conditionalTokens ∧
    ((asking "a if b else c").answer reading {}).1 = .error .unparsable := by
  have htree : expressions.tree "a if b else c" = .ok conditional := rfl
  have htokens : expressions.tokensOf "a if b else c" = .ok conditionalTokens := rfl
  have hlegible : Legible "a if b else c" conditional := by decide
  have hranges : rangesOf "a if b else c" conditionalTokens conditional = .error .outOfRange := by decide +kernel
  have hread : reading.read "a if b else c" = .error .unparsable := by
    rw [reading_reads.read_ok htree, htokens, mark_unfit_iff hlegible, ← rangesOf_ok_iff, hranges]
    simp
  exact ⟨htree, htokens, (answer_fresh_iff reading _).2 ⟨by decide, hread⟩⟩

end Visit

end PlotAdvisor.Assistant
