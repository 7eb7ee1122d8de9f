import PlotAdvisor.Proofs.Extraction

/-! How an extraction depends on the ones before it. All of them share one table of names, so that a program is
told apart from the same program in a fresh extractor exactly by the names that earlier programs left changed,
unless it binds them itself before it looks them up. -/
set_option autoImplicit false

namespace PlotAdvisor.Elements

open Program

/-! ## Statements one after the other -/

def followAll (names : Names) : List Tree → Names × List Use
  | [] => (names, [])
  | t :: ts =>
    let after := followAll (follow false names t).1 ts
    (after.1, (follow false names t).2 ++ after.2)

theorem foldl_follow_eq (ts : List Tree) (names : Names) (uses : List Use) :
    ts.foldl (fun (ns, us) t =>
      let (ns, more) := follow false ns t
      (ns, us ++ more)) (names, uses) = ((followAll names ts).1, uses ++ (followAll names ts).2) := by
  induction ts generalizing names uses with
  | nil => simp [followAll]
  | cons t ts ih => rw [List.foldl_cons, ih, followAll, List.append_assoc]

theorem extract_eq_followAll (names : Names) (program : Tree) :
    extract false names program = followAll names (outermost isFollowed program) := by
  rw [extract, foldl_follow_eq, List.nil_append]

def boundIn (ts : List Tree) : List String := ts.flatMap binds

/-- The names that statements look up before they bind them. -/
def exposedIn : List Tree → List String
  | [] => []
  | t :: ts => reads t ++ (exposedIn ts).filter fun x => !(binds t).contains x

theorem followAll_get?_of_notMem (names : Names) (ts : List Tree) (x : String) (hx : x ∉ boundIn ts) :
    (followAll names ts).1.get? x = names.get? x := by
  induction ts generalizing names with
  | nil => rfl
  | cons t ts ih =>
    simp only [boundIn, List.flatMap_cons, List.mem_append, not_or] at hx
    exact (ih _ hx.2).trans (follow_get?_of_notMem names t x hx.1)

theorem follow_length_eq (names others : Names) (t : Tree) :
    (follow false names t).2.length = (follow false others t).2.length := by
  rw [follow_uses, follow_uses]
  induction callsOf t with
  | nil => rfl
  | cons c cs ih =>
    simp only [List.flatMap_cons, List.length_append, ih, usesAt]
    rw [usesOf_length_eq c (head names c) (head others c)]

theorem extract_length_eq (names others : Names) (program : Tree) :
    (extract false names program).2.length = (extract false others program).2.length := by
  rw [extract_eq_followAll, extract_eq_followAll]
  generalize outermost isFollowed program = ts
  induction ts generalizing names others with
  | nil => rfl
  | cons t ts ih =>
    simp only [followAll, List.length_append]
    rw [follow_length_eq names others t, ih (follow false names t).1 (follow false others t).1]

theorem followAll_agree_iff (names others : Names) (ts : List Tree) :
    ((followAll names ts).2.map Use.id = (followAll others ts).2.map Use.id ∧
        ∀ x, (followAll names ts).1.get? x = (followAll others ts).1.get? x) ↔
      (∀ x, x ∉ boundIn ts → names.get? x = others.get? x) ∧
        ∀ x ∈ exposedIn ts, names.getD x x = others.getD x x := by
  induction ts generalizing names others with
  | nil => simp [followAll, boundIn, exposedIn]
  | cons t ts ih =>
    have hlen : ((follow false names t).2.map Use.id).length = ((follow false others t).2.map Use.id).length := by
      simpa only [List.length_map] using follow_length_eq names others t
    have hsplit : (followAll names (t :: ts)).2.map Use.id = (followAll others (t :: ts)).2.map Use.id ↔
        (∀ x ∈ reads t, names.getD x x = others.getD x x) ∧
          (followAll (follow false names t).1 ts).2.map Use.id =
            (followAll (follow false others t).1 ts).2.map Use.id := by
      rw [followAll, followAll, List.map_append, List.map_append, ← follow_ids_eq_iff]
      constructor
      · exact fun h => List.append_inj h hlen
      · rintro ⟨h1, h2⟩
        rw [h1, h2]
    rw [hsplit, and_assoc]
    -- the first statement is settled, the rest is followed from the two tables that it leaves
    have hrest := ih (follow false names t).1 (follow false others t).1
    have hkeep (ns : Names) (x : String) (hx : x ∉ binds t) : (follow false ns t).1.getD x x = ns.getD x x :=
      Table.getD_congr x (follow_get?_of_notMem ns t x hx)
    constructor
    · rintro ⟨hr, hafter⟩
      obtain ⟨hb, he⟩ := hrest.1 hafter
      refine ⟨fun x hx => ?_, fun x hx => ?_⟩
      · simp only [boundIn, List.flatMap_cons, List.mem_append, not_or] at hx
        exact ((follow_get?_eq_iff names others t x hr).1 (hb x hx.2)).resolve_left hx.1
      · simp only [exposedIn, List.mem_append, List.mem_filter] at hx
        rcases hx with hx | ⟨hx, hnot⟩
        · exact hr x hx
        · have hxt : x ∉ binds t := by simpa using hnot
          rw [← hkeep names x hxt, ← hkeep others x hxt]
          exact he x hx
    · rintro ⟨hb, he⟩
      have hr : ∀ x ∈ reads t, names.getD x x = others.getD x x :=
        fun x hx => he x (List.mem_append_left _ hx)
      refine ⟨hr, hrest.2 ⟨fun x hx => ?_, fun x hx => ?_⟩⟩
      · refine (follow_get?_eq_iff names others t x hr).2 ?_
        by_cases hxt : x ∈ binds t
        · exact Or.inl hxt
        · exact Or.inr (hb x (by simpa [boundIn, hxt] using hx))
      · by_cases hxt : x ∈ binds t
        · exact Table.getD_congr x ((follow_get?_eq_iff names others t x hr).2 (Or.inl hxt))
        · rw [hkeep names x hxt, hkeep others x hxt]
          exact he x (List.mem_append_right _ (by simpa [hxt] using hx))

/-! ## Programs one after the other -/

def bound (program : Tree) : List String := boundIn (outermost isFollowed program)

/-- The names that a program looks up before it binds them. -/
def exposed (program : Tree) : List String := exposedIn (outermost isFollowed program)

namespace Extractor

def after (e : Extractor) (programs : List Tree) : Extractor :=
  programs.foldl (fun e p => (e.extract true false p).2) e

/-- The ids that an extraction from the usual names gives, and the table that it hands out as it is then. -/
def given (e : Extractor) (program : Tree) : List String × Names :=
  let r := e.extract true false program
  (r.1.2.map Use.id, r.2.look r.1.1)

theorem given_eq (e : Extractor) (program : Tree) :
    e.given program = ((followAll e.names (outermost isFollowed program)).2.map Use.id,
      (followAll e.names (outermost isFollowed program)).1) := by
  simp [given, extract, look, extract_eq_followAll]

theorem names_extract (e : Extractor) (program : Tree) :
    (e.extract true false program).2.names = (followAll e.names (outermost isFollowed program)).1 := by
  simp [extract, extract_eq_followAll]

theorem names_after_of_notMem (e : Extractor) (programs : List Tree) (x : String)
    (hx : x ∉ programs.flatMap bound) : (e.after programs).names.get? x = e.names.get? x := by
  induction programs generalizing e with
  | nil => rfl
  | cons p programs ih =>
    simp only [List.flatMap_cons, List.mem_append, not_or] at hx
    have hp : (e.extract true false p).2.names.get? x = e.names.get? x := by
      rw [names_extract]
      exact followAll_get?_of_notMem e.names _ x hx.1
    exact (ih (e.extract true false p).2 hx.2).trans hp

/-- A program gives the same after earlier programs as in a fresh extractor exactly when each name that those bind
is bound by it or is left as it was, and stands for the same where it is looked up before it is bound. A table that
was handed out stays as it is exactly when later programs leave each name that they bind with what it stood for. -/
theorem isolated_iff (earlier : List Tree) (program : Tree) :
    ((((after {} earlier).given program).1 = (given {} program).1 ∧
        ∀ x, ((after {} earlier).given program).2.get? x = (given {} program).2.get? x) ↔
      ∀ x ∈ earlier.flatMap bound,
        (x ∈ bound program ∨ (after {} earlier).names.get? x = sessionTable.get? x) ∧
        (x ∈ exposed program → (after {} earlier).names.getD x x = sessionTable.getD x x)) ∧
    ∀ later : List Tree,
      let r := (after {} earlier).extract true false program
      (∀ x, ((r.2.after later).look r.1.1).get? x = (r.2.look r.1.1).get? x) ↔
        ∀ x ∈ later.flatMap bound, (r.2.after later).names.get? x = r.2.names.get? x := by
  have hfresh (x : String) (hx : x ∉ earlier.flatMap bound) :
      (after {} earlier).names.get? x = sessionTable.get? x :=
    names_after_of_notMem {} earlier x hx
  constructor
  · rw [given_eq, given_eq]
    refine (followAll_agree_iff (after {} earlier).names sessionTable _).trans ?_
    constructor
    · rintro ⟨hb, he⟩ x -
      refine ⟨?_, he x⟩
      by_cases hx : x ∈ bound program
      · exact Or.inl hx
      · exact Or.inr (hb x hx)
    · intro h
      refine ⟨fun x hx => ?_, fun x hx => ?_⟩
      · by_cases hxe : x ∈ earlier.flatMap bound
        · exact (h x hxe).1.resolve_left hx
        · exact hfresh x hxe
      · by_cases hxe : x ∈ earlier.flatMap bound
        · exact (h x hxe).2 hx
        · exact Table.getD_congr x (hfresh x hxe)
  · intro later r
    constructor
    · exact fun h x _ => h x
    · intro h x
      by_cases hx : x ∈ later.flatMap bound
      · exact h x hx
      · exact names_after_of_notMem r.2 later x hx

/-! ## A name that an earlier program binds -/

def range (start stop : Int) : Option Span := some ⟨⟨1, start⟩, ⟨1, stop⟩⟩

def nameNode (id context : String) (start stop : Int) : Tree :=
  .node "Name" (range start stop) [("id", .lit (.text id)), ("ctx", .node context none [])]

/-- The program `GridSpec = f.g()`. -/
def rebinding : Tree :=
  let call : Tree := .node "Call" (range 11 16) [
    ("func", .node "Attribute" (range 11 14) [
      ("value", nameNode "f" "Load" 11 12), ("attr", .lit (.text "g")), ("ctx", .node "Load" none [])]),
    ("args", .list []), ("keywords", .list [])]
  .node "Module" none [
    ("body", .list [.node "Assign" (range 0 16) [
      ("targets", .list [nameNode "GridSpec" "Store" 0 8]), ("value", call), ("type_comment", .lit .none)]]),
    ("type_ignores", .list [])]

/-- The program `GridSpec(2)`. -/
def calling : Tree :=
  let call : Tree := .node "Call" (range 0 11) [
    ("func", nameNode "GridSpec" "Load" 0 8),
    ("args", .list [.node "Constant" (range 9 10) [("value", .lit (.int 2)), ("kind", .lit .none)]]),
    ("keywords", .list [])]
  .node "Module" none [("body", .list [.node "Expr" (range 0 11) [("value", call)]]), ("type_ignores", .list [])]

/-- What `GridSpec(2)` gives depends on `GridSpec = f.g()` before it, and the table that it hands out is changed
when that program comes after it. -/
theorem rebinding_shows :
    (given {} calling).1 = ["matplotlib.gridspec.GridSpec", "matplotlib.gridspec.GridSpec@0"] ∧
    ((after {} [rebinding]).given calling).1 = ["f.g", "f.g@0"] ∧
    let r := extract {} true false calling
    (r.2.look r.1.1).get? "GridSpec" = some "matplotlib.gridspec.GridSpec" ∧
      ((r.2.after [rebinding]).look r.1.1).get? "GridSpec" = some "f.g" := by
  decide

end Extractor

end PlotAdvisor.Elements
