import PlotAdvisor.Models.Elements.Pool
import PlotAdvisor.Proofs.Faults

/-! How often training learns from an example. Workers that share the examples learn from each of them once in every
round, in whatever order they get their turns. So they do as much as the rate of learning is made for. A worker alone
goes through the examples once, however many epochs were asked for. -/
set_option autoImplicit false

namespace PlotAdvisor.Models.Elements

section Rounds

variable {σ : Type} {call : σ → String → Except Fault σ} {portions : List (List String)} {workers : Nat} {s : σ}

namespace Pool

variable {p q : Pool σ}

/-! ## Turns -/

theorem turn?_cases {t : Turn} (h : p.turn? call t = some q) :
    (∃ portion rest xs ys, p.waiting = portion :: rest ∧ p.desks = xs ++ [] :: ys ∧
      q = { p with waiting := rest, desks := xs ++ portion :: ys }) ∨
    ∃ code rest xs ys s, p.desks = xs ++ (code :: rest) :: ys ∧ call p.state code = .ok s ∧
      q = { p with desks := xs ++ rest :: ys, state := s, calls := p.calls ++ [code] } := by
  cases t with
  | take w =>
    change p.take? w = some q at h
    rw [take?] at h
    split at h
    · next portion rest hdesk hwaiting =>
      obtain ⟨hw, hempty⟩ := List.getElem?_eq_some_iff.1 hdesk
      obtain ⟨xs, ys, hsplit, -, hset⟩ := @List.exists_of_set _ w portion p.desks hw
      rw [hempty] at hsplit
      rw [hset] at h
      exact .inl ⟨portion, rest, xs, ys, hwaiting, hsplit, (Option.some.inj h).symm⟩
    · exact nomatch h
  | learn w =>
    change p.learn? call w = some q at h
    rw [learn?] at h
    split at h
    · next code rest hdesk =>
      obtain ⟨hw, hnext⟩ := List.getElem?_eq_some_iff.1 hdesk
      obtain ⟨xs, ys, hsplit, -, hset⟩ := @List.exists_of_set _ w rest p.desks hw
      rw [hnext] at hsplit
      split at h
      · next s hcall =>
        rw [hset] at h
        exact .inr ⟨code, rest, xs, ys, s, hsplit, hcall, (Option.some.inj h).symm⟩
      · exact nomatch h
    · exact nomatch h

/-- A round that begins with `s`: no example is lost or learned from twice, and the calls have led to the state. -/
structure Sound (call : σ → String → Except Fault σ) (portions : List (List String)) (s : σ) (p : Pool σ) : Prop where
  shared : (p.calls ++ (p.desks.flatten ++ p.waiting.flatten)).Perm portions.flatten
  reached : p.calls.foldlM call s = .ok p.state

theorem sound_start (call : σ → String → Except Fault σ) (workers : Nat) (portions : List (List String)) (s : σ) :
    Sound call portions s (start workers portions s) where
  shared := by simp [start]
  reached := rfl

theorem Sound.turn (h : Sound call portions s p) {t : Turn} (ht : p.turn? call t = some q) :
    Sound call portions s q := by
  have hshared := h.shared
  rcases turn?_cases ht with ⟨portion, rest, xs, ys, hwaiting, hdesks, rfl⟩ | ⟨code, rest, xs, ys, s', hdesks, hcall, rfl⟩
  · refine ⟨?_, h.reached⟩
    rw [hwaiting, hdesks] at hshared
    refine (List.Perm.append_left p.calls ?_).trans hshared
    simp only [List.flatten_append, List.flatten_cons, List.nil_append, List.append_assoc]
    refine List.Perm.append_left xs.flatten ?_
    rw [← List.append_assoc, ← List.append_assoc]
    exact List.Perm.append_right _ List.perm_append_comm
  · refine ⟨?_, ?_⟩
    · rw [hdesks] at hshared
      refine List.Perm.trans ?_ hshared
      simp only [List.flatten_append, List.flatten_cons, List.append_assoc, List.cons_append, List.nil_append]
      exact List.Perm.append_left p.calls List.perm_middle.symm
    · rw [List.foldlM_append, h.reached]
      change [code].foldlM call p.state = _
      rw [List.foldlM_cons, hcall]
      rfl

theorem sound_run (hp : Sound call portions s p) {turns : List Turn} (h : p.run? call turns = some q) :
    Sound call portions s q := by
  induction turns generalizing p with
  | nil =>
    obtain rfl := Option.some.inj h
    exact hp
  | cons t turns ih =>
    rw [run?, List.foldlM_cons] at h
    obtain ⟨p', ht, hrest⟩ := Option.bind_eq_some_iff.1 h
    exact ih (hp.turn ht) hrest

theorem Sound.done (h : Sound call portions s p) (hdone : p.isDone = true) : p.calls.Perm portions.flatten := by
  have hshared := h.shared
  obtain ⟨hwaiting, hdesks⟩ := Bool.and_eq_true_iff.1 hdone
  have hempty : p.desks.flatten = [] :=
    List.flatten_eq_nil_iff.2 fun d hd => List.isEmpty_iff.1 (List.all_eq_true.1 hdesks d hd)
  rw [hempty, List.isEmpty_iff.1 hwaiting] at hshared
  simpa using hshared

/-! ## A worker who does everything -/

theorem run?_append {turns more : List Turn} (h : p.run? call turns = some q) :
    p.run? call (turns ++ more) = q.run? call more := by
  rw [run?, List.foldlM_append]
  exact congrArg (· >>= fun p => p.run? call more) h

theorem exists_run_desk {waiting ds : List (List String)} {desk calls : List String} {s' : σ}
    (h : desk.foldlM call s = .ok s') :
    ∃ turns, (⟨waiting, desk :: ds, s, calls⟩ : Pool σ).run? call turns = some ⟨waiting, [] :: ds, s', calls ++ desk⟩ := by
  induction desk generalizing s calls with
  | nil =>
    obtain rfl := Except.ok.inj h
    exact ⟨[], by simp [run?]⟩
  | cons code desk ih =>
    rw [List.foldlM_cons] at h
    obtain ⟨s₁, hcall, hrest⟩ := bind_eq_ok h
    obtain ⟨turns, hturns⟩ := @ih s₁ (calls ++ [code]) hrest
    refine ⟨.learn 0 :: turns, ?_⟩
    rw [run?, List.foldlM_cons]
    simp only [turn?, learn?, List.getElem?_cons_zero, hcall, List.set_cons_zero]
    rw [List.append_assoc] at hturns
    exact hturns

theorem exists_run_portions {ds : List (List String)} {calls : List String} {s' : σ}
    (h : portions.flatten.foldlM call s = .ok s') :
    ∃ turns, (⟨portions, [] :: ds, s, calls⟩ : Pool σ).run? call turns =
      some ⟨[], [] :: ds, s', calls ++ portions.flatten⟩ := by
  induction portions generalizing s calls with
  | nil =>
    obtain rfl := Except.ok.inj h
    exact ⟨[], by simp [run?]⟩
  | cons portion portions ih =>
    rw [List.flatten_cons, List.foldlM_append] at h
    obtain ⟨s₁, hportion, hrest⟩ := bind_eq_ok h
    obtain ⟨turns, hturns⟩ := @exists_run_desk _ _ s portions ds portion calls s₁ hportion
    obtain ⟨more, hmore⟩ := @ih s₁ (calls ++ portion) hrest
    refine ⟨.take 0 :: (turns ++ more), ?_⟩
    rw [run?, List.foldlM_cons]
    simp only [turn?, take?, List.getElem?_cons_zero, List.set_cons_zero]
    refine (run?_append hturns).trans (hmore.trans ?_)
    rw [List.flatten_cons, List.append_assoc]

theorem exists_run (hworkers : 0 < workers) {s' : σ} (h : portions.flatten.foldlM call s = .ok s') :
    ∃ turns p, (start workers portions s).run? call turns = some p ∧ p.isDone = true ∧ p.state = s' ∧
      p.calls = portions.flatten := by
  obtain ⟨n, rfl⟩ := Nat.exists_eq_add_one.2 hworkers
  obtain ⟨turns, hturns⟩ := @exists_run_portions _ _ portions s (List.replicate n []) [] s' h
  rw [List.nil_append] at hturns
  exact ⟨turns, _, hturns, by simp [isDone], rfl, rfl⟩

end Pool

/-! ## Rounds -/

theorem rounds?_cons {turns : List Turn} {more : List (List Turn)} {calls : List String} {s' : σ}
    (h : rounds? call workers portions (turns :: more) s = some (calls, s')) :
    ∃ p rest, (Pool.start workers portions s).run? call turns = some p ∧ p.isDone = true ∧
      rounds? call workers portions more p.state = some (rest, s') ∧ calls = p.calls ++ rest := by
  rw [rounds?] at h
  obtain ⟨p, hrun, h⟩ := Option.bind_eq_some_iff.1 h
  split at h
  · next hdone =>
    obtain ⟨⟨rest, s₁⟩, hrest, h⟩ := Option.bind_eq_some_iff.1 h
    obtain ⟨rfl, rfl⟩ := Prod.mk.inj (Option.some.inj h)
    exact ⟨p, rest, hrun, hdone, hrest, rfl⟩
  · exact nomatch h

theorem perm_of_rounds? {turns : List (List Turn)} {calls : List String} {s' : σ}
    (h : rounds? call workers portions turns s = some (calls, s')) :
    calls.Perm (List.replicate turns.length portions.flatten).flatten ∧ calls.foldlM call s = .ok s' := by
  induction turns generalizing s calls with
  | nil =>
    obtain ⟨rfl, rfl⟩ := Prod.mk.inj (Option.some.inj h)
    exact ⟨.nil, rfl⟩
  | cons turns more ih =>
    obtain ⟨p, rest, hrun, hdone, hrest, rfl⟩ := rounds?_cons h
    have hsound := Pool.sound_run (Pool.sound_start call workers portions s) hrun
    obtain ⟨hperm, hreached⟩ := ih hrest
    refine ⟨(hsound.done hdone).append hperm, ?_⟩
    rw [List.foldlM_append, hsound.reached]
    exact hreached

theorem exists_rounds (hworkers : 0 < workers) (n : Nat) {s' : σ}
    (h : (List.replicate n portions.flatten).foldlM (fun s es => es.foldlM call s) s = .ok s') :
    ∃ turns, turns.length = n ∧
      rounds? call workers portions turns s = some ((List.replicate n portions.flatten).flatten, s') := by
  induction n generalizing s with
  | zero =>
    obtain rfl := Except.ok.inj h
    exact ⟨[], rfl, rfl⟩
  | succ n ih =>
    rw [List.replicate_succ, List.foldlM_cons] at h
    obtain ⟨s₁, hround, hrest⟩ := bind_eq_ok h
    obtain ⟨turns, p, hrun, hdone, rfl, hcalls⟩ := Pool.exists_run hworkers hround
    obtain ⟨more, rfl, hmore⟩ := ih hrest
    refine ⟨turns :: more, rfl, ?_⟩
    rw [rounds?, hrun]
    simp only [Option.bind_eq_bind, Option.bind_some, hdone, if_true, hmore, hcalls]
    rfl

end Rounds

/-! ## The count of examples -/

section Counts

variable {α : Type} [Scalar α]

def Learning.Counts (count : Nat) (total : Int) (l : Learning α) : Prop := l.count = count ∧ l.total = total

namespace Learning

variable {count : Nat} {total : Int} {l l' : Learning α}

theorem use_cases {σ : Type} [Draws σ] {context used : List Nat} {alpha : α} {e : String} {g g' : σ}
    (h : l.use context used alpha e g = .ok (l', g')) :
    l' = l ∨ ∃ text right wrong weights, ∃ g₁ g₂ : σ, l.model.number? e = some right ∧
      drawWrong l.shares (l.accepts used e) Generator.period l.settings.negative.toNat [] g₁ = .ok (wrong, g₂) ∧
      l.model.learn context (l.model.reading.numbers l.model.vectors text) right wrong alpha = .ok weights ∧
      l' = { l with model := { l.model with weights := weights } } := by
  rw [use] at h
  split at h
  dsimp only at h
  split at h
  · obtain ⟨rfl, -⟩ := Prod.mk.inj (Except.ok.inj h)
    exact Or.inl rfl
  · split at h
    · obtain ⟨rfl, -⟩ := Prod.mk.inj (Except.ok.inj h)
      exact Or.inl rfl
    · next right hright =>
      obtain ⟨⟨wrong, g₁⟩, hwrong, h⟩ := bind_eq_ok h
      obtain ⟨weights, hweights, h⟩ := bind_eq_ok h
      obtain ⟨rfl, -⟩ := Prod.mk.inj (Except.ok.inj h)
      exact Or.inr ⟨_, right, wrong, weights, _, g₁, hright, hwrong, hweights, rfl⟩

theorem lines_keeps {P : Learning α → Prop} {σ : Type} [Draws σ] {lines : List (List String)} {alpha : α} {g : σ}
    (huse : ∀ (l₁ l₂ l₃ : Learning α) (i : Nat) (used : List Nat) (e : String) (g₁ g₂ g₃ : σ), P l₁ → P l₂ →
      l₂.use (drawContext l₁.model l₁.settings.window lines i g₁).1 used alpha e g₂ = .ok (l₃, g₃) → P l₃)
    (hl : P l) (h : l.lines lines alpha g = .ok l') : P l' := by
  rw [Learning.lines] at h
  obtain ⟨⟨l₁, g₁⟩, hfold, h⟩ := bind_eq_ok h
  obtain rfl := Except.ok.inj h
  refine foldlM_keeps (P := fun x : Learning α × σ => P x.1) ?_ hl hfold
  rintro ⟨l₁, g₁⟩ ⟨elements, i⟩ ⟨l₂, g₂⟩ hl₁ hline
  dsimp only at hline
  split at hline
  · obtain ⟨rfl, -⟩ := Prod.mk.inj (Except.ok.inj hline)
    exact hl₁
  · refine foldlM_keeps (P := fun x : Learning α × σ => P x.1) ?_ ?_ hline
    · rintro ⟨l₃, g₃⟩ e ⟨l₄, g₄⟩ hl₃ hnext
      exact huse l₁ l₃ l₄ i _ e g₁ g₃ g₄ hl₁ hl₃ hnext
    · exact hl₁

/-- An example is counted and may be told, and names may be left; then its lines are learned from, if it has any. -/
theorem follow_cases {parse : String → Except Fault Program.Tree} {σ : Type} [Draws σ] {source : Nat → σ}
    {code : String} (h : l.follow parse source code = .ok l') :
    ∃ reports names, let next := { l with count := l.count + 1, reports := reports, names := names }
      l' = next ∨ ∃ lines alpha, next.lines lines alpha (source (l.count + 1)) = .ok l' := by
  rw [follow] at h
  dsimp only at h
  split at h
  · obtain rfl := Except.ok.inj h
    exact ⟨_, l.names, Or.inl rfl⟩
  · exact nomatch h
  · split at h
    · obtain rfl := Except.ok.inj h
      exact ⟨_, _, Or.inl rfl⟩
    · exact ⟨_, _, Or.inr ⟨_, _, h⟩⟩

theorem counts_use {σ : Type} [Draws σ] {context used : List Nat} {alpha : α} {e : String} {g g' : σ}
    (hl : l.Counts count total) (h : l.use context used alpha e g = .ok (l', g')) : l'.Counts count total := by
  rcases use_cases h with rfl | ⟨_, _, _, _, _, _, _, _, _, rfl⟩
  · exact hl
  · exact hl

theorem counts_follow {parse : String → Except Fault Program.Tree} {σ : Type} [Draws σ] {source : Nat → σ}
    {code : String} (hl : l.Counts count total) (h : l.follow parse source code = .ok l') :
    l'.Counts (count + 1) total := by
  obtain ⟨reports, names, hcases⟩ := follow_cases h
  have hnext : Counts (count + 1) total { l with count := l.count + 1, reports := reports, names := names } :=
    ⟨congrArg (· + 1) hl.1, hl.2⟩
  rcases hcases with rfl | ⟨lines, alpha, hlines⟩
  · exact hnext
  · exact lines_keeps (fun _ _ _ _ _ _ _ _ _ _ hl₂ huse => counts_use hl₂ huse) hnext hlines

theorem counts_calls {parse : String → Except Fault Program.Tree} {σ : Type} [Draws σ] {source : Nat → σ}
    {calls : List String} (hl : l.Counts count total) (h : calls.foldlM (Learning.follow parse source) l = .ok l') :
    l'.Counts (count + calls.length) total := by
  induction calls generalizing l count with
  | nil =>
    obtain rfl := Except.ok.inj h
    exact hl
  | cons code calls ih =>
    rw [List.foldlM_cons] at h
    obtain ⟨l₁, hcode, hrest⟩ := bind_eq_ok h
    have hcalls := ih (counts_follow hl hcode) hrest
    rwa [Nat.add_assoc, Nat.add_comm 1] at hcalls

theorem counts_start {st : Settings α} {b : Background α} {counts : Table String Int} {elements : List String}
    {examples : Nat} (h : Learning.start st b counts elements examples = .ok l) :
    l.Counts 0 (examples * st.epochs) := by
  rw [Learning.start] at h
  obtain ⟨weights, -, h⟩ := bind_eq_ok h
  obtain ⟨shares, -, h⟩ := bind_eq_ok h
  obtain rfl := Except.ok.inj h
  exact ⟨rfl, rfl⟩

end Learning

/-! ## Epochs -/

omit [Scalar α] in
theorem Settings.rounds_eq_epochs_iff (st : Settings α) :
    (st.rounds : Int) = st.epochs ↔ st.isShared = true ∧ 0 ≤ st.epochs ∨ st.epochs = 1 := by
  rw [Settings.rounds]
  cases st.isShared with
  | true =>
    simp only [eq_self, if_true, true_and]
    omega
  | false =>
    simp only [Bool.false_eq_true, if_false, false_and, false_or]
    omega

omit [Scalar α] in
theorem Settings.workers_pos {st : Settings α} {processors : Nat} (hprocessors : 0 < processors)
    (hshared : st.isShared = true) : 0 < st.workers processors := by
  rw [Settings.isShared] at hshared
  rw [Settings.workers]
  cases hthreads : st.threads with
  | none => exact hprocessors
  | some n =>
    rw [hthreads] at hshared
    have hn : 1 < n := of_decide_eq_true hshared
    change 0 < n.toNat
    omega

theorem count_flatten_replicate (n : Nat) (examples : List String) (e : String) :
    (List.replicate n examples).flatten.count e = n * examples.count e := by
  simp [List.count_flatten]

theorem eq_nil_or_of_forall_count {examples : List String} {m n : Int}
    (h : ∀ e, m * examples.count e = n * examples.count e) : m = n ∨ examples = [] := by
  cases examples with
  | nil => exact .inr rfl
  | cons e examples =>
    have hpos : ((e :: examples).count e : Int) ≠ 0 := by
      rw [List.count_cons_self]
      omega
    exact .inl (Int.eq_of_mul_eq_mul_right hpos (h e))

variable {parse : String → Except Fault Program.Tree} {σ : Type} [Draws σ] {source : Nat → σ} {st : Settings α}
  {b : Background α} {counts : Table String Int} {elements : List String} {processors : Nat}
  {portions : List (List String)} {calls : List String} {l : Learning α}

theorem Outcome.of_train (hprocessors : 0 < processors)
    (h : train parse source st b counts elements portions.flatten = .ok l) :
    Outcome parse source st b counts elements processors portions
      (List.replicate st.rounds portions.flatten).flatten l := by
  rw [train] at h
  obtain ⟨start, hstart, h⟩ := bind_eq_ok h
  cases hshared : st.isShared with
  | true =>
    have hrounds : st.rounds = st.epochs.toNat := if_pos hshared
    obtain ⟨turns, hlength, hturns⟩ := exists_rounds (Settings.workers_pos hprocessors hshared) st.rounds h
    exact .shared hshared hstart (hlength.trans hrounds) hturns
  | false =>
    have hrounds : st.rounds = 1 := by simp [Settings.rounds, hshared]
    rw [hrounds] at h ⊢
    obtain ⟨l', hpass, h⟩ := bind_eq_ok h
    obtain rfl := Except.ok.inj h
    rw [List.replicate_one, List.flatten_singleton]
    exact .alone hshared hstart hpass

theorem Outcome.perm (h : Outcome parse source st b counts elements processors portions calls l) :
    calls.Perm (List.replicate st.rounds portions.flatten).flatten ∧
      l.Counts calls.length (portions.flatten.length * st.epochs) := by
  cases h with
  | @shared start _ turns _ hshared hstart hlength hturns =>
    have hrounds : st.rounds = st.epochs.toNat := if_pos hshared
    obtain ⟨hperm, hreached⟩ := perm_of_rounds? hturns
    have hcounts := Learning.counts_calls (Learning.counts_start hstart) hreached
    rw [Nat.zero_add] at hcounts
    rw [hrounds, ← hlength]
    exact ⟨hperm, hcounts⟩
  | @alone start _ hshared hstart hpass =>
    have hrounds : st.rounds = 1 := by simp [Settings.rounds, hshared]
    have hcounts := Learning.counts_calls (Learning.counts_start hstart) hpass
    rw [Nat.zero_add] at hcounts
    rw [hrounds, List.replicate_one, List.flatten_singleton]
    exact ⟨.refl _, hcounts⟩

/-- Training in one process is one way in which workers may get their turns. In whatever order they do, training goes
through the examples as often as there are rounds. So it learns from every example once for each epoch, and from as many
in all as the rate of learning is made for, exactly if workers share the examples, or there is one epoch, or there are
no examples. -/
theorem Outcome.calls_iff {examples : List String} (hprocessors : 0 < processors)
    (hexamples : portions.flatten = examples) :
    (∀ l, train parse source st b counts elements examples = .ok l →
      Outcome parse source st b counts elements processors portions (List.replicate st.rounds examples).flatten l) ∧
    ∀ calls l, Outcome parse source st b counts elements processors portions calls l →
      calls.Perm (List.replicate st.rounds examples).flatten ∧ l.count = calls.length ∧
      l.total = examples.length * st.epochs ∧
      ((∀ e, (calls.count e : Int) = st.epochs * examples.count e) ↔
        (st.isShared = true ∧ 0 ≤ st.epochs ∨ st.epochs = 1) ∨ examples = []) ∧
      ((l.count : Int) = l.total ↔ (st.isShared = true ∧ 0 ≤ st.epochs ∨ st.epochs = 1) ∨ examples = []) := by
  subst hexamples
  refine ⟨fun l h => .of_train hprocessors h, fun calls l h => ?_⟩
  obtain ⟨hperm, hcount, htotal⟩ := h.perm
  refine ⟨hperm, hcount, htotal, ?_, ?_⟩
  · have hcalls : ∀ e, (calls.count e : Int) = st.rounds * portions.flatten.count e := by
      intro e
      rw [hperm.count_eq, count_flatten_replicate, Int.natCast_mul]
    rw [← st.rounds_eq_epochs_iff]
    constructor
    · intro hall
      exact eq_nil_or_of_forall_count fun e => (hcalls e).symm.trans (hall e)
    · rintro (hrounds | hnone) e
      · rw [hcalls, hrounds]
      · rw [hcalls, hnone]
        simp
  · have hlength : (l.count : Int) = st.rounds * portions.flatten.length := by
      rw [hcount, hperm.length_eq]
      simp
    rw [← st.rounds_eq_epochs_iff, hlength, htotal, Int.mul_comm st.rounds]
    constructor
    · intro hall
      rcases Nat.eq_zero_or_pos portions.flatten.length with hnone | hpos
      · exact .inr (List.length_eq_zero_iff.1 hnone)
      · exact .inl (Int.eq_of_mul_eq_mul_left (by omega) hall)
    · rintro (hrounds | hnone)
      · rw [hrounds]
      · rw [hnone]
        simp

end Counts

def twoEpochs (threads : Option Int) : Settings Float where
  mode := .additive
  negative := 1
  epochs := 2
  seed := 1
  alpha := 1
  window := 2
  lemmas := false
  phraseLimit := 1
  threads := threads
  drawParents := false
  contextsFromTexts := true
  outputsFromTexts := false
  drawUsed := false
  rows := default

/-- Nothing is known of the library or the words. -/
def noBackground : Background Float := ⟨default, default, default, [], default, default⟩

/-- The draws of an example follow from its number. -/
def seeded (n : Nat) : Generator := .ofSeed n

def commentsOnly : String → Except Fault Program.Tree := fun _ => .ok (.node "Module" none [])

/-- One worker learns from its example before another one learns from those that were handed out first. -/
theorem Outcome.calls_iff_two :
    0 < 4 ∧ [["# one", "# two"], ["# three"]].flatten = ["# one", "# two", "# three"] ∧
      ∃ calls l, Outcome commentsOnly seeded (twoEpochs (some 2)) noBackground .empty [] 4
        [["# one", "# two"], ["# three"]] calls l ∧ calls.head? = some "# three" ∧
        (∀ e, (calls.count e : Int) = 2 * ["# one", "# two", "# three"].count e) ∧ (l.count : Int) = l.total := by
  obtain ⟨start, hstart⟩ : ∃ start, Learning.start (twoEpochs (some 2)) noBackground .empty [] 3 = .ok start := ⟨_, rfl⟩
  let round : List Turn := [.take 1, .take 0, .learn 0, .learn 1, .learn 1]
  obtain ⟨l, hrounds⟩ : ∃ l, rounds? (Learning.follow commentsOnly seeded) 2 [["# one", "# two"], ["# three"]]
      [round, round] start = some (["# three", "# one", "# two", "# three", "# one", "# two"], l) := ⟨_, rfl⟩
  have houtcome : Outcome commentsOnly seeded (twoEpochs (some 2)) noBackground .empty [] 4
      [["# one", "# two"], ["# three"]] _ l := .shared rfl hstart rfl hrounds
  have hshared : (twoEpochs (some 2)).isShared = true := rfl
  have hepochs : 0 ≤ (twoEpochs (some 2)).epochs := by decide
  obtain ⟨-, -, -, hall, htotal⟩ := (Outcome.calls_iff (by decide) rfl).2 _ _ houtcome
  exact ⟨by decide, rfl, _, l, houtcome, rfl, hall.2 (.inl (.inl ⟨hshared, hepochs⟩)),
    htotal.2 (.inl (.inl ⟨hshared, hepochs⟩))⟩

/-- A worker alone learns from an example once where two epochs are asked for. Two workers do so twice. -/
theorem Outcome.alone_once :
    (∃ l, train commentsOnly seeded (twoEpochs (some 1)) noBackground .empty [] ["# one"] = .ok l ∧
      Outcome commentsOnly seeded (twoEpochs (some 1)) noBackground .empty [] 4 [["# one"]] ["# one"] l ∧
      l.count = 1 ∧ l.total = 2) ∧
    ∃ l, train commentsOnly seeded (twoEpochs (some 2)) noBackground .empty [] ["# one"] = .ok l ∧
      Outcome commentsOnly seeded (twoEpochs (some 2)) noBackground .empty [] 4 [["# one"]] ["# one", "# one"] l ∧
      l.count = 2 ∧ l.total = 2 := by
  refine ⟨⟨_, rfl, ?_, rfl, rfl⟩, ⟨_, rfl, ?_, rfl, rfl⟩⟩
  · exact .of_train (by decide) rfl
  · exact .of_train (by decide) rfl

end PlotAdvisor.Models.Elements
