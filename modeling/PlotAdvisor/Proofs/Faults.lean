import PlotAdvisor.Fault

/-! Computations that succeed step by step, computations with a state, which stays when they fail, computations that
cannot end with a given fault, computations that end with given faults only, and what a computation yields either way. -/
set_option autoImplicit false

namespace PlotAdvisor

theorem bind_eq_ok {α β : Type} {x : Except Fault α} {k : α → Except Fault β} {b : β} (h : x >>= k = .ok b) :
    ∃ a, x = .ok a ∧ k a = .ok b := by
  cases x with
  | error f => exact nomatch h
  | ok a => exact ⟨a, rfl, h⟩

theorem orFault_eq_ok {α : Type} {x : Option α} {f : Fault} {a : α} (h : orFault x f = .ok a) : x = some a := by
  cases x with
  | none => cases h
  | some b => rw [Except.ok.inj h]

theorem ensure_eq_ok {holds : Bool} {reason : String} {u : Unit} (h : ensure holds reason = .ok u) : holds = true := by
  cases holds with
  | false => cases h
  | true => rfl

theorem bind_ok_iff {α β : Type} {x : Except Fault α} {k : α → Except Fault β} {b : β} :
    x >>= k = .ok b ↔ ∃ a, x = .ok a ∧ k a = .ok b := by
  refine ⟨bind_eq_ok, ?_⟩
  rintro ⟨a, rfl, h⟩
  exact h

theorem mapM_ok_iff {α β : Type} {f : α → Except Fault β} {xs : List α} :
    (∃ ys, xs.mapM f = .ok ys) ↔ ∀ x ∈ xs, ∃ y, f x = .ok y := by
  induction xs with
  | nil => simp [Pure.pure, Except.pure]
  | cons x xs ih =>
    rw [List.forall_mem_cons, ← ih]
    constructor
    · rintro ⟨ys, h⟩
      rw [List.mapM_cons] at h
      obtain ⟨y, hy, h⟩ := bind_eq_ok h
      obtain ⟨zs, hzs, -⟩ := bind_eq_ok h
      exact ⟨⟨y, hy⟩, zs, hzs⟩
    · rintro ⟨⟨y, hy⟩, ys, hys⟩
      exact ⟨y :: ys, by rw [List.mapM_cons, hy, hys]; rfl⟩

theorem mapM_eq_ok {α β : Type} {f : α → Except Fault β} {g : α → β} {xs : List α} (h : ∀ x ∈ xs, f x = .ok (g x)) :
    xs.mapM f = .ok (xs.map g) := by
  induction xs with
  | nil => rfl
  | cons x xs ih =>
    rw [List.forall_mem_cons] at h
    rw [List.mapM_cons, h.1, ih h.2]
    rfl

theorem map_eq_of_mapM {α β γ : Type} {k : α → Except Fault β} {f : α → γ} {g : β → γ}
    (hk : ∀ a b, k a = .ok b → g b = f a) {xs : List α} {ys : List β} (h : xs.mapM k = .ok ys) :
    ys.map g = xs.map f := by
  induction xs generalizing ys with
  | nil =>
    obtain rfl := Except.ok.inj h
    rfl
  | cons x xs ih =>
    rw [List.mapM_cons] at h
    obtain ⟨y, hy, h⟩ := bind_eq_ok h
    obtain ⟨zs, hzs, h⟩ := bind_eq_ok h
    obtain rfl := Except.ok.inj h
    rw [List.map_cons, List.map_cons, hk x y hy, ih hzs]

theorem foldlM_keeps {α β : Type} {k : β → α → Except Fault β} {P : β → Prop}
    (step : ∀ b a b', P b → k b a = .ok b' → P b') {xs : List α} {b b' : β} (hb : P b)
    (h : xs.foldlM k b = .ok b') : P b' := by
  induction xs generalizing b with
  | nil =>
    obtain rfl := Except.ok.inj h
    exact hb
  | cons x xs ih =>
    rw [List.foldlM_cons] at h
    obtain ⟨c, hc, h⟩ := bind_eq_ok h
    exact ih (step b x c hb hc) h

theorem foldlM_goes_through {α β : Type} {k : β → α → Except Fault β} {P : β → Prop} {xs : List α}
    (step : ∀ b, P b → ∀ a ∈ xs, ∃ b', k b a = .ok b' ∧ P b') {b : β} (hb : P b) :
    ∃ b', xs.foldlM k b = .ok b' ∧ P b' := by
  induction xs generalizing b with
  | nil => exact ⟨b, rfl, hb⟩
  | cons x xs ih =>
    obtain ⟨c, hc, hPc⟩ := step b hb x List.mem_cons_self
    obtain ⟨d, hd, hPd⟩ := ih (fun b hb a ha => step b hb a (List.mem_cons_of_mem x ha)) hPc
    refine ⟨d, ?_, hPd⟩
    rw [List.foldlM_cons, hc]
    exact hd

namespace Stateful

variable {σ α β : Type}

theorem run_pure (a : α) (s : σ) : (pure a : ExceptT Fault (StateM σ) α).run s = (.ok a, s) := rfl

theorem run_bind (x : ExceptT Fault (StateM σ) α) (k : α → ExceptT Fault (StateM σ) β) (s : σ) :
    (x >>= k).run s = match x.run s with
      | (.ok a, s) => (k a).run s
      | (.error f, s) => (.error f, s) := by
  change StateT.bind x (ExceptT.bindCont k) s = _
  rw [StateT.bind]
  rcases h : x s with ⟨r, s'⟩
  cases r <;> simp only [ExceptT.run, h] <;> rfl

theorem run_bind_ok {x : ExceptT Fault (StateM σ) α} {k : α → ExceptT Fault (StateM σ) β} {s s' : σ} {a : α}
    (h : x.run s = (.ok a, s')) : (x >>= k).run s = (k a).run s' := by
  rw [run_bind, h]

end Stateful

def Avoids {α : Type} (f : Fault) (x : Except Fault α) : Prop := x ≠ .error f

namespace Avoids

variable {α β : Type} {f : Fault}

theorem ok (a : α) : Avoids f (.ok a) := nofun

theorem pure (a : α) : Avoids f (Pure.pure a : Except Fault α) := nofun

theorem error {g : Fault} (h : g ≠ f) : Avoids f (.error g : Except Fault α) :=
  fun he => h (Except.error.inj he)

theorem orFault (x : Option α) {g : Fault} (h : g ≠ f) : Avoids f (orFault x g) := by
  cases x with
  | none => exact error h
  | some a => exact ok a

theorem bind {x : Except Fault α} {k : α → Except Fault β} (hx : Avoids f x) (hk : ∀ a, Avoids f (k a)) :
    Avoids f (x >>= k) := by
  cases x with
  | error g => exact error fun hg => hx (by rw [hg])
  | ok a => exact hk a

theorem map {x : Except Fault α} (hx : Avoids f x) (k : α → β) : Avoids f (k <$> x) := by
  cases x with
  | error g => exact error fun hg => hx (by rw [hg])
  | ok a => exact ok (k a)

theorem ite {c : Prop} [Decidable c] {x y : Except Fault α} (hx : c → Avoids f x) (hy : ¬ c → Avoids f y) :
    Avoids f (if c then x else y) := by
  by_cases h : c
  · rw [if_pos h]
    exact hx h
  · rw [if_neg h]
    exact hy h

theorem mapM {k : α → Except Fault β} (hk : ∀ a, Avoids f (k a)) (xs : List α) : Avoids f (xs.mapM k) := by
  induction xs with
  | nil => exact pure []
  | cons x xs ih =>
    rw [List.mapM_cons]
    exact (hk x).bind fun b => ih.bind fun bs => pure _

theorem filterAuxM {p : α → Except Fault Bool} (hp : ∀ a, Avoids f (p a)) (xs acc : List α) :
    Avoids f (xs.filterAuxM p acc) := by
  induction xs generalizing acc with
  | nil => exact pure acc
  | cons x xs ih => exact (hp x).bind fun b => ih _

theorem filterM {p : α → Except Fault Bool} (hp : ∀ a, Avoids f (p a)) (xs : List α) :
    Avoids f (xs.filterM p) :=
  (filterAuxM hp xs []).bind fun _ => pure _

theorem optionMapM {k : α → Except Fault β} (hk : ∀ a, Avoids f (k a)) (x : Option α) : Avoids f (x.mapM k) := by
  cases x with
  | none => exact pure none
  | some a => exact (hk a).map some

end Avoids

/-- Every fault of a computation is among those given. -/
def FaultsIn {α : Type} (P : Fault → Prop) (x : Except Fault α) : Prop := ∀ f, x = .error f → P f

namespace FaultsIn

variable {α β : Type} {P : Fault → Prop}

theorem pure (a : α) : FaultsIn P (Pure.pure a : Except Fault α) := nofun

theorem error {f : Fault} (h : P f) : FaultsIn P (.error f : Except Fault α) :=
  fun _ hf => Except.error.inj hf ▸ h

theorem bind {x : Except Fault α} {k : α → Except Fault β} (hx : FaultsIn P x) (hk : ∀ a, FaultsIn P (k a)) :
    FaultsIn P (x >>= k) := by
  cases x with
  | error f => exact error (hx f rfl)
  | ok a => exact hk a

theorem orFault (x : Option α) {f : Fault} (h : P f) : FaultsIn P (orFault x f) := by
  cases x with
  | none => exact error h
  | some a => exact pure a

theorem ensure (holds : Bool) {reason : String} (h : P (.broken reason)) : FaultsIn P (ensure holds reason) := by
  cases holds with
  | false => exact error h
  | true => exact pure ()

theorem mapM {k : α → Except Fault β} {xs : List α} (hk : ∀ a ∈ xs, FaultsIn P (k a)) : FaultsIn P (xs.mapM k) := by
  induction xs with
  | nil => exact pure []
  | cons x xs ih =>
    rw [List.mapM_cons]
    exact (hk x (by simp)).bind fun b => (ih fun a ha => hk a (by simp [ha])).bind fun bs => pure _

end FaultsIn

def Yields {α : Type} (P : α → Prop) (Q : Fault → Prop) : Except Fault α → Prop
  | .ok a => P a
  | .error f => Q f

namespace Yields

variable {α β : Type} {P : α → Prop} {R : β → Prop} {Q : Fault → Prop}

theorem bind {x : Except Fault α} {k : α → Except Fault β} (hx : Yields P Q x) (hk : ∀ a, P a → Yields R Q (k a)) :
    Yields R Q (x >>= k) := by
  cases x with
  | error f => exact hx
  | ok a => exact hk a hx

theorem imp {P' : α → Prop} {x : Except Fault α} (hx : Yields P Q x) (hP : ∀ a, P a → P' a) : Yields P' Q x := by
  cases x with
  | error f => exact hx
  | ok a => exact hP a hx

theorem foldlM {k : β → α → Except Fault β} {xs : List α} (step : ∀ b, R b → ∀ a ∈ xs, Yields R Q (k b a)) {b : β}
    (hb : R b) : Yields R Q (xs.foldlM k b) := by
  induction xs generalizing b with
  | nil => exact hb
  | cons x xs ih =>
    rw [List.foldlM_cons]
    exact (step b hb x List.mem_cons_self).bind fun c hc =>
      ih (fun b hb a ha => step b hb a (List.mem_cons_of_mem x ha)) hc

end Yields

end PlotAdvisor
