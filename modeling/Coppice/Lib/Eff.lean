/-
  Coppice.Lib.Eff

  Stateful computations that can be cut short.  An `Eff σ ε α` may stop with an
  error and records the states at which a crash can strike or an effect can fail;
  `Eff.wp` is its weakest precondition, under a condition on these states and one on
  errors.
-/

import Mathlib.Algebra.Order.Ring.Nat

namespace Coppice.Lib

/-- What a run leaves: the states at which it could have been cut short, its
    last state, and its result. -/
structure Outcome (σ ε α : Type) where
  trace : List σ
  state : σ
  result : Except ε α

/-- A computation over states of `σ` that records where its effects can be cut short. -/
def Eff (σ ε α : Type) : Type := σ → Outcome σ ε α

namespace Eff

variable {σ τ ε α β : Type}

/-- A value, without any effect. -/
protected def pure (a : α) : Eff σ ε α := fun s => ⟨[], s, .ok a⟩

/-- Run `x`, then what follows from its value; an error ends the run where it stands. -/
protected def bind (x : Eff σ ε α) (f : α → Eff σ ε β) : Eff σ ε β := fun s =>
  match (x s).result with
  | .error e => ⟨(x s).trace, (x s).state, .error e⟩
  | .ok a =>
    let r := f a (x s).state
    ⟨(x s).trace ++ r.trace, r.state, r.result⟩

instance : Monad (Eff σ ε) where
  pure := Eff.pure
  bind := Eff.bind

/-- The current state. -/
def get : Eff σ ε σ := fun s => ⟨[], s, .ok s⟩

/-- A change of state that is not an effect: no crash point of its own. -/
def modify (f : σ → σ) : Eff σ ε Unit := fun s => ⟨[], f s, .ok ()⟩

/-- A pure computation that may fail. -/
def ofExcept (r : Except ε α) : Eff σ ε α := fun s => ⟨[], s, r⟩

/-- One effect: a crash point, then the change of state (none if it fails). -/
def act (f : σ → Except ε (α × σ)) : Eff σ ε α := fun s =>
  match f s with
  | .ok (a, s') => ⟨[s], s', .ok a⟩
  | .error e => ⟨[s], s, .error e⟩

/-- One effect that goes through the states of `through`, each a crash point. -/
def gradual (through : σ → List σ) (f : σ → σ) : Eff σ ε Unit := fun s =>
  ⟨through s, f s, .ok ()⟩

/-- Run a computation over one component of a larger state. -/
def within (proj : σ → τ) (put : σ → τ → σ) (x : Eff τ ε α) : Eff σ ε α := fun s =>
  let r := x (proj s)
  ⟨r.trace.map (put s), put s r.state, r.result⟩

/-! ## Weakest preconditions with a crash condition -/

/-- From `s`, every crash point of `x` satisfies `C`, an error and the last state
    satisfy `E`, and otherwise the value and the last state satisfy `Q`.  Under
    `quiet` this is asked only of a run without effects. -/
def wp (quiet : Bool) (E : ε → σ → Prop) (C : σ → Prop) (x : Eff σ ε α) (Q : α → σ → Prop) (s : σ) :
    Prop :=
  (quiet = true → (x s).trace = []) → (∀ t ∈ (x s).trace, C t) ∧ match (x s).result with
    | .ok a => Q a (x s).state
    | .error e => E e (x s).state

variable {quiet : Bool} {E : ε → σ → Prop} {C : σ → Prop} {x : Eff σ ε α} {Q : α → σ → Prop} {s : σ}

@[simp] theorem wp_pure {a : α} : wp quiet E C (Pure.pure a : Eff σ ε α) Q s ↔ Q a s := by
  simp [wp, Pure.pure, Eff.pure]

@[simp] theorem wp_bind {x : Eff σ ε β} {f : β → Eff σ ε α} :
    wp quiet E C (x >>= f) Q s ↔ wp quiet E C x (fun b t => wp quiet E C (f b) Q t) s := by
  simp only [wp, Bind.bind, Eff.bind]
  cases (x s).result with
  | error e => simp
  | ok b =>
    cases quiet with
    | false => simp [or_imp, forall_and, and_assoc]
    | true =>
      -- a run is without effects when both of its parts are
      simp only [forall_const, List.append_eq_nil_iff]
      constructor
      · exact fun h hx => ⟨by simp [hx], fun hf => ⟨by simp [hf], (h ⟨hx, hf⟩).2⟩⟩
      · exact fun h hxf => ⟨by simp [hxf.1, hxf.2], ((h hxf.1).2 hxf.2).2⟩

@[simp] theorem wp_get {Q : σ → σ → Prop} : wp quiet E C (get : Eff σ ε σ) Q s ↔ Q s s := by
  simp [wp, get]

@[simp] theorem wp_modify {f : σ → σ} {Q : Unit → σ → Prop} :
    wp quiet E C (modify f : Eff σ ε Unit) Q s ↔ Q () (f s) := by
  simp [wp, modify]

theorem wp_ofExcept_ok {r : Except ε α} {a : α} (h : r = .ok a) :
    wp quiet E C (ofExcept r : Eff σ ε α) Q s ↔ Q a s := by
  simp [wp, ofExcept, h]

theorem wp_ofExcept_error {r : Except ε α} {e : ε} (h : r = .error e) :
    wp quiet E C (ofExcept r : Eff σ ε α) Q s ↔ E e s := by
  simp [wp, ofExcept, h]

theorem wp_act_ok {f : σ → Except ε (α × σ)} {a : α} {s' : σ} (h : f s = .ok (a, s')) :
    wp false E C (act f) Q s ↔ C s ∧ Q a s' := by
  simp [wp, act, h]

theorem wp_gradual {through : σ → List σ} {f : σ → σ} {Q : Unit → σ → Prop} :
    wp false E C (gradual through f) Q s ↔ (∀ t ∈ through s, C t) ∧ Q () (f s) := by
  simp [wp, gradual]

theorem wp.mono {E' : ε → σ → Prop} {C' : σ → Prop} {Q' : α → σ → Prop} (h : wp quiet E C x Q s)
    (hE : ∀ e t, E e t → E' e t) (hC : ∀ t, C t → C' t) (hQ : ∀ a t, Q a t → Q' a t) :
    wp quiet E' C' x Q' s := by
  intro hq
  obtain ⟨htrace, hres⟩ := h hq
  refine ⟨fun t ht => hC t (htrace t ht), ?_⟩
  cases hr : (x s).result with
  | ok a =>
    rw [hr] at hres
    exact hQ a _ hres
  | error e =>
    rw [hr] at hres
    exact hE e _ hres

/-- Weaken the postcondition only. -/
theorem wp.imp {Q' : α → σ → Prop} (h : wp quiet E C x Q s) (hQ : ∀ a t, Q a t → Q' a t) :
    wp quiet E C x Q' s :=
  h.mono (fun _ _ he => he) (fun _ hc => hc) hQ

/-- A computation over a component: the rest of the state is unchanged at every point. -/
theorem wp_within {proj : σ → τ} {put : σ → τ → σ} {x : Eff τ ε α} :
    wp quiet E C (within proj put x) Q s ↔
      wp quiet (fun e t => E e (put s t)) (fun t => C (put s t)) x (fun a t => Q a (put s t))
        (proj s) := by
  simp [wp, within]

/-- The loop rule: an invariant over what is left of the list. -/
theorem wp_forM {f : β → Eff σ ε PUnit} (I : List β → σ → Prop)
    (hstep : ∀ b rest t, I (b :: rest) t → wp quiet E C (f b) (fun _ t' => I rest t') t)
    (h : I l s) : wp quiet E C (forM l f) (fun _ t => I [] t) s := by
  induction l generalizing s with
  | nil => simpa using h
  | cons b rest ih =>
    rw [List.forM_cons, wp_bind]
    exact (hstep b rest s h).imp fun _ t ht => ih ht

/-! ## Reading a weakest precondition back -/

/-- A run that is without effects where it has to be is like any other. -/
theorem wp.loud (h : wp quiet E C x Q s) (hq : quiet = true → (x s).trace = []) :
    wp false E C x Q s := fun _ => h hq

theorem wp.crash (h : wp false E C x Q s) {t : σ} (ht : t ∈ (x s).trace) : C t :=
  (h (by simp)).1 t ht

theorem wp.ok (h : wp false E C x Q s) {a : α} (ha : (x s).result = .ok a) : Q a (x s).state := by
  have hres := (h (by simp)).2
  rwa [ha] at hres

theorem wp.total (h : wp false (fun _ _ => False) C x Q s) :
    ∃ a, (x s).result = .ok a ∧ Q a (x s).state := by
  cases hr : (x s).result with
  | ok a => exact ⟨a, rfl, h.ok hr⟩
  | error e =>
    have hres := (h (by simp)).2
    rw [hr] at hres
    exact hres.elim

/-- Every state the run passes through, the last one included. -/
def points (x : Eff σ ε α) (s : σ) : List σ := (x s).trace ++ [(x s).state]

theorem wp.point (h : wp false E C x Q s) (hE : ∀ e t, E e t → C t) (hQ : ∀ a t, Q a t → C t)
    {t : σ} (ht : t ∈ x.points s) : C t := by
  rcases List.mem_append.mp ht with ht | ht
  · exact h.crash ht
  · have hres := (h (by simp)).2
    rw [List.mem_singleton.mp ht]
    cases hr : (x s).result with
    | ok a =>
      rw [hr] at hres
      exact hQ a _ hres
    | error e =>
      rw [hr] at hres
      exact hE e _ hres

end Eff

end Coppice.Lib
