/-
  Coppice.Lib.Run

  Runs of a deterministic machine under a condition on its steps, and the
  invariant rule: what holds at the start and is kept by every permitted step
  holds in every state a run reaches.
-/

import Mathlib.Algebra.Order.Ring.Nat

namespace Coppice.Lib

/-- The states reached from `init` by steps that satisfy `ok`. -/
inductive Reach {σ α : Type*} (init : σ) (step : σ → α → σ) (ok : σ → α → Prop) : σ → Prop where
  | init : Reach init step ok init
  | step {s : σ} {a : α} : Reach init step ok s → ok s a → Reach init step ok (step s a)

namespace Reach

variable {σ α : Type*} {init : σ} {step : σ → α → σ} {ok : σ → α → Prop}

theorem invariant (Inv : σ → Prop) (hinit : Inv init)
    (hstep : ∀ s a, Inv s → ok s a → Inv (step s a)) {s : σ} (h : Reach init step ok s) :
    Inv s := by
  induction h with
  | init => exact hinit
  | step _ hok ih => exact hstep _ _ ih hok

/-- The state after a list of permitted steps. -/
theorem foldl (l : List α) (s : σ) (h : Reach init step ok s) (hok : ∀ s a, a ∈ l → ok s a) :
    Reach init step ok (l.foldl step s) := by
  induction l generalizing s with
  | nil => exact h
  | cons a rest ih =>
    exact ih (step s a) (.step h (hok s a (by simp)))
      fun s b hb => hok s b (List.mem_cons_of_mem _ hb)

end Reach

section

variable {σ α β : Type*} {f : σ → α → σ}

/-- What no step changes. -/
theorem foldl_keeps {p : σ → β} (hf : ∀ s x, p (f s x) = p s) (l : List α) (s : σ) :
    p (l.foldl f s) = p s := by
  induction l generalizing s with
  | nil => rfl
  | cons x rest ih => exact (ih _).trans (hf s x)

/-- What relates the states around every step. -/
theorem foldl_trans {R : σ → σ → Prop} (hrefl : ∀ s, R s s)
    (htrans : ∀ {s t u}, R s t → R t u → R s u) (hf : ∀ s x, R s (f s x)) (l : List α) (s : σ) :
    R s (l.foldl f s) := by
  induction l generalizing s with
  | nil => exact hrefl s
  | cons x rest ih => exact htrans (hf s x) (ih _)

/-- What each step adds a part to. -/
theorem foldl_iff {P : σ → Prop} {Q : α → Prop} (hf : ∀ s x, P (f s x) ↔ P s ∨ Q x) (l : List α)
    (s : σ) : P (l.foldl f s) ↔ P s ∨ ∃ x ∈ l, Q x := by
  induction l generalizing s with
  | nil => simp
  | cons x rest ih => simp [ih, hf, or_assoc]

end

/-- Every step of the run from `s` is permitted where it is taken. -/
def Along {σ α : Type*} (step : σ → α → σ) (ok : σ → α → Prop) : σ → List α → Prop
  | _, [] => True
  | s, a :: rest => ok s a ∧ Along step ok (step s a) rest

instance instDecidableAlong {σ α : Type*} {step : σ → α → σ} {ok : σ → α → Prop}
    [∀ s a, Decidable (ok s a)] :
    ∀ s l, Decidable (Along step ok s l)
  | _, [] => .isTrue trivial
  | s, a :: rest =>
    have : Decidable (Along step ok (step s a) rest) := instDecidableAlong _ _
    inferInstanceAs (Decidable (ok s a ∧ Along step ok (step s a) rest))

theorem Along.reach {σ α : Type*} {init : σ} {step : σ → α → σ} {ok : σ → α → Prop} {s : σ}
    (h : Reach init step ok s) : ∀ {l : List α}, Along step ok s l →
      Reach init step ok (l.foldl step s)
  | [], _ => h
  | _ :: _, hl => Along.reach (.step h hl.1) hl.2

end Coppice.Lib
