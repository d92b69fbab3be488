/-
  Coppice.Lib.Trail

  Trails through a graph, written as the list of steps taken: every step
  starts where the one before it ended and is an edge.  A rising trail of
  numbers passes every number between its ends once.
-/

import Mathlib.Algebra.Order.Ring.Nat

namespace Coppice.Lib

open List

variable {α : Type*} {R : α → α → Prop}

/-- The steps lead from the first state to the last, each along an edge of `R`. -/
inductive Trail (R : α → α → Prop) : α → List (α × α) → α → Prop where
  | nil (x : α) : Trail R x [] x
  | cons {x y z : α} {steps : List (α × α)} : R x y → Trail R y steps z →
      Trail R x ((x, y) :: steps) z

namespace Trail

variable {x y z : α} {steps steps' : List (α × α)}

theorem single (h : R x y) : Trail R x [(x, y)] y := .cons h (.nil y)

section

variable (h : Trail R x steps y)

include h

theorem append (h' : Trail R y steps' z) : Trail R x (steps ++ steps') z := by
  induction h with
  | nil _ => exact h'
  | cons hr _ ih => exact .cons hr (ih h')

/-- Where a trail ends can be read off its last step. -/
theorem getLast?_or : (steps.map Prod.snd).getLast?.or (some x) = some y := by
  induction h with
  | nil _ => rfl
  | cons _ _ ih => simpa [getLast?_cons, Option.or_some] using ih

/-- A trail that ends elsewhere has a step. -/
theorem ne_nil (hne : x ≠ y) : steps ≠ [] := by
  rintro rfl
  cases h
  exact hne rfl

/-- A trail from a state without edges stays there. -/
theorem stuck (hx : ∀ z, ¬R x z) : steps = [] ∧ y = x := by
  cases h with
  | nil _ => exact ⟨rfl, rfl⟩
  | cons hr _ => exact absurd hr (hx _)

/-- A trail to a state without edges into it never left it. -/
theorem unentered (hy : ∀ v, ¬R v y) : steps = [] ∧ x = y := by
  induction h with
  | nil _ => exact ⟨rfl, rfl⟩
  | cons hr _ ih =>
    obtain ⟨-, rfl⟩ := ih hy
    exact absurd hr (hy _)

/-- A trail to another state `y`, entered only from `w`, starts in `w` or enters it. -/
theorem through {w : α} (hy : ∀ v, R v y → v = w) (hne : x ≠ y) : x = w ∨ ∃ v, (v, w) ∈ steps := by
  induction h with
  | nil _ => exact absurd rfl hne
  | @cons a b c rest hr _ ih =>
    by_cases hb : b = c
    · exact .inl (hy a (hb ▸ hr))
    · rcases ih hy hb with rfl | ⟨v, hv⟩
      · exact .inr ⟨a, mem_cons_self⟩
      · exact .inr ⟨v, mem_cons_of_mem _ hv⟩

/-- Where a trail starts that enters `z`, a state entered only from `w`, while
    `w` is entered from nowhere. -/
theorem start_of_mem {w : α} (hz : ∀ v, R v z → v = w) (hw : ∀ v, ¬R v w)
    (hmem : z ∈ steps.map Prod.snd) : x = w := by
  induction h with
  | nil _ => simp at hmem
  | cons hr _ ih =>
    rcases mem_cons.mp hmem with e | hmem
    · exact hz _ (e ▸ hr)
    · exact absurd (ih hmem ▸ hr) (hw _)

/-- Such a state is entered at most once. -/
theorem count_le_one [DecidableEq α] {w : α} (hz : ∀ v, R v z → v = w) (hw : ∀ v, ¬R v w) :
    (steps.map Prod.snd).count z ≤ 1 := by
  cases h with
  | nil _ => simp
  | @cons _ m _ rest hr hrest =>
    -- a later entry would start at `w`, which is never entered
    have hnot : z ∉ rest.map Prod.snd := fun hmem => hw _ (hrest.start_of_mem hz hw hmem ▸ hr)
    rw [map_cons, count_cons, count_eq_zero_of_not_mem hnot]
    split_ifs <;> omega

end

/-! ## Rising trails -/

/-- The steps of a rising trail add up to its height. -/
theorem sum_rises {x y : Nat} {steps : List (Nat × Nat)} (h : Trail (· < ·) x steps y) :
    x + (steps.map fun st => st.2 - st.1).sum = y := by
  induction h with
  | nil x => rfl
  | cons hxy _ ih =>
    rw [map_cons, sum_cons, ← ih]
    omega

/-- Each point between the ends of a rising trail is passed in exactly one step. -/
theorem countP_passing {x y : Nat} {steps : List (Nat × Nat)} (h : Trail (· < ·) x steps y)
    (k : Nat) : steps.countP (fun st => st.1 < k && k ≤ st.2) = if x < k ∧ k ≤ y then 1 else 0 := by
  induction h with
  | nil x =>
    rw [if_neg (by omega)]
    rfl
  | cons hxy hrest ih =>
    have hrise := hrest.sum_rises
    rw [countP_cons, ih]
    simp only [Bool.and_eq_true, decide_eq_true_eq]
    split_ifs <;> omega

end Trail

end Coppice.Lib
