/-
  Coppice.Lib.Pour

  Serving a queue of needs from its head (`fill`), and the first moment a running
  total is enough (`firstAt`).  Handing out in portions is handing out the sum
  (`fill_fill`); the first moment depends only on the totals up to each label, so
  not on the order of items that share one (`firstAt_perm`).
-/

import Mathlib.Algebra.Order.Ring.Nat
import Mathlib.Algebra.BigOperators.Group.List.Basic
import Mathlib.Data.List.Sort

namespace Coppice.Lib

open List

namespace Pour

/-! ## A queue of needs -/

/-- What each need lacks after `a` units were handed out from the head. -/
def fill : List Nat → Nat → List Nat
  | [], _ => []
  | w :: ws, a => (w - a) :: fill ws (a - w)

@[simp] theorem fill_nil (a : Nat) : fill [] a = [] := rfl

@[simp] theorem fill_cons (w : Nat) (ws : List Nat) (a : Nat) :
    fill (w :: ws) a = (w - a) :: fill ws (a - w) := rfl

@[simp] theorem fill_zero (ws : List Nat) : fill ws 0 = ws := by
  induction ws with
  | nil => rfl
  | cons w ws ih => simp [ih]

theorem sum_fill (ws : List Nat) (a : Nat) : (fill ws a).sum = ws.sum - a := by
  induction ws generalizing a with
  | nil => simp
  | cons w ws ih =>
    simp only [fill_cons, sum_cons, ih]
    omega

/-- Two portions are one. -/
theorem fill_fill (ws : List Nat) (a b : Nat) : fill (fill ws a) b = fill ws (a + b) := by
  induction ws generalizing a b with
  | nil => rfl
  | cons w ws ih =>
    have hhead : w - a - b = w - (a + b) := by omega
    have hrest : a - w + (b - (w - a)) = a + b - w := by omega
    simp [ih, hhead, hrest]

variable {ws : List Nat} {a : Nat}

/-- A queue without needs takes nothing. -/
theorem fill_of_sum_eq_zero (h : ws.sum = 0) (a : Nat) : fill ws a = ws := by
  induction ws generalizing a with
  | nil => rfl
  | cons w ws ih =>
    have hw : w = 0 := by
      rw [sum_cons] at h
      omega
    have hws : ws.sum = 0 := by
      rw [sum_cons] at h
      omega
    simp [hw, ih hws]

/-- Units that the queue has no need for change nothing. -/
theorem fill_idle {c : Nat} (h : c = 0 ∨ ws.sum = 0) (a : Nat) : fill ws (c + a) = fill ws a := by
  rcases h with h | h
  · rw [h, Nat.zero_add]
  · rw [fill_of_sum_eq_zero h, fill_of_sum_eq_zero h]

/-- What was left over of the first portion joins the second. -/
theorem fill_carry (ws : List Nat) (a b : Nat) :
    fill (fill ws a) (a - ws.sum + b) = fill ws (a + b) ∧
      a - ws.sum + b - (fill ws a).sum = a + b - ws.sum := by
  constructor
  · rw [fill_idle, fill_fill]
    rw [sum_fill]
    omega
  · rw [sum_fill]
    omega

/-- A need that is met stays met when more is handed out. -/
theorem fill_mono {b i : Nat} (hab : a ≤ b) (h : (fill ws a)[i]? = some 0) :
    (fill ws b)[i]? = some 0 := by
  induction ws generalizing a b i with
  | nil => simp at h
  | cons w ws ih =>
    cases i with
    | zero =>
      simp only [fill_cons, getElem?_cons_zero, Option.some.injEq] at h ⊢
      omega
    | succ i =>
      exact ih (Nat.sub_le_sub_right hab w) h

/-- Members without a need may leave the queue. -/
theorem fill_filter {α : Type*} {l : List α} {keep : α → Bool} {w w' : α → Nat}
    (hkeep : fill ((l.filter keep).map w) a = (l.filter keep).map w')
    (hrest : ∀ x ∈ l, keep x = false → w x = 0 ∧ w' x = 0) : fill (l.map w) a = l.map w' := by
  induction l generalizing a with
  | nil => rfl
  | cons x l ih =>
    have hl : ∀ y ∈ l, keep y = false → w y = 0 ∧ w' y = 0 :=
      fun y hy => hrest y (mem_cons_of_mem x hy)
    cases hx : keep x with
    | true =>
      rw [filter_cons_of_pos hx] at hkeep
      simp only [map_cons, fill_cons, List.cons.injEq] at hkeep ⊢
      exact ⟨hkeep.1, ih hkeep.2 hl⟩
    | false =>
      rw [filter_cons_of_neg (by simp [hx])] at hkeep
      obtain ⟨hw, hw'⟩ := hrest x (by simp) hx
      simp [hw, hw', ih hkeep hl]

/-- Nobody takes more than there are needs. -/
theorem fill_min (ws : List Nat) (a : Nat) : fill ws (min a ws.sum) = fill ws a := by
  induction ws generalizing a with
  | nil => rfl
  | cons w ws ih =>
    have hhead : w - min a (w + ws.sum) = w - a := by omega
    have hrest : min a (w + ws.sum) - w = min (a - w) ws.sum := by omega
    simp [hhead, hrest, ih]

theorem fill_congr {b : Nat} (h : min a ws.sum = min b ws.sum) : fill ws a = fill ws b := by
  rw [← fill_min ws a, h, fill_min]

/-- Serving never adds to a need. -/
theorem fill_le {α : Type*} {l : List α} {w w' : α → Nat} (h : l.map w' = fill (l.map w) a) :
    ∀ x ∈ l, w' x ≤ w x := by
  induction l generalizing a with
  | nil => simp
  | cons x l ih =>
    simp only [map_cons, fill_cons, List.cons.injEq] at h
    intro y hy
    rcases mem_cons.mp hy with rfl | hy
    · omega
    · exact ih h.2 y hy

/-- What some members of a served queue got is what they would get alone, of a
    smaller amount. -/
theorem fill_restrict {α : Type*} {l : List α} (keep : α → Bool) {w w' : α → Nat}
    (h : l.map w' = fill (l.map w) a) :
    ∃ b, (l.filter keep).map w' = fill ((l.filter keep).map w) b := by
  induction l generalizing a with
  | nil => exact ⟨0, rfl⟩
  | cons x l ih =>
    simp only [map_cons, fill_cons, List.cons.injEq] at h
    obtain ⟨hx, hl⟩ := h
    obtain ⟨b, hb⟩ := ih hl
    cases hkeep : keep x with
    | false =>
      rw [filter_cons_of_neg (by simp [hkeep])]
      exact ⟨b, hb⟩
    | true =>
      rw [filter_cons_of_pos hkeep]
      simp only [map_cons, fill_cons, List.cons.injEq]
      by_cases hmet : w x ≤ a
      · refine ⟨w x + b, by omega, ?_⟩
        rw [Nat.add_sub_cancel_left, hb]
      · -- the head took it all
        have hnone : a - w x = 0 := by omega
        refine ⟨a, hx, ?_⟩
        rw [hnone, fill_zero] at hl ⊢
        refine map_congr_left fun y hy => ?_
        have hall := map_inj_left.mp hl
        exact hall y (mem_of_mem_filter hy)

/-! ## The first moment -/

section FirstAt

variable {T M : Type*} [LinearOrder T] [AddCommMonoid M] {l : List (T × M)} {t : T} {acc : M}

/-- The label at which the running total first satisfies `P`. -/
def firstAt (P : M → Prop) [DecidablePred P] : M → List (T × M) → Option T
  | _, [] => none
  | acc, (t, x) :: rest => if P (acc + x) then some t else firstAt P (acc + x) rest

/-- The total of the items labelled at most `t`. -/
def upTo (t : T) (l : List (T × M)) : M := ((l.filter fun e => e.1 ≤ t).map Prod.snd).sum

theorem upTo_cons (t : T) (e : T × M) (l : List (T × M)) :
    upTo t (e :: l) = (if e.1 ≤ t then e.2 else 0) + upTo t l := by
  unfold upTo
  by_cases h : e.1 ≤ t
  · simp [h]
  · simp [h]

theorem upTo_perm (h : l.Perm l') (t : T) : upTo t l = upTo t l' := ((h.filter _).map _).sum_eq

theorem upTo_eq_zero (h : ∀ e ∈ l, t < e.1) : upTo t l = 0 := by
  have hnil : l.filter (fun e => e.1 ≤ t) = [] := by
    rw [filter_eq_nil_iff]
    intro e he
    simpa using h e he
  simp [upTo, hnil]

variable {P : M → Prop} [DecidablePred P]

omit [LinearOrder T] in
theorem firstAt_mem (h : firstAt P acc l = some t) : ∃ x, (t, x) ∈ l := by
  induction l generalizing acc with
  | nil => cases h
  | cons e l ih =>
    obtain ⟨t0, x⟩ := e
    simp only [firstAt] at h
    split_ifs at h with hP
    · cases h
      exact ⟨x, by simp⟩
    · obtain ⟨y, hy⟩ := ih h
      exact ⟨y, mem_cons_of_mem _ hy⟩

/-- With ascending labels, a total that is enough is reached by its label. -/
theorem firstAt_complete (hl : l.Pairwise fun a b => a.1 ≤ b.1) (hacc : ¬P acc)
    (h : P (acc + upTo t l)) : ∃ t' ≤ t, firstAt P acc l = some t' := by
  induction l generalizing acc with
  | nil => exact absurd (by simpa [upTo] using h) hacc
  | cons e l ih =>
    obtain ⟨t0, x⟩ := e
    obtain ⟨hle, hl'⟩ := pairwise_cons.mp hl
    -- a first item later than `t` would leave the total at `acc`
    have ht0 : t0 ≤ t := by
      by_contra hlt
      have hlt := not_le.mp hlt
      rw [upTo_eq_zero, add_zero] at h
      · exact hacc h
      · intro e he
        rcases mem_cons.mp he with rfl | he
        · exact hlt
        · exact lt_of_lt_of_le hlt (hle e he)
    rw [upTo_cons, if_pos ht0, ← add_assoc] at h
    simp only [firstAt]
    by_cases hP : P (acc + x)
    · exact ⟨t0, ht0, if_pos hP⟩
    · rw [if_neg hP]
      exact ih hl' hP h

variable [PartialOrder M] [CanonicallyOrderedAdd M]

/-- With ascending labels, the total up to the reported label is enough. -/
theorem firstAt_sound (hl : l.Pairwise fun a b => a.1 ≤ b.1) (hmono : ∀ a b, a ≤ b → P a → P b)
    (h : firstAt P acc l = some t) : P (acc + upTo t l) := by
  induction l generalizing acc with
  | nil => cases h
  | cons e l ih =>
    obtain ⟨t0, x⟩ := e
    obtain ⟨hle, hl'⟩ := pairwise_cons.mp hl
    simp only [firstAt] at h
    split_ifs at h with hP
    · cases h
      rw [upTo_cons, if_pos le_rfl, ← add_assoc]
      exact hmono _ _ (le_self_add) hP
    · obtain ⟨y, hy⟩ := firstAt_mem h
      rw [upTo_cons, if_pos (hle _ hy), ← add_assoc]
      exact ih hl' h

/-- Items that share a label may come in any order. -/
theorem firstAt_perm (hp : l.Perm l') (hl : l.Pairwise fun a b => a.1 ≤ b.1)
    (hl' : l'.Pairwise fun a b => a.1 ≤ b.1) (hmono : ∀ a b, a ≤ b → P a → P b) (hacc : ¬P acc) :
    firstAt P acc l = firstAt P acc l' := by
  -- what one order reaches, the other reaches no later
  have key {m m' : List (T × M)} {t : T} (hm : m.Perm m') (hs : m.Pairwise (fun a b => a.1 ≤ b.1))
      (hs' : m'.Pairwise (fun a b => a.1 ≤ b.1)) (h : firstAt P acc m = some t) : ∃ t' ≤ t, firstAt
      P acc m' = some t' := by
    have henough := firstAt_sound hs hmono h
    rw [upTo_perm hm] at henough
    exact firstAt_complete hs' hacc henough
  cases h : firstAt P acc l with
  | none =>
    cases h' : firstAt P acc l' with
    | none => rfl
    | some t' =>
      obtain ⟨t, -, ht⟩ := key hp.symm hl' hl h'
      rw [h] at ht
      cases ht
  | some t =>
    obtain ⟨t', hle, ht'⟩ := key hp hl hl' h
    obtain ⟨t'', hle', ht''⟩ := key hp.symm hl' hl ht'
    rw [h] at ht''
    cases ht''
    rw [ht', le_antisymm hle hle']

end FirstAt

end Pour

end Coppice.Lib
