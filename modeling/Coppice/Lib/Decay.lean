/-
  Coppice.Lib.Decay

  Amounts that shrink tick by tick, and books of them.  When shrinking is
  superadditive, an account that was charged every open posting of a book never
  holds less than the postings leave together.
-/

import Coppice.Lib.OrdMap

namespace Coppice.Lib

/-! ## Superadditive functions -/

/-- The parts never come to more than the whole. -/
def Superadditive (f : Nat → Nat) : Prop := ∀ a b, f a + f b ≤ f (a + b)

namespace Superadditive

variable {f : Nat → Nat}

section

variable (h : Superadditive f)

include h

theorem mono {a b : Nat} (hab : a ≤ b) : f a ≤ f b := by
  obtain ⟨c, rfl⟩ := Nat.exists_eq_add_of_le hab
  have := h a c
  omega

theorem map_zero : f 0 = 0 := by
  have h0 := h 0 0
  simp only [Nat.add_zero] at h0
  omega

theorem iterate (n : Nat) : Superadditive f^[n] := by
  induction n with
  | zero => exact fun a b => Nat.le_refl _
  | succ n ih =>
    intro a b
    calc f^[n] (f a) + f^[n] (f b) ≤ f^[n] (f a + f b) := ih _ _
      _ ≤ f^[n] (f (a + b)) := ih.mono (h a b)

theorem sum_le (l : List Nat) : (l.map f).sum ≤ f l.sum := by
  induction l with
  | nil => simp
  | cons a rest ih =>
    simp only [List.map_cons, List.sum_cons]
    have := h a rest.sum
    omega

end

/-- Scaling by a fraction and rounding down. -/
theorem mul_div (num den : Nat) : Superadditive fun u => u * num / den := by
  intro a b
  simp only [Nat.add_mul]
  exact Nat.div_add_div_le_add_div

end Superadditive

/-! ## Shrinking to nothing -/

section

variable {f : Nat → Nat} {a b : Nat} (hf : ∀ u, f u * b ≤ u * a)

include hf

/-- What shrinks by a ratio shrinks by its power. -/
theorem iterate_mul_pow_le (n u : Nat) : f^[n] u * b ^ n ≤ u * a ^ n := by
  induction n generalizing u with
  | zero => simp
  | succ n ih =>
    rw [Function.iterate_succ_apply, Nat.pow_succ, Nat.pow_succ, ← Nat.mul_assoc]
    calc f^[n] (f u) * b ^ n * b ≤ f u * a ^ n * b := Nat.mul_le_mul_right b (ih _)
      _ = f u * b * a ^ n := Nat.mul_right_comm _ _ _
      _ ≤ u * a * a ^ n := Nat.mul_le_mul_right _ (hf u)
      _ = u * (a ^ n * a) := by rw [Nat.mul_assoc, Nat.mul_comm a]

/-- Below `b` the ratio alone says nothing; there the rounding takes one off each time. -/
theorem iterate_le_sub (hab : a < b) (n u : Nat) : f^[n] u ≤ u - n := by
  induction n with
  | zero => simp
  | succ n ih =>
    rw [Function.iterate_succ_apply']
    have hstep := hf (f^[n] u)
    rcases Nat.eq_zero_or_pos (f^[n] u) with hzero | hpos
    · rw [hzero, Nat.zero_mul] at hstep
      have : f (f^[n] u) = 0 := by
        rw [hzero]
        exact (Nat.mul_eq_zero.1 (Nat.le_zero.1 hstep)).resolve_right (by omega)
      omega
    · have hlt : f (f^[n] u) < f^[n] u :=
        Nat.lt_of_mul_lt_mul_right (hstep.trans_lt (Nat.mul_lt_mul_of_pos_left hab hpos))
      omega

/-- `k` halvings of `n` steps each bring the amount below `b`, and `b` steps finish it. -/
theorem iterate_eq_zero (hab : a < b) {n k u : Nat} (hhalf : 2 * a ^ n ≤ b ^ n)
    (hu : u < b * 2 ^ k) : f^[b + n * k] u = 0 := by
  have hhalves (v : Nat) : f^[n] v * 2 ≤ v * 1 := by
    refine Nat.le_of_mul_le_mul_right ?_ (Nat.pow_pos (Nat.zero_lt_of_lt hab) (n := n))
    calc f^[n] v * 2 * b ^ n = 2 * (f^[n] v * b ^ n) := by rw [Nat.mul_right_comm, Nat.mul_comm]
      _ ≤ 2 * (v * a ^ n) := Nat.mul_le_mul_left 2 (iterate_mul_pow_le hf n v)
      _ = v * (2 * a ^ n) := Nat.mul_left_comm _ _ _
      _ ≤ v * 1 * b ^ n := by rw [Nat.mul_one]; exact Nat.mul_le_mul_left v hhalf
  have hsmall := iterate_mul_pow_le hhalves k u
  rw [Nat.one_pow, Nat.mul_one, ← Function.iterate_mul] at hsmall
  have hlt : f^[n * k] u < b := Nat.lt_of_mul_lt_mul_right (hsmall.trans_lt hu)
  have hlast := iterate_le_sub hf hab b (f^[n * k] u)
  rw [Function.iterate_add_apply]
  omega

end

/-! ## Postings -/

/-- An amount booked at a tick. -/
structure Posting where
  amount : Nat
  tick : Int

namespace Posting

/-- What is left of the amount at tick `now`; nothing shrinks before its tick. -/
def left (f : Nat → Nat) (p : Posting) (now : Int) : Nat := f^[(now - p.tick).toNat] p.amount

variable {f : Nat → Nat}

theorem left_of_le (p : Posting) {now : Int} (h : now ≤ p.tick) : p.left f now = p.amount := by
  have hnone : (now - p.tick).toNat = 0 := by omega
  rw [left, hnone, Function.iterate_zero_apply]

/-- What is left at `now` goes on shrinking. -/
theorem left_later (p : Posting) {now later : Int} (h : p.tick ≤ now) (h' : now ≤ later) :
    p.left f later = f^[(later - now).toNat] (p.left f now) := by
  have hsum : (later - p.tick).toNat = (later - now).toNat + (now - p.tick).toNat := by omega
  unfold left
  rw [hsum, Function.iterate_add_apply]

theorem left_zero (hf : Superadditive f) (tick now : Int) : (⟨0, tick⟩ : Posting).left f now = 0 :=
  (hf.iterate _).map_zero

theorem left_mono (hf : Superadditive f) {a b : Nat} (hab : a ≤ b) (tick now : Int) :
    (⟨a, tick⟩ : Posting).left f now ≤ (⟨b, tick⟩ : Posting).left f now :=
  (hf.iterate _).mono hab

end Posting

/-! ## Books -/

variable {K V : Type*} [LinearOrder K]

/-- What the postings of a book leave together. -/
def owed (f : Nat → Nat) (book : OrdMap K V) (post : V → Posting) (now : Int) : Nat :=
  book.sumBy fun _ v => (post v).left f now

section Owed

variable {f : Nat → Nat} {book : OrdMap K V} {post : V → Posting} {now later : Int} {k : K} {v : V}

theorem owed_insert (h : book.get? k = none) :
    owed f (book.insert k v) post now = (post v).left f now + owed f book post now :=
  OrdMap.sumBy_insert_of_none v (fun _ v => (post v).left f now) h

theorem owed_erase (h : book.get? k = some v) :
    (post v).left f now + owed f (book.erase k) post now = owed f book post now :=
  OrdMap.sumBy_erase_of_some (fun _ v => (post v).left f now) h

section

variable (hf : Superadditive f) (hpast : ∀ k v, book.get? k = some v → (post v).tick ≤ now)

include hf hpast

/-- The parts of a book shrink at least as fast as its total. -/
theorem owed_later (hle : now ≤ later) :
    owed f book post later ≤ f^[(later - now).toNat] (owed f book post now) := by
  have hpart : owed f book post later =
      book.sumBy fun _ v => f^[(later - now).toNat] ((post v).left f now) :=
    OrdMap.sumBy_congr fun k v hv => (post v).left_later (hpast k v hv) hle
  rw [hpart]
  refine Nat.le_trans (Nat.le_of_eq ?_) ((hf.iterate _).sum_le _)
  rw [List.map_map]
  rfl

/-- An account that covers the book once covers it from then on. -/
theorem covers_later {account : Posting} (haccount : account.tick ≤ now) (hle : now ≤ later)
    (h : owed f book post now ≤ account.left f now) :
    owed f book post later ≤ account.left f later := by
  rw [account.left_later haccount hle]
  exact Nat.le_trans (owed_later hf hpast hle) ((hf.iterate _).mono h)

end

end Owed

end Coppice.Lib
