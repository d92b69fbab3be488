/-
  Coppice.Lib.Saturating

  Saturating arithmetic on fixed-width integers.  Every operation has one lemma
  giving its exact integer value, so that proofs continue in linear arithmetic.
-/

import Mathlib.Algebra.Order.Ring.Nat

/-- The largest unsigned 64-bit value. -/
def u64Max : Nat := 18446744073709551615

namespace UInt64

theorem toNat_le_u64Max (a : UInt64) : a.toNat ≤ u64Max := by
  have := a.toNat_lt
  simp only [u64Max]
  omega

/-- The word nearest to `n`. -/
def saturatingOfNat (n : Nat) : UInt64 := UInt64.ofNat (min n u64Max)

@[simp] theorem toNat_saturatingOfNat (n : Nat) : (saturatingOfNat n).toNat = min n u64Max := by
  have h : min n u64Max < 2 ^ 64 := by
    have : min n u64Max ≤ u64Max := Nat.min_le_right _ _
    simp only [u64Max] at this ⊢
    omega
  exact Nat.mod_eq_of_lt h

section

variable (a b : UInt64)

def saturatingAdd : UInt64 := saturatingOfNat (a.toNat + b.toNat)

def saturatingSub : UInt64 := saturatingOfNat (a.toNat - b.toNat)

def saturatingMul : UInt64 := saturatingOfNat (a.toNat * b.toNat)

@[simp] theorem toNat_saturatingAdd : (a.saturatingAdd b).toNat = min (a.toNat + b.toNat) u64Max :=
  toNat_saturatingOfNat _

@[simp] theorem toNat_saturatingSub : (a.saturatingSub b).toNat = a.toNat - b.toNat := by
  rw [saturatingSub, toNat_saturatingOfNat]
  have := a.toNat_le_u64Max
  omega

@[simp] theorem toNat_saturatingMul : (a.saturatingMul b).toNat = min (a.toNat * b.toNat) u64Max :=
  toNat_saturatingOfNat _

end

@[simp] theorem one_saturatingMul (n : UInt64) : (1 : UInt64).saturatingMul n = n := by
  apply UInt64.toNat_inj.mp
  have hn := n.toNat_le_u64Max
  rw [toNat_saturatingMul]
  show min (1 * n.toNat) u64Max = n.toNat
  omega

end UInt64

namespace Coppice.Lib

/-- Rounding part by part, each part and the total capped at `m`, gives at most what
    rounding the whole gives, and loses less than one for each part. -/
theorem sum_div_capped (l : List Nat) {d m : Nat} (hd : 0 < d) (hl : l ≠ []) :
    min (l.map fun v => min (v / d) m).sum m ≤ min (l.sum / d) m ∧
      min (l.sum / d) m < min (l.map fun v => min (v / d) m).sum m + l.length := by
  -- both sides of the estimate, before the caps
  have hboth : (l.map fun v => min (v / d) m).sum * d ≤ l.sum ∧
      (m ≤ (l.map fun v => min (v / d) m).sum ∨
        l.sum + l.length ≤ ((l.map fun v => min (v / d) m).sum + l.length) * d) := by
    clear hl
    induction l with
    | nil => simp
    | cons v rest ih =>
      obtain ⟨hle, hlt⟩ := ih
      have hfloor := Nat.div_mul_le_self v d
      have hceil : v + 1 ≤ (v / d + 1) * d := Nat.lt_mul_of_div_lt (Nat.lt_succ_self _) hd
      have hcap : min (v / d) m * d ≤ v :=
        Nat.le_trans (Nat.mul_le_mul_right d (Nat.min_le_left _ _)) hfloor
      simp only [List.map_cons, List.sum_cons, List.length_cons]
      refine ⟨by rw [Nat.add_mul]; omega, ?_⟩
      rcases hlt with hm | hlt
      · exact .inl (Nat.le_trans hm (Nat.le_add_left _ _))
      · by_cases hv : v / d ≤ m
        · refine .inr ?_
          calc v + rest.sum + (rest.length + 1)
              = (v + 1) + (rest.sum + rest.length) := by omega
            _ ≤ (v / d + 1) * d + ((rest.map fun v => min (v / d) m).sum + rest.length) * d :=
                Nat.add_le_add hceil hlt
            _ = _ := by rw [← Nat.add_mul]; congr 1; omega
        · exact .inl (by omega)
  obtain ⟨hle, hlt⟩ := hboth
  have hlen := List.length_pos_iff.mpr hl
  have hdiv : (l.map fun v => min (v / d) m).sum ≤ l.sum / d := (Nat.le_div_iff_mul_le hd).mpr hle
  refine ⟨by omega, ?_⟩
  rcases hlt with hm | hlt
  · omega
  · have hwhole : l.sum / d < (l.map fun v => min (v / d) m).sum + l.length :=
      Nat.div_lt_of_lt_mul (by rw [Nat.mul_comm]; omega)
    omega

/-- Integers between two bounds. -/
structure Bounded (lo hi : Int) where
  val : Int
  property : lo ≤ val ∧ val ≤ hi
  deriving DecidableEq

namespace Bounded

variable {lo hi : Int}

@[ext] theorem ext {a b : Bounded lo hi} (h : a.val = b.val) : a = b := by
  cases a
  cases b
  cases h
  rfl

instance : LinearOrder (Bounded lo hi) where
  le a b := a.val ≤ b.val
  le_refl a := Int.le_refl a.val
  le_trans _ _ _ h h' := Int.le_trans h h'
  le_antisymm _ _ h h' := ext (Int.le_antisymm h h')
  le_total a b := Int.le_total a.val b.val
  toDecidableLE a b := inferInstanceAs (Decidable (a.val ≤ b.val))

/-- The value between the bounds nearest to `x`. -/
def clamp (h : lo ≤ hi) (x : Int) : Bounded lo hi where
  val := max lo (min hi x)
  property := by omega

end Bounded

/-- The range of a signed 64-bit word. -/
def i64Min : Int := -9223372036854775808

def i64Max : Int := 9223372036854775807

theorem i64Min_le_i64Max : i64Min ≤ i64Max := by decide

/-- Signed 64-bit values. -/
abbrev I64 : Type := Bounded i64Min i64Max

namespace I64

/-- The word nearest to `x`. -/
def clamp (x : Int) : I64 := Bounded.clamp i64Min_le_i64Max x

theorem val_clamp (x : Int) : (clamp x).val = max i64Min (min i64Max x) := rfl

def saturatingAdd (a b : I64) : I64 := clamp (a.val + b.val)

def saturatingSub (a b : I64) : I64 := clamp (a.val - b.val)

end I64

end Coppice.Lib
