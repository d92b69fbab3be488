/-
  Coppice.Core.Resource

  The multi-dimensional resource vector (`coppice-core/src/resource.rs`).  All
  bookkeeping saturates; each operation has one lemma saying what it does to every
  dimension.
-/

import Coppice.Lib.Saturating
import Mathlib.Data.Fintype.Basic

namespace Coppice.Core

/-- A vector of resource quantities requested by a job or offered by a node. -/
structure Resources where
  /-- Milli-CPU units (1000 = one core). -/
  cpuMillis : UInt64
  /-- Working memory, in bytes. -/
  memory : UInt64
  /-- Scratch disk, in bytes. -/
  disk : UInt64
  deriving DecidableEq, Repr, Inhabited

/-- The resource dimensions. -/
inductive Dim where
  | cpuMillis | memory | disk
  deriving DecidableEq, Repr

instance : Fintype Dim where
  elems := {.cpuMillis, .memory, .disk}
  complete d := by cases d <;> decide

namespace Resources

def zero : Resources := ⟨0, 0, 0⟩

def fitsWithin (r capacity : Resources) : Bool :=
  r.cpuMillis ≤ capacity.cpuMillis && r.memory ≤ capacity.memory && r.disk ≤ capacity.disk

def isZero (r : Resources) : Bool := r = zero

def saturatingAdd (a b : Resources) : Resources where
  cpuMillis := a.cpuMillis.saturatingAdd b.cpuMillis
  memory := a.memory.saturatingAdd b.memory
  disk := a.disk.saturatingAdd b.disk

/-- Component-wise difference, clamped at zero. -/
def saturatingSub (a b : Resources) : Resources where
  cpuMillis := a.cpuMillis.saturatingSub b.cpuMillis
  memory := a.memory.saturatingSub b.memory
  disk := a.disk.saturatingSub b.disk

/-- Component-wise minimum: the per-dimension pledge of the funding algorithm. -/
def componentMin (a b : Resources) : Resources where
  cpuMillis := if a.cpuMillis ≤ b.cpuMillis then a.cpuMillis else b.cpuMillis
  memory := if a.memory ≤ b.memory then a.memory else b.memory
  disk := if a.disk ≤ b.disk then a.disk else b.disk

/-- One dimension of the vector. -/
def get (r : Resources) : Dim → Nat
  | .cpuMillis => r.cpuMillis.toNat
  | .memory => r.memory.toNat
  | .disk => r.disk.toNat

theorem ext_get {a b : Resources} (h : ∀ d, a.get d = b.get d) : a = b := by
  obtain ⟨c1, m1, k1⟩ := a
  obtain ⟨c2, m2, k2⟩ := b
  have hc : c1 = c2 := UInt64.toNat_inj.mp (h .cpuMillis)
  have hm : m1 = m2 := UInt64.toNat_inj.mp (h .memory)
  have hk : k1 = k2 := UInt64.toNat_inj.mp (h .disk)
  rw [hc, hm, hk]

theorem get_le_u64Max (r : Resources) (d : Dim) : r.get d ≤ u64Max := by
  cases d <;> exact UInt64.toNat_le_u64Max _

@[simp] theorem get_zero (d : Dim) : zero.get d = 0 := by
  cases d <;> rfl

@[simp] theorem get_saturatingAdd (a b : Resources) (d : Dim) :
    (a.saturatingAdd b).get d = min (a.get d + b.get d) u64Max := by
  cases d <;> simp [saturatingAdd, get]

@[simp] theorem get_saturatingSub (a b : Resources) (d : Dim) :
    (a.saturatingSub b).get d = a.get d - b.get d := by
  cases d <;> simp [saturatingSub, get]

@[simp] theorem get_componentMin (a b : Resources) (d : Dim) :
    (a.componentMin b).get d = min (a.get d) (b.get d) := by
  have hmin (x y : UInt64) : (if x ≤ y then x else y).toNat = min x.toNat y.toNat := by
    split_ifs with h
    · rw [UInt64.le_iff_toNat_le] at h
      omega
    · rw [UInt64.le_iff_toNat_le] at h
      omega
  cases d <;> exact hmin _ _

/-- A pledge is whole when there is enough in every dimension. -/
theorem componentMin_eq_right_iff (a b : Resources) :
    a.componentMin b = b ↔ ∀ d, b.get d ≤ a.get d := by
  constructor
  · intro h d
    rw [← h, get_componentMin]
    exact min_le_left _ _
  · intro h
    refine ext_get fun d => ?_
    rw [get_componentMin]
    exact min_eq_right (h d)

theorem fitsWithin_iff {r capacity : Resources} :
    r.fitsWithin capacity = true ↔ ∀ d, r.get d ≤ capacity.get d := by
  simp only [fitsWithin, Bool.and_eq_true, decide_eq_true_eq, UInt64.le_iff_toNat_le]
  constructor
  · rintro ⟨⟨hc, hm⟩, hk⟩ d
    cases d
    · exact hc
    · exact hm
    · exact hk
  · intro h
    exact ⟨⟨h .cpuMillis, h .memory⟩, h .disk⟩

theorem isZero_iff {r : Resources} : r.isZero = true ↔ ∀ d, r.get d = 0 := by
  simp only [isZero, decide_eq_true_eq]
  constructor
  · rintro rfl d
    exact get_zero d
  · intro h
    exact ext_get fun d => by rw [h d, get_zero]

theorem eq_iff_get {a b : Resources} : a = b ↔ ∀ d, a.get d = b.get d :=
  ⟨fun h _ => h ▸ rfl, ext_get⟩

end Resources

end Coppice.Core
