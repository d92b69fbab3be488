/-
  Coppice.Scheduler.Sweep

  The sweep of guaranteed releases computes the first moment at which the
  releases so far, handed to the queue in order, meet a need in every
  dimension.
-/

import Coppice.Scheduler.Projection
import Mathlib.Algebra.Order.Pi

namespace Coppice.Scheduler

open Lib.Pour Coppice.Core List Resources

/-- One dimension of a queue of needs. -/
def needsIn (d : Dim) (ws : List Resources) : List Nat := ws.map fun w => w.get d

/-- Need `i` of the queue is met once `F` was handed out. -/
def Met (ws : List Resources) (i : Nat) (F : Dim → Nat) : Prop :=
  ∀ d, (fill (needsIn d ws) (F d))[i]? = some 0

instance (ws : List Resources) (i : Nat) : DecidablePred (Met ws i) := fun F =>
  decidable_of_iff ((fill (needsIn .cpuMillis ws) (F .cpuMillis))[i]? = some 0 ∧
      (fill (needsIn .memory ws) (F .memory))[i]? = some 0 ∧
      (fill (needsIn .disk ws) (F .disk))[i]? = some 0) (by
    constructor
    · rintro ⟨hc, hm, hk⟩ d
      cases d
      · exact hc
      · exact hm
      · exact hk
    · intro h
      exact ⟨h _, h _, h _⟩)

variable {ws : List Resources} {i : Nat} {F : Dim → Nat} {pool r : Resources}
  {slots : List (Resources × Option Timestamp)} {events : List ReleaseEvent}

theorem Met.mono {G : Dim → Nat} (h : Met ws i F) (hFG : F ≤ G) : Met ws i G :=
  fun d => fill_mono (hFG d) (h d)

/-! ## One event -/

/-- One event serves the needs in order; a need it completes is stamped. -/
theorem sweepEvent_spec (at_ : Timestamp) (pool : Resources)
    (slots : List (Resources × Option Timestamp)) :
    (∀ d, (sweepEvent at_ pool slots).1.get d = pool.get d - (needsIn d (slots.map Prod.fst)).sum) ∧
    (∀ d, needsIn d ((sweepEvent at_ pool slots).2.map Prod.fst) =
      fill (needsIn d (slots.map Prod.fst)) (pool.get d)) ∧
    ∀ (i : Nat) (r : Resources) rd, slots[i]? = some (r, rd) →
      ∃ r' : Resources, (sweepEvent at_ pool slots).2[i]? =
        some (r', if r.isZero = false ∧ r'.isZero = true ∧ rd = none then some at_ else rd) := by
  induction slots generalizing pool with
  | nil =>
    exact ⟨fun d => by simp [sweepEvent, needsIn], fun d => rfl, fun i r rd h => by simp at h⟩
  | cons slot rest ih =>
    obtain ⟨r, rd⟩ := slot
    simp only [sweepEvent]
    by_cases hpool : pool.isZero = true
    · -- the loop breaks with an empty pool
      have hzero := isZero_iff.mp hpool
      rw [if_pos hpool]
      refine ⟨fun d => by simp [hzero d], fun d => by simp [hzero d], fun i q qd hq => ⟨q, ?_⟩⟩
      rw [hq, if_neg]
      rintro ⟨hne, hz, -⟩
      rw [hz] at hne
      cases hne
    · rw [if_neg hpool]
      by_cases hr : r.isZero = true
      · -- a need already met is skipped
        have hzero := isZero_iff.mp hr
        obtain ⟨hleft, hneeds, hready⟩ := ih pool
        rw [if_pos hr]
        refine ⟨fun d => ?_, fun d => ?_, fun i q qd hq => ?_⟩
        · rw [hleft]
          simp [needsIn, hzero d]
        · have := hneeds d
          simp only [needsIn, map_cons, fill_cons, hzero d, Nat.zero_sub, Nat.sub_zero] at this ⊢
          rw [this]
        · cases i with
          | zero =>
            simp only [getElem?_cons_zero, Option.some.injEq, Prod.mk.injEq] at hq ⊢
            obtain ⟨rfl, rfl⟩ := hq
            exact ⟨r, rfl, by simp [hr]⟩
          | succ i => exact hready i q qd (by simpa using hq)
      · -- the head takes what it needs
        have hpledge d : (pool.saturatingSub (pool.componentMin r)).get d = pool.get d - r.get d :=
            by
          simp only [get_saturatingSub, get_componentMin]
          omega
        have hrest d : (r.saturatingSub (pool.componentMin r)).get d = r.get d - pool.get d := by
          simp only [get_saturatingSub, get_componentMin]
          omega
        obtain ⟨hleft, hneeds, hready⟩ := ih (pool.saturatingSub (pool.componentMin r))
        rw [if_neg hr]
        refine ⟨fun d => ?_, fun d => ?_, fun i q qd hq => ?_⟩
        · rw [hleft, hpledge]
          simp only [needsIn, map_cons, sum_cons]
          omega
        · have := hneeds d
          rw [hpledge] at this
          simp only [needsIn, map_cons, fill_cons, hrest] at this ⊢
          rw [this]
        · cases i with
          | zero =>
            simp only [getElem?_cons_zero, Option.some.injEq, Prod.mk.injEq] at hq ⊢
            obtain ⟨rfl, rfl⟩ := hq
            exact ⟨_, rfl, by simp [hr]⟩
          | succ i => exact hready i q qd (by simpa using hq)

/-! ## The sweep -/

/-- A release as an item of a running total. -/
def ReleaseEvent.item (ev : ReleaseEvent) : Timestamp × (Dim → Nat) := (ev.at_, ev.freed.get)

/-- What the events release in one dimension. -/
def releasedIn (d : Dim) (events : List ReleaseEvent) : Nat :=
  (events.map fun ev => ev.freed.get d).sum

/-- In the midst of a sweep: `F` was handed to the needs `ws`. -/
structure Swept (ws : List Resources) (F : Dim → Nat) (pool : Resources)
    (slots : List (Resources × Option Timestamp)) : Prop where
  needs : ∀ d, needsIn d (slots.map Prod.fst) = fill (needsIn d ws) (F d)
  pool : ∀ d, pool.get d = F d - (needsIn d ws).sum

/-- One event hands out what it frees. -/
theorem Swept.event (h : Swept ws F pool slots) (ev : ReleaseEvent)
    (hfit : ∀ d, F d + ev.freed.get d ≤ u64Max) :
    Swept ws (F + ev.freed.get) (sweepEvent ev.at_ (pool.saturatingAdd ev.freed) slots).1
      (sweepEvent ev.at_ (pool.saturatingAdd ev.freed) slots).2 := by
  obtain ⟨hleft, hneeds, -⟩ := sweepEvent_spec ev.at_ (pool.saturatingAdd ev.freed) slots
  have hpool d : (pool.saturatingAdd ev.freed).get d = F d - (needsIn d ws).sum + ev.freed.get d :=
      by
    have := hfit d
    rw [get_saturatingAdd, h.pool]
    omega
  refine ⟨fun d => ?_, fun d => ?_⟩
  · rw [hneeds, h.needs, hpool]
    exact (fill_carry _ _ _).1
  · rw [hleft, h.needs, hpool]
    exact (fill_carry _ _ _).2

theorem Swept.met_iff (h : Swept ws F pool slots) {rd : Option Timestamp}
    (hi : slots[i]? = some (r, rd)) : Met ws i F ↔ r.isZero = true := by
  have hget d : (fill (needsIn d ws) (F d))[i]? = some (r.get d) := by
    rw [← h.needs]
    simp [needsIn, hi]
  rw [isZero_iff]
  constructor
  · intro hm d
    have := hm d
    rw [hget] at this
    exact Option.some.inj this
  · intro hz d
    rw [hget, hz]

/-- A stamp is never overwritten. -/
theorem sweepFrom_stamped {t : Timestamp} (hi : slots[i]? = some (r, some t)) :
    (sweepFrom events pool slots)[i]? = some (some t) := by
  induction events generalizing pool slots r with
  | nil => simp [sweepFrom, hi]
  | cons ev events ih =>
    obtain ⟨-, -, hready⟩ := sweepEvent_spec ev.at_ (pool.saturatingAdd ev.freed) slots
    obtain ⟨r', hr'⟩ := hready i r (some t) hi
    rw [if_neg (by simp)] at hr'
    exact ih hr'

theorem sweepFrom_eq_firstAt (h : Swept ws F pool slots)
    (hfit : ∀ d, F d + releasedIn d events ≤ u64Max) (hi : slots[i]? = some (r, none))
    (hr : r.isZero = false) :
    (sweepFrom events pool slots)[i]? =
      some (firstAt (Met ws i) F (events.map ReleaseEvent.item)) := by
  induction events generalizing F pool slots r with
  | nil => simp [sweepFrom, hi, firstAt]
  | cons ev events ih =>
    have hev d : F d + ev.freed.get d ≤ u64Max := by
      have := hfit d
      simp only [releasedIn, map_cons, sum_cons] at this
      omega
    have hrest d : (F + ev.freed.get) d + releasedIn d events ≤ u64Max := by
      have := hfit d
      simp only [releasedIn, map_cons, sum_cons, Pi.add_apply] at this ⊢
      omega
    have hstep := h.event ev hev
    obtain ⟨-, -, hready⟩ := sweepEvent_spec ev.at_ (pool.saturatingAdd ev.freed) slots
    obtain ⟨r', hr'⟩ := hready i r none hi
    have hmet : Met ws i (F + ev.freed.get) ↔ r'.isZero = true := hstep.met_iff hr'
    show (sweepFrom events _ _)[i]? = _
    simp only [map_cons, ReleaseEvent.item, firstAt]
    by_cases hz : r'.isZero = true
    · rw [if_pos ⟨hr, hz, rfl⟩] at hr'
      rw [if_pos (hmet.mpr hz)]
      exact sweepFrom_stamped hr'
    · rw [if_neg (fun hc => hz hc.2.1)] at hr'
      rw [if_neg (fun hc => hz (hmet.mp hc))]
      exact ih hstep hrest hr' (by simpa using hz)

/-- The sweep reports the first moment the releases meet the need. -/
theorem sweepProjectedReady_eq_firstAt (hfit : ∀ d, releasedIn d events ≤ u64Max)
    (hi : ws[i]? = some r) (hr : r.isZero = false) :
    (sweepProjectedReady events ws)[i]? =
      some (firstAt (Met ws i) 0 (events.map ReleaseEvent.item)) := by
  have hstart : Swept ws 0 .zero (ws.map fun r => (r, none)) := by
    refine ⟨fun d => ?_, fun d => by simp⟩
    simp [needsIn, Function.comp_def]
  refine sweepFrom_eq_firstAt hstart (fun d => ?_) (by simp [hi]) hr
  simpa using hfit d

end Coppice.Scheduler
