/-
  Coppice.Core.Decay

  The decay of `coppice-core/src/quota.rs` as a posting that shrinks: what a
  decayed amount is exactly, and how far a refund can go.
-/

import Coppice.Lib.Decay
import Coppice.Core.Quota
import Mathlib.Order.Bounds.Basic
import Mathlib.Tactic.FinCases

namespace Coppice.Core

open Lib UInt64 DecayPolicy

namespace DecayPolicy

/-- One tick of decay, without the word size. -/
def shrink (p : DecayPolicy) (u : Nat) : Nat := u * p.decayPerTick.toNat / 2 ^ 64

section

variable (p : DecayPolicy)

theorem shrink_superadditive : Superadditive p.shrink := .mul_div p.decayPerTick.toNat (2 ^ 64)

theorem shrink_le (u : Nat) : p.shrink u ≤ u := by
  have hfactor : p.decayPerTick.toNat ≤ 2 ^ 64 := Nat.le_of_lt p.decayPerTick.toNat_lt
  calc p.shrink u ≤ u * 2 ^ 64 / 2 ^ 64 := Nat.div_le_div_right (Nat.mul_le_mul_left u hfactor)
    _ = u := Nat.mul_div_cancel u (by decide)

theorem toNat_decayOnce (u : UInt64) : (p.decayOnce u).toNat = p.shrink u.toNat := by
  have hlt : p.shrink u.toNat < 2 ^ 64 := Nat.lt_of_le_of_lt (p.shrink_le _) u.toNat_lt
  show (ofNat (p.shrink u.toNat)).toNat = _
  rw [toNat_ofNat', Nat.mod_eq_of_lt hlt]

/-- Stopping at zero changes nothing. -/
theorem toNat_decayTicks (n : Nat) (u : CostUnits) :
    (p.decayTicks u n).toNat = p.shrink^[n] u.toNat := by
  induction n generalizing u with
  | zero => rfl
  | succ n ih =>
    rw [decayTicks, Function.iterate_succ_apply]
    split_ifs with hu
    · subst hu
      have hzero := p.shrink_superadditive.map_zero
      have hiter := (p.shrink_superadditive.iterate n).map_zero
      simp [hzero, hiter]
    · rw [ih, toNat_decayOnce]

/-- How often the loop body of `decay_ticks` is entered; the entry that breaks counts. -/
def decaySteps (p : DecayPolicy) (usage : CostUnits) : Nat → Nat
  | 0 => 0
  | ticks + 1 => if usage = 0 then 1 else p.decaySteps (p.decayOnce usage) ticks + 1

/-- Once the usage is gone, the next entry breaks. -/
theorem decaySteps_le {k : Nat} {u : CostUnits} (h : p.decayTicks u k = 0) (n : Nat) :
    p.decaySteps u n ≤ k + 1 := by
  induction k generalizing u n with
  | zero =>
    have hu : u = 0 := h
    cases n <;> simp [decaySteps, hu]
  | succ k ih =>
    cases n with
    | zero => exact Nat.zero_le _
    | succ n =>
      rw [decaySteps]
      rw [decayTicks] at h
      split_ifs at h ⊢ with hu
      · omega
      · exact Nat.succ_le_succ (ih h n)

/-- Timestamps lie so close together that the tick count never saturates. -/
theorem elapsedTicks_eq (from_ to_ : Timestamp) :
    p.elapsedTicks from_ to_ = (p.tickIndex to_ - p.tickIndex from_).toNat := by
  have hbound (t : Timestamp) : (p.tickIndex t).natAbs ≤ 253402300799999999 := by
    have ht := t.property
    have hdiv : (p.tickIndex t).natAbs ≤ t.val.natAbs := Int.natAbs_ediv_le_natAbs _ _
    simp only [minMicros, maxMicros] at ht
    omega
  have h1 := hbound from_
  have h2 := hbound to_
  simp only [elapsedTicks, i64Min, i64Max]
  omega

theorem tickIndex_mono (hp : 0 < p.tick.asMicros) {a b : Timestamp} (h : a ≤ b) :
    p.tickIndex a ≤ p.tickIndex b :=
  Int.ediv_le_ediv hp h

end

/-- An amount booked at a point in time. -/
def posting (p : DecayPolicy) (amount : CostUnits) (at_ : Timestamp) : Posting :=
  ⟨amount.toNat, p.tickIndex at_⟩

theorem toNat_decayBetween (p : DecayPolicy) (u : CostUnits) (from_ to_ : Timestamp) :
    (p.decayBetween u from_ to_).toNat = (p.posting u from_).left p.shrink (p.tickIndex to_) := by
  rw [decayBetween, toNat_decayTicks, elapsedTicks_eq]
  rfl

theorem decayBetween_mono (p : DecayPolicy) {u v : CostUnits} (h : u.toNat ≤ v.toNat)
    (from_ to_ : Timestamp) :
    (p.decayBetween u from_ to_).toNat ≤ (p.decayBetween v from_ to_).toNat := by
  rw [toNat_decayBetween, toNat_decayBetween]
  exact Posting.left_mono p.shrink_superadditive h _ _

@[simp] theorem decayBetween_self (p : DecayPolicy) (u : CostUnits) (t : Timestamp) :
    p.decayBetween u t t = u := by
  rw [decayBetween, elapsedTicks_eq, Int.sub_self]
  rfl

variable {p : DecayPolicy}

theorem validate_tick (h : p.validate = .ok ()) : 0 < p.tick.asMicros := by
  unfold validate at h
  split_ifs at h with htick
  have hpos : p.tick.isPositive = true := by simpa using htick
  exact of_decide_eq_true hpos

/-- A legal policy takes at least one part in 65536 with each tick. -/
theorem validate_shrink (h : p.validate = .ok ()) (u : Nat) : p.shrink u * 65536 ≤ u * 65535 := by
  unfold validate at h
  split_ifs at h with _ hslow
  have hfactor : p.decayPerTick.toNat ≤ maxDecayPerTick.toNat :=
    UInt64.le_iff_toNat_le.1 (UInt64.not_lt.1 hslow)
  have hmul := Nat.mul_le_mul_left u hfactor
  have hmax : maxDecayPerTick.toNat = 2 ^ 64 - 2 ^ 48 := rfl
  rw [hmax] at hmul
  unfold shrink
  omega

/-- 45427 ticks halve an amount, 48 halvings leave less than 65536 of any, and from there every
    tick takes at least one. -/
theorem decayTicks_eq_zero (h : p.validate = .ok ()) (u : CostUnits) {n : Nat}
    (hn : 65536 + 45427 * 48 ≤ n) : p.decayTicks u n = 0 := by
  have hgone := iterate_eq_zero (validate_shrink h) (by decide)
    (show 2 * 65535 ^ 45427 ≤ 65536 ^ 45427 by decide +kernel)
    (show u.toNat < 65536 * 2 ^ 48 from u.toNat_lt)
  obtain ⟨m, rfl⟩ := Nat.exists_eq_add_of_le' hn
  rw [← UInt64.toNat_inj, toNat_decayTicks, Function.iterate_add_apply, hgone]
  exact (p.shrink_superadditive.iterate m).map_zero

/-- Decay is bounded work: under every legal policy any usage is gone after 2.9 million ticks, and
    the loop is never entered more often than that.  It keeps the order of usages, only falls with
    the ticks, and the parts never leave more than the whole. -/
theorem decayTicks_bounded {p : DecayPolicy} (h : p.validate = .ok ()) :
    (∀ u n, 2900000 ≤ n → p.decayTicks u n = 0) ∧
      (∀ u n, p.decaySteps u n ≤ 2900000) ∧
      (∀ u v n, u ≤ v → p.decayTicks u n ≤ p.decayTicks v n) ∧
      (∀ u m n, m ≤ n → p.decayTicks u n ≤ p.decayTicks u m) ∧
      ∀ a b n, a.toNat + b.toNat ≤ u64Max →
        (p.decayTicks a n).toNat + (p.decayTicks b n).toNat ≤ (p.decayTicks (a + b) n).toNat := by
  refine ⟨fun u n hn => decayTicks_eq_zero h u (by omega), fun u n => ?_, fun u v n huv => ?_,
    fun u m n hmn => ?_, fun a b n hsum => ?_⟩
  · have hsteps := p.decaySteps_le (decayTicks_eq_zero h u (Nat.le_refl _)) n
    omega
  · rw [le_iff_toNat_le, toNat_decayTicks, toNat_decayTicks]
    exact (p.shrink_superadditive.iterate n).mono (le_iff_toNat_le.1 huv)
  · obtain ⟨k, rfl⟩ := Nat.exists_eq_add_of_le' hmn
    rw [le_iff_toNat_le, toNat_decayTicks, toNat_decayTicks, Function.iterate_add_apply]
    exact (iterate_le_sub (validate_shrink h) (by decide) k _).trans (Nat.sub_le _ _)
  · have hwhole : (a + b).toNat = a.toNat + b.toNat := by
      exact Nat.mod_eq_of_lt (Nat.lt_succ_of_le hsum)
    rw [toNat_decayTicks, toNat_decayTicks, toNat_decayTicks, hwhole]
    exact p.shrink_superadditive.iterate n _ _

theorem decayTicks_bounded_default :
    DecayPolicy.default.decayTicks 18446744073709551615 2900000 = 0 :=
  (decayTicks_bounded (p := .default) (by decide)).1 _ _ (Nat.le_refl _)

/-- Nothing decays toward a time that has passed. -/
theorem decayBetween_of_le (p : DecayPolicy) (hp : 0 < p.tick.asMicros) (u : CostUnits)
    {from_ to_ : Timestamp} (h : to_ ≤ from_) : p.decayBetween u from_ to_ = u := by
  rw [← UInt64.toNat_inj, toNat_decayBetween]
  exact Posting.left_of_le _ (p.tickIndex_mono hp h)

/-- A stop on the way changes nothing. -/
theorem decayBetween_decayBetween (p : DecayPolicy) (hp : 0 < p.tick.asMicros) (u : CostUnits)
    {a b c : Timestamp} (hab : a ≤ b) (hbc : b ≤ c) :
    p.decayBetween (p.decayBetween u a b) b c = p.decayBetween u a c := by
  have hsplit := (p.posting u a).left_later (f := p.shrink) (p.tickIndex_mono hp hab)
    (p.tickIndex_mono hp hbc)
  have hstop := p.toNat_decayBetween u a b
  rw [← UInt64.toNat_inj, toNat_decayBetween, toNat_decayBetween p u a c, hsplit, ← hstop]
  rfl

end DecayPolicy

namespace UsageState

variable {u : UsageState} {now : Timestamp} {p : DecayPolicy}

theorem charge_now (h : u.lastUpdate ≤ now) (amount : CostUnits)
    (hfits : (u.touch now p).usage.toNat + amount.toNat ≤ u64Max) :
    ((u.charge amount now p).touch now p).usage.toNat =
      (u.touch now p).usage.toNat + amount.toNat := by
  simp only [charge, touch, max_eq_right h, decayBetween_self] at hfits ⊢
  rw [toNat_saturatingAdd, Nat.min_eq_left hfits]

theorem refund_now (h : u.lastUpdate ≤ now) (amount : CostUnits) :
    ((u.refund amount now p).touch now p).usage.toNat =
      (u.touch now p).usage.toNat - amount.toNat := by
  simp only [refund, touch, max_eq_right h, decayBetween_self]
  exact toNat_saturatingSub _ _

@[simp] theorem touch_self (u : UsageState) : u.touch u.lastUpdate p = u := by
  simp [touch]

/-- Two touches are one touch at the later time. -/
theorem touch_touch (hp : 0 < p.tick.asMicros) (u : UsageState) (a b : Timestamp) :
    (u.touch a p).touch b p = u.touch (max a b) p := by
  simp only [touch, UsageState.mk.injEq]
  refine ⟨?_, max_assoc _ _ _⟩
  rcases le_total a u.lastUpdate with ha | ha
  · -- the first touch regresses
    rw [p.decayBetween_of_le hp _ ha, max_eq_left ha]
    rcases le_total a b with hab | hab
    · rw [max_eq_right hab]
    · rw [max_eq_left hab, p.decayBetween_of_le hp _ ha, p.decayBetween_of_le hp _ (hab.trans ha)]
  · rw [max_eq_right ha]
    rcases le_total a b with hab | hab
    · rw [max_eq_right hab, p.decayBetween_decayBetween hp _ ha hab]
    · -- the second touch regresses
      rw [max_eq_left hab, p.decayBetween_of_le hp _ hab]

theorem lastUpdate_settle (u : UsageState) (adj : TrueUp) :
    (u.settle adj now p).lastUpdate = max u.lastUpdate now := by
  cases adj <;> rfl

/-! ## Sequences of touches -/

/-- The ways to bring an accumulator up to date without moving an amount. -/
inductive Idle where
  | touch | charge | refund | settleRefund | settleSurcharge
  deriving DecidableEq

def idle (u : UsageState) (op : Idle) (at_ : Timestamp) (p : DecayPolicy) : UsageState :=
  match op with
  | .touch => u.touch at_ p
  | .charge => u.charge 0 at_ p
  | .refund => u.refund 0 at_ p
  | .settleRefund => u.settle (.refund 0) at_ p
  | .settleSurcharge => u.settle (.surcharge 0) at_ p

theorem idle_eq_touch (u : UsageState) (op : Idle) (at_ : Timestamp) :
    u.idle op at_ p = u.touch at_ p := by
  have hadd (x : CostUnits) : x.saturatingAdd 0 = x := by
    rw [← UInt64.toNat_inj, UInt64.toNat_saturatingAdd, UInt64.toNat_zero, Nat.add_zero]
    exact Nat.min_eq_left (Nat.le_of_lt_succ x.toNat_lt)
  have hsub (x : CostUnits) : x.saturatingSub 0 = x := by
    rw [← UInt64.toNat_inj, UInt64.toNat_saturatingSub, UInt64.toNat_zero, Nat.sub_zero]
  cases op <;> simp only [idle, settle, charge, refund, hadd, hsub]

/-- Run a sequence of idle operations, each at its own time. -/
def idles (u : UsageState) (ops : List (Idle × Timestamp)) (p : DecayPolicy) : UsageState :=
  ops.foldl (fun u op => u.idle op.1 op.2 p) u

def times (ops : List (Idle × Timestamp)) : Set Timestamp := {t | ∃ op ∈ ops, op.2 = t}

/-- The latest of the accumulator's own time and the operations' times. -/
def latest (u : UsageState) (ops : List (Idle × Timestamp)) : Timestamp :=
  (ops.map Prod.snd).foldl max u.lastUpdate

theorem latest_isGreatest (u : UsageState) (ops : List (Idle × Timestamp)) :
    IsGreatest (insert u.lastUpdate (times ops)) (u.latest ops) := by
  unfold latest
  generalize u.lastUpdate = t
  induction ops generalizing t with
  | nil => simp [times]
  | cons op rest ih =>
    have hcons : times (op :: rest) = insert op.2 (times rest) := by
      ext t
      simp [times, eq_comm]
    obtain ⟨hmem, hle⟩ := ih (max t op.2)
    rw [hcons]
    refine ⟨?_, ?_⟩
    · rcases Set.mem_insert_iff.1 hmem with heq | hrest
      · rcases max_choice t op.2 with hmax | hmax
        · exact .inl (heq.trans hmax)
        · exact .inr (.inl (heq.trans hmax))
      · exact .inr (.inr hrest)
    · have hfirst := hle (Set.mem_insert _ _)
      rintro t' (rfl | rfl | hrest)
      · exact (le_max_left _ _).trans hfirst
      · exact (le_max_right _ _).trans hfirst
      · exact hle (Set.mem_insert_of_mem _ hrest)

/-- However the operations are spread, they come to one touch at the latest
    time. -/
theorem idles_eq_touch (hp : 0 < p.tick.asMicros) (u : UsageState) (ops : List (Idle × Timestamp)) :
    u.idles ops p = u.touch (u.latest ops) p := by
  induction ops generalizing u with
  | nil => exact (touch_self u).symm
  | cons op rest ih =>
    have hle : op.2 ≤ (u.touch op.2 p).latest rest :=
      (le_max_right u.lastUpdate op.2).trans ((latest_isGreatest _ rest).2 (Set.mem_insert _ _))
    calc u.idles (op :: rest) p = (u.touch op.2 p).idles rest p :=
          congrArg (fun v => idles v rest p) (idle_eq_touch u op.1 op.2)
      _ = (u.touch op.2 p).touch ((u.touch op.2 p).latest rest) p := ih _
      _ = u.touch ((u.touch op.2 p).latest rest) p := by
          rw [touch_touch hp, max_eq_right hle]
      _ = u.touch (u.latest (op :: rest)) p := rfl

/-- Touching counts the ticks since the last update, and none backward. -/
theorem usage_touch (u : UsageState) (t : Timestamp) :
    (u.touch t p).usage = p.decayTicks u.usage
      (max 0 (p.tickIndex t - p.tickIndex u.lastUpdate)).toNat := by
  have hticks : (max 0 (p.tickIndex t - p.tickIndex u.lastUpdate)).toNat =
      p.elapsedTicks u.lastUpdate t := by
    rw [elapsedTicks_eq]
    omega
  rw [hticks]
  rfl

/-- Lazy decay does not depend on the path: whatever touches, empty charges and
    empty refunds arrive, in any order of times, the accumulator has decayed by
    the ticks up to the latest of them and carries the latest time. -/
theorem idles_path_independent (hp : p.validate = .ok ()) (u : UsageState)
    (ops : List (Idle × Timestamp)) :
    IsGreatest (insert u.lastUpdate (times ops)) (u.idles ops p).lastUpdate ∧
      (∀ T, IsGreatest (times ops) T ∨ IsGreatest (insert u.lastUpdate (times ops)) T →
        (u.idles ops p).usage = p.decayTicks u.usage
          (max 0 (p.tickIndex T - p.tickIndex u.lastUpdate)).toNat) ∧
      ∀ ops' T, IsGreatest (insert u.lastUpdate (times ops)) T →
        IsGreatest (insert u.lastUpdate (times ops')) T → u.idles ops' p = u.idles ops p := by
  have htick := p.validate_tick hp
  have hgreatest := u.latest_isGreatest ops
  have hmax : max u.lastUpdate (u.latest ops) = u.latest ops :=
    max_eq_right (hgreatest.2 (Set.mem_insert _ _))
  refine ⟨?_, ?_, ?_⟩
  · rw [idles_eq_touch htick]
    show IsGreatest _ (max u.lastUpdate (u.latest ops))
    rw [hmax]
    exact hgreatest
  · intro T hT
    rw [idles_eq_touch htick, ← usage_touch]
    rcases hT with hT | hT
    · -- a time before the own one adds no tick
      have hlatest : u.latest ops = max u.lastUpdate T := hgreatest.unique (hT.insert _)
      rw [hlatest, ← touch_touch htick, touch_self]
    · rw [hgreatest.unique hT]
  · intro ops' T hT hT'
    rw [idles_eq_touch htick, idles_eq_touch htick, hgreatest.unique hT,
      (u.latest_isGreatest ops').unique hT']

/-- A touch that regresses, an empty refund and a touch that repeats. -/
theorem idles_path_independent_default :
    ((UsageState.mk 1000 .unixEpoch).idles
      [(.touch, .clamp 60000000), (.refund, .unixEpoch),
        (.touch, .clamp 60000000)] .default).lastUpdate = .clamp 60000000 := by
  have hvalid : default.validate = .ok () := by decide
  have hgreatest := (idles_path_independent hvalid (.mk 1000 .unixEpoch)
    [(.touch, .clamp 60000000), (.refund, .unixEpoch), (.touch, .clamp 60000000)]).1
  refine hgreatest.unique ⟨.inr ⟨(.touch, .clamp 60000000), by simp, rfl⟩, ?_⟩
  rintro t (rfl | ⟨op, hop, rfl⟩)
  · decide
  · fin_cases hop <;> decide

end UsageState

/-- A charge made at once gives back at most what is left of it. -/
theorem trueUp_refund_le {charge : ChargeRecord} {actual : CostUnits} {at_ : Timestamp}
    {p : DecayPolicy} {retain : Bool} {r : CostUnits} (hinterval : charge.interval = none)
    (h : trueUp charge actual at_ p retain = .refund r) :
    r.toNat ≤ (p.decayBetween charge.amount charge.chargedAt at_).toNat := by
  unfold trueUp at h
  simp only [hinterval] at h
  split_ifs at h with hle hretain <;> cases h
  all_goals
    refine p.decayBetween_mono ?_ _ _
    have hsub := toNat_saturatingSub charge.amount actual
    refine Nat.le_trans (Nat.mod_le _ _) ?_
    refine Nat.le_trans ?_ (show (charge.amount.saturatingSub actual).toNat ≤ _ by omega)
  · have hmin : min charge.refundFractionMilli fullRefundMilli ≤ 1000 := Nat.min_le_right _ _
    calc _ ≤ (charge.amount.saturatingSub actual).toNat * 1000 / 1000 :=
          Nat.div_le_div_right (Nat.mul_le_mul_left _ hmin)
      _ = _ := Nat.mul_div_cancel _ (by decide)
  · exact Nat.le_of_eq (Nat.mul_div_cancel _ (by decide))

end Coppice.Core
