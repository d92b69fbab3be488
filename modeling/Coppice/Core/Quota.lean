/-
  Coppice.Core.Quota

  Fixed-point pricing, lazily decayed usage and attempt settlement (`coppice-
  core/src/quota.rs`).  Amounts saturate; multipliers and weights are Q32.32, the
  decay factor is Q0.64.
-/

import Coppice.Core.Resource
import Coppice.Core.Time

namespace Coppice.Core

open Lib

/-- Micro cost units. -/
abbrev CostUnits : Type := UInt64

def u128Max : Nat := 2 ^ 128 - 1

def u32Max : Nat := 4294967295

structure DecayPolicy where
  tick : Duration
  /-- Fraction of usage kept per tick, in Q0.64. -/
  decayPerTick : UInt64
  deriving DecidableEq

inductive PolicyError where
  | nonPositiveTick (tick : Duration)
  | decayTooSlow (decayPerTick : UInt64)
  deriving DecidableEq

namespace DecayPolicy

/-- `2^64 - 2^48`. -/
def maxDecayPerTick : UInt64 := 18446462598732840960

def default : DecayPolicy where
  tick := Duration.ofSecs 60
  decayPerTick := 18437866829417916986

def validate (p : DecayPolicy) : Except PolicyError Unit :=
  if !p.tick.isPositive then .error (.nonPositiveTick p.tick)
  else if maxDecayPerTick < p.decayPerTick then .error (.decayTooSlow p.decayPerTick)
  else .ok ()

/-- Euclidean division, so that ticks before the epoch are counted downward. -/
def tickIndex (p : DecayPolicy) (at_ : Timestamp) : Int := at_.asMicros / p.tick.asMicros

def elapsedTicks (p : DecayPolicy) (from_ to_ : Timestamp) : Nat :=
  (max 0 (max i64Min (min i64Max (p.tickIndex to_ - p.tickIndex from_)))).toNat

def decayOnce (p : DecayPolicy) (u : UInt64) : UInt64 :=
  UInt64.ofNat (u.toNat * p.decayPerTick.toNat / 2 ^ 64)

/-- One multiplication per tick, stopping as soon as the usage is gone. -/
def decayTicks (p : DecayPolicy) (usage : CostUnits) : Nat → CostUnits
  | 0 => usage
  | ticks + 1 => if usage = 0 then usage else p.decayTicks (p.decayOnce usage) ticks

def decayBetween (p : DecayPolicy) (usage : CostUnits) (from_ to_ : Timestamp) : CostUnits :=
  p.decayTicks usage (p.elapsedTicks from_ to_)

end DecayPolicy

structure CostWeights where
  perCpuMilliSecond : UInt64
  perMemoryByteSecond : UInt64
  perDiskByteSecond : UInt64
  deriving DecidableEq

/-- A Q32.32 multiplier. -/
abbrev PriorityMultiplier : Type := UInt64

namespace PriorityMultiplier

def one : PriorityMultiplier := 4294967296

def saturatingMul (a b : PriorityMultiplier) : PriorityMultiplier :=
  UInt64.saturatingOfNat (a.toNat * b.toNat / 2 ^ 32)

end PriorityMultiplier

def fullRefundMilli : Nat := 1000

def resourceRate (requests : Resources) (weights : CostWeights) : UInt64 :=
  let term (quantity weight : UInt64) : Nat := quantity.toNat * weight.toNat / 2 ^ 32
  UInt64.saturatingOfNat
    (term requests.cpuMillis weights.perCpuMilliSecond
      + term requests.memory weights.perMemoryByteSecond
      + term requests.disk weights.perDiskByteSecond)

def runtimeSecondsCeil (runtime : Duration) : UInt64 :=
  UInt64.ofNat (((max 0 runtime.asMicros).toNat + 999999) / 1000000)

section

variable (rate runtimeSeconds : UInt64) (multiplier : PriorityMultiplier)

def costFromRate : CostUnits :=
  let scaled := min (min (rate.toNat * runtimeSeconds.toNat) u128Max * multiplier.toNat) u128Max
  UInt64.saturatingOfNat (scaled / 2 ^ 32)

/-- The 128-bit saturation never shows: what it cuts off is past the range of the cost. -/
theorem toNat_costFromRate :
    (costFromRate rate runtimeSeconds multiplier).toNat =
      min (rate.toNat * runtimeSeconds.toNat * multiplier.toNat / 2 ^ 32) u64Max := by
  have hinner : rate.toNat * runtimeSeconds.toNat ≤ u128Max := by
    have h := Nat.mul_le_mul rate.toNat_le_u64Max runtimeSeconds.toNat_le_u64Max
    exact Nat.le_trans h (by decide)
  simp only [costFromRate, UInt64.toNat_saturatingOfNat, Nat.min_eq_left hinner]
  generalize rate.toNat * runtimeSeconds.toNat * multiplier.toNat = x
  simp only [u128Max, u64Max]
  omega

end

/-- A plain product or sum of `u128`; one that overflows has no value. -/
def checked128 (n : Nat) : Option Nat := if n ≤ u128Max then some n else none

/-- `resource_rate` with the operators it has in `u128`. -/
def resourceRate128 (requests : Resources) (weights : CostWeights) : Option UInt64 := do
  let term (quantity weight : UInt64) : Option Nat :=
    (checked128 (quantity.toNat * weight.toNat)).map (· / 2 ^ 32)
  let cpu ← term requests.cpuMillis weights.perCpuMilliSecond
  let memory ← term requests.memory weights.perMemoryByteSecond
  let disk ← term requests.disk weights.perDiskByteSecond
  let rate ← checked128 ((← checked128 (cpu + memory)) + disk)
  return UInt64.saturatingOfNat rate

/-- `PriorityMultiplier::saturating_mul` with the operators it has in `u128`. -/
def PriorityMultiplier.saturatingMul128 (a b : PriorityMultiplier) : PriorityMultiplier :=
  UInt64.saturatingOfNat (min (a.toNat * b.toNat) u128Max / 2 ^ 32)

/-- Prices are the exact values cut to 64 bits; no operation in 128 bits overflows or shows its
    saturation. -/
theorem pricing_exact (requests : Resources) (weights : CostWeights) (rate seconds : UInt64)
    (multiplier a b : PriorityMultiplier) :
    resourceRate128 requests weights = some (resourceRate requests weights) ∧
      (resourceRate requests weights).toNat =
        min (requests.cpuMillis.toNat * weights.perCpuMilliSecond.toNat / 2 ^ 32 +
          requests.memory.toNat * weights.perMemoryByteSecond.toNat / 2 ^ 32 +
          requests.disk.toNat * weights.perDiskByteSecond.toNat / 2 ^ 32) u64Max ∧
      (costFromRate rate seconds multiplier).toNat =
        min (rate.toNat * seconds.toNat * multiplier.toNat / 2 ^ 32) u64Max ∧
      a.saturatingMul128 b = a.saturatingMul b ∧
      (a.saturatingMul b).toNat = min (a.toNat * b.toNat / 2 ^ 32) u64Max := by
  have hword (x y : UInt64) : x.toNat * y.toNat ≤ u64Max * u64Max :=
    Nat.mul_le_mul x.toNat_le_u64Max y.toNat_le_u64Max
  have hfits {n : Nat} (h : n ≤ u64Max * u64Max) : checked128 n = some n :=
    if_pos (h.trans (by decide))
  refine ⟨?_, UInt64.toNat_saturatingOfNat _, toNat_costFromRate rate seconds multiplier, ?_,
    UInt64.toNat_saturatingOfNat _⟩
  · have hcpu := hword requests.cpuMillis weights.perCpuMilliSecond
    have hmemory := hword requests.memory weights.perMemoryByteSecond
    have hdisk := hword requests.disk weights.perDiskByteSecond
    simp only [resourceRate128, resourceRate, hfits hcpu, hfits hmemory, hfits hdisk,
      Option.map_some, Option.bind_eq_bind, Option.bind_some]
    simp only [u64Max] at hcpu hmemory hdisk
    rw [hfits (by simp only [u64Max]; omega), Option.bind_some,
      hfits (by simp only [u64Max]; omega)]
    rfl
  · have hinner : a.toNat * b.toNat ≤ u128Max := (hword a b).trans (by decide)
    rw [PriorityMultiplier.saturatingMul128, Nat.min_eq_left hinner]
    rfl

/-- Tranche bookkeeping of an attempt charged interval by interval. -/
structure ChargeInterval where
  seconds : UInt64
  paid : Nat
  lastTranche : CostUnits
  priorChargedAt : Timestamp
  deriving DecidableEq

structure ChargeRecord where
  amount : CostUnits
  chargedAt : Timestamp
  refundFractionMilli : Nat
  interval : Option ChargeInterval
  deriving DecidableEq

/-- How many intervals an attempt running for `elapsed` must have paid. -/
def intervalsDue (elapsed : Duration) (intervalS : UInt64) : Nat :=
  if intervalS = 0 ∨ elapsed.asMicros < 0 then 0
  else min (elapsed.asMicros.toNat / 1000000 / intervalS.toNat + 1) u32Max

inductive TrueUp where
  | refund (amount : CostUnits)
  | surcharge (amount : CostUnits)
  deriving DecidableEq

structure Settlement where
  actualCost : CostUnits
  trueUp : TrueUp
  deriving DecidableEq

def trueUp (charge : ChargeRecord) (actualCost : CostUnits) (resolvedAt : Timestamp)
    (policy : DecayPolicy) (retain : Bool) : TrueUp :=
  if actualCost ≤ charge.amount then
    let unused := charge.amount.saturatingSub actualCost
    let f := if retain then min charge.refundFractionMilli fullRefundMilli else fullRefundMilli
    let refundable : CostUnits := UInt64.ofNat (unused.toNat * f / 1000)
    .refund <|
      match charge.interval with
      | none => policy.decayBetween refundable charge.chargedAt resolvedAt
      | some interval =>
        -- only the last tranche is as young as `chargedAt`
        let recent := if refundable ≤ interval.lastTranche then refundable
          else interval.lastTranche
        let older := refundable.saturatingSub recent
        (policy.decayBetween recent charge.chargedAt resolvedAt).saturatingAdd
          (policy.decayBetween older interval.priorChargedAt resolvedAt)
  else
    .surcharge (actualCost.saturatingSub charge.amount)

structure UsageState where
  usage : CostUnits
  lastUpdate : Timestamp
  deriving DecidableEq

namespace UsageState

def new (createdAt : Timestamp) : UsageState := ⟨0, createdAt⟩

/-- Bring the lazily decayed usage up to `at_`; time never moves back. -/
def touch (u : UsageState) (at_ : Timestamp) (policy : DecayPolicy) : UsageState where
  usage := policy.decayBetween u.usage u.lastUpdate at_
  lastUpdate := max u.lastUpdate at_

def charge (u : UsageState) (amount : CostUnits) (at_ : Timestamp) (policy : DecayPolicy) :
    UsageState :=
  let u' := u.touch at_ policy
  { u' with usage := u'.usage.saturatingAdd amount }

def refund (u : UsageState) (amount : CostUnits) (at_ : Timestamp) (policy : DecayPolicy) :
    UsageState :=
  let u' := u.touch at_ policy
  { u' with usage := u'.usage.saturatingSub amount }

def settle (u : UsageState) (adjustment : TrueUp) (at_ : Timestamp) (policy : DecayPolicy) :
    UsageState :=
  match adjustment with
  | .refund amount => u.refund amount at_ policy
  | .surcharge amount => u.charge amount at_ policy

end UsageState

end Coppice.Core
