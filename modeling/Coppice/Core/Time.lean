/-
  Coppice.Core.Time

  Timestamps and durations (`coppice-core/src/time.rs`): microseconds, with
  timestamps confined to years 1 to 9999 and every operation saturating.
-/

import Coppice.Lib.Saturating

namespace Coppice.Core

open Lib

def minMicros : Int := -62135596800000000

def maxMicros : Int := 253402300799999999

theorem minMicros_le_maxMicros : minMicros ≤ maxMicros := by decide

/-- A point in time, in microseconds since the Unix epoch. -/
abbrev Timestamp : Type := Bounded minMicros maxMicros

/-- A signed span of time, in microseconds. -/
abbrev Duration : Type := I64

namespace Duration

def zero : Duration := I64.clamp 0

def ofMicros (micros : Int) : Duration := I64.clamp micros

def ofSecs (seconds : Int) : Duration := I64.clamp (seconds * 1000000)

def asMicros (d : Duration) : Int := d.val

/-- Whole seconds, rounded toward zero. -/
def asSecs (d : Duration) : Int := d.val.tdiv 1000000

def isPositive (d : Duration) : Bool := 0 < d.val

def isNegative (d : Duration) : Bool := d.val < 0

def saturatingAdd (a b : Duration) : Duration := I64.saturatingAdd a b

def saturatingSub (a b : Duration) : Duration := I64.saturatingSub a b

def neg (d : Duration) : Duration := zero.saturatingSub d

end Duration

namespace Timestamp

/-- The timestamp nearest to `micros`. -/
def clamp (micros : Int) : Timestamp := Bounded.clamp minMicros_le_maxMicros micros

def ofMicros (micros : Int) : Option Timestamp :=
  if h : minMicros ≤ micros ∧ micros ≤ maxMicros then some ⟨micros, h⟩ else none

def asMicros (t : Timestamp) : Int := t.val

def unixEpoch : Timestamp := clamp 0

def minValue : Timestamp := ⟨minMicros, by decide⟩

def saturatingAdd (t : Timestamp) (d : Duration) : Timestamp := clamp (t.val + d.val)

def saturatingSub (t : Timestamp) (d : Duration) : Timestamp := t.saturatingAdd d.neg

/-- `later - earlier`; the range of timestamps is far inside that of durations. -/
def durationSince (later earlier : Timestamp) : Duration := I64.clamp (later.val - earlier.val)

theorem val_saturatingAdd (t : Timestamp) (d : Duration) :
    (t.saturatingAdd d).val = max minMicros (min maxMicros (t.val + d.val)) := rfl

theorem saturatingAdd_le {t u : Timestamp} (h : t ≤ u) (d : Duration) :
    t.saturatingAdd d ≤ u.saturatingAdd d := by
  have hval : t.val ≤ u.val := h
  show (t.saturatingAdd d).val ≤ (u.saturatingAdd d).val
  rw [val_saturatingAdd, val_saturatingAdd]
  omega

end Timestamp

end Coppice.Core
