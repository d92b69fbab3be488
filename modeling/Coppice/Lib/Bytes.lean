/-
  Coppice.Lib.Bytes

  Byte strings: the sub-range of a concatenation, little-endian integers of a fixed
  width, and the checksum CRC-32C.
-/

import Coppice.Lib.Disk

namespace Coppice.Lib

open List

/-- The bytes at positions `lo ≤ k < hi`. -/
def slice (bytes : Bytes) (lo hi : Nat) : Bytes := (bytes.take hi).drop lo

/-- The middle part of a concatenation, by its position. -/
theorem slice_append {a b c : Bytes} {lo hi : Nat} (hlo : lo = a.length)
    (hhi : hi = lo + b.length) : slice (a ++ (b ++ c)) lo hi = b := by
  subst hlo hhi
  simp [slice, ← append_assoc]

theorem slice_drop (bytes : Bytes) (k lo hi : Nat) :
    slice (bytes.drop k) lo hi = slice bytes (k + lo) (k + hi) := by
  rw [slice, slice, take_drop, drop_drop]

/-- Two neighbouring ranges. -/
theorem slice_append_slice (bytes : Bytes) {lo mid hi : Nat} (hlo : lo ≤ mid) (hhi : mid ≤ hi) :
    slice bytes lo mid ++ slice bytes mid hi = slice bytes lo hi := by
  have hmid : bytes.take mid = (bytes.take hi).take mid := by
    rw [take_take, Nat.min_eq_left hhi]
  have hskip : (bytes.take hi).drop mid = ((bytes.take hi).drop lo).drop (mid - lo) := by
    rw [drop_drop, Nat.add_sub_cancel' hlo]
  have hcut : ((bytes.take hi).take mid).drop lo = ((bytes.take hi).drop lo).take (mid - lo) := by
    rw [drop_take]
  rw [slice, slice, slice, hmid, hskip, hcut, take_append_drop]

@[simp] theorem slice_self (bytes : Bytes) (k : Nat) : slice bytes k k = [] :=
  drop_eq_nil_of_le (length_take_le k bytes)

/-- The `width` low bytes of `n`, least significant first. -/
def leBytes : Nat → Nat → Bytes
  | 0, _ => []
  | width + 1, n => UInt8.ofNat n :: leBytes width (n / 256)

/-- The number a little-endian byte string stands for. -/
def leNat : Bytes → Nat
  | [] => 0
  | b :: rest => b.toNat + 256 * leNat rest

@[simp] theorem length_leBytes (width n : Nat) : (leBytes width n).length = width := by
  induction width generalizing n with
  | zero => rfl
  | succ width ih => simp [leBytes, ih]

theorem leNat_leBytes {width n : Nat} (h : n < 256 ^ width) : leNat (leBytes width n) = n := by
  induction width generalizing n with
  | zero =>
    have hn : n = 0 := by simpa using h
    simp [leBytes, leNat, hn]
  | succ width ih =>
    have hdiv : n / 256 < 256 ^ width := by
      rw [Nat.div_lt_iff_lt_mul (by decide)]
      simpa [Nat.pow_succ] using h
    have hbyte : (UInt8.ofNat n).toNat = n % 256 := by simp
    rw [leBytes, leNat, ih hdiv, hbyte]
    omega

theorem ofNat32_leNat_leBytes (x : UInt32) : UInt32.ofNat (leNat (leBytes 4 x.toNat)) = x := by
  have hlt : x.toNat < 256 ^ 4 := by simpa using x.toNat_lt
  rw [leNat_leBytes hlt, UInt32.ofNat_toNat]

theorem ofNat64_leNat_leBytes (x : UInt64) : UInt64.ofNat (leNat (leBytes 8 x.toNat)) = x := by
  have hlt : x.toNat < 256 ^ 8 := by simpa using x.toNat_lt
  rw [leNat_leBytes hlt, UInt64.ofNat_toNat]

/-! ## CRC-32C -/

/-- One bit of the reflected Castagnoli division. -/
def crcBit (crc : UInt32) : UInt32 :=
  if crc &&& 1 = 0 then crc >>> 1 else (crc >>> 1) ^^^ 0x82F63B78

/-- The checksum of some bytes, continued from that of the bytes before them. -/
def crc32cAppend (crc : UInt32) (bytes : Bytes) : UInt32 :=
  bytes.foldl (fun crc byte => Nat.repeat crcBit 8 ((crc ^^^ byte.toUInt32) &&& 0xFF) ^^^ crc >>> 8)
    (crc ^^^ 0xFFFFFFFF) ^^^ 0xFFFFFFFF

theorem crc32cAppend_append (crc : UInt32) (a b : Bytes) :
    crc32cAppend (crc32cAppend crc a) b = crc32cAppend crc (a ++ b) := by
  simp only [crc32cAppend, foldl_append, UInt32.xor_assoc, UInt32.xor_self, UInt32.xor_zero]

-- the check value of the standard, of the digits from one to nine
example : crc32cAppend 0 "123456789".toUTF8.toList = 0xE3069283 := by decide +kernel

end Coppice.Lib
