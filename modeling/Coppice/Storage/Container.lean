/-
  Coppice.Storage.Container

  Container framing shared by every durable file: the 16-byte header and the length-
  prefixed, checksummed records.  `Checksum.Lawful` is what the checksum library
  documents.
-/

import Coppice.Lib.Convert
import Coppice.Lib.Frames
import Coppice.Storage.Fs

namespace Coppice.Storage

open Lib List

/-- `crc32c::crc32c` and `crc32c::crc32c_append` -/
structure Checksum where
  crc32c : Bytes → UInt32
  crc32cAppend : UInt32 → Bytes → UInt32

/-- An incremental checksum that starts from zero. -/
structure Checksum.Lawful (c : Checksum) : Prop where
  nil : c.crc32c [] = 0
  append : ∀ a b, c.crc32cAppend (c.crc32c a) b = c.crc32c (a ++ b)

/-! ## Headers -/

def CONTAINER_VERSION : Nat := 1

/-- magic (8) + version (4) + CRC (4) -/
abbrev HEADER_LEN : Nat := 16

/-- `CPC_SNAP` -/
def SNAPSHOT_MAGIC : Bytes := [0x43, 0x50, 0x43, 0x5f, 0x53, 0x4e, 0x41, 0x50]

/-- `CPC_SNPE` -/
def SNAPSHOT_FOOTER_MAGIC : Bytes := [0x43, 0x50, 0x43, 0x5f, 0x53, 0x4e, 0x50, 0x45]

/-- length (4) + CRC32C (4) -/
abbrev RECORD_OVERHEAD : Nat := 8

/-- `{:02x?}` of a byte array -/
def hexBytes (bytes : Bytes) : String :=
  let digits := fun b : UInt8 =>
    String.ofList [Nat.digitChar (b.toNat / 16), Nat.digitChar (b.toNat % 16)]
  "[" ++ ", ".intercalate (bytes.map digits) ++ "]"

/-- The 16-byte container header for a magic. -/
def header (c : Checksum) (magic : Bytes) : Bytes :=
  let head := magic ++ leBytes 4 CONTAINER_VERSION
  head ++ leBytes 4 (c.crc32c head).toNat

def checkHeader (c : Checksum) (path : Path) (bytes magic : Bytes) : Except IoError Unit :=
  if bytes.length < HEADER_LEN then .error (.failStop path 0 "container header truncated")
  else if bytes.take 8 ≠ magic then
    .error (.failStop path 0 ("wrong file-type magic " ++ hexBytes (bytes.take 8) ++
      " (expected " ++ hexBytes magic ++ ")"))
  else if c.crc32c (bytes.take 12) ≠ UInt32.ofNat (leNat (slice bytes 12 16)) then
    .error (.failStop path 0 "container header CRC mismatch")
  else
    let version := leNat (slice bytes 8 12)
    if version ≠ CONTAINER_VERSION then .error (.unsupportedVersion path version)
    else .ok ()

variable {magic payload file : Bytes} {c : Checksum} {offset stop start : Nat}

theorem length_header (c : Checksum) (h : magic.length = 8) :
    (header c magic).length = HEADER_LEN := by
  simp [header, h, HEADER_LEN]

theorem checkHeader_header (c : Checksum) (path : Path) (h : magic.length = 8) (rest : Bytes) :
    checkHeader c path (header c magic ++ rest) magic = .ok () := by
  have hlen : ¬(header c magic ++ rest).length < HEADER_LEN := by
    simp [length_header c h]
  have hmagic : (header c magic ++ rest).take 8 = magic := by
    simp [header, h]
  have hhead : (header c magic ++ rest).take 12 = magic ++ leBytes 4 CONTAINER_VERSION := by
    have h12 : (magic ++ leBytes 4 CONTAINER_VERSION).length = 12 := by simp [h]
    rw [header, append_assoc, ← h12, take_left]
  have hversion : slice (header c magic ++ rest) 8 12 = leBytes 4 CONTAINER_VERSION := by
    rw [header, append_assoc, append_assoc]
    exact slice_append h.symm (by simp)
  have hcrc : slice (header c magic ++ rest) 12 16 =
      leBytes 4 (c.crc32c (magic ++ leBytes 4 CONTAINER_VERSION)).toNat := by
    rw [header, append_assoc]
    exact slice_append (by simp [h]) (by simp)
  rw [checkHeader, if_neg hlen, if_neg (by simp [hmagic]), if_neg (by
    rw [hhead, hcrc, ofNat32_leNat_leBytes]
    simp)]
  rw [hversion, leNat_leBytes (by decide)]
  simp

/-- Only the header itself is looked at. -/
theorem checkHeader_take (c : Checksum) (path : Path) (bytes magic : Bytes)
    (h : HEADER_LEN ≤ bytes.length) :
    checkHeader c path (slice bytes 0 HEADER_LEN) magic = checkHeader c path bytes magic := by
  have hlen : ¬(slice bytes 0 HEADER_LEN).length < HEADER_LEN := by
    simp only [slice, drop_zero, length_take]
    omega
  have hcut k (hk : k ≤ HEADER_LEN) : (slice bytes 0 HEADER_LEN).take k = bytes.take k := by
    rw [slice, drop_zero, take_take, Nat.min_eq_left hk]
  have hslice lo hi (hhi : hi ≤ HEADER_LEN) : slice (slice bytes 0 HEADER_LEN) lo hi = slice bytes
      lo hi := by
    rw [slice, hcut hi hhi, slice]
  unfold checkHeader
  rw [if_neg hlen, if_neg (Nat.not_lt.mpr h), hcut 8 (by decide), hcut 12 (by decide),
    hslice 12 16 (by decide), hslice 8 12 (by decide)]

/-! ## Records -/

/-- One record frame; a length that does not fit its field is a panic. -/
def frameRecord (c : Checksum) (payload : Bytes) : Except IoError Bytes :=
  if payload.length < 2 ^ 32 then .ok (frame c.crc32c payload)
  else .error (.panicked "record payload under 4 GiB")

theorem frameRecord_eq_ok {record : Bytes} :
    frameRecord c payload = .ok record ↔
      payload.length < 2 ^ 32 ∧ frame c.crc32c payload = record := by
  unfold frameRecord
  split_ifs with h
  · rw [Except.ok.injEq]
    exact ⟨fun heq => ⟨h, heq⟩, And.right⟩
  · exact ⟨nofun, fun hx => absurd hx.1 h⟩

/-- The record frame at `offset`: its payload and the offset past the frame.  A sum that
    overflows is past every length. -/
def readRecord (c : Checksum) (path : Path) (bytes : Bytes) (offset : Nat) :
    Except IoError (Bytes × Nat) :=
  let hdrEnd := offset + RECORD_OVERHEAD
  if bytes.length < hdrEnd then .error (.failStop path offset "record frame truncated")
  else
    let len := leNat (slice bytes offset (offset + 4))
    let crcStored := UInt32.ofNat (leNat (slice bytes (offset + 4) hdrEnd))
    let stop := hdrEnd + len
    if bytes.length < stop then .error (.failStop path offset "record payload truncated")
    else
      let payload := slice bytes hdrEnd stop
      if c.crc32c payload ≠ crcStored then
        .error (.failStop path offset "record CRC32C mismatch")
      else .ok (payload, stop)

/-- A frame is read back, whatever surrounds it. -/
theorem readRecord_frame (c : Checksum) (path : Path) (hlt : payload.length < 2 ^ 32)
    (before after : Bytes) :
    readRecord c path (before ++ (frame c.crc32c payload ++ after)) before.length =
      .ok (payload, before.length + (frame c.crc32c payload).length) := by
  have hsplit := splitFrame_frame c.crc32c hlt after
  have hdrop : frame c.crc32c payload ++ after =
      (before ++ (frame c.crc32c payload ++ after)).drop before.length := by
    rw [drop_left]
  rw [hdrop] at hsplit
  generalize before ++ (frame c.crc32c payload ++ after) = bytes at hsplit
  simp only [splitFrame, slice_drop, length_drop, Nat.add_zero] at hsplit
  split_ifs at hsplit with h8 hlen hcrc
  simp only [Option.some.injEq, Prod.mk.injEq] at hsplit
  have hpay := hsplit.1
  rw [not_not] at hcrc
  have hsize := congrArg List.length hpay
  rw [slice, length_drop, length_take] at hsize
  simp only [readRecord, RECORD_OVERHEAD, length_frame]
  rw [if_neg (by omega), if_neg (by omega), Nat.add_assoc, hpay, if_neg (by
    rw [← hcrc, hpay]
    simp)]
  congr 2
  omega

/-! ## Files, by position -/

/-- `FsFile::read_exact_at`; an empty buffer is filled from anywhere. -/
def readExactAt (file : Bytes) (offset n : Nat) : Except IoError Bytes :=
  if n = 0 ∨ offset + n ≤ file.length then .ok (slice file offset (offset + n))
  else .error .unexpectedEof

theorem readExactAt_inside {n : Nat} (h : offset + n ≤ file.length) :
    readExactAt file offset n = .ok (slice file offset (offset + n)) :=
  if_pos (.inr h)

/-- The record frame at a file offset, whose end must not pass `limit`. -/
def readRecordAt (c : Checksum) (path : Path) (file : Bytes) (offset limit : Nat) :
    Except IoError (Bytes × Nat) :=
  if limit < offset + RECORD_OVERHEAD then
    .error (.failStop path offset "record frame truncated")
  else do
    let hdr ← readExactAt file offset RECORD_OVERHEAD
    let len := leNat (slice hdr 0 4)
    let crcStored := UInt32.ofNat (leNat (slice hdr 4 8))
    let stop := offset + RECORD_OVERHEAD + len
    if limit < stop then .error (.failStop path offset "record payload truncated")
    else
      let payload ← readExactAt file (offset + RECORD_OVERHEAD) len
      if c.crc32c payload ≠ crcStored then
        .error (.failStop path offset "record CRC32C mismatch")
      else .ok (payload, stop)

/-- The two readers differ in where the frame may end, and in nothing else. -/
theorem readRecordAt_eq_ok {path : Path} {limit : Nat} (hlimit : limit ≤ file.length) :
    readRecordAt c path file offset limit = .ok (payload, stop) ↔
      readRecord c path file offset = .ok (payload, stop) ∧ stop ≤ limit := by
  unfold readRecordAt readRecord
  by_cases hhdr : limit < offset + RECORD_OVERHEAD
  · rw [if_pos hhdr]
    constructor
    · intro h
      cases h
    · rintro ⟨hok, hstop⟩
      simp only at hok
      split_ifs at hok
      simp only [Except.ok.injEq, Prod.mk.injEq] at hok
      omega
  · rw [if_neg hhdr, readExactAt_inside (by omega)]
    have hlen : slice (slice file offset (offset + RECORD_OVERHEAD)) 0 4 =
        slice file offset (offset + 4) := by
      simp only [slice, drop_zero, take_drop, take_take, RECORD_OVERHEAD]
      rw [Nat.min_eq_left (by omega)]
    have hcrc : slice (slice file offset (offset + RECORD_OVERHEAD)) 4 8 =
        slice file (offset + 4) (offset + RECORD_OVERHEAD) := by
      simp only [slice, take_drop, take_take, drop_drop, RECORD_OVERHEAD]
      rw [Nat.min_self]
    simp only [bind, Except.bind, hlen, hcrc]
    generalize leNat (slice file offset (offset + 4)) = len
    rw [if_neg (show ¬file.length < offset + RECORD_OVERHEAD by omega)]
    by_cases hpay : limit < offset + RECORD_OVERHEAD + len
    · rw [if_pos hpay]
      constructor
      · intro h
        cases h
      · rintro ⟨hok, hstop⟩
        split_ifs at hok
        simp only [Except.ok.injEq, Prod.mk.injEq] at hok
        omega
    · rw [if_neg hpay, readExactAt_inside (by omega),
        if_neg (show ¬file.length < offset + RECORD_OVERHEAD + len by omega)]
      simp only
      split_ifs
      · simp
      · simp only [Except.ok.injEq, Prod.mk.injEq]
        refine ⟨?_, And.left⟩
        rintro ⟨hp, hs⟩
        exact ⟨⟨hp, hs⟩, by omega⟩

/-- The read granularity of the streaming passes, 1 MiB. -/
def FILE_CHUNK : Nat := 1024 * 1024

/-- The loop of `crc_of_range`; its buffer is never empty. -/
def crcLoop (c : Checksum) (file : Bytes) (buf stop at_ : Nat) (crc : UInt32) :
    Except IoError UInt32 :=
  if _h : at_ < stop ∧ 0 < buf then
    let n := min (stop - at_) buf
    match readExactAt file at_ n with
    | .error e => .error e
    | .ok chunk => crcLoop c file buf stop (at_ + n) (c.crc32cAppend crc chunk)
  else .ok crc
termination_by stop - at_

/-- The checksum of the file's bytes in `[start, stop)`, read in chunks. -/
def crcOfRange (c : Checksum) (file : Bytes) (start stop : Nat) : Except IoError UInt32 :=
  crcLoop c file (max (min FILE_CHUNK (stop - start)) 1) stop start 0

/-- What the loop carries is the checksum of the bytes before its position. -/
theorem crcLoop_eq (hc : c.Lawful) {buf at_ : Nat} (hbuf : 0 < buf) (hat : start ≤ at_)
    (hle : at_ ≤ stop) (hstop : stop ≤ file.length) :
    crcLoop c file buf stop at_ (c.crc32c (slice file start at_)) =
      .ok (c.crc32c (slice file start stop)) := by
  induction hn : stop - at_ using Nat.strong_induction_on generalizing at_ with
  | _ n ih =>
    rw [crcLoop]
    by_cases hmore : at_ < stop
    · have hin : at_ + min (stop - at_) buf ≤ file.length := by omega
      simp only [dif_pos (And.intro hmore hbuf), readExactAt_inside hin]
      rw [hc.append, slice_append_slice file hat (by omega)]
      exact ih _ (by omega) (by omega) (by omega) rfl
    · have heq : at_ = stop := by omega
      rw [dif_neg (fun h => hmore h.1), heq]

theorem crcOfRange_eq (hc : c.Lawful) (hle : start ≤ stop) (hstop : stop ≤ file.length) :
    crcOfRange c file start stop = .ok (c.crc32c (slice file start stop)) := by
  have h : crcLoop c file (max (min FILE_CHUNK (stop - start)) 1) stop start
      (c.crc32c (slice file start start)) = .ok (c.crc32c (slice file start stop)) :=
    crcLoop_eq hc (by omega) (Nat.le_refl start) hle hstop
  rw [slice_self, hc.nil] at h
  exact h

end Coppice.Storage
