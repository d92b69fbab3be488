/-
  Coppice.Storage.Entries

  The log-entry frames of a segment, and the loop that reads them from an offset on.
  What follows the last whole frame decides how the loop stops: nothing is a clean
  end, and a frame cut short is torn by its length alone.
-/

import Coppice.Storage.SnapshotFile

namespace Coppice.Storage

open Lib List

/-- length (4) + index (8) + term (8) + node (8) + CRC32C (4) -/
abbrev ENTRY_OVERHEAD : Nat := 32

structure FrameLogId where
  index : UInt64
  term : UInt64
  nodeId : UInt64

/-- Append one log-entry frame; a length that does not fit its field is a panic. -/
def frameEntry (c : Checksum) (id : FrameLogId) (payload out : Bytes) : Except IoError Bytes :=
  if payload.length < 2 ^ 32 then
    let out := out ++ leBytes 4 payload.length
    let crc := c.crc32c (leBytes 8 id.index.toNat)
    let crc := c.crc32cAppend crc (leBytes 8 id.term.toNat)
    let crc := c.crc32cAppend crc (leBytes 8 id.nodeId.toNat)
    let crc := c.crc32cAppend crc payload
    .ok (out ++ leBytes 8 id.index.toNat ++ leBytes 8 id.term.toNat ++
      leBytes 8 id.nodeId.toNat ++ leBytes 4 crc.toNat ++ payload)
  else .error (.panicked "entry payload under 4 GiB")

inductive FrameStep where
  | entry (id : FrameLogId) (payload : Bytes) (next : Nat)
  | end_
  | torn

/-- The entry frame at `offset`, if any.  A sum that overflows is past every length. -/
def parseEntry (c : Checksum) (bytes : Bytes) (offset : Nat) : FrameStep :=
  if offset = bytes.length then .end_
  else
    let hdrEnd := offset + ENTRY_OVERHEAD
    if bytes.length < hdrEnd then .torn
    else
      let len := leNat (slice bytes offset (offset + 4))
      let stop := hdrEnd + len
      if bytes.length < stop then .torn
      else
        let field at_ := UInt64.ofNat (leNat (slice bytes at_ (at_ + 8)))
        let id : FrameLogId := ⟨field (offset + 4), field (offset + 12), field (offset + 20)⟩
        let crcStored := UInt32.ofNat (leNat (slice bytes (offset + 28) hdrEnd))
        let payload := slice bytes hdrEnd stop
        let crc := c.crc32c (slice bytes (offset + 4) (offset + 28))
        let crc := c.crc32cAppend crc payload
        if crc ≠ crcStored then .torn
        else .entry id payload stop

variable {c : Checksum} {bytes payload before : Bytes} {offset next : Nat} {id : FrameLogId}
  {entries : List (FrameLogId × Bytes)}

theorem lt_of_parseEntry (h : parseEntry c bytes offset = .entry id payload next) :
    offset < next ∧ next ≤ bytes.length := by
  simp only [parseEntry] at h
  split_ifs at h
  cases h
  simp only [ENTRY_OVERHEAD] at *
  omega

/-- The scan loop: the frames from `offset` on, each with its offset, and the step that ends
    them. -/
def parseFrom (c : Checksum) (bytes : Bytes) (offset : Nat) :
    List (Nat × FrameLogId × Bytes) × FrameStep :=
  match _h : parseEntry c bytes offset with
  | .entry id payload next =>
    let rest := parseFrom c bytes next
    ((offset, id, payload) :: rest.1, rest.2)
  | step => ([], step)
termination_by bytes.length - offset
decreasing_by
  have := lt_of_parseEntry _h
  omega

/-! ## One frame -/

def FrameLogId.leFields (id : FrameLogId) : Bytes :=
  leBytes 8 id.index.toNat ++ (leBytes 8 id.term.toNat ++ leBytes 8 id.nodeId.toNat)

/-- The layout of a frame, with its checksum field. -/
def entryFrame (id : FrameLogId) (payload : Bytes) (crc : UInt32) : Bytes :=
  leBytes 4 payload.length ++ (id.leFields ++ (leBytes 4 crc.toNat ++ payload))

theorem frameEntry_eq_ok (hc : c.Lawful) {out : Bytes} :
    frameEntry c id payload out = .ok bytes ↔ payload.length < 2 ^ 32 ∧
      bytes = out ++ entryFrame id payload (c.crc32c (id.leFields ++ payload)) := by
  unfold frameEntry
  split_ifs with h
  · rw [and_iff_right h, Except.ok.injEq]
    simp [hc.append, entryFrame, FrameLogId.leFields, eq_comm]
  · exact ⟨nofun, fun hx => absurd hx.1 h⟩

theorem length_entryFrame (crc : UInt32) :
    (entryFrame id payload crc).length = 32 + payload.length := by
  simp [entryFrame, FrameLogId.leFields]
  omega

theorem length_frameEntry (hc : c.Lawful) (h : frameEntry c id payload before = .ok bytes) :
    bytes.length = before.length + (32 + payload.length) := by
  rw [((frameEntry_eq_ok hc).mp h).2, length_append, length_entryFrame]

/-- A frame is read back, whatever surrounds it. -/
theorem parseEntry_frame (hc : c.Lawful) (h : frameEntry c id payload before = .ok bytes)
    (after : Bytes) :
    parseEntry c (bytes ++ after) before.length = .entry id payload bytes.length := by
  have hsize := length_frameEntry hc h
  obtain ⟨hlt, rfl⟩ := (frameEntry_eq_ok hc).mp h
  rw [hsize, append_assoc]
  generalize hall : before ++ (entryFrame id payload _ ++ after) = all
  have hlen : leNat (slice all before.length (before.length + 4)) = payload.length := by
    rw [← hall, entryFrame, append_assoc, slice_append rfl (by simp), leNat_leBytes hlt]
  have hpay : slice all (before.length + 32) (before.length + 32 + payload.length) = payload := by
    rw [← hall]
    simp only [entryFrame, ← append_assoc]
    rw [append_assoc]
    exact slice_append (by simp [FrameLogId.leFields]) rfl
  have hfit : before.length + 32 + payload.length ≤ all.length := by
    rw [← hall, ← append_assoc, length_append, hsize]
    omega
  simp only [parseEntry, ENTRY_OVERHEAD, hlen, hpay]
  rw [if_neg (by omega), if_neg (by omega), if_neg (by omega)]
  -- the other fields stand at fixed places
  simp [← hall, entryFrame, FrameLogId.leFields, slice, take_append, drop_append,
    take_of_length_le, drop_of_length_le, Nat.add_assoc, ofNat32_leNat_leBytes,
    ofNat64_leNat_leBytes, hc.append]

/-- A frame cut short is torn, whatever its checksum. -/
theorem parseEntry_torn (c : Checksum) (hlt : payload.length < 2 ^ 32) {crc : UInt32} {torn : Bytes}
    (htorn : torn <+: entryFrame id payload crc) (hne : torn ≠ entryFrame id payload crc)
    (before : Bytes) :
    parseEntry c (before ++ torn) before.length = if torn = [] then .end_ else .torn := by
  have hshort : torn.length < 32 + payload.length := by
    rw [← length_entryFrame crc]
    exact htorn.length_le.lt_of_ne fun h => hne (htorn.eq_of_length h)
  by_cases hnil : torn = []
  · simp [parseEntry, hnil]
  · have hpos := length_pos_of_ne_nil hnil
    rw [if_neg hnil, parseEntry, length_append, if_neg (by omega)]
    simp only [ENTRY_OVERHEAD]
    by_cases hhead : torn.length < 32
    · exact if_pos (by omega)
    · -- the header is whole, so the length it gives is the true one
      have hlen : slice (before ++ torn) before.length (before.length + 4) =
          leBytes 4 payload.length := by
        obtain ⟨rest, hrest⟩ := htorn
        have hcut : (before ++ torn).take (before.length + 4) =
            (before ++ (torn ++ rest)).take (before.length + 4) := by
          rw [← append_assoc before, @take_append_of_le_length _ (before ++ torn)]
          rw [length_append]
          omega
        rw [slice, hcut, hrest, entryFrame]
        exact slice_append rfl (by simp)
      rw [hlen, leNat_leBytes (show payload.length < 256 ^ 4 from hlt)]
      rw [if_neg (by omega), if_pos (by omega)]

/-! ## The scan -/

/-- Entries with the offsets of their frames, the first at `offset`. -/
def located (offset : Nat) : List (FrameLogId × Bytes) → List (Nat × FrameLogId × Bytes)
  | [] => []
  | (id, payload) :: rest =>
    (offset, id, payload) :: located (offset + (ENTRY_OVERHEAD + payload.length)) rest

theorem parseFrom_entry (h : parseEntry c bytes offset = .entry id payload next) :
    parseFrom c bytes offset =
      ((offset, id, payload) :: (parseFrom c bytes next).1, (parseFrom c bytes next).2) := by
  rw [parseFrom]
  split
  · next h' =>
    rw [h] at h'
    cases h'
    rfl
  · next h' => exact absurd h (h' _ _ _)

/-- Framing a list of entries only appends. -/
theorem prefix_of_frames (hc : c.Lawful)
    (hbytes : entries.foldlM (fun out e => frameEntry c e.1 e.2 out) before = .ok bytes) :
    before <+: bytes := by
  induction entries generalizing before with
  | nil =>
    cases hbytes
    exact prefix_rfl
  | cons e rest ih =>
    obtain ⟨out, hout, hrest⟩ := bind_eq_ok.mp hbytes
    rw [((frameEntry_eq_ok hc).mp hout).2] at hrest
    exact (prefix_append ..).trans (ih hrest)

/-- The frames of `entries`, at their place behind `before`. -/
theorem parseFrom_append (hc : c.Lawful)
    (hbytes : entries.foldlM (fun out e => frameEntry c e.1 e.2 out) before = .ok bytes)
    (after : Bytes) :
    parseFrom c (bytes ++ after) before.length =
      (located before.length entries ++ (parseFrom c (bytes ++ after) bytes.length).1,
        (parseFrom c (bytes ++ after) bytes.length).2) := by
  induction entries generalizing before with
  | nil =>
    cases hbytes
    rfl
  | cons e rest ih =>
    obtain ⟨out, hout, hrest⟩ := bind_eq_ok.mp hbytes
    obtain ⟨tail, htail⟩ := prefix_of_frames hc hrest
    have hentry := parseEntry_frame hc hout (tail ++ after)
    rw [← append_assoc, htail] at hentry
    rw [parseFrom_entry hentry, ih hrest, length_frameEntry hc hout]
    rfl

/-- A run of whole frames and a strict initial part of one more: the entries at their offsets,
    then a clean end or a torn frame, as the lengths alone tell; and records are read back. -/
theorem scan_frames (hc : c.Lawful)
    (hbytes : entries.foldlM (fun out e => frameEntry c e.1 e.2 out) [] = .ok bytes)
    {frame torn : Bytes} (hframe : frameEntry c id payload [] = .ok frame) (htorn : torn <+: frame)
    (hne : torn ≠ frame) :
    parseFrom c (bytes ++ torn) 0 = (located 0 entries, if torn = [] then .end_ else .torn) ∧
      (∀ c', parseEntry c' (bytes ++ torn) bytes.length =
        if torn = [] then .end_ else .torn) ∧
      ∀ path payload record before after, frameRecord c payload = .ok record →
        readRecord c path (before ++ (record ++ after)) before.length =
          .ok (payload, before.length + record.length) := by
  obtain ⟨hlt, rfl⟩ := (frameEntry_eq_ok hc).mp hframe
  have hstop : ∀ c', parseEntry c' (bytes ++ torn) bytes.length =
      if torn = [] then .end_ else .torn := fun c' => parseEntry_torn c' hlt htorn hne bytes
  refine ⟨?_, hstop, ?_⟩
  · have hlast : parseFrom c (bytes ++ torn) bytes.length =
        ([], if torn = [] then .end_ else .torn) := by
      rw [parseFrom]
      split
      · next h =>
        rw [hstop] at h
        split_ifs at h
      · rw [hstop]
    have hall := parseFrom_append hc hbytes torn
    rwa [hlast, append_nil] at hall
  · rintro path payload record before after hrecord
    obtain ⟨hlt, rfl⟩ := frameRecord_eq_ok.mp hrecord
    exact readRecord_frame c path hlt before after

/-- Two frames and the first byte of the next. -/
theorem scan_frames_cut :
    let entries := [(⟨1, 1, 1⟩, [7]), (⟨2, 1, 1⟩, [8, 9])]
    ∃ bytes, entries.foldlM (fun out e => frameEntry Sample.crcWire.toChecksum e.1 e.2 out) [] =
        .ok bytes ∧
      parseFrom Sample.crcWire.toChecksum (bytes ++ [0]) 0 =
        ([(0, ⟨1, 1, 1⟩, [7]), (33, ⟨2, 1, 1⟩, [8, 9])], .torn) := by
  intro entries
  exact ⟨_, rfl, (@scan_frames _ _ [] ⟨3, 1, 1⟩ entries Sample.crcWire_lawful.toLawful rfl _ [0] rfl
    ⟨_, rfl⟩ (by decide)).1⟩

end Coppice.Storage
