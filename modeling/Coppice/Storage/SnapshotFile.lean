/-
  Coppice.Storage.SnapshotFile

  The snapshot container: header, meta record, sections, section index, and a
  trailer that is written last; assembled in memory or written section by section,
  validated in memory or from a file.  The two validators agree on every byte string
  but those the first accepts with a record that runs over its region.
-/

import Coppice.Storage.Container
import Mathlib.Logic.Equiv.List

namespace Coppice.Storage

open Lib List

/-! ## Messages -/

/-- `coppice.storage.v1.SectionKind`, in the order of its codes -/
inductive SectionKind where
  | unspecified | job | attempt | allocation | node | quotaEntity | clusterState | machineBinding
  | enrollToken | revokedIdentity | keyConfirmation | enrolledIdentity | keyTransferIntent
  deriving DecidableEq, Repr

/-- `coppice.storage.v1.SectionEntry` -/
structure SectionEntry where
  kind : Int
  shard : Nat
  offset : Nat
  length : Nat
  recordCount : Nat
  encoding : String
  compression : Int
  crc32c : UInt32
  deriving DecidableEq, Repr

/-- One section's bytes and what its index entry says of them. -/
structure RawSection where
  kind : SectionKind
  shard : Nat
  encoding : String
  recordCount : Nat
  bytes : Bytes
  deriving DecidableEq, Repr

/-- The checksum library and the protobuf codec of the two framed messages.  The meta record is
    carried and never looked at. -/
structure SnapshotWire (Meta : Type) extends Checksum where
  encodeMeta : Meta → Bytes
  decodeMeta : Bytes → Except String Meta
  encodeIndex : List SectionEntry → Bytes
  decodeIndex : Bytes → Except String (List SectionEntry)

/-- What the libraries document: encodings decode back.  The fields of an entry are `i32`, `u32`
    and `u64` on the wire; any encoding of wider ones extends the codec. -/
structure SnapshotWire.Lawful {Meta : Type} (w : SnapshotWire Meta) : Prop extends
    w.toChecksum.Lawful where
  decode_meta : ∀ m, w.decodeMeta (w.encodeMeta m) = .ok m
  decode_index : ∀ i, w.decodeIndex (w.encodeIndex i) = .ok i

variable {Meta : Type}

/-! ## Assembly -/

/-- index length (4) + total CRC (4) + closing magic (8) -/
abbrev TRAILER_LEN : Nat := 4 + 4 + 8

/-- `COMPRESSION_NONE` -/
def COMPRESSION_NONE : Int := 1

/-- The index entry of a section that starts at an offset. -/
def RawSection.entry (c : Checksum) (s : RawSection) (offset : Nat) : SectionEntry where
  kind := s.kind.ctorIdx
  shard := s.shard
  offset := offset
  length := s.bytes.length
  recordCount := s.recordCount
  encoding := s.encoding
  compression := COMPRESSION_NONE
  crc32c := c.crc32c s.bytes

def trailer (indexLen : Nat) (totalCrc : UInt32) : Bytes :=
  leBytes 4 indexLen ++ (leBytes 4 totalCrc.toNat ++ SNAPSHOT_FOOTER_MAGIC)

def assembleContainer (w : SnapshotWire Meta) (info : Meta) (sections : List RawSection) :
    Except IoError Bytes := do
  let head ← frameRecord w.toChecksum (w.encodeMeta info)
  let (index, out) := sections.foldl
    (fun (index, out) s => (index ++ [s.entry w.toChecksum out.length], out ++ s.bytes))
    ([], header w.toChecksum SNAPSHOT_MAGIC ++ head)
  let indexRecord ← frameRecord w.toChecksum (w.encodeIndex index)
  return out ++ (indexRecord ++ trailer indexRecord.length (w.crc32c out))

/-! ## The streaming writer -/

/-- `FsFile::append`: the file with the data at its end, or an error. -/
abbrev Append := Bytes → Bytes → Except IoError Bytes

def Append.Sound (append : Append) : Prop := ∀ {f d f'}, append f d = .ok f' → f' = f ++ d

structure ContainerWriter where
  file : Bytes
  offset : Nat
  crc : UInt32
  index : List SectionEntry

namespace ContainerWriter

def write (c : Checksum) (append : Append) (writer : ContainerWriter) (bytes : Bytes) :
    Except IoError ContainerWriter := do
  let file ← append writer.file bytes
  return { writer with
    file := file
    crc := c.crc32cAppend writer.crc bytes
    offset := writer.offset + bytes.length }

/-- The header and the meta record. -/
def new (w : SnapshotWire Meta) (append : Append) (info : Meta) :
    Except IoError ContainerWriter := do
  let head ← frameRecord w.toChecksum (w.encodeMeta info)
  write w.toChecksum append ⟨[], 0, 0, []⟩ (header w.toChecksum SNAPSHOT_MAGIC ++ head)

def appendSection (c : Checksum) (append : Append) (writer : ContainerWriter) (s : RawSection) :
    Except IoError ContainerWriter :=
  write c append { writer with index := writer.index ++ [s.entry c writer.offset] } s.bytes

/-- The index record and the trailer. -/
def finish (w : SnapshotWire Meta) (append : Append) (writer : ContainerWriter) :
    Except IoError Bytes := do
  let indexRecord ← frameRecord w.toChecksum (w.encodeIndex writer.index)
  append writer.file (indexRecord ++ trailer indexRecord.length writer.crc)

end ContainerWriter

/-- A whole container through the writer. -/
def writeContainer (w : SnapshotWire Meta) (append : Append) (info : Meta)
    (sections : List RawSection) : Except IoError Bytes := do
  let writer ← ContainerWriter.new w append info
  let writer ← sections.foldlM (ContainerWriter.appendSection w.toChecksum append) writer
  writer.finish w append

/-! ## Validation -/

/-- Closing magic and bounds of the section index: where the index record starts, and the
    total checksum. -/
def readTrailer (path : Path) (len : Nat) (trailer : Bytes) : Except IoError (Nat × UInt32) :=
  if slice trailer 8 16 ≠ SNAPSHOT_FOOTER_MAGIC then
    .error (.failStop path (len - 8)
      "snapshot has no closing magic (truncated write was never completed)")
  else
    let indexLen := leNat (slice trailer 0 4)
    if len < TRAILER_LEN + indexLen ∨ len - (TRAILER_LEN + indexLen) < HEADER_LEN then
      .error (.failStop path 0 "snapshot section index length is out of bounds")
    else .ok (len - (TRAILER_LEN + indexLen), UInt32.ofNat (leNat (slice trailer 4 8)))

/-- A decoding error, as a fail-stop. -/
def decoded {α : Type} (path : Path) (offset : Nat) (what : String) :
    Except String α → Except IoError α
  | .ok a => .ok a
  | .error e => .error (.failStop path offset (what ++ " does not decode: " ++ e))

def SectionEntry.mismatch (path : Path) (entry : SectionEntry) : IoError :=
  .failStop path entry.offset
    s!"section (kind {entry.kind}, shard {entry.shard}) CRC32C mismatch"

/-- One section of a slice. -/
def checkSection (c : Checksum) (path : Path) (bytes : Bytes) (sectionsStart indexStart : Nat)
    (entry : SectionEntry) : Except IoError Unit :=
  if entry.offset < sectionsStart then
    .error (.failStop path entry.offset "section offset out of bounds")
  else
    let stop := entry.offset + entry.length
    if indexStart < stop then
      .error (.failStop path entry.offset "section length out of bounds")
    else if c.crc32c (slice bytes entry.offset stop) ≠ entry.crc32c then
      .error (entry.mismatch path)
    else .ok ()

def validateContainer (w : SnapshotWire Meta) (path : Path) (bytes : Bytes) :
    Except IoError (Meta × List SectionEntry) := do
  checkHeader w.toChecksum path bytes SNAPSHOT_MAGIC
  if bytes.length < HEADER_LEN + TRAILER_LEN then
    .error (.failStop path bytes.length "snapshot truncated before its footer")
  else
    let (indexStart, totalCrc) ←
      readTrailer path bytes.length (bytes.drop (bytes.length - TRAILER_LEN))
    if w.crc32c (bytes.take indexStart) ≠ totalCrc then
      .error (.failStop path 0 "snapshot total CRC32C mismatch")
    else
      let (indexPayload, _) ← readRecord w.toChecksum path bytes indexStart
      let index ← decoded path indexStart "section index" (w.decodeIndex indexPayload)
      let (metaPayload, sectionsStart) ← readRecord w.toChecksum path bytes HEADER_LEN
      let info ← decoded path HEADER_LEN "snapshot meta" (w.decodeMeta metaPayload)
      forM index (checkSection w.toChecksum path bytes sectionsStart indexStart)
      return (info, index)

/-- One section of a file. -/
def checkSectionFile (c : Checksum) (path : Path) (file : Bytes) (sectionsStart indexStart : Nat)
    (entry : SectionEntry) : Except IoError Unit :=
  if entry.offset < sectionsStart then
    .error (.failStop path entry.offset "section offset out of bounds")
  else
    let stop := entry.offset + entry.length
    if indexStart < stop then
      .error (.failStop path entry.offset "section length out of bounds")
    else do
      let crc ← crcOfRange c file entry.offset stop
      if crc ≠ entry.crc32c then .error (entry.mismatch path) else .ok ()

def validateContainerFile (w : SnapshotWire Meta) (path : Path) (file : Bytes) :
    Except IoError (Meta × List SectionEntry) :=
  let len := file.length
  if len < HEADER_LEN + TRAILER_LEN then
    .error (.failStop path len "snapshot truncated before its footer")
  else do
    let hdr ← readExactAt file 0 HEADER_LEN
    checkHeader w.toChecksum path hdr SNAPSHOT_MAGIC
    let tail ← readExactAt file (len - TRAILER_LEN) TRAILER_LEN
    let (indexStart, totalCrc) ← readTrailer path len tail
    let crc ← crcOfRange w.toChecksum file 0 indexStart
    if crc ≠ totalCrc then
      .error (.failStop path 0 "snapshot total CRC32C mismatch")
    else
      let (indexPayload, _) ←
        readRecordAt w.toChecksum path file indexStart (len - TRAILER_LEN)
      let index ← decoded path indexStart "section index" (w.decodeIndex indexPayload)
      let (metaPayload, sectionsStart) ←
        readRecordAt w.toChecksum path file HEADER_LEN indexStart
      let info ← decoded path HEADER_LEN "snapshot meta" (w.decodeMeta metaPayload)
      forM index (checkSectionFile w.toChecksum path file sectionsStart indexStart)
      return (info, index)

/-! ## What is accepted -/

section

variable {w : SnapshotWire Meta} {path : Path} {bytes : Bytes} {info : Meta}
  {index : List SectionEntry} {offset sectionsStart indexStart : Nat} {entry : SectionEntry}

/-- The section lies in the section region and has the checksum of its entry. -/
def SectionEntry.Intact (c : Checksum) (bytes : Bytes) (sectionsStart indexStart : Nat)
    (entry : SectionEntry) : Prop :=
  sectionsStart ≤ entry.offset ∧ entry.offset + entry.length ≤ indexStart ∧
    c.crc32c (slice bytes entry.offset (entry.offset + entry.length)) = entry.crc32c

/-- Everything both validators look for, with the ends of the two records. -/
structure Layout (w : SnapshotWire Meta) (path : Path) (bytes : Bytes) (info : Meta)
    (index : List SectionEntry) (indexStart indexEnd sectionsStart : Nat) : Prop where
  long : HEADER_LEN + TRAILER_LEN ≤ bytes.length
  header : checkHeader w.toChecksum path bytes SNAPSHOT_MAGIC = .ok ()
  trailer : readTrailer path bytes.length (bytes.drop (bytes.length - TRAILER_LEN)) =
    .ok (indexStart, w.crc32c (bytes.take indexStart))
  indexed : ∃ payload, readRecord w.toChecksum path bytes indexStart = .ok (payload, indexEnd) ∧
    w.decodeIndex payload = .ok index
  informed : ∃ payload,
    readRecord w.toChecksum path bytes HEADER_LEN = .ok (payload, sectionsStart) ∧
    w.decodeMeta payload = .ok info
  sections : ∀ e ∈ index, e.Intact w.toChecksum bytes sectionsStart indexStart

theorem ite_error_eq_ok {ε α : Type} {p : Prop} [Decidable p] {e : ε} {x : Except ε α} {a : α} :
    (if p then .error e else x) = Except.ok a ↔ ¬p ∧ x = .ok a := by
  by_cases h : p <;> simp [h]

theorem decoded_eq_ok {α : Type} {what : String} {x : Except String α} {a : α} :
    decoded path offset what x = .ok a ↔ x = .ok a := by
  cases x <;> simp [decoded]

theorem forM_eq_ok {ε α : Type} {l : List α} {f : α → Except ε Unit} {u : Unit} :
    forM l f = .ok u ↔ ∀ x ∈ l, f x = .ok () := by
  induction l with
  | nil => simp [pure, Except.pure]
  | cons x rest ih =>
    rw [forM_cons, bind_eq_ok, forall_mem_cons]
    exact ⟨fun ⟨_, hx, hrest⟩ => ⟨hx, ih.mp hrest⟩, fun ⟨hx, hrest⟩ => ⟨(), hx, ih.mpr hrest⟩⟩

theorem checkSection_eq_ok :
    checkSection w.toChecksum path bytes sectionsStart indexStart entry = .ok () ↔
      entry.Intact w.toChecksum bytes sectionsStart indexStart := by
  simp [checkSection, ite_error_eq_ok, SectionEntry.Intact]

theorem checkSectionFile_eq_ok (hw : w.toChecksum.Lawful) (hin : indexStart ≤ bytes.length) :
    checkSectionFile w.toChecksum path bytes sectionsStart indexStart entry = .ok () ↔
      entry.Intact w.toChecksum bytes sectionsStart indexStart := by
  simp only [checkSectionFile, ite_error_eq_ok, SectionEntry.Intact, Nat.not_lt, bind_eq_ok]
  refine and_congr_right fun _ => and_congr_right fun hstop => ?_
  rw [crcOfRange_eq hw (Nat.le_add_right _ _) (hstop.trans hin)]
  simp

theorem readTrailer_start {len start : Nat} {tail : Bytes} {crc : UInt32}
    (h : readTrailer path len tail = .ok (start, crc)) :
    start = len - (TRAILER_LEN + leNat (slice tail 0 4)) ∧ start + TRAILER_LEN ≤ len := by
  simp only [readTrailer, ite_error_eq_ok, Except.ok.injEq, Prod.mk.injEq] at h
  omega

theorem validateContainer_eq_ok : validateContainer w path bytes = .ok (info, index) ↔
    ∃ indexStart indexEnd sectionsStart,
      Layout w path bytes info index indexStart indexEnd sectionsStart := by
  simp only [validateContainer, bind_eq_ok, ite_error_eq_ok, decoded_eq_ok, forM_eq_ok,
    checkSection_eq_ok, pure, Except.pure, Except.ok.injEq, Prod.mk.injEq, Prod.exists, not_lt,
    ne_eq, not_not]
  constructor
  · rintro ⟨⟨⟩, hhead, hlong, start, crc, htrail, rfl, payload, stop, hrec, i, hi, mpayload,
      sections, hmrec, m, hm, -, hsec, rfl, rfl⟩
    exact ⟨start, stop, sections, hlong, hhead, htrail, ⟨payload, hrec, hi⟩,
      ⟨mpayload, hmrec, hm⟩, hsec⟩
  · rintro ⟨start, stop, sections, hlong, hhead, htrail, ⟨payload, hrec, hi⟩,
      ⟨mpayload, hmrec, hm⟩, hsec⟩
    exact ⟨(), hhead, hlong, start, _, htrail, rfl, payload, stop, hrec, index, hi, mpayload,
      sections, hmrec, info, hm, (), hsec, rfl, rfl⟩

/-- The file validator accepts the same layouts, with both records inside their regions. -/
theorem validateContainerFile_eq_ok (hw : w.toChecksum.Lawful) :
    validateContainerFile w path bytes = .ok (info, index) ↔
      ∃ indexStart indexEnd sectionsStart,
        Layout w path bytes info index indexStart indexEnd sectionsStart ∧
          indexEnd ≤ bytes.length - TRAILER_LEN ∧ sectionsStart ≤ indexStart := by
  by_cases hlong : HEADER_LEN + TRAILER_LEN ≤ bytes.length
  · have hhdr : readExactAt bytes 0 HEADER_LEN = .ok (slice bytes 0 HEADER_LEN) :=
      readExactAt_inside (by omega)
    have htail : readExactAt bytes (bytes.length - TRAILER_LEN) TRAILER_LEN =
        .ok (bytes.drop (bytes.length - TRAILER_LEN)) := by
      rw [readExactAt_inside (by omega), Nat.sub_add_cancel (by omega), slice, take_length]
    have htake := checkHeader_take w.toChecksum path bytes SNAPSHOT_MAGIC (by omega)
    simp only [validateContainerFile, if_neg (Nat.not_lt.mpr hlong), hhdr, htail, bind_eq_ok,
      ite_error_eq_ok, decoded_eq_ok, forM_eq_ok, htake, pure, Except.pure, Except.ok.injEq,
      Prod.mk.injEq, Prod.exists, exists_eq_left', ne_eq, not_not]
    constructor
    · rintro ⟨⟨⟩, hhead, start, crc, htrail, c, hcrc, rfl, payload, stop, hrec, i, hi, mpayload,
        sections, hmrec, m, hm, -, hsec, rfl, rfl⟩
      obtain ⟨-, hstart⟩ := readTrailer_start htrail
      rw [crcOfRange_eq hw (Nat.zero_le _) (by omega), Except.ok.injEq] at hcrc
      obtain ⟨hrec, hstop⟩ := (readRecordAt_eq_ok (by omega)).mp hrec
      obtain ⟨hmrec, hsections⟩ := (readRecordAt_eq_ok (by omega)).mp hmrec
      refine ⟨start, stop, sections, ⟨hlong, hhead, ?_, ⟨payload, hrec, hi⟩,
        ⟨mpayload, hmrec, hm⟩, fun e he => ?_⟩, hstop, hsections⟩
      · rw [htrail, ← hcrc]
        rfl
      · exact (checkSectionFile_eq_ok hw (by omega)).mp (hsec e he)
    · rintro ⟨start, stop, sections, ⟨-, hhead, htrail, ⟨payload, hrec, hi⟩,
        ⟨mpayload, hmrec, hm⟩, hsec⟩, hstop, hsections⟩
      obtain ⟨-, hstart⟩ := readTrailer_start htrail
      refine ⟨(), hhead, start, _, htrail, _, crcOfRange_eq hw (Nat.zero_le _) (by omega), rfl,
        payload, stop, (readRecordAt_eq_ok (by omega)).mpr ⟨hrec, hstop⟩, index, hi, mpayload,
        sections, (readRecordAt_eq_ok (by omega)).mpr ⟨hmrec, hsections⟩, info, hm, (), ?_,
        rfl, rfl⟩
      exact fun e he => (checkSectionFile_eq_ok hw (by omega)).mpr (hsec e he)
  · simp only [validateContainerFile, if_pos (Nat.not_le.mp hlong)]
    constructor
    · intro h
      cases h
    · rintro ⟨_, _, _, hlay, -⟩
      exact absurd hlay.long hlong

/-- Where the trailer says the index record starts. -/
def indexStartOf (bytes : Bytes) : Nat :=
  bytes.length -
    (TRAILER_LEN + leNat (slice (bytes.drop (bytes.length - TRAILER_LEN)) 0 4))

/-- Where the record at an offset says it ends. -/
def recordEnd (bytes : Bytes) (offset : Nat) : Nat :=
  offset + RECORD_OVERHEAD + leNat (slice bytes offset (offset + 4))

/-- The index record ends before the trailer, and the meta record before the index. -/
def RecordsInside (bytes : Bytes) : Prop :=
  recordEnd bytes (indexStartOf bytes) ≤ bytes.length - TRAILER_LEN ∧
    recordEnd bytes HEADER_LEN ≤ indexStartOf bytes

theorem readRecord_end {c : Checksum} {stop : Nat} {payload : Bytes}
    (h : readRecord c path bytes offset = .ok (payload, stop)) : stop = recordEnd bytes offset := by
  simp only [readRecord, ite_error_eq_ok, Except.ok.injEq, Prod.mk.injEq] at h
  exact h.2.2.2.2.symm

theorem Layout.inside_iff (h : Layout w path bytes info index indexStart indexEnd sectionsStart) :
    indexEnd ≤ bytes.length - TRAILER_LEN ∧ sectionsStart ≤ indexStart ↔ RecordsInside bytes := by
  obtain ⟨hstart, -⟩ := readTrailer_start h.trailer
  obtain ⟨payload, hrec, -⟩ := h.indexed
  obtain ⟨mpayload, hmrec, -⟩ := h.informed
  rw [readRecord_end hrec, readRecord_end hmrec, hstart]
  rfl

/-- Of what the first validator accepts, the second accepts what keeps its records apart. -/
theorem validateContainerFile_iff (hw : w.toChecksum.Lawful) (r : Meta × List SectionEntry) :
    validateContainerFile w path bytes = .ok r ↔
      validateContainer w path bytes = .ok r ∧ RecordsInside bytes := by
  obtain ⟨info, index⟩ := r
  rw [validateContainerFile_eq_ok hw, validateContainer_eq_ok]
  constructor
  · rintro ⟨start, stop, sections, hlay, hin⟩
    exact ⟨⟨start, stop, sections, hlay⟩, hlay.inside_iff.mp hin⟩
  · rintro ⟨⟨start, stop, sections, hlay⟩, hin⟩
    exact ⟨start, stop, sections, hlay, hlay.inside_iff.mpr hin⟩

end

/-! ## What is produced -/

section

variable {w : SnapshotWire Meta}

/-- The index entries of sections laid out one after the other from an offset. -/
def sectionEntries (c : Checksum) : Nat → List RawSection → List SectionEntry
  | _, [] => []
  | offset, s :: rest => s.entry c offset :: sectionEntries c (offset + s.bytes.length) rest

section

variable (w : SnapshotWire Meta) (info : Meta) (sections : List RawSection)

/-- Header, meta record and sections. -/
def containerBody : Bytes :=
  header w.toChecksum SNAPSHOT_MAGIC ++ frame w.crc32c (w.encodeMeta info) ++
    sections.flatMap RawSection.bytes

def containerIndex : List SectionEntry :=
  sectionEntries w.toChecksum
    (header w.toChecksum SNAPSHOT_MAGIC ++ frame w.crc32c (w.encodeMeta info)).length sections

end

theorem foldl_sections (c : Checksum) (sections : List RawSection) (index : List SectionEntry)
    (out : Bytes) :
    sections.foldl (fun (index, out) s => (index ++ [s.entry c out.length], out ++ s.bytes))
        (index, out) =
      (index ++ sectionEntries c out.length sections,
        out ++ sections.flatMap RawSection.bytes) := by
  induction sections generalizing index out with
  | nil => simp [sectionEntries]
  | cons s rest ih => simp [ih, sectionEntries]

variable {info : Meta} {sections : List RawSection} {bytes : Bytes}

theorem assembleContainer_eq_ok :
    assembleContainer w info sections = .ok bytes ↔ (w.encodeMeta info).length < 2 ^ 32 ∧
      (w.encodeIndex (containerIndex w info sections)).length < 2 ^ 32 ∧
      bytes = containerBody w info sections ++
        (frame w.crc32c (w.encodeIndex (containerIndex w info sections)) ++
          trailer (frame w.crc32c (w.encodeIndex (containerIndex w info sections))).length
            (w.crc32c (containerBody w info sections))) := by
  simp only [assembleContainer, bind_eq_ok, frameRecord_eq_ok, foldl_sections, pure, Except.pure,
    Except.ok.injEq, nil_append]
  constructor
  · rintro ⟨_, ⟨hm, rfl⟩, _, ⟨hi, rfl⟩, rfl⟩
    exact ⟨hm, hi, rfl⟩
  · rintro ⟨hm, hi, rfl⟩
    exact ⟨_, ⟨hm, rfl⟩, _, ⟨hi, rfl⟩, rfl⟩

/-- A section is where its entry says it is. -/
theorem sectionEntries_intact (c : Checksum) (sections : List RawSection) (before after : Bytes)
    {e : SectionEntry} (he : e ∈ sectionEntries c before.length sections) :
    e.Intact c (before ++ sections.flatMap RawSection.bytes ++ after) before.length
      (before ++ sections.flatMap RawSection.bytes).length := by
  induction sections generalizing before with
  | nil => cases he
  | cons s rest ih =>
    rcases mem_cons.mp he with rfl | he
    · refine ⟨Nat.le_refl _, by simp [RawSection.entry], ?_⟩
      rw [flatMap_cons, append_assoc, append_assoc]
      exact congrArg c.crc32c (slice_append rfl rfl)
    · rw [← length_append] at he
      obtain ⟨hlo, hhi, hcrc⟩ := ih (before ++ s.bytes) he
      rw [append_assoc before] at hhi hcrc
      rw [length_append] at hlo
      exact ⟨by omega, hhi, hcrc⟩

/-- A trailer whose length field does not wrap is read back. -/
theorem readTrailer_trailer (path : Path) {len indexLen : Nat} {crc : UInt32}
    (hlt : indexLen < 2 ^ 32) (hfit : HEADER_LEN + (TRAILER_LEN + indexLen) ≤ len) :
    readTrailer path len (trailer indexLen crc) = .ok (len - (TRAILER_LEN + indexLen), crc) := by
  have hmagic : slice (trailer indexLen crc) 8 16 = SNAPSHOT_FOOTER_MAGIC := by
    have hparts : trailer indexLen crc =
        (leBytes 4 indexLen ++ leBytes 4 crc.toNat) ++ (SNAPSHOT_FOOTER_MAGIC ++ []) := by
      rw [trailer, append_nil, append_assoc]
    rw [hparts]
    exact slice_append (by simp) (by simp [SNAPSHOT_FOOTER_MAGIC])
  have hlen : slice (trailer indexLen crc) 0 4 = leBytes 4 indexLen :=
    slice_append (b := leBytes 4 _) (a := []) rfl (by simp)
  have hcrc : slice (trailer indexLen crc) 4 8 = leBytes 4 crc.toNat :=
    slice_append (by simp) (by simp)
  simp only [readTrailer, hmagic, hlen, hcrc, ofNat32_leNat_leBytes,
    leNat_leBytes (show indexLen < 256 ^ 4 by omega)]
  rw [if_neg (by simp), if_neg (by omega)]

/-- What is assembled has the layout that both validators look for. -/
theorem assembled_layout (hw : w.Lawful) (path : Path)
    (h : assembleContainer w info sections = .ok bytes)
    (hsize : (w.encodeIndex (containerIndex w info sections)).length + RECORD_OVERHEAD < 2 ^ 32) :
    ∃ indexEnd sectionsStart,
      Layout w path bytes info (containerIndex w info sections)
        (containerBody w info sections).length indexEnd sectionsStart ∧
      indexEnd ≤ bytes.length - TRAILER_LEN ∧
      sectionsStart ≤ (containerBody w info sections).length := by
  obtain ⟨hm, hi, rfl⟩ := assembleContainer_eq_ok.mp h
  have hhead : (header w.toChecksum SNAPSHOT_MAGIC).length = HEADER_LEN :=
    length_header w.toChecksum rfl
  -- the parts of the body are where they are looked for, whatever follows it
  have hsplit rest : header w.toChecksum SNAPSHOT_MAGIC ++ (frame w.crc32c (w.encodeMeta info) ++
      (sections.flatMap RawSection.bytes ++ rest)) = containerBody w info sections ++ rest := by
    simp [containerBody]
  have hheader rest := checkHeader_header w.toChecksum path
    (show SNAPSHOT_MAGIC.length = 8 from rfl)
    (frame w.crc32c (w.encodeMeta info) ++ (sections.flatMap RawSection.bytes ++ rest))
  have hmread rest := readRecord_frame w.toChecksum path hm (header w.toChecksum SNAPSHOT_MAGIC)
    (sections.flatMap RawSection.bytes ++ rest)
  have hint rest e (he : e ∈ containerIndex w info sections) : e.Intact w.toChecksum
      (containerBody w info sections ++ rest) (HEADER_LEN +
        (frame w.crc32c (w.encodeMeta info)).length) (containerBody w info sections).length := by
    rw [← hhead, ← length_append]
    exact sectionEntries_intact w.toChecksum sections _ rest he
  have hbody : HEADER_LEN + (frame w.crc32c (w.encodeMeta info)).length ≤
      (containerBody w info sections).length := by
    simp only [containerBody, length_append, hhead]
    omega
  simp only [hsplit, hhead] at hheader hmread
  generalize containerBody w info sections = body at *
  generalize containerIndex w info sections = index at *
  have hread := readRecord_frame w.toChecksum path hi body
  change (frame w.crc32c (w.encodeIndex index)).length < 2 ^ 32 at hsize
  generalize frame w.crc32c (w.encodeIndex index) = ix at *
  have hlen : (trailer ix.length (w.crc32c body)).length = TRAILER_LEN := by
    simp [trailer, SNAPSHOT_FOOTER_MAGIC]
  refine ⟨_, _, ⟨?_, hheader _, ?_, ⟨_, hread _, hw.decode_index index⟩,
    ⟨_, hmread _, hw.decode_meta info⟩, hint _⟩, ?_, hbody⟩
  · simp only [length_append, hlen]
    omega
  · -- the trailer is at the end, and its length field does not wrap
    rw [take_left, ← append_assoc, length_append, hlen, Nat.add_sub_cancel, drop_left,
      readTrailer_trailer path hsize (by rw [length_append]; omega), length_append]
    congr 2
    omega
  · simp only [length_append, hlen]
    omega

/-- The writer that has written `out`. -/
def ContainerWriter.having (c : Checksum) (out : Bytes) (index : List SectionEntry) :
    ContainerWriter :=
  ⟨out, out.length, c.crc32c out, index⟩

variable {append : Append} {out : Bytes} {index : List SectionEntry} {writer : ContainerWriter}

theorem ContainerWriter.write_eq_ok (hc : w.toChecksum.Lawful) (happ : append.Sound)
    (h : write w.toChecksum append (having w.toChecksum out index) bytes = .ok writer) :
    writer = having w.toChecksum (out ++ bytes) index := by
  simp only [write, bind_eq_ok, pure, Except.pure, Except.ok.injEq] at h
  obtain ⟨file, hfile, rfl⟩ := h
  simp [having, happ hfile, hc.append]

theorem ContainerWriter.sections_eq_ok (hc : w.toChecksum.Lawful) (happ : append.Sound)
    (sections : List RawSection)
    (h : sections.foldlM (appendSection w.toChecksum append) (having w.toChecksum out index) =
      .ok writer) :
    writer = having w.toChecksum (out ++ sections.flatMap RawSection.bytes)
      (index ++ sectionEntries w.toChecksum out.length sections) := by
  induction sections generalizing out index with
  | nil =>
    simp only [foldlM_nil, pure, Except.pure, Except.ok.injEq] at h
    rw [← h]
    simp [sectionEntries]
  | cons s rest ih =>
    rw [foldlM_cons, bind_eq_ok] at h
    obtain ⟨mid, hmid, hrest⟩ := h
    have hnext := write_eq_ok hc happ
      (show write w.toChecksum append (having w.toChecksum out
        (index ++ [s.entry w.toChecksum out.length])) s.bytes = .ok mid from hmid)
    rw [hnext] at hrest
    rw [ih hrest]
    simp [sectionEntries]

/-- The writer leaves the bytes that assembly gives. -/
theorem writeContainer_assembles (hw : w.Lawful) (happ : append.Sound)
    (h : writeContainer w append info sections = .ok bytes) :
    assembleContainer w info sections = .ok bytes := by
  have hnil : (⟨[], 0, 0, []⟩ : ContainerWriter) = .having w.toChecksum [] [] := by
    rw [ContainerWriter.having, hw.nil]
    rfl
  simp only [writeContainer, bind_eq_ok, ContainerWriter.new, ContainerWriter.finish, hnil] at h
  obtain ⟨first, ⟨head, hhead, hfirst⟩, last, hlast, record, hrecord, happend⟩ := h
  obtain ⟨hm, rfl⟩ := frameRecord_eq_ok.mp hhead
  rw [ContainerWriter.write_eq_ok hw.toLawful happ hfirst, nil_append] at hlast
  rw [ContainerWriter.sections_eq_ok hw.toLawful happ sections hlast] at hrecord happend
  obtain ⟨hi, rfl⟩ := frameRecord_eq_ok.mp hrecord
  exact assembleContainer_eq_ok.mpr ⟨hm, hi, happ happend⟩

end

/-! ## Agreement -/

/-- The validators agree on a byte string exactly when the in-memory one refuses it or its
    records stay inside their regions.  What the writers produce is accepted by both, with the
    meta and the index that were written, as long as the length of the index record fits its
    field. -/
theorem validators_agree_iff {w : SnapshotWire Meta} (hw : w.Lawful) (path : Path) :
    (∀ bytes, (∀ r, validateContainer w path bytes = .ok r ↔
        validateContainerFile w path bytes = .ok r) ↔
      ((∃ r, validateContainer w path bytes = .ok r) → RecordsInside bytes)) ∧
    ∀ (append : Append), append.Sound → ∀ (info : Meta) (sections : List RawSection) bytes,
      assembleContainer w info sections = .ok bytes ∨
        writeContainer w append info sections = .ok bytes →
      (w.encodeIndex (containerIndex w info sections)).length + RECORD_OVERHEAD < 2 ^ 32 →
      validateContainer w path bytes = .ok (info, containerIndex w info sections) ∧
        validateContainerFile w path bytes = .ok (info, containerIndex w info sections) := by
  constructor
  · intro bytes
    constructor
    · rintro hagree ⟨r, hr⟩
      exact ((validateContainerFile_iff hw.toLawful r).mp ((hagree r).mp hr)).2
    · intro hin r
      rw [validateContainerFile_iff hw.toLawful]
      exact ⟨fun hr => ⟨hr, hin ⟨r, hr⟩⟩, And.left⟩
  · intro append happ info sections bytes hmade hsize
    have hasm : assembleContainer w info sections = .ok bytes :=
      hmade.elim id (writeContainer_assembles hw happ)
    obtain ⟨indexEnd, sectionsStart, hlay, hin⟩ := assembled_layout hw path hasm hsize
    exact ⟨validateContainer_eq_ok.mpr ⟨_, _, _, hlay⟩,
      (validateContainerFile_eq_ok hw.toLawful).mpr ⟨_, _, _, hlay, hin⟩⟩

namespace Sample

/-- The fields of an entry, by number. -/
def fields (e : SectionEntry) : Int × Nat × Nat × Nat × Nat × List Nat × Int × Nat :=
  (e.kind, e.shard, e.offset, e.length, e.recordCount, e.encoding.toList.map Char.toNat,
    e.compression, e.crc32c.toNat)

def ofFields : Int × Nat × Nat × Nat × Nat × List Nat × Int × Nat → SectionEntry
  | (kind, shard, offset, length, count, text, compression, crc) =>
    ⟨kind, shard, offset, length, count, String.ofList (text.map Char.ofNat), compression,
      UInt32.ofNat crc⟩

theorem ofFields_fields (e : SectionEntry) : ofFields (fields e) = e := by
  simp [ofFields, fields, Function.comp_def]

/-- A number, in as many bytes as it needs. -/
def numeral (n : Nat) : Bytes := leBytes (n.log2 / 8 + 1) n

theorem leNat_numeral (n : Nat) : leNat (numeral n) = n := by
  refine leNat_leBytes ((Nat.lt_log2_self (n := n)).trans_le ?_)
  rw [show 256 = 2 ^ 8 from rfl, ← Nat.pow_mul]
  exact Nat.pow_le_pow_right (by decide) (by omega)

/-- A codec that numbers the messages; every byte string is a meta record. -/
def crcWire : SnapshotWire Nat where
  crc32c := Lib.crc32cAppend 0
  crc32cAppend := Lib.crc32cAppend
  encodeMeta := numeral
  decodeMeta bytes := .ok (leNat bytes)
  encodeIndex index := if index = [] then [] else numeral (Encodable.encode (index.map fields))
  decodeIndex bytes :=
    if bytes = [] then .ok []
    else
      match (Encodable.decode (leNat bytes) : Option (List _)) with
      | some index => .ok (index.map ofFields)
      | none => .error "no such index"

theorem crcWire_lawful : crcWire.Lawful where
  nil := rfl
  append := crc32cAppend_append 0
  decode_meta n := congrArg Except.ok (leNat_numeral n)
  decode_index index := by
    by_cases h : index = []
    · simp [crcWire, h]
    · have hne : numeral (Encodable.encode (index.map fields)) ≠ [] := by simp [numeral, leBytes]
      simp [crcWire, h, hne, leNat_numeral, ofFields_fields, Function.comp_def]

/-- The header, then one frame: eight zero bytes behind a length, which is how a meta record
    gives its snapshot id, and which are the record of an empty index.  The trailer puts the
    start of the index at those eight bytes. -/
def overrun : Bytes :=
  let body := header crcWire.toChecksum SNAPSHOT_MAGIC ++
    frame crcWire.crc32c ([0x12, 0x08] ++ frame crcWire.crc32c [])
  body ++ trailer 8 (crcWire.crc32c (body.take 26))

def path : Path := (.snap, .snap "s")

def oneSection : List RawSection := [⟨.job, 0, "", 1, [1, 2, 3]⟩]

end Sample

open Sample

/-- A written section is found again by both validators. -/
theorem validators_agree_iff_one : ∃ bytes,
    assembleContainer crcWire 7 oneSection = .ok bytes ∧
      validateContainer crcWire path bytes = .ok (7, containerIndex crcWire 7 oneSection) ∧
      validateContainerFile crcWire path bytes = .ok (7, containerIndex crcWire 7 oneSection) := by
  have hsize : (crcWire.encodeIndex
      (containerIndex crcWire 7 oneSection)).length + RECORD_OVERHEAD < 2 ^ 32 := by
    decide +kernel
  have hasm := assembleContainer_eq_ok.mpr ⟨show (crcWire.encodeMeta 7).length < 2 ^ 32 by
    decide +kernel, (Nat.le_add_right _ _).trans_lt hsize, rfl⟩
  exact ⟨_, hasm, (validators_agree_iff crcWire_lawful path).2
    (fun f d => .ok (f ++ d)) (fun h => (Except.ok.inj h).symm) 7 oneSection _ (.inl hasm)
    hsize⟩

/-- The in-memory validator accepts a meta record that runs over the index record; the file
    validator refuses it. -/
theorem overrun_disagrees :
    crcWire.Lawful ∧ (∃ m, validateContainer crcWire path overrun = .ok (m, [])) ∧
      ∀ r, validateContainerFile crcWire path overrun ≠ .ok r := by
  refine ⟨crcWire_lawful, ⟨2066, by decide +kernel⟩, fun r hr => ?_⟩
  have hin := ((validateContainerFile_iff crcWire_lawful.toLawful r).mp hr).2
  exact absurd hin.2 (by decide +kernel)

end Coppice.Storage
