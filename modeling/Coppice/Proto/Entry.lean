/-
  Coppice.Proto.Entry

  Raft log entries on disk and on the wire (`coppice-
  consensus/src/storage/raftpb.rs`).  An entry that holds a decoded command always
  converts back.
-/

import Coppice.Proto.RoundTrip
import Mathlib.Data.Nat.Digits.Lemmas

namespace Coppice.Proto

open Coppice.Core State

def ConvertError.text : ConvertError → String
  | .missingField name => "missing required field " ++ name
  | .invalidId name => name ++ " is not a typed `<prefix>-<uuid>` id"
  | .unknownEnum field value => "unknown enum value " ++ toString value ++ " in " ++ field
  | .duplicateEntry name => "duplicate entry in " ++ name
  | .invalid field reason => "invalid " ++ field ++ ": " ++ reason

structure LogId where
  term : Nat
  nodeId : Nat
  index : Nat
  deriving DecidableEq

inductive EntryPayload (M : Type) where
  | blank
  | normal (command : Command)
  | membership (m : M)

structure LogEntry (M : Type) where
  logId : LogId
  payload : EntryPayload M

namespace Pb

structure LeaderId where
  term : Nat
  nodeId : Nat
  deriving DecidableEq

structure LogId where
  leaderId : Option LeaderId
  index : Nat
  deriving DecidableEq

inductive EntryPayload (W : Type) where
  | blank
  | normal (command : Command)
  | membership (m : W)

structure LogEntry (W : Type) where
  logId : Option LogId
  payload : Option (EntryPayload W)

end Pb

/-- The version stamped into every command the log stores. -/
def writtenClusterVersion : Nat := 1

def failStop (path what : String) : String :=
  path ++ " at offset 0: " ++ what ++ "; possibly-committed state is damaged and is never " ++
    "repaired by guesswork — rebuild this replica with `coordinator replace` (ADR 0017)"

section

variable {M W : Type} (L : Libs) (membershipToPb : M → W)
  (membershipFromPb : String → W → Except String M)

def logIdToPb (id : LogId) : Pb.LogId := ⟨some ⟨id.term, id.nodeId⟩, id.index⟩

def logIdFromPb (path : String) (id : Pb.LogId) : Except String LogId :=
  match id.leaderId with
  | none => .error (failStop path "LogId missing leader_id")
  | some leader => .ok ⟨leader.term, leader.nodeId, id.index⟩

def entryToPb (entry : LogEntry M) : Pb.LogEntry W where
  logId := some (logIdToPb entry.logId)
  payload := some <|
    match entry.payload with
    | .blank => .blank
    | .normal command => .normal (commandToPb L command writtenClusterVersion)
    | .membership m => .membership (membershipToPb m)

def payloadFromPb (path : String) (index : Nat) :
    Option (Pb.EntryPayload W) → Except String (EntryPayload M)
  | some .blank => .ok .blank
  | some (.normal command) =>
    match commandFromPb L command with
    | .ok (_, command) => .ok (.normal command)
    | .error e => .error (failStop path
        ("log entry " ++ toString index ++ " command does not convert: " ++ e.text))
  | some (.membership m) => .membership <$> membershipFromPb path m
  | none => .error (failStop path ("log entry " ++ toString index ++ " has no payload"))

def entryFromPb (path : String) (index : Nat) (entry : Pb.LogEntry W) :
    Except String (LogEntry M) :=
  match entry.logId with
  | none => .error (failStop path ("log entry " ++ toString index ++ " missing log_id"))
  | some id => do
      let logId ← logIdFromPb path id
      if logId.index ≠ index then
        throw (failStop path ("log entry claims index " ++ toString logId.index ++
          " but is framed at " ++ toString index))
      let payload ← payloadFromPb L membershipFromPb path index entry.payload
      pure ⟨logId, payload⟩

end

section Decoded

variable {M W : Type} {L : Libs} [L.Lawful]

/-- An entry with a command the wire can carry converts back. -/
theorem entryFromPb_toPb (hc : CommandOnWire L c) (membershipToPb : M → W)
    (membershipFromPb : String → W → Except String M) (path : String) (id : LogId) :
    entryFromPb L membershipFromPb path id.index (entryToPb L membershipToPb ⟨id, .normal c⟩) =
      .ok ⟨id, .normal c⟩ := by
  have hpayload : payloadFromPb L membershipFromPb path id.index
      (entryToPb L membershipToPb ⟨id, .normal c⟩).payload = .ok (.normal c) := by
    simp [payloadFromPb, entryToPb, commandFromPb_toPb hc]
  have hlog : logIdFromPb path (logIdToPb id) = .ok id := rfl
  have hid : (entryToPb L membershipToPb ⟨id, .normal c⟩).logId = some (logIdToPb id) := rfl
  simp only [entryFromPb, hid, hlog, hpayload]
  show (if id.index ≠ id.index then _ else _) = _
  rw [if_neg (not_not.mpr rfl)]
  rfl

/-- A command that was read reads back under any version, alone and as a log entry. -/
theorem command_reencodes {w : Pb.Command} {v : Nat} {c : Command}
    (h : commandFromPb L w = .ok (v, c)) :
    (∀ version, commandFromPb L (commandToPb L c version) = .ok (version, c)) ∧
    ∀ (membershipToPb : M → W) (membershipFromPb : String → W → Except String M)
      (path : String) (id : LogId),
      entryFromPb L membershipFromPb path id.index (entryToPb L membershipToPb ⟨id, .normal c⟩) =
        .ok ⟨id, .normal c⟩ := by
  have hc := commandOnWire_of_commandFromPb h
  exact ⟨commandFromPb_toPb hc, entryFromPb_toPb hc⟩

end Decoded

namespace Sample

/-- The text of a UUID, last digit first: 12, 4, 4, 4 and 8 hex digits. -/
def uuidChars (id : Nat) : List Char :=
  [12, 17, 22, 27].foldl (fun l i => l.insertIdx i '-')
    ((Nat.digitsAppend 16 32 id).map Nat.digitChar)

/-- The number such a text stands for. -/
def uuidValue (text : List Char) : Nat :=
  text.foldr (fun c n => if c = '-' then n else "0123456789abcdef".toList.idxOf c + 16 * n) 0

theorem uuidValue_insertIdx (i : Nat) (l : List Char) :
    uuidValue (l.insertIdx i '-') = uuidValue l := by
  induction i generalizing l with
  | zero => rfl
  | succ i ih =>
    cases l with
    | nil => rfl
    | cons c rest => exact congrArg (fun n => if c = '-' then n else _ + 16 * n) (ih rest)

theorem uuidValue_digits {l : List Nat} (h : ∀ d ∈ l, d < 16) :
    uuidValue (l.map Nat.digitChar) = Nat.ofDigits 16 l := by
  have hone : ∀ d < 16, d.digitChar ≠ '-' ∧ "0123456789abcdef".toList.idxOf d.digitChar = d := by
    decide
  induction l with
  | nil => rfl
  | cons d rest ih =>
    obtain ⟨hd, hrest⟩ := List.forall_mem_cons.mp h
    rw [Nat.ofDigits_cons, ← ih hrest]
    show (if d.digitChar = '-' then _ else _ + 16 * uuidValue (rest.map Nat.digitChar)) = _
    rw [if_neg (hone d hd).1, (hone d hd).2]

theorem uuidValue_uuidChars (id : Nat) : uuidValue (uuidChars id) = id := by
  simp only [uuidChars, List.foldl_cons, List.foldl_nil, uuidValue_insertIdx]
  rw [uuidValue_digits (Nat.lt_of_mem_digitsAppend (by decide) 32), Nat.digitsAppend,
    Nat.ofDigits_append_replicate_zero, Nat.ofDigits_digits]

/-- UUIDs in their hyphenated form, and no certificates. -/
def libs : Libs where
  displayUuid id := String.ofList (uuidChars id).reverse
  parseUuid text :=
    let id := uuidValue text.toList.reverse
    if uuidChars id = text.toList.reverse then some id else none
  certificate _ := none

instance : libs.Lawful := ⟨fun id => by simp [libs, uuidValue_uuidChars]⟩

example : (idToPb libs .node 3).value = "node-00000000-0000-0000-0000-000000000003" := rfl

/-- A registration with its quantities out of order and an empty service address. -/
def registration : Pb.Command :=
  ⟨7, some (.registerNode ⟨some (idToPb libs .node 3), some ⟨[⟨2, 64⟩, ⟨1, 4000⟩]⟩, [],
    micros Timestamp.unixEpoch, some "", none, none, false, false, none⟩)⟩

def registered : Command :=
  .registerNode ⟨3, ⟨4000, 64, 0⟩, .empty, Timestamp.unixEpoch, none, none, none, false, false,
    none⟩

theorem registration_reads : commandFromPb libs registration = .ok (7, registered) := by
  rfl

end Sample

open Sample

/-- The registration is read in canonical form, and that form reads back. -/
theorem command_reencodes_registration :
    commandFromPb libs registration = .ok (7, registered) ∧
      commandFromPb libs (commandToPb libs registered 7) = .ok (7, registered) :=
  ⟨registration_reads, (command_reencodes (M := Unit) (W := Unit) registration_reads).1 7⟩

end Coppice.Proto
