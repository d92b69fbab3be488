/-
  Coppice.Agent.Journal

  The agent's durable journal (`coppice-agent/src/journal.rs`): the records, the
  state they fold to, the framing, recovery with its compaction rewrite, and the
  fsynced append.  `Entry` is what the session hands over, `JournalRecord` the
  protobuf message (`journal.proto`); the encoding and the checksum are the fields
  of `JournalWire`.
-/

import Coppice.Agent.Executor
import Coppice.Lib.Frames
import Coppice.Storage.Fs

namespace Coppice.Agent

open Lib Coppice.Core Storage

/-! ## Records and the state -/

@[ext]
structure Watermark where
  leaderTerm : UInt64 := 0
  nodeEpoch : UInt64 := 0
  deriving DecidableEq

structure IntentRec where
  allocation : AllocationId
  attempt : AttemptId
  job : JobId
  nodeEpoch : UInt64
  maxRuntime : Option Duration
  noticeSignal : NoticeSignal
  notice : Duration
  abortGrace : Duration
  cleanupMargin : Duration
  deriving DecidableEq

inductive TombstoneReason where
  | abort
  | preempt (reason : PreemptReason)
  deriving DecidableEq

def TombstoneReason.outcome : TombstoneReason → AttemptOutcome
  | .abort => .aborted
  | .preempt reason => .preempted reason

structure NoticeMarkRec where
  stopAt : Timestamp
  shortfall : Duration
  notifiedAt : Timestamp
  deriving DecidableEq

structure OperatorDrain where
  deadline : Timestamp
  noticeWindow : Duration
  deriving DecidableEq

structure DrainPlanRec where
  operator : Option OperatorDrain := none
  interruption : Option Timestamp := none
  deriving DecidableEq

def DrainPlanRec.isEmpty (plan : DrainPlanRec) : Bool :=
  plan.operator.isNone && plan.interruption.isNone

structure ExitRec where
  allocation : AllocationId
  attempt : AttemptId
  job : JobId
  outcome : AttemptOutcome
  runtime : Duration
  deriving DecidableEq

/-- What a journal folds to. -/
structure JournalState where
  watermark : Watermark := {}
  intents : OrdMap AllocationId IntentRec := .empty
  tombstones : OrdMap AllocationId TombstoneReason := .empty
  exits : OrdMap AllocationId ExitRec := .empty
  noticeIntents : OrdMap AllocationId PreemptReason := .empty
  marks : OrdMap AllocationId NoticeMarkRec := .empty
  plan : DrainPlanRec := {}
  deriving DecidableEq

def JournalState.attribution (s : JournalState) (allocation : AllocationId) : Attribution where
  kill := (s.tombstones.get? allocation).map TombstoneReason.outcome
  notice := s.noticeIntents.get? allocation

/-- A record as the session hands it to the journal. -/
inductive Entry where
  | fencing (watermark : Watermark)
  | intent (rec : IntentRec)
  | tombstone (allocation : AllocationId) (reason : TombstoneReason)
  | noticeIntent (allocation : AllocationId) (reason : PreemptReason)
  | noticeMark (allocation : AllocationId) (mark : NoticeMarkRec)
  | drainPlan (plan : DrainPlanRec)
  | exit (rec : ExitRec)
  deriving DecidableEq

/-! ## Messages -/

/-- `StartIntent`; `none` is a field that is absent or does not convert. -/
structure StartIntent where
  allocation : Option AllocationId
  attempt : Option AttemptId
  job : Option JobId
  nodeEpoch : UInt64
  maxRuntimeUs : Option UInt64
  noticeSignal : Option NoticeSignal
  noticeUs : UInt64
  abortGraceUs : UInt64
  drainCleanupMarginUs : UInt64
  deriving DecidableEq

/-- `TombstoneReason`; an inner `none` is a reason that does not convert. -/
inductive TombstoneReasonPb where
  | missing
  | abort
  | preempt (reason : Option (Option PreemptReason))
  deriving DecidableEq

structure NoticeMark where
  allocation : Option AllocationId
  stopAtUs : I64
  shortfallUs : UInt64
  notifiedAtUs : I64
  deriving DecidableEq

structure DrainPlan where
  operatorDeadlineUs : Option I64
  noticeWindowUs : UInt64
  interruptionDeadlineUs : Option I64
  deriving DecidableEq

structure ObservedExit where
  allocation : Option AllocationId
  attempt : Option AttemptId
  job : Option JobId
  /-- the inner option is `none` for an outcome that does not convert -/
  outcome : Option (Option AttemptOutcome)
  runtimeUs : UInt64
  deriving DecidableEq

inductive RecordBody where
  | fencing (leaderTerm nodeEpoch : UInt64)
  | startIntent (intent : StartIntent)
  | tombstone (allocation : Option AllocationId) (reason : TombstoneReasonPb)
  | observedExit (exit : ObservedExit)
  | noticeIntent (allocation : Option AllocationId) (reason : Option PreemptReason)
  | noticeMark (mark : NoticeMark)
  | drainPlan (plan : DrainPlan)
  deriving DecidableEq

structure JournalRecord where
  body : Option RecordBody
  deriving DecidableEq

/-! ## Folding a record into the state -/

def corrupt (msg : String) : IoError := .invalidData ("corrupt journal: " ++ msg)

/-- A field that must be present and convert. -/
def require {α : Type} (value : Option α) (field : String) : Except IoError α :=
  match value with
  | some a => .ok a
  | none => .error (corrupt field)

def tryDuration (micros : UInt64) (field : String) : Except IoError Duration :=
  if (micros.toNat : Int) ≤ i64Max then .ok (Duration.ofMicros micros.toNat)
  else .error (corrupt field)

def tryTimestamp (micros : I64) (field : String) : Except IoError Timestamp :=
  require (Timestamp.ofMicros micros.val) field

def tombstoneReasonFromPb : TombstoneReasonPb → Except IoError TombstoneReason
  | .missing => .error (corrupt "AllocationTombstone.reason missing")
  | .abort => .ok .abort
  | .preempt none => .error (corrupt "TombstoneReason.preempt.reason missing")
  | .preempt (some none) => .error (corrupt "TombstoneReason.preempt.reason invalid")
  | .preempt (some (some reason)) => .ok (.preempt reason)

def startIntentFromPb (si : StartIntent) : Except IoError IntentRec := do
  let allocation ← require si.allocation "StartIntent.allocation"
  let attempt ← require si.attempt "StartIntent.attempt"
  let job ← require si.job "StartIntent.job"
  let noticeSignal ← require si.noticeSignal "StartIntent.notice_signal"
  let notice ← tryDuration si.noticeUs "StartIntent.notice_us"
  let abortGrace ← tryDuration si.abortGraceUs "StartIntent.abort_grace_us"
  let cleanupMargin ← tryDuration si.drainCleanupMarginUs "StartIntent.drain_cleanup_margin_us"
  return {
    allocation := allocation
    attempt := attempt
    job := job
    nodeEpoch := si.nodeEpoch
    -- a bound past the range saturates
    maxRuntime := si.maxRuntimeUs.map fun us => Duration.ofMicros us.toNat
    noticeSignal := noticeSignal
    notice := notice
    abortGrace := abortGrace
    cleanupMargin := cleanupMargin }

def outcomeFromPb (outcome : Option (Option AttemptOutcome)) : Except IoError AttemptOutcome := do
  let outcome ← require outcome "ObservedExit.outcome missing"
  require outcome "ObservedExit.outcome invalid"

def observedExitFromPb (e : ObservedExit) : Except IoError ExitRec := do
  let allocation ← require e.allocation "ObservedExit.allocation"
  let attempt ← require e.attempt "ObservedExit.attempt"
  let job ← require e.job "ObservedExit.job"
  let outcome ← outcomeFromPb e.outcome
  let runtime ← tryDuration e.runtimeUs "ObservedExit.runtime_us"
  return ⟨allocation, attempt, job, outcome, runtime⟩

def noticeMarkFromPb (m : NoticeMark) : Except IoError NoticeMarkRec := do
  let stopAt ← tryTimestamp m.stopAtUs "NoticeMark.stop_at_us"
  let shortfall ← tryDuration m.shortfallUs "NoticeMark.shortfall_us"
  let notifiedAt ← tryTimestamp m.notifiedAtUs "NoticeMark.notified_at_us"
  return ⟨stopAt, shortfall, notifiedAt⟩

def operatorFromPb (p : DrainPlan) : Except IoError (Option OperatorDrain) :=
  match p.operatorDeadlineUs with
  | none => .ok none
  | some us => do
      let deadline ← tryTimestamp us "DrainPlan.operator_deadline_us"
      let noticeWindow ← tryDuration p.noticeWindowUs "DrainPlan.notice_window_us"
      return some ⟨deadline, noticeWindow⟩

def interruptionFromPb (p : DrainPlan) : Except IoError (Option Timestamp) :=
  match p.interruptionDeadlineUs with
  | none => .ok none
  | some us => some <$> tryTimestamp us "DrainPlan.interruption_deadline_us"

def drainPlanFromPb (p : DrainPlan) : Except IoError DrainPlanRec := do
  let operator ← operatorFromPb p
  let interruption ← interruptionFromPb p
  return ⟨operator, interruption⟩

def JournalState.applyRecord (s : JournalState) (rec : JournalRecord) :
    Except IoError JournalState :=
  match rec.body with
  -- an empty record carries no information
  | none => .ok s
  | some (.fencing leaderTerm nodeEpoch) =>
    .ok { s with
      watermark := ⟨max s.watermark.leaderTerm leaderTerm, max s.watermark.nodeEpoch nodeEpoch⟩ }
  | some (.startIntent si) => do
      let intent ← startIntentFromPb si
      return { s with intents := s.intents.insert intent.allocation intent }
  | some (.tombstone allocation reason) => do
      let allocation ← require allocation "AllocationTombstone.allocation"
      let reason ← tombstoneReasonFromPb reason
      return { s with tombstones := s.tombstones.insert allocation reason }
  | some (.observedExit e) => do
      let exit ← observedExitFromPb e
      return { s with exits := s.exits.insert exit.allocation exit }
  | some (.noticeIntent allocation reason) => do
      let allocation ← require allocation "NoticeIntent.allocation"
      let reason ← require reason "NoticeIntent.reason"
      return { s with noticeIntents := s.noticeIntents.insert allocation reason }
  | some (.noticeMark m) => do
      let allocation ← require m.allocation "NoticeMark.allocation"
      let mark ← noticeMarkFromPb m
      return { s with marks := s.marks.insert allocation mark }
  | some (.drainPlan p) => do
      let plan ← drainPlanFromPb p
      return { s with plan := plan }

/-! ## Writing records -/

/-- A span as unsigned microseconds: a negative one as zero. -/
def microsOrZero (d : Duration) : UInt64 := UInt64.ofNat d.asMicros.toNat

/-- A span cast to unsigned microseconds: a negative one wraps around. -/
def microsCast (d : Duration) : UInt64 := UInt64.ofInt d.asMicros

def timestampUs (t : Timestamp) : I64 := I64.clamp t.asMicros

def recordIntent (intent : IntentRec) : JournalRecord where
  body := some (.startIntent {
    allocation := some intent.allocation
    attempt := some intent.attempt
    job := some intent.job
    nodeEpoch := intent.nodeEpoch
    maxRuntimeUs := intent.maxRuntime.map microsOrZero
    noticeSignal := some intent.noticeSignal
    noticeUs := microsOrZero intent.notice
    abortGraceUs := microsOrZero intent.abortGrace
    drainCleanupMarginUs := microsOrZero intent.cleanupMargin })

def recordTombstone (allocation : AllocationId) (reason : TombstoneReason) : JournalRecord where
  body := some (.tombstone (some allocation)
    (match reason with
      | .abort => .abort
      | .preempt reason => .preempt (some (some reason))))

def recordNoticeIntent (allocation : AllocationId) (reason : PreemptReason) : JournalRecord where
  body := some (.noticeIntent (some allocation) (some reason))

def recordNoticeMark (allocation : AllocationId) (mark : NoticeMarkRec) : JournalRecord where
  body := some (.noticeMark {
    allocation := some allocation
    stopAtUs := timestampUs mark.stopAt
    shortfallUs := microsOrZero mark.shortfall
    notifiedAtUs := timestampUs mark.notifiedAt })

def recordDrainPlan (plan : DrainPlanRec) : JournalRecord where
  body := some (.drainPlan {
    operatorDeadlineUs := plan.operator.map fun o => timestampUs o.deadline
    noticeWindowUs := (plan.operator.map fun o => microsOrZero o.noticeWindow).getD 0
    interruptionDeadlineUs := plan.interruption.map timestampUs })

def recordExit (exit : ExitRec) : JournalRecord where
  body := some (.observedExit {
    allocation := some exit.allocation
    attempt := some exit.attempt
    job := some exit.job
    outcome := some (some exit.outcome)
    runtimeUs := microsCast exit.runtime })

def recordFencing (watermark : Watermark) : JournalRecord where
  body := some (.fencing watermark.leaderTerm watermark.nodeEpoch)

def Entry.record : Entry → JournalRecord
  | .fencing watermark => recordFencing watermark
  | .intent rec => recordIntent rec
  | .tombstone allocation reason => recordTombstone allocation reason
  | .noticeIntent allocation reason => recordNoticeIntent allocation reason
  | .noticeMark allocation mark => recordNoticeMark allocation mark
  | .drainPlan plan => recordDrainPlan plan
  | .exit rec => recordExit rec

/-- The live set, in a fixed order; an empty plan is simply absent. -/
def JournalState.canonicalRecords (s : JournalState) : List JournalRecord :=
  recordFencing s.watermark ::
    (s.intents.values.map recordIntent ++
      (s.tombstones.entries.map (fun e => recordTombstone e.1 e.2) ++
        (s.noticeIntents.entries.map (fun e => recordNoticeIntent e.1 e.2) ++
          (s.marks.entries.map (fun e => recordNoticeMark e.1 e.2) ++
            ((if s.plan.isEmpty then [] else [recordDrainPlan s.plan]) ++
              s.exits.values.map recordExit)))))

/-! ## The file -/

/-- The checksum and the protobuf encoding of records. -/
structure JournalWire where
  crc32c : Bytes → UInt32
  encode : JournalRecord → Bytes
  decode : Bytes → Option JournalRecord

variable (w : JournalWire)

def encodeFrame (rec : JournalRecord) : Bytes := frame w.crc32c (w.encode rec)

def encodeRecords (records : List JournalRecord) : Bytes :=
  records.flatMap (encodeFrame w)

def applyPayload (s : JournalState) (payload : Bytes) : Except IoError JournalState :=
  match w.decode payload with
  | none => .error (corrupt "undecodable CRC-valid frame")
  | some rec => s.applyRecord rec

/-- Every intact frame, up to the first torn, short or CRC-failing one. -/
def scanFrames (bytes : Bytes) : Except IoError JournalState :=
  (frames w.crc32c bytes).foldlM (applyPayload w) {}

def JOURNAL : Name := .other "journal"

def JOURNAL_TMP : Name := .other "journal.tmp"

def journalPath : Path := (.root, JOURNAL)

/-- Take the data directory's lock ahead of recovery. -/
def lockDataDir : Fs Unit := Fs.lock (.root, .lock)

/-- The state in the file, or the empty one. -/
def loadJournal : Fs JournalState := do
  if ← Fs.exists journalPath then
    let bytes ← readToVec journalPath
    Eff.ofExcept (scanFrames w bytes)
  else
    return {}

/-- Recover, rewrite the live set atomically, and reopen for append. -/
def openLocked : Fs (Nat × JournalState) := do
  let state ← loadJournal w
  writeAtomic .root JOURNAL JOURNAL_TMP (encodeRecords w state.canonicalRecords)
  let file ← Fs.openAppend journalPath
  return (file, state)

def openJournal : Fs (Nat × JournalState) := do
  lockDataDir
  openLocked w

/-- Append one record and fsync before returning. -/
def appendEntry (file : Nat) (entry : Entry) : Fs Unit := do
  Fs.append file (encodeFrame w entry.record)
  Fs.syncData file

end Coppice.Agent
