/-
  Coppice.Protocol.Messages

  The agent protocol (`proto/coppice/agent/v1/agent.proto`), as far as the
  coordinator's ingestion and the agent's reports use it.  `none` is a field that is
  absent or does not convert.
-/

import Coppice.Core.Types

namespace Coppice.Protocol

open Lib Coppice.Core

/-! ## Reports -/

structure Register where
  capacity : Option Resources
  labels : List (String × String)
  serviceAddr : Option String
  hostFacts : Option HostFacts
  detectedCapacity : Option Resources
  draining : Bool
  preemptibleOnly : Bool
  interruptionDeadlineUs : Option I64
  deriving DecidableEq

structure Heartbeat where
  running : List (Option AllocationId)
  draining : Bool
  interruptionDeadlineUs : Option I64
  drainTargetUs : Option I64
  deriving DecidableEq

structure AttemptStatus where
  attempt : Option AttemptId
  observed : Option AttemptState
  runtimeUs : UInt64
  deriving DecidableEq

structure AttemptNotice where
  attempt : Option AttemptId
  reason : Option PreemptReason
  remainingUs : UInt64
  shortfallUs : UInt64
  deriving DecidableEq

structure ObservedNotice where
  reason : Option PreemptReason
  remainingUs : UInt64
  shortfallUs : UInt64
  deriving DecidableEq

structure ObservedAllocation where
  allocation : Option AllocationId
  attempt : Option AttemptId
  running : Bool
  /-- the inner option is `none` for an outcome that does not convert -/
  outcome : Option (Option AttemptOutcome)
  runtimeUs : UInt64
  notice : Option ObservedNotice
  deriving DecidableEq

structure ObservedSet where
  allocations : List ObservedAllocation
  deriving DecidableEq

inductive ReportBody where
  | register (r : Register)
  | heartbeat (hb : Heartbeat)
  | attemptStatus (status : AttemptStatus)
  | observedSet (set : ObservedSet)
  | attemptNotice (notice : AttemptNotice)
  deriving DecidableEq

structure AgentReport where
  nodeEpoch : Nat
  body : Option ReportBody
  deriving DecidableEq

/-! ## Commands -/

structure PreemptJob where
  allocation : AllocationId
  noticeUs : UInt64
  reason : PreemptReason
  deriving DecidableEq

structure Drain where
  deadlineUs : Option I64
  noticeWindowUs : UInt64
  deriving DecidableEq

/-- The term of the leader that sends a command, and the node's epoch it was sent under. -/
structure FencingToken where
  leaderTerm : UInt64 := 0
  nodeEpoch : UInt64 := 0
  deriving DecidableEq

structure CommandHeader where
  token : Option FencingToken
  commandSeq : UInt64
  deriving DecidableEq

structure StartJob where
  allocation : Option AllocationId
  attempt : Option AttemptId
  job : Option JobId
  image : String
  limits : Option Resources
  maxRuntimeUs : Option UInt64
  command : List String
  entrypoint : Option (List String)
  env : List (String × String)
  attemptIndex : Nat
  /-- the inner option is `none` for an id that does not convert -/
  previousAttempt : Option (Option AttemptId)
  /-- the inner option is `none` for an outcome that does not convert -/
  previousAttemptOutcome : Option (Option AttemptOutcome)
  preemptible : Bool
  noticeSignal : Option NoticeSignal
  noticeUs : UInt64
  abortGraceUs : UInt64
  latestStartUs : Option I64
  drainCleanupMarginUs : UInt64
  deriving DecidableEq

structure StopJob where
  allocation : Option AllocationId
  graceUs : I64
  deriving DecidableEq

/-- `PreemptJob` as it arrives. -/
structure PreemptJobPb where
  allocation : Option AllocationId
  noticeUs : UInt64
  reason : Option PreemptReason
  deriving DecidableEq

inductive CommandBody where
  | startJob (sj : StartJob)
  | stopJob (sp : StopJob)
  | drain (d : Drain)
  | prepareCache (image : String)
  | evictImageHint (imageDigest : String)
  | registerAccepted
  | preemptJob (pj : PreemptJobPb)
  deriving DecidableEq

structure AgentCommand where
  header : Option CommandHeader
  body : Option CommandBody
  deriving DecidableEq

/-- A span as unsigned microseconds, a negative one as zero. -/
def unsignedMicros (d : Duration) : UInt64 := UInt64.ofNat d.asMicros.toNat

end Coppice.Protocol
