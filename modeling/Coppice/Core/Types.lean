/-
  Coppice.Core.Types

  Jobs, attempts, allocations and nodes (`job.rs`, `attempt.rs`, `allocation.rs`,
  `node.rs` and `preemption.rs` of `coppice-core`).  Ids are UUIDs in the source, of
  which only order and equality are used.
-/

import Coppice.Core.Quota
import Coppice.Core.Text

namespace Coppice.Core

abbrev JobId : Type := Nat
abbrev NodeId : Type := Nat
abbrev AllocationId : Type := Nat
abbrev AttemptId : Type := Nat
abbrev QuotaEntityId : Type := Nat
abbrev GroupId : Type := Nat

/-! ## Preemption -/

inductive NoticeSignal where
  | sighup | sigint | sigusr1 | sigusr2 | sigterm
  deriving DecidableEq

structure PreemptionSpec where
  preemptible : Bool
  notice : Option Duration
  noticeSignal : NoticeSignal
  deriving DecidableEq

inductive NoticeError where
  | belowFloor (noticeS floorS : Int)
  | aboveCap (noticeS capS : Int)
  deriving DecidableEq

def validateNotice (notice floor cap : Duration) : Except NoticeError Unit :=
  if notice < floor then .error (.belowFloor notice.asSecs floor.asSecs)
  else if cap < notice then .error (.aboveCap notice.asSecs cap.asSecs)
  else .ok ()

def resolveNotice (declared : Option Duration) (floor : Duration) : Duration := declared.getD floor

inductive PreemptReason where
  | priority (forJob : JobId)
  | relocation (forJob : JobId)
  | drain
  | interruption
  deriving DecidableEq

structure Acknowledged where
  notifiedAt : Timestamp
  deadline : Timestamp
  noticeShortfall : Duration
  deriving DecidableEq

structure Preemption where
  reason : PreemptReason
  requestedAt : Timestamp
  acknowledged : Option Acknowledged
  deriving DecidableEq

/-! ## Jobs -/

structure RetryPolicy where
  maxRetries : Nat
  retryUserErrors : Bool
  deriving DecidableEq

structure AbortRequest where
  reason : Option String
  requestedAt : Timestamp
  deriving DecidableEq

structure Job where
  id : JobId
  image : String
  command : List String
  entrypoint : Option (List String)
  env : TextMap
  requests : Resources
  priority : Int
  maxRuntime : Option Duration
  quotaEntity : QuotaEntityId
  retry : RetryPolicy
  abortRequested : Option AbortRequest
  submittedBy : Option String
  metadata : TextMap
  preemption : PreemptionSpec
  deriving DecidableEq

/-- The life of a job. -/
inductive JobState where
  | submitted
  | accepted
  | queued
  | attempting (attempt : AttemptId)
  | succeeded
  | failed
  | aborted
  deriving DecidableEq, Repr

namespace JobState

def isTerminal : JobState → Bool
  | .succeeded | .failed | .aborted => true
  | _ => false

def attempt : JobState → Option AttemptId
  | .attempting a => some a
  | _ => none

def mayTransitionTo : JobState → JobState → Bool
  | .submitted, .accepted | .accepted, .queued => true
  | .queued, .attempting _ => true
  | .attempting _, .succeeded | .attempting _, .failed
  | .attempting _, .aborted | .attempting _, .queued => true
  | .submitted, .aborted | .accepted, .aborted | .queued, .aborted => true
  | _, _ => false

end JobState

/-! ## Attempts -/

/-- How an attempt ended. -/
inductive AttemptOutcome where
  | exited (code : Int)
  | memoryLimitExceeded
  | runtimeLimitExceeded
  | diskLimitExceeded
  | aborted
  | revoked
  | pullFailed (userError : Bool)
  | startFailed (userError : Bool)
  | nodeLost
  | agentError
  | preempted (reason : PreemptReason)
  deriving DecidableEq

/-- Whom an outcome is put down to. -/
inductive OutcomeClass where
  | success | userError | userRequest | platform
  deriving DecidableEq

def AttemptOutcome.class_ : AttemptOutcome → OutcomeClass
  | .exited code => if code = 0 then .success else .userError
  | .memoryLimitExceeded | .runtimeLimitExceeded | .diskLimitExceeded => .userError
  | .aborted => .userRequest
  | .pullFailed userError | .startFailed userError => if userError then .userError else .platform
  | .revoked | .nodeLost | .agentError | .preempted _ => .platform

/-- The life of one try to run a job. -/
inductive AttemptState where
  | accruing
  | ready
  | dispatching
  | running
  | finalizing
  | terminal (outcome : AttemptOutcome)
  deriving DecidableEq

namespace AttemptState

def isTerminal : AttemptState → Bool
  | .terminal _ => true
  | _ => false

def mayTransitionTo (self next : AttemptState) : Bool :=
  if self.isTerminal then false
  else if next.isTerminal then true
  else
    match self, next with
    | .accruing, .ready => true
    | .ready, .dispatching => true
    | .dispatching, .running => true
    | .running, .finalizing => true
    | _, _ => false

end AttemptState

structure Attempt where
  id : AttemptId
  job : JobId
  allocation : AllocationId
  node : NodeId
  state : AttemptState
  deriving DecidableEq

/-! ## Allocations -/

/-- The life of an attempt's hold on a node. -/
inductive AllocationState where
  | accruing | funded | active | released
  deriving DecidableEq, Repr

structure Allocation where
  id : AllocationId
  job : JobId
  attempt : AttemptId
  node : NodeId
  requested : Resources
  funded : Resources
  state : AllocationState
  deriving DecidableEq

/-! ## Nodes -/

structure Drain where
  requestedAt : Timestamp
  deadline : Option Timestamp
  deriving DecidableEq

structure HostFacts where
  os : String
  osVersion : String
  kernelVersion : String
  arch : String
  cpuModel : String
  physicalCores : Nat
  logicalCores : Nat
  totalMemoryBytes : UInt64
  totalDiskBytes : UInt64
  agentVersion : String
  deriving DecidableEq

structure Node where
  id : NodeId
  capacity : Resources
  labels : TextMap
  drain : Option Drain
  serviceAddr : Option String
  hostFacts : Option HostFacts
  detectedCapacity : Option Resources
  preemptibleOnly : Bool
  deriving DecidableEq

end Coppice.Core
