/-
  Coppice.State.Command

  The replicated commands (`coppice-state/src/command.rs`) and the reasons a
  command is rejected for (`RejectionReason` in `coppice-state/src/lib.rs`).
-/

import Coppice.State.Types

namespace Coppice.State

open Coppice.Core

/-! ## Commands -/

structure SubmitJob where
  job : Job
  multiplier : PriorityMultiplier
  actor : Option Actor
  submittedAt : Timestamp

structure AbortJob where
  job : JobId
  reason : Option String
  actor : Option Actor
  requestedAt : Timestamp

inductive JobMetadataUpdate where
  | replace (metadata : TextMap)
  | patch (set : TextMap) (unset : List String)

structure UpdateJobMetadata where
  job : JobId
  update : JobMetadataUpdate
  actor : Option Actor
  updatedAt : Timestamp

inductive EvictionRule where
  | priority | relocation
  deriving DecidableEq

/-- A running victim, and why it may be taken. -/
structure Eviction where
  allocation : AllocationId
  rule : EvictionRule

/-- The hold a placement asks for. -/
structure AllocationSpec where
  id : AllocationId
  node : NodeId
  requested : Resources

/-- A job to seat under a new attempt. -/
structure Placement where
  job : JobId
  attempt : AttemptId
  group : GroupId
  allocations : List AllocationSpec
  preemptions : List Eviction

/-- A batch of the scheduler. -/
structure CommitPlacements where
  expectedVersion : UInt64
  revocations : List AllocationId
  placements : List Placement
  proposedAt : Timestamp

structure DispatchAttempt where
  attempt : AttemptId
  dispatchedAt : Timestamp

structure RecordAttemptStarted where
  attempt : AttemptId
  observedAt : Timestamp

structure RecordAttemptExited where
  attempt : AttemptId
  observedAt : Timestamp

structure RecordAttemptOutcome where
  attempt : AttemptId
  outcome : AttemptOutcome
  actualRuntime : Duration
  observedAt : Timestamp

structure RecordAttemptNotified where
  attempt : AttemptId
  reason : PreemptReason
  remaining : Duration
  shortfall : Duration
  observedAt : Timestamp

/-- An attempt its node no longer has. -/
structure LostAttempt where
  attempt : AttemptId
  outcome : AttemptOutcome
  actualRuntime : Duration

structure ReconcileNode where
  node : NodeId
  nodeEpoch : Nat
  adopted : List AttemptId
  lost : List LostAttempt
  observedAt : Timestamp

structure RegisterNode where
  node : NodeId
  capacity : Resources
  labels : TextMap
  registeredAt : Timestamp
  serviceAddr : Option String
  hostFacts : Option HostFacts
  detectedCapacity : Option Resources
  draining : Bool
  preemptibleOnly : Bool
  interruptionDeadline : Option Timestamp

structure DeclareNodeLost where
  node : NodeId
  declaredAt : Timestamp

structure SetNodeDrain where
  node : NodeId
  drain : Option Drain
  actor : Option Actor
  updatedAt : Timestamp

structure SetNodeDraining where
  node : NodeId
  draining : Bool
  interruptionDeadline : Option Timestamp
  at_ : Timestamp

structure EvictTerminalJobs where
  jobs : List JobId
  evictedAt : Timestamp

structure EvictNodes where
  nodes : List NodeId
  actor : Option Actor
  evictedAt : Timestamp

structure IntervalRenewal where
  attempt : AttemptId
  paid : Nat

structure RenewIntervalCharges where
  renewals : List IntervalRenewal
  proposedAt : Timestamp

structure ConfigureQuotaEntity where
  entity : QuotaEntityId
  parent : Option QuotaEntityId
  name : String
  quota : CostUnits
  preemptible : Option Bool
  actor : Option Actor
  updatedAt : Timestamp

structure UpdatePolicy where
  policy : PolicyConfig
  actor : Option Actor
  updatedAt : Timestamp

structure UpdateAuthorization where
  bindings : List Binding
  actor : Option Actor
  updatedAt : Timestamp
  groupsClaim : Option String

structure BumpClusterVersion where
  to_ : Nat
  actor : Option Actor
  bumpedAt : Timestamp

structure RecordCaCertificate where
  bundle : CaCertBundle
  stagedRootSerial : Option String
  recordedAt : Timestamp

structure BindMachineIdentity where
  machine : MachineId
  raftNodeId : Nat
  address : String
  boundAt : Timestamp

structure MintEnrollToken where
  token : EnrollTokenId
  hash : String
  role : EnrollRole
  label : String
  expiresAt : Option Timestamp
  mintedAt : Timestamp

structure RevokeEnrollToken where
  token : EnrollTokenId
  revokedAt : Timestamp

structure RevokeIdentity where
  identity : RevokedIdentity
  revokedAt : Timestamp

structure ConfirmKeyPossession where
  raftNodeId : Nat
  confirmedAt : Timestamp

structure RecordEnrolledIdentity where
  machine : MachineId
  recordedAt : Timestamp

structure RebindMachineAddress where
  raftNodeId : Nat
  address : String
  reboundAt : Timestamp

structure RetireMachineBinding where
  machine : MachineId
  retiredAt : Timestamp

structure RecordKeyTransferIntent where
  raftNodeId : Nat
  intendedAt : Timestamp

structure RecordStagedKeyTransferIntent where
  raftNodeId : Nat
  rootSerial : String
  intendedAt : Timestamp

structure ConfirmStagedKeyPossession where
  raftNodeId : Nat
  rootSerial : String
  confirmedAt : Timestamp

/-- What the log holds. -/
inductive Command where
  | submitJob (c : SubmitJob)
  | abortJob (c : AbortJob)
  | updateJobMetadata (c : UpdateJobMetadata)
  | commitPlacements (c : CommitPlacements)
  | dispatchAttempt (c : DispatchAttempt)
  | recordAttemptStarted (c : RecordAttemptStarted)
  | recordAttemptExited (c : RecordAttemptExited)
  | recordAttemptOutcome (c : RecordAttemptOutcome)
  | reconcileNode (c : ReconcileNode)
  | recordAttemptNotified (c : RecordAttemptNotified)
  | registerNode (c : RegisterNode)
  | declareNodeLost (c : DeclareNodeLost)
  | setNodeDrain (c : SetNodeDrain)
  | setNodeDraining (c : SetNodeDraining)
  | evictTerminalJobs (c : EvictTerminalJobs)
  | evictNodes (c : EvictNodes)
  | renewIntervalCharges (c : RenewIntervalCharges)
  | configureQuotaEntity (c : ConfigureQuotaEntity)
  | updatePolicy (c : UpdatePolicy)
  | updateAuthorization (c : UpdateAuthorization)
  | bumpClusterVersion (c : BumpClusterVersion)
  | recordCaCertificate (c : RecordCaCertificate)
  | bindMachineIdentity (c : BindMachineIdentity)
  | mintEnrollToken (c : MintEnrollToken)
  | revokeEnrollToken (c : RevokeEnrollToken)
  | revokeIdentity (c : RevokeIdentity)
  | confirmKeyPossession (c : ConfirmKeyPossession)
  | recordEnrolledIdentity (c : RecordEnrolledIdentity)
  | rebindMachineAddress (c : RebindMachineAddress)
  | retireMachineBinding (c : RetireMachineBinding)
  | recordKeyTransferIntent (c : RecordKeyTransferIntent)
  | recordStagedKeyTransferIntent (c : RecordStagedKeyTransferIntent)
  | confirmStagedKeyPossession (c : ConfirmStagedKeyPossession)

/-- The proposer stamp; every command carries exactly one. -/
def Command.stampedAt : Command → Timestamp
  | .submitJob c => c.submittedAt
  | .abortJob c => c.requestedAt
  | .updateJobMetadata c => c.updatedAt
  | .commitPlacements c => c.proposedAt
  | .dispatchAttempt c => c.dispatchedAt
  | .recordAttemptStarted c => c.observedAt
  | .recordAttemptExited c => c.observedAt
  | .recordAttemptOutcome c => c.observedAt
  | .reconcileNode c => c.observedAt
  | .recordAttemptNotified c => c.observedAt
  | .registerNode c => c.registeredAt
  | .declareNodeLost c => c.declaredAt
  | .setNodeDrain c => c.updatedAt
  | .setNodeDraining c => c.at_
  | .evictTerminalJobs c => c.evictedAt
  | .evictNodes c => c.evictedAt
  | .renewIntervalCharges c => c.proposedAt
  | .configureQuotaEntity c => c.updatedAt
  | .updatePolicy c => c.updatedAt
  | .updateAuthorization c => c.updatedAt
  | .bumpClusterVersion c => c.bumpedAt
  | .recordCaCertificate c => c.recordedAt
  | .bindMachineIdentity c => c.boundAt
  | .mintEnrollToken c => c.mintedAt
  | .revokeEnrollToken c => c.revokedAt
  | .revokeIdentity c => c.revokedAt
  | .confirmKeyPossession c => c.confirmedAt
  | .recordEnrolledIdentity c => c.recordedAt
  | .rebindMachineAddress c => c.reboundAt
  | .retireMachineBinding c => c.retiredAt
  | .recordKeyTransferIntent c => c.intendedAt
  | .recordStagedKeyTransferIntent c => c.intendedAt
  | .confirmStagedKeyPossession c => c.confirmedAt

/-! ## Rejections -/

/-- Why a victim of an eviction group is refused. -/
inductive PreemptionRefusal where
  | duplicate | wrongNode | notActive | notRunning | alreadyTerminating | notPreemptible
  | nodeDraining | notOutranked | notRelocatable | guarded | doesNotFit
  deriving DecidableEq

/-- What an `InvalidPolicy` message says. -/
inductive PolicyFault where
  | decay (e : PolicyError)
  | unboundedRuntimeMultiplierBelowOne (got : PriorityMultiplier)
  | unboundedChargeIntervalNotPositive
  | refundFractionAboveMaximum (got : Nat)
  | preemptibleMultiplierAboveOne (got : PriorityMultiplier)
  | noticeFloorNegative (got : Duration)
  | noticeFloorAboveCap (floor cap : Duration)
  deriving DecidableEq

/-- What an `InvalidAuthorization` message says. -/
inductive AuthorizationFault where
  | emptySubject (index : Nat) (kind : String)
  | emptyGroupsClaim
  deriving DecidableEq

/-- Why a command is refused. -/
inductive RejectionReason where
  | unknownJob (job : JobId)
  | unknownNode (node : NodeId)
  | unknownAttempt (attempt : AttemptId)
  | unknownAllocation (allocation : AllocationId)
  | unknownQuotaEntity (entity : QuotaEntityId)
  | submitSpecMismatch (job : JobId)
  | duplicateAttempt (attempt : AttemptId)
  | duplicateAllocation (allocation : AllocationId)
  | invalidJobMetadata (e : MetadataError)
  | invalidJobEnv (e : EnvError)
  | invalidJobPreemption (e : NoticeError)
  | jobTerminal (job : JobId)
  | jobNotQueued (job : JobId)
  | jobNotTerminal (job : JobId)
  | staleAttemptState (attempt : AttemptId)
  | attemptNotOnNode (attempt : AttemptId) (node : NodeId)
  | allocationNotAccruing (allocation : AllocationId)
  | nodeDraining (node : NodeId)
  | nodeRequiresPreemptible (node : NodeId)
  | drainDeadlineTooSoon (node : NodeId) (minLead : Duration)
  | drainNoticeStarted (node : NodeId) (noticeAt : Timestamp)
  | nodeNotDraining (node : NodeId)
  | invalidPreemption (allocation : AllocationId) (refusal : PreemptionRefusal)
  | nodeNotEmpty (node : NodeId)
  | attemptNotIntervalCharged (attempt : AttemptId)
  | staleNodeEpoch (node : NodeId) (current got : Nat)
  | requestExceedsNodeCapacity (allocation : AllocationId)
  | accrualLimitExceeded (limit : Nat)
  | perNodeAccrualExceeded (node : NodeId)
  | unsupportedPlacementShape
  | quotaEntityTooDeep (entity : QuotaEntityId)
  | quotaEntityImmutable (entity : QuotaEntityId)
  | invalidQuotaEntityName (e : InvalidSegment)
  | quotaEntityNameTaken (name : String) (holder : QuotaEntityId)
  | invalidPolicy (fault : PolicyFault)
  | permissionDenied (denial : Denial)
  | invalidAuthorization (fault : AuthorizationFault)
  | authorizationLockout
  | clusterVersionNotMonotonic (current requested : Nat)
  | machineIdentityConflict (machine : MachineId) (raftNodeId : Nat)
  | machineAddressConflict (machine : MachineId) (raftNodeId : Nat)
  | unknownMachineBinding (raftNodeId : Nat)
  | unknownMachineIdentity (machine : MachineId)
  | machineIdentityRetired (machine : MachineId)
  | duplicateEnrollToken (token : EnrollTokenId)
  | unknownEnrollToken (token : EnrollTokenId)
  | invalidCommand (what : String)
  /-- Per-item diagnostics of a rejected batch: item index and reason. -/
  | invalidBatch (items : List (Nat × RejectionReason))
  | unknownStagedRoot (serial : String)
  | stagedRootMismatch (expected : Option String) (got : String)

/-- One item of a rejected batch. -/
abbrev Rejection : Type := Nat × RejectionReason

end Coppice.State
