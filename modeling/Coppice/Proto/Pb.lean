/-
  Coppice.Proto.Pb

  The wire messages a command is built from (`proto/coppice/core/v1` and
  `proto/coppice/command/v1/command.proto`), as the generated code has them: a
  message field is optional, an enumeration is its number, a `oneof` is an optional
  choice, an arm with at most one field is that field.
-/

import Coppice.State.Command

namespace Coppice.Proto.Pb

open Lib

/-! ## Ids -/

/-- What an id names; each kind is a message type of its own. -/
inductive IdKind where
  | job | node | allocation | attempt | group | quotaEntity | machine | enrollToken
  deriving DecidableEq

structure Id (kind : IdKind) where
  value : String
  deriving DecidableEq

/-! ## Resources, labels and jobs -/

structure ResourceQuantity where
  kind : Int
  amount : UInt64
  deriving DecidableEq

structure Resources where
  quantities : List ResourceQuantity
  deriving DecidableEq

/-- A label, a metadata entry or an environment variable. -/
structure Entry where
  key : String
  value : String
  deriving DecidableEq

structure Entrypoint where
  argv : List String
  deriving DecidableEq

structure RetryPolicy where
  maxRetries : Nat
  retryUserErrors : Bool
  deriving DecidableEq

structure AbortRequest where
  reason : Option String
  requestedAtUs : I64
  deriving DecidableEq

structure PreemptionSpec where
  preemptible : Bool
  noticeUs : Option UInt64
  noticeSignal : Int
  deriving DecidableEq

structure Job where
  id : Option (Id .job)
  image : String
  command : List String
  entrypoint : Option Entrypoint
  requests : Option Resources
  priority : Int
  maxRuntimeUs : Option UInt64
  quotaEntity : Option (Id .quotaEntity)
  retry : Option RetryPolicy
  abortRequested : Option AbortRequest
  submittedBy : Option String
  metadata : List Entry
  env : List Entry
  preemption : Option PreemptionSpec
  deriving DecidableEq

/-! ## Attempts and nodes -/

inductive PreemptReason.Reason where
  | priority (forJob : Option (Id .job))
  | relocation (forJob : Option (Id .job))
  | drain
  | interruption
  deriving DecidableEq

structure PreemptReason where
  reason : Option PreemptReason.Reason
  deriving DecidableEq

inductive AttemptOutcome.Outcome where
  | exited (code : Int)
  | memoryLimitExceeded
  | runtimeLimitExceeded
  | diskLimitExceeded
  | aborted
  | revoked
  | pullFailed (userError : Bool)
  | startFailed (userError : Bool)
  | nodeLost
  | agentError
  | preempted (reason : Option PreemptReason)
  deriving DecidableEq

structure AttemptOutcome where
  outcome : Option AttemptOutcome.Outcome
  deriving DecidableEq

structure Drain where
  requestedAtUs : I64
  deadlineUs : Option I64
  deriving DecidableEq

structure HostFacts where
  os : String
  osVersion : String
  kernelVersion : String
  arch : String
  cpuModel : String
  physicalCores : Nat
  logicalCores : Nat
  totalMemoryBytes : UInt64
  totalDiskBytes : UInt64
  agentVersion : String
  deriving DecidableEq

/-! ## Policy, authorization and identity -/

structure CostWeight where
  kind : Int
  weightQ32 : UInt64
  deriving DecidableEq

structure CostWeights where
  weights : List CostWeight
  deriving DecidableEq

structure DecayPolicy where
  tickUs : I64
  decayPerTickQ0 : UInt64
  deriving DecidableEq

structure PriorityMultiplierEntry where
  priority : Int
  multiplierQ32 : UInt64
  deriving DecidableEq

structure PolicyConfig where
  costWeights : Option CostWeights
  decay : Option DecayPolicy
  penaltyExponentMilli : Nat
  priorityMultipliers : List PriorityMultiplierEntry
  accrualLimit : Nat
  terminalRetentionUs : I64
  nodeRetentionUs : Option I64
  abortGraceUs : I64
  unboundedRuntimeMultiplierQ32 : Option UInt64
  refundFractionMilli : Option Nat
  groupsClaim : Option String
  unboundedChargeIntervalS : Option UInt64
  preemptibleMultiplierQ32 : Option UInt64
  preemptionNoticeFloorUs : Option I64
  preemptionNoticeCapUs : Option I64
  drainCleanupMarginUs : Option I64
  deriving DecidableEq

structure Actor where
  principal : String
  groups : List String
  operatorCert : Bool
  authDisabled : Bool
  deriving DecidableEq

inductive Binding.Subject where
  | group (name : String)
  | principal (sub : String)
  deriving DecidableEq

structure Binding where
  subject : Option Binding.Subject
  role : Int
  scope : Option (Id .quotaEntity)
  deriving DecidableEq

inductive RevokedIdentity.Identity where
  | machine (m : Id .machine)
  | node (n : Id .node)
  deriving DecidableEq

structure RevokedIdentity where
  identity : Option RevokedIdentity.Identity
  deriving DecidableEq

/-! ## Commands -/

structure SubmitJob where
  job : Option Job
  multiplierQ32 : UInt64
  actor : Option Actor
  submittedAtUs : I64

structure AbortJob where
  job : Option (Id .job)
  reason : Option String
  actor : Option Actor
  requestedAtUs : I64

inductive UpdateJobMetadata.Update where
  | replace (entries : List Entry)
  | patch (set : List Entry) (unset : List String)

structure UpdateJobMetadata where
  job : Option (Id .job)
  update : Option UpdateJobMetadata.Update
  actor : Option Actor
  updatedAtUs : I64

structure Eviction where
  allocation : Option (Id .allocation)
  rule : Int

structure AllocationSpec where
  id : Option (Id .allocation)
  node : Option (Id .node)
  requested : Option Resources

structure Placement where
  job : Option (Id .job)
  attempt : Option (Id .attempt)
  group : Option (Id .group)
  allocations : List AllocationSpec
  evictions : List Eviction

structure CommitPlacements where
  expectedVersion : UInt64
  revocations : List (Id .allocation)
  placements : List Placement
  proposedAtUs : I64

/-- `DispatchAttempt`, `RecordAttemptStarted` and `RecordAttemptExited`: an attempt and an
    instant. -/
structure AttemptAt where
  attempt : Option (Id .attempt)
  atUs : I64

structure RecordAttemptOutcome where
  attempt : Option (Id .attempt)
  outcome : Option AttemptOutcome
  actualRuntimeUs : UInt64
  observedAtUs : I64

structure RecordAttemptNotified where
  attempt : Option (Id .attempt)
  reason : Option PreemptReason
  remainingUs : UInt64
  shortfallUs : UInt64
  observedAtUs : I64

structure LostAttempt where
  attempt : Option (Id .attempt)
  outcome : Option AttemptOutcome
  actualRuntimeUs : UInt64

structure ReconcileNode where
  node : Option (Id .node)
  nodeEpoch : Nat
  adopted : List (Id .attempt)
  lost : List LostAttempt
  observedAtUs : I64

structure RegisterNode where
  node : Option (Id .node)
  capacity : Option Resources
  labels : List Entry
  registeredAtUs : I64
  serviceAddr : Option String
  hostFacts : Option HostFacts
  detectedCapacity : Option Resources
  draining : Bool
  preemptibleOnly : Bool
  interruptionDeadlineUs : Option I64

structure DeclareNodeLost where
  node : Option (Id .node)
  declaredAtUs : I64

structure SetNodeDrain where
  node : Option (Id .node)
  drain : Option Drain
  actor : Option Actor
  updatedAtUs : I64

structure SetNodeDraining where
  node : Option (Id .node)
  draining : Bool
  interruptionDeadlineUs : Option I64
  atUs : I64

structure EvictTerminalJobs where
  jobs : List (Id .job)
  evictedAtUs : I64

structure EvictNodes where
  nodes : List (Id .node)
  actor : Option Actor
  evictedAtUs : I64

structure IntervalRenewal where
  attempt : Option (Id .attempt)
  paid : Nat

structure RenewIntervalCharges where
  renewals : List IntervalRenewal
  proposedAtUs : I64

structure ConfigureQuotaEntity where
  entity : Option (Id .quotaEntity)
  parent : Option (Id .quotaEntity)
  name : String
  quotaUcu : UInt64
  actor : Option Actor
  updatedAtUs : I64
  preemptible : Option Bool

structure UpdatePolicy where
  policy : Option PolicyConfig
  actor : Option Actor
  updatedAtUs : I64

structure UpdateAuthorization where
  bindings : List Binding
  actor : Option Actor
  updatedAtUs : I64
  groupsClaim : Option String

structure BumpClusterVersion where
  to_ : Nat
  actor : Option Actor
  bumpedAtUs : I64

structure RecordCaCertificate where
  certPem : String
  stagedRootSerial : Option String
  recordedAtUs : I64

structure BindMachineIdentity where
  machine : Option (Id .machine)
  raftNodeId : Nat
  address : String
  boundAtUs : I64

structure MintEnrollToken where
  token : Option (Id .enrollToken)
  hash : String
  role : Int
  label : String
  expiresAtUs : Option I64
  mintedAtUs : I64

structure RevokeEnrollToken where
  token : Option (Id .enrollToken)
  revokedAtUs : I64

structure RevokeIdentity where
  identity : Option RevokedIdentity
  revokedAtUs : I64

/-- `ConfirmKeyPossession` and `RecordKeyTransferIntent`: a replica and an instant. -/
structure ReplicaAt where
  raftNodeId : Nat
  atUs : I64

structure RebindMachineAddress where
  raftNodeId : Nat
  address : String
  reboundAtUs : I64

/-- `RecordEnrolledIdentity` and `RetireMachineBinding`: a machine and an instant. -/
structure MachineAt where
  machine : Option (Id .machine)
  atUs : I64

/-- `RecordStagedKeyTransferIntent` and `ConfirmStagedKeyPossession`. -/
structure StagedReplicaAt where
  raftNodeId : Nat
  rootSerial : String
  atUs : I64

inductive Body where
  | submitJob (c : SubmitJob)
  | abortJob (c : AbortJob)
  | updateJobMetadata (c : UpdateJobMetadata)
  | commitPlacements (c : CommitPlacements)
  | dispatchAttempt (c : AttemptAt)
  | recordAttemptStarted (c : AttemptAt)
  | recordAttemptExited (c : AttemptAt)
  | recordAttemptOutcome (c : RecordAttemptOutcome)
  | reconcileNode (c : ReconcileNode)
  | recordAttemptNotified (c : RecordAttemptNotified)
  | registerNode (c : RegisterNode)
  | declareNodeLost (c : DeclareNodeLost)
  | setNodeDrain (c : SetNodeDrain)
  | setNodeDraining (c : SetNodeDraining)
  | evictTerminalJobs (c : EvictTerminalJobs)
  | evictNodes (c : EvictNodes)
  | renewIntervalCharges (c : RenewIntervalCharges)
  | configureQuotaEntity (c : ConfigureQuotaEntity)
  | updatePolicy (c : UpdatePolicy)
  | updateAuthorization (c : UpdateAuthorization)
  | bumpClusterVersion (c : BumpClusterVersion)
  | recordCaCertificate (c : RecordCaCertificate)
  | bindMachineIdentity (c : BindMachineIdentity)
  | mintEnrollToken (c : MintEnrollToken)
  | revokeEnrollToken (c : RevokeEnrollToken)
  | revokeIdentity (c : RevokeIdentity)
  | confirmKeyPossession (c : ReplicaAt)
  | recordEnrolledIdentity (c : MachineAt)
  | rebindMachineAddress (c : RebindMachineAddress)
  | retireMachineBinding (c : MachineAt)
  | recordKeyTransferIntent (c : ReplicaAt)
  | recordStagedKeyTransferIntent (c : StagedReplicaAt)
  | confirmStagedKeyPossession (c : StagedReplicaAt)

/-- The versioned envelope. -/
structure Command where
  version : Nat
  body : Option Body

end Coppice.Proto.Pb
