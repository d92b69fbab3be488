/-
  Coppice.State.Types

  The replicated state and its records (`coppice-state/src/lib.rs`), the
  authorization vocabulary (`authz.rs`) and the events a command emits.  An error
  that the source renders to text is the value it is rendered from.
-/

import Coppice.Core.Types
import Mathlib.Data.Prod.Lex

namespace Coppice.State

open Lib Coppice.Core

abbrev MachineId : Type := Nat
abbrev EnrollTokenId : Type := Nat

def quotaTreeDepthCap : Nat := 32

/-! ## Authorization -/

structure Actor where
  principal : String
  groups : List String
  operatorCert : Bool
  authDisabled : Bool
  deriving DecidableEq

def Actor.isImplicitAdmin (a : Actor) : Bool := a.operatorCert || a.authDisabled

inductive Role where
  | submitter | operator | admin
  deriving DecidableEq

/-- Roles are ordered by what they may do. -/
def Role.rank : Role → Nat
  | .submitter => 0
  | .operator => 1
  | .admin => 2

inductive Subject where
  | group (name : String)
  | principal (name : String)
  deriving DecidableEq

structure Binding where
  subject : Subject
  role : Role
  scope : Option QuotaEntityId
  deriving DecidableEq

inductive Verb where
  | submit (entity : QuotaEntityId)
  | abort (entity : QuotaEntityId) (submittedBy : Option String)
  | updateJobMetadata (entity : QuotaEntityId) (submittedBy : Option String)
  | drain
  | configureQuotaEntity (entity : QuotaEntityId) (parent : Option QuotaEntityId)
  | updatePolicy
  | updateAuthorization
  | bumpClusterVersion
  deriving DecidableEq

structure Denial where
  principal : String
  attempted : Verb
  required : String
  deriving DecidableEq

/-! ## Policy -/

structure PolicyConfig where
  costWeights : CostWeights
  decay : DecayPolicy
  penaltyExponentMilli : Nat
  priorityMultipliers : OrdMap Int PriorityMultiplier
  accrualLimit : Nat
  unboundedChargeIntervalS : UInt64
  unboundedRuntimeMultiplier : PriorityMultiplier
  refundFractionMilli : Nat
  terminalRetention : Duration
  nodeRetention : Duration
  abortGrace : Duration
  preemptibleMultiplier : PriorityMultiplier
  preemptionNoticeFloor : Duration
  preemptionNoticeCap : Duration
  drainCleanupMargin : Duration
  groupsClaim : String
  deriving DecidableEq

namespace PolicyConfig

def default : PolicyConfig where
  costWeights := ⟨0, 0, 0⟩
  decay := DecayPolicy.default
  penaltyExponentMilli := 2000
  priorityMultipliers := .empty
  accrualLimit := 4
  unboundedChargeIntervalS := 1800
  unboundedRuntimeMultiplier := 8589934592
  refundFractionMilli := 750
  terminalRetention := Duration.ofSecs (72 * 3600)
  nodeRetention := Duration.ofSecs (24 * 3600)
  abortGrace := Duration.ofSecs 30
  preemptibleMultiplier := 3221225472
  preemptionNoticeFloor := Duration.ofSecs 60
  preemptionNoticeCap := Duration.ofSecs 300
  drainCleanupMargin := Duration.ofSecs 30
  groupsClaim := "groups"

/-- When work on a node drained with a deadline is stopped. -/
def tStop (p : PolicyConfig) (deadline : Timestamp) : Timestamp :=
  (deadline.saturatingSub p.drainCleanupMargin).saturatingSub p.abortGrace

/-- When work on a node drained with a deadline is given notice. -/
def tNotice (p : PolicyConfig) (deadline : Timestamp) : Timestamp :=
  (p.tStop deadline).saturatingSub p.preemptionNoticeCap

def deadlineDrainMinLead (p : PolicyConfig) : Duration :=
  (p.preemptionNoticeCap.saturatingAdd p.abortGrace).saturatingAdd p.drainCleanupMargin

end PolicyConfig

/-! ## Records -/

structure JobRecord where
  spec : Job
  state : JobState
  multiplier : PriorityMultiplier
  submittedAt : Timestamp
  terminalAt : Option Timestamp
  retriesUsed : Nat
  /-- Attempt lineage, oldest first. -/
  attempts : List AttemptId
  deriving DecidableEq

def JobRecord.currentAttempt (r : JobRecord) : Option AttemptId := r.state.attempt

structure AttemptRecord where
  attempt : Attempt
  group : GroupId
  charge : ChargeRecord
  rateUcuPerSecond : UInt64
  multiplier : PriorityMultiplier
  startedAt : Option Timestamp
  endedAt : Option Timestamp
  settlement : Option Settlement
  effectivePreemptible : Bool
  preemption : Option Preemption
  drainCutoff : Option Timestamp
  deriving DecidableEq

structure AllocationRecord where
  allocation : Allocation
  /-- Commit order; accruing allocations are funded in this order. -/
  seq : Nat
  deriving DecidableEq

structure NodeRecord where
  node : Node
  /-- a `u64`, one up for every registration -/
  epoch : Nat
  draining : Bool
  interruptionDeadline : Option Timestamp
  deriving DecidableEq

structure QuotaEntity where
  parent : Option QuotaEntityId
  name : String
  quota : CostUnits
  usage : UsageState
  createdAt : Timestamp
  updatedAt : Timestamp
  preemptible : Bool
  deriving DecidableEq

structure CaCertBundle where
  pem : String
  serials : List String
  deriving DecidableEq

structure CaCertificate where
  bundle : CaCertBundle
  recordedAt : Timestamp
  deriving DecidableEq

structure StagedRoot where
  serial : String
  stagedAt : Timestamp
  holders : OrdMap Nat Timestamp
  intents : OrdMap Nat Timestamp
  deriving DecidableEq

structure MachineBinding where
  raftNodeId : Nat
  address : String
  boundAt : Timestamp
  retiredAt : Option Timestamp
  deriving DecidableEq

inductive EnrollRole where
  | coordinator | agent
  deriving DecidableEq

structure EnrollToken where
  hash : String
  role : EnrollRole
  label : String
  expiresAt : Option Timestamp
  mintedAt : Timestamp
  revoked : Bool
  deriving DecidableEq

inductive RevokedIdentity where
  | machine (id : MachineId)
  | node (id : NodeId)
  deriving DecidableEq

/-- Machines sort before nodes, as the derived order of the source has it. -/
def RevokedIdentity.key : RevokedIdentity → Nat ×ₗ Nat
  | .machine id => toLex (0, id)
  | .node id => toLex (1, id)

theorem RevokedIdentity.key_injective : Function.Injective RevokedIdentity.key := by
  intro a b h
  cases a <;> cases b <;> simp_all [RevokedIdentity.key]

instance : LinearOrder RevokedIdentity :=
  LinearOrder.lift' RevokedIdentity.key RevokedIdentity.key_injective

/-! ## The state machine -/

/-- The replicated state. -/
structure StateMachine where
  jobs : OrdMap JobId JobRecord
  attempts : OrdMap AttemptId AttemptRecord
  allocations : OrdMap AllocationId AllocationRecord
  nodes : OrdMap NodeId NodeRecord
  quotaEntities : OrdMap QuotaEntityId QuotaEntity
  /-- Accruing allocations per node in commit order. -/
  accrualQueue : OrdMap (NodeId ×ₗ Nat) AllocationId
  /-- a `u64`, one up for every allocation seated -/
  nextAllocationSeq : Nat
  policy : PolicyConfig
  bindings : List Binding
  clusterVersion : Nat
  ca : Option CaCertificate
  stagedRoot : Option StagedRoot
  machineBindings : OrdMap MachineId MachineBinding
  enrollTokens : OrdMap EnrollTokenId EnrollToken
  revokedIdentities : OrdMap RevokedIdentity Unit
  keyConfirmations : OrdMap Nat Timestamp
  keyTransferIntents : OrdMap Nat Timestamp
  enrolledIdentities : OrdMap MachineId Timestamp
  version : UInt64
  deriving DecidableEq

/-- `StateMachine::default()`. -/
def StateMachine.default : StateMachine where
  jobs := .empty
  attempts := .empty
  allocations := .empty
  nodes := .empty
  quotaEntities := .empty
  accrualQueue := .empty
  nextAllocationSeq := 0
  policy := PolicyConfig.default
  bindings := []
  clusterVersion := 0
  ca := none
  stagedRoot := none
  machineBindings := .empty
  enrollTokens := .empty
  revokedIdentities := .empty
  keyConfirmations := .empty
  keyTransferIntents := .empty
  enrolledIdentities := .empty
  version := 0

structure JobScope where
  entityChain : List QuotaEntityId
  submittedBy : Option String
  metadata : TextMap
  deriving DecidableEq

namespace StateMachine

/-- The entity and its ancestors, walking at most `fuel` levels. -/
def entityChainFuel (s : StateMachine) : Nat → Option QuotaEntityId → List QuotaEntityId
  | 0, _ => []
  | _ + 1, none => []
  | fuel + 1, some id =>
    id :: s.entityChainFuel fuel ((s.quotaEntities.get? id).bind QuotaEntity.parent)

def entityChain (s : StateMachine) (entity : QuotaEntityId) : List QuotaEntityId :=
  s.entityChainFuel quotaTreeDepthCap (some entity)

def effectivePreemptible (s : StateMachine) (job : Job) : Bool :=
  job.preemption.preemptible &&
    (s.entityChain job.quotaEntity).all fun id =>
      match s.quotaEntities.get? id with
      | none => true
      | some e => e.preemptible

def jobScope (s : StateMachine) (job : JobId) : Option JobScope :=
  (s.jobs.get? job).map fun record =>
    { entityChain := s.entityChain record.spec.quotaEntity
      submittedBy := record.spec.submittedBy
      metadata := record.spec.metadata }

end StateMachine

/-! ## Events -/

/-- What a command tells the outside. -/
inductive Event where
  | jobSubmitted (job : JobId)
  | jobStateChanged (job : JobId) (from_ to_ : JobState)
  | attemptStateChanged (attempt : AttemptId) (job : JobId) (node : NodeId) (state : AttemptState)
  | allocationFunded (allocation : AllocationId) (job : JobId) (node : NodeId)
  | stopRequested (node : NodeId) (allocation : AllocationId) (job : JobId)
  | preemptRequested (attempt : AttemptId) (allocation : AllocationId) (job : JobId)
      (node : NodeId) (reason : PreemptReason) (notice : Duration)
  | attemptNotified (attempt : AttemptId) (job : JobId) (node : NodeId)
  | nodeEpochBumped (node : NodeId) (epoch : Nat)
  | jobEvicted (job : JobId) (scope : JobScope)
  | jobMetadataUpdated (job : JobId) (previous : TextMap)
  | quotaEntityConfigured (entity : QuotaEntityId)
  | policyUpdated
  | authorizationUpdated
  | clusterVersionBumped (to_ : Nat)
  deriving DecidableEq

/-- The job an event is about. -/
def Event.job : Event → Option JobId
  | .jobSubmitted job | .jobStateChanged job _ _ | .attemptStateChanged _ job _ _
  | .allocationFunded _ job _ | .stopRequested _ _ job | .preemptRequested _ _ job _ _ _
  | .attemptNotified _ job _ | .jobEvicted job _ | .jobMetadataUpdated job _ => some job
  | .nodeEpochBumped .. | .quotaEntityConfigured .. | .policyUpdated | .authorizationUpdated
  | .clusterVersionBumped .. => none

structure Applied where
  events : List Event
  deriving DecidableEq

end Coppice.State
