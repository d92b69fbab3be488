/-
  Coppice.Proto.Command

  The versioned envelope and every command in it (`coppice-
  proto/src/convert/command.rs`).  What a reader accepts satisfies `CommandOnWire`.
-/

import Coppice.Proto.Bundle

namespace Coppice.Proto

open Lib Coppice.Core State

section

variable (L : Libs)

/-! ## Proposed by the API -/

def submitJobToPb (c : SubmitJob) : Pb.SubmitJob where
  job := some (jobToPb L c.job)
  multiplierQ32 := c.multiplier
  actor := c.actor.map actorToPb
  submittedAtUs := micros c.submittedAt

def submitJobFromPb (c : Pb.SubmitJob) : Read SubmitJob := do
  let job ← req c.job "SubmitJob.job" >>= jobFromPb L
  let submittedAt ← timestamp c.submittedAtUs "SubmitJob.submitted_at_us"
  pure ⟨job, c.multiplierQ32, c.actor.map actorFromPb, submittedAt⟩

def abortJobToPb (c : AbortJob) : Pb.AbortJob where
  job := some (idToPb L .job c.job)
  reason := c.reason
  actor := c.actor.map actorToPb
  requestedAtUs := micros c.requestedAt

def abortJobFromPb (c : Pb.AbortJob) : Read AbortJob := do
  let job ← reqId L .job c.job "AbortJob.job"
  let requestedAt ← timestamp c.requestedAtUs "AbortJob.requested_at_us"
  pure ⟨job, c.reason, c.actor.map actorFromPb, requestedAt⟩

/-- A set of keys is written in order, and read in any order without repeats. -/
def unsetFromPb (unset : List String) : Read (List String) := do
  let keys ← readMap (nonemptyKey "MetadataPatch.unset" "metadata key must not be empty")
    (.duplicateEntry "MetadataPatch.unset") (unset.map fun key => (key, ()))
  pure keys.keys

def metadataUpdateToPb : JobMetadataUpdate → Pb.UpdateJobMetadata.Update
  | .replace metadata => .replace (entriesToPb metadata)
  | .patch set unset => .patch (entriesToPb set) unset

def updateJobMetadataToPb (c : UpdateJobMetadata) : Pb.UpdateJobMetadata where
  job := some (idToPb L .job c.job)
  update := some (metadataUpdateToPb c.update)
  actor := c.actor.map actorToPb
  updatedAtUs := micros c.updatedAt

def metadataUpdateFromPb : Pb.UpdateJobMetadata.Update → Read JobMetadataUpdate
  | .replace entries => do
      let metadata ← metadataFromPb entries "UpdateJobMetadata.replace"
      pure (.replace metadata)
  | .patch set unset => do
      let set ← metadataFromPb set "MetadataPatch.set"
      let unset ← unsetFromPb unset
      pure (.patch set unset)

def updateJobMetadataFromPb (c : Pb.UpdateJobMetadata) : Read UpdateJobMetadata := do
  let update ← req c.update "UpdateJobMetadata.update" >>= metadataUpdateFromPb
  let job ← reqId L .job c.job "UpdateJobMetadata.job"
  let updatedAt ← timestamp c.updatedAtUs "UpdateJobMetadata.updated_at_us"
  pure ⟨job, update, c.actor.map actorFromPb, updatedAt⟩

/-! ## Proposed by the scheduler -/

def evictionRuleToPb : EvictionRule → Int
  | .priority => 1
  | .relocation => 2

def evictionRuleFromPb (value : Int) (field : String) : Read EvictionRule :=
  match value with
  | 1 => .ok .priority
  | 2 => .ok .relocation
  | _ => .error (.unknownEnum field value)

def evictionToPb (e : Eviction) : Pb.Eviction :=
  ⟨some (idToPb L .allocation e.allocation), evictionRuleToPb e.rule⟩

def evictionFromPb (e : Pb.Eviction) : Read Eviction := do
  let allocation ← reqId L .allocation e.allocation "Eviction.allocation"
  let rule ← evictionRuleFromPb e.rule "Eviction.rule"
  pure ⟨allocation, rule⟩

def allocationSpecToPb (spec : AllocationSpec) : Pb.AllocationSpec where
  id := some (idToPb L .allocation spec.id)
  node := some (idToPb L .node spec.node)
  requested := some (resourcesToPb spec.requested)

def allocationSpecFromPb (spec : Pb.AllocationSpec) : Read AllocationSpec := do
  let id ← reqId L .allocation spec.id "AllocationSpec.id"
  let node ← reqId L .node spec.node "AllocationSpec.node"
  let requested ← req spec.requested "AllocationSpec.requested" >>= resourcesFromPb
  pure ⟨id, node, requested⟩

def placementToPb (p : Placement) : Pb.Placement where
  job := some (idToPb L .job p.job)
  attempt := some (idToPb L .attempt p.attempt)
  group := some (idToPb L .group p.group)
  allocations := p.allocations.map (allocationSpecToPb L)
  evictions := p.preemptions.map (evictionToPb L)

def placementFromPb (p : Pb.Placement) : Read Placement := do
  let job ← reqId L .job p.job "Placement.job"
  let attempt ← reqId L .attempt p.attempt "Placement.attempt"
  let group ← reqId L .group p.group "Placement.group"
  let allocations ← readList (allocationSpecFromPb L) p.allocations
  let preemptions ← readList (evictionFromPb L) p.evictions
  pure ⟨job, attempt, group, allocations, preemptions⟩

def commitPlacementsToPb (c : CommitPlacements) : Pb.CommitPlacements where
  expectedVersion := c.expectedVersion
  revocations := c.revocations.map (idToPb L .allocation)
  placements := c.placements.map (placementToPb L)
  proposedAtUs := micros c.proposedAt

def commitPlacementsFromPb (c : Pb.CommitPlacements) : Read CommitPlacements := do
  let revocations ← readList (idFromPb L .allocation) c.revocations
  let placements ← readList (placementFromPb L) c.placements
  let proposedAt ← timestamp c.proposedAtUs "CommitPlacements.proposed_at_us"
  pure ⟨c.expectedVersion, revocations, placements, proposedAt⟩

/-- An attempt and an instant, under the field names of the message. -/
def attemptAtFromPb {α : Type} (make : AttemptId → Timestamp → α) (attemptName atName : String)
    (c : Pb.AttemptAt) : Read α := do
  let attempt ← reqId L .attempt c.attempt attemptName
  let at_ ← timestamp c.atUs atName
  pure (make attempt at_)

def dispatchAttemptToPb (c : DispatchAttempt) : Pb.AttemptAt :=
  ⟨some (idToPb L .attempt c.attempt), micros c.dispatchedAt⟩

def dispatchAttemptFromPb : Pb.AttemptAt → Read DispatchAttempt :=
  attemptAtFromPb L .mk "DispatchAttempt.attempt" "DispatchAttempt.dispatched_at_us"

/-! ## Proposed on an agent's report -/

def recordAttemptStartedToPb (c : RecordAttemptStarted) : Pb.AttemptAt :=
  ⟨some (idToPb L .attempt c.attempt), micros c.observedAt⟩

def recordAttemptStartedFromPb : Pb.AttemptAt → Read RecordAttemptStarted :=
  attemptAtFromPb L .mk "RecordAttemptStarted.attempt" "RecordAttemptStarted.observed_at_us"

def recordAttemptExitedToPb (c : RecordAttemptExited) : Pb.AttemptAt :=
  ⟨some (idToPb L .attempt c.attempt), micros c.observedAt⟩

def recordAttemptExitedFromPb : Pb.AttemptAt → Read RecordAttemptExited :=
  attemptAtFromPb L .mk "RecordAttemptExited.attempt" "RecordAttemptExited.observed_at_us"

def recordAttemptOutcomeToPb (c : RecordAttemptOutcome) : Pb.RecordAttemptOutcome where
  attempt := some (idToPb L .attempt c.attempt)
  outcome := some (attemptOutcomeToPb L c.outcome)
  actualRuntimeUs := spanToPb c.actualRuntime
  observedAtUs := micros c.observedAt

def recordAttemptOutcomeFromPb (c : Pb.RecordAttemptOutcome) : Read RecordAttemptOutcome := do
  let attempt ← reqId L .attempt c.attempt "RecordAttemptOutcome.attempt"
  let outcome ← req c.outcome "RecordAttemptOutcome.outcome" >>= attemptOutcomeFromPb L
  let actualRuntime ← nonnegativeDuration c.actualRuntimeUs "RecordAttemptOutcome.actual_runtime_us"
  let observedAt ← timestamp c.observedAtUs "RecordAttemptOutcome.observed_at_us"
  pure ⟨attempt, outcome, actualRuntime, observedAt⟩

def recordAttemptNotifiedToPb (c : RecordAttemptNotified) : Pb.RecordAttemptNotified where
  attempt := some (idToPb L .attempt c.attempt)
  reason := some (preemptReasonToPb L c.reason)
  remainingUs := clippedSpanToPb c.remaining
  shortfallUs := clippedSpanToPb c.shortfall
  observedAtUs := micros c.observedAt

def recordAttemptNotifiedFromPb (c : Pb.RecordAttemptNotified) : Read RecordAttemptNotified := do
  let attempt ← reqId L .attempt c.attempt "RecordAttemptNotified.attempt"
  let reason ← req c.reason "RecordAttemptNotified.reason" >>= preemptReasonFromPb L
  let remaining ← nonnegativeDuration c.remainingUs "RecordAttemptNotified.remaining_us"
  let shortfall ← nonnegativeDuration c.shortfallUs "RecordAttemptNotified.shortfall_us"
  let observedAt ← timestamp c.observedAtUs "RecordAttemptNotified.observed_at_us"
  pure ⟨attempt, reason, remaining, shortfall, observedAt⟩

def lostAttemptToPb (l : LostAttempt) : Pb.LostAttempt where
  attempt := some (idToPb L .attempt l.attempt)
  outcome := some (attemptOutcomeToPb L l.outcome)
  actualRuntimeUs := spanToPb l.actualRuntime

def lostAttemptFromPb (l : Pb.LostAttempt) : Read LostAttempt := do
  let attempt ← reqId L .attempt l.attempt "LostAttempt.attempt"
  let outcome ← req l.outcome "LostAttempt.outcome" >>= attemptOutcomeFromPb L
  let actualRuntime ← nonnegativeDuration l.actualRuntimeUs "LostAttempt.actual_runtime_us"
  pure ⟨attempt, outcome, actualRuntime⟩

def reconcileNodeToPb (c : ReconcileNode) : Pb.ReconcileNode where
  node := some (idToPb L .node c.node)
  nodeEpoch := c.nodeEpoch
  adopted := c.adopted.map (idToPb L .attempt)
  lost := c.lost.map (lostAttemptToPb L)
  observedAtUs := micros c.observedAt

def reconcileNodeFromPb (c : Pb.ReconcileNode) : Read ReconcileNode := do
  let node ← reqId L .node c.node "ReconcileNode.node"
  let adopted ← readList (idFromPb L .attempt) c.adopted
  let lost ← readList (lostAttemptFromPb L) c.lost
  let observedAt ← timestamp c.observedAtUs "ReconcileNode.observed_at_us"
  pure ⟨node, c.nodeEpoch, adopted, lost, observedAt⟩

/-! ## Node lifecycle -/

/-- An empty text is a second spelling of an absent one. -/
def nonemptyText (text : Option String) : Option String := text.filter (· ≠ "")

def registerNodeToPb (c : RegisterNode) : Pb.RegisterNode where
  node := some (idToPb L .node c.node)
  capacity := some (resourcesToPb c.capacity)
  labels := entriesToPb c.labels
  registeredAtUs := micros c.registeredAt
  serviceAddr := c.serviceAddr
  hostFacts := c.hostFacts.map hostFactsToPb
  detectedCapacity := c.detectedCapacity.map resourcesToPb
  draining := c.draining
  preemptibleOnly := c.preemptibleOnly
  interruptionDeadlineUs := c.interruptionDeadline.map micros

def registerNodeFromPb (c : Pb.RegisterNode) : Read RegisterNode := do
  let node ← reqId L .node c.node "RegisterNode.node"
  let capacity ← req c.capacity "RegisterNode.capacity" >>= resourcesFromPb
  let labels ← labelsFromPb c.labels
  let registeredAt ← timestamp c.registeredAtUs "RegisterNode.registered_at_us"
  let detectedCapacity ← readOption resourcesFromPb c.detectedCapacity
  let interruptionDeadline ←
    readOption (timestamp · "RegisterNode.interruption_deadline_us") c.interruptionDeadlineUs
  pure ⟨node, capacity, labels, registeredAt, nonemptyText c.serviceAddr,
    c.hostFacts.map hostFactsFromPb, detectedCapacity, c.draining, c.preemptibleOnly,
    interruptionDeadline⟩

def declareNodeLostToPb (c : DeclareNodeLost) : Pb.DeclareNodeLost :=
  ⟨some (idToPb L .node c.node), micros c.declaredAt⟩

def declareNodeLostFromPb (c : Pb.DeclareNodeLost) : Read DeclareNodeLost := do
  let node ← reqId L .node c.node "DeclareNodeLost.node"
  let declaredAt ← timestamp c.declaredAtUs "DeclareNodeLost.declared_at_us"
  pure ⟨node, declaredAt⟩

def setNodeDrainToPb (c : SetNodeDrain) : Pb.SetNodeDrain where
  node := some (idToPb L .node c.node)
  drain := c.drain.map drainToPb
  actor := c.actor.map actorToPb
  updatedAtUs := micros c.updatedAt

def setNodeDrainFromPb (c : Pb.SetNodeDrain) : Read SetNodeDrain := do
  let node ← reqId L .node c.node "SetNodeDrain.node"
  let drain ← readOption drainFromPb c.drain
  let updatedAt ← timestamp c.updatedAtUs "SetNodeDrain.updated_at_us"
  pure ⟨node, drain, c.actor.map actorFromPb, updatedAt⟩

def setNodeDrainingToPb (c : SetNodeDraining) : Pb.SetNodeDraining where
  node := some (idToPb L .node c.node)
  draining := c.draining
  interruptionDeadlineUs := c.interruptionDeadline.map micros
  atUs := micros c.at_

def setNodeDrainingFromPb (c : Pb.SetNodeDraining) : Read SetNodeDraining := do
  let node ← reqId L .node c.node "SetNodeDraining.node"
  let interruptionDeadline ←
    readOption (timestamp · "SetNodeDraining.interruption_deadline_us") c.interruptionDeadlineUs
  let at_ ← timestamp c.atUs "SetNodeDraining.at_us"
  pure ⟨node, c.draining, interruptionDeadline, at_⟩

/-! ## Housekeeping -/

def evictTerminalJobsToPb (c : EvictTerminalJobs) : Pb.EvictTerminalJobs :=
  ⟨c.jobs.map (idToPb L .job), micros c.evictedAt⟩

def evictTerminalJobsFromPb (c : Pb.EvictTerminalJobs) : Read EvictTerminalJobs := do
  let jobs ← readList (idFromPb L .job) c.jobs
  let evictedAt ← timestamp c.evictedAtUs "EvictTerminalJobs.evicted_at_us"
  pure ⟨jobs, evictedAt⟩

def evictNodesToPb (c : EvictNodes) : Pb.EvictNodes :=
  ⟨c.nodes.map (idToPb L .node), c.actor.map actorToPb, micros c.evictedAt⟩

def evictNodesFromPb (c : Pb.EvictNodes) : Read EvictNodes := do
  let nodes ← readList (idFromPb L .node) c.nodes
  let evictedAt ← timestamp c.evictedAtUs "EvictNodes.evicted_at_us"
  pure ⟨nodes, c.actor.map actorFromPb, evictedAt⟩

def intervalRenewalToPb (r : IntervalRenewal) : Pb.IntervalRenewal :=
  ⟨some (idToPb L .attempt r.attempt), r.paid⟩

def intervalRenewalFromPb (r : Pb.IntervalRenewal) : Read IntervalRenewal := do
  let attempt ← reqId L .attempt r.attempt "IntervalRenewal.attempt"
  pure ⟨attempt, r.paid⟩

def renewIntervalChargesToPb (c : RenewIntervalCharges) : Pb.RenewIntervalCharges :=
  ⟨c.renewals.map (intervalRenewalToPb L), micros c.proposedAt⟩

def renewIntervalChargesFromPb (c : Pb.RenewIntervalCharges) : Read RenewIntervalCharges := do
  let renewals ← readList (intervalRenewalFromPb L) c.renewals
  let proposedAt ← timestamp c.proposedAtUs "RenewIntervalCharges.proposed_at_us"
  pure ⟨renewals, proposedAt⟩

/-! ## Administration -/

def configureQuotaEntityToPb (c : ConfigureQuotaEntity) : Pb.ConfigureQuotaEntity where
  entity := some (idToPb L .quotaEntity c.entity)
  parent := c.parent.map (idToPb L .quotaEntity)
  name := c.name
  quotaUcu := c.quota
  actor := c.actor.map actorToPb
  updatedAtUs := micros c.updatedAt
  preemptible := c.preemptible

def configureQuotaEntityFromPb (c : Pb.ConfigureQuotaEntity) : Read ConfigureQuotaEntity := do
  let entity ← reqId L .quotaEntity c.entity "ConfigureQuotaEntity.entity"
  let parent ← readOption (idFromPb L .quotaEntity) c.parent
  let updatedAt ← timestamp c.updatedAtUs "ConfigureQuotaEntity.updated_at_us"
  pure ⟨entity, parent, c.name, c.quotaUcu, c.preemptible, c.actor.map actorFromPb, updatedAt⟩

def updatePolicyToPb (c : UpdatePolicy) : Pb.UpdatePolicy :=
  ⟨some (policyConfigToPb c.policy), c.actor.map actorToPb, micros c.updatedAt⟩

def updatePolicyFromPb (c : Pb.UpdatePolicy) : Read UpdatePolicy := do
  let policy ← req c.policy "UpdatePolicy.policy" >>= policyConfigFromPb
  let updatedAt ← timestamp c.updatedAtUs "UpdatePolicy.updated_at_us"
  pure ⟨policy, c.actor.map actorFromPb, updatedAt⟩

def updateAuthorizationToPb (c : UpdateAuthorization) : Pb.UpdateAuthorization :=
  ⟨c.bindings.map (bindingToPb L), c.actor.map actorToPb, micros c.updatedAt, c.groupsClaim⟩

def updateAuthorizationFromPb (c : Pb.UpdateAuthorization) : Read UpdateAuthorization := do
  let bindings ← readList (bindingFromPb L) c.bindings
  let updatedAt ← timestamp c.updatedAtUs "UpdateAuthorization.updated_at_us"
  pure ⟨bindings, c.actor.map actorFromPb, updatedAt, c.groupsClaim⟩

def bumpClusterVersionToPb (c : BumpClusterVersion) : Pb.BumpClusterVersion :=
  ⟨c.to_, c.actor.map actorToPb, micros c.bumpedAt⟩

def bumpClusterVersionFromPb (c : Pb.BumpClusterVersion) : Read BumpClusterVersion := do
  let bumpedAt ← timestamp c.bumpedAtUs "BumpClusterVersion.bumped_at_us"
  pure ⟨c.to_, c.actor.map actorFromPb, bumpedAt⟩

/-! ## Identity -/

def recordCaCertificateToPb (c : RecordCaCertificate) : Pb.RecordCaCertificate :=
  ⟨c.bundle.pem, c.stagedRootSerial, micros c.recordedAt⟩

def caBundleFromPb (pem : String) : Read CaCertBundle :=
  match Bundle.parse L pem with
  | .ok bundle => .ok bundle
  | .error _ => .error (.invalid "RecordCaCertificate.cert_pem"
      "not a sequence of X.509 CA certificate PEM blocks")

def recordCaCertificateFromPb (c : Pb.RecordCaCertificate) : Read RecordCaCertificate := do
  let bundle ← caBundleFromPb L c.certPem
  let recordedAt ← timestamp c.recordedAtUs "RecordCaCertificate.recorded_at_us"
  pure ⟨bundle, nonemptyText c.stagedRootSerial, recordedAt⟩

def bindMachineIdentityToPb (c : BindMachineIdentity) : Pb.BindMachineIdentity :=
  ⟨some (idToPb L .machine c.machine), c.raftNodeId, c.address, micros c.boundAt⟩

def bindMachineIdentityFromPb (c : Pb.BindMachineIdentity) : Read BindMachineIdentity := do
  let machine ← reqId L .machine c.machine "BindMachineIdentity.machine"
  let boundAt ← timestamp c.boundAtUs "BindMachineIdentity.bound_at_us"
  pure ⟨machine, c.raftNodeId, c.address, boundAt⟩

def mintEnrollTokenToPb (c : MintEnrollToken) : Pb.MintEnrollToken where
  token := some (idToPb L .enrollToken c.token)
  hash := c.hash
  role := enrollRoleToPb c.role
  label := c.label
  expiresAtUs := c.expiresAt.map micros
  mintedAtUs := micros c.mintedAt

def mintEnrollTokenFromPb (c : Pb.MintEnrollToken) : Read MintEnrollToken := do
  let token ← reqId L .enrollToken c.token "MintEnrollToken.token"
  let role ← enrollRoleFromPb c.role "MintEnrollToken.role"
  let expiresAt ← readOption (timestamp · "MintEnrollToken.expires_at_us") c.expiresAtUs
  let mintedAt ← timestamp c.mintedAtUs "MintEnrollToken.minted_at_us"
  pure ⟨token, c.hash, role, c.label, expiresAt, mintedAt⟩

def revokeEnrollTokenToPb (c : RevokeEnrollToken) : Pb.RevokeEnrollToken :=
  ⟨some (idToPb L .enrollToken c.token), micros c.revokedAt⟩

def revokeEnrollTokenFromPb (c : Pb.RevokeEnrollToken) : Read RevokeEnrollToken := do
  let token ← reqId L .enrollToken c.token "RevokeEnrollToken.token"
  let revokedAt ← timestamp c.revokedAtUs "RevokeEnrollToken.revoked_at_us"
  pure ⟨token, revokedAt⟩

def revokeIdentityToPb (c : RevokeIdentity) : Pb.RevokeIdentity :=
  ⟨some (revokedIdentityToPb L c.identity), micros c.revokedAt⟩

def revokeIdentityFromPb (c : Pb.RevokeIdentity) : Read RevokeIdentity := do
  let identity ← req c.identity "RevokeIdentity.identity" >>= revokedIdentityFromPb L
  let revokedAt ← timestamp c.revokedAtUs "RevokeIdentity.revoked_at_us"
  pure ⟨identity, revokedAt⟩

def replicaAtFromPb {α : Type} (make : Nat → Timestamp → α) (atName : String) (c : Pb.ReplicaAt) :
    Read α := do
  let at_ ← timestamp c.atUs atName
  pure (make c.raftNodeId at_)

def confirmKeyPossessionToPb (c : ConfirmKeyPossession) : Pb.ReplicaAt :=
  ⟨c.raftNodeId, micros c.confirmedAt⟩

def confirmKeyPossessionFromPb : Pb.ReplicaAt → Read ConfirmKeyPossession :=
  replicaAtFromPb .mk "ConfirmKeyPossession.confirmed_at_us"

def recordKeyTransferIntentToPb (c : RecordKeyTransferIntent) : Pb.ReplicaAt :=
  ⟨c.raftNodeId, micros c.intendedAt⟩

def recordKeyTransferIntentFromPb : Pb.ReplicaAt → Read RecordKeyTransferIntent :=
  replicaAtFromPb .mk "RecordKeyTransferIntent.intended_at_us"

def rebindMachineAddressToPb (c : RebindMachineAddress) : Pb.RebindMachineAddress :=
  ⟨c.raftNodeId, c.address, micros c.reboundAt⟩

def rebindMachineAddressFromPb (c : Pb.RebindMachineAddress) : Read RebindMachineAddress := do
  let reboundAt ← timestamp c.reboundAtUs "RebindMachineAddress.rebound_at_us"
  pure ⟨c.raftNodeId, c.address, reboundAt⟩

def machineAtFromPb {α : Type} (make : MachineId → Timestamp → α) (machineName atName : String)
    (c : Pb.MachineAt) : Read α := do
  let machine ← reqId L .machine c.machine machineName
  let at_ ← timestamp c.atUs atName
  pure (make machine at_)

def recordEnrolledIdentityToPb (c : RecordEnrolledIdentity) : Pb.MachineAt :=
  ⟨some (idToPb L .machine c.machine), micros c.recordedAt⟩

def recordEnrolledIdentityFromPb : Pb.MachineAt → Read RecordEnrolledIdentity :=
  machineAtFromPb L .mk "RecordEnrolledIdentity.machine" "RecordEnrolledIdentity.recorded_at_us"

def retireMachineBindingToPb (c : RetireMachineBinding) : Pb.MachineAt :=
  ⟨some (idToPb L .machine c.machine), micros c.retiredAt⟩

def retireMachineBindingFromPb : Pb.MachineAt → Read RetireMachineBinding :=
  machineAtFromPb L .mk "RetireMachineBinding.machine" "RetireMachineBinding.retired_at_us"

def stagedReplicaAtFromPb {α : Type} (make : Nat → String → Timestamp → α) (atName : String)
    (c : Pb.StagedReplicaAt) : Read α := do
  let at_ ← timestamp c.atUs atName
  pure (make c.raftNodeId c.rootSerial at_)

def recordStagedKeyTransferIntentToPb (c : RecordStagedKeyTransferIntent) : Pb.StagedReplicaAt :=
  ⟨c.raftNodeId, c.rootSerial, micros c.intendedAt⟩

def recordStagedKeyTransferIntentFromPb : Pb.StagedReplicaAt → Read RecordStagedKeyTransferIntent :=
  stagedReplicaAtFromPb .mk "RecordStagedKeyTransferIntent.intended_at_us"

def confirmStagedKeyPossessionToPb (c : ConfirmStagedKeyPossession) : Pb.StagedReplicaAt :=
  ⟨c.raftNodeId, c.rootSerial, micros c.confirmedAt⟩

def confirmStagedKeyPossessionFromPb : Pb.StagedReplicaAt → Read ConfirmStagedKeyPossession :=
  stagedReplicaAtFromPb .mk "ConfirmStagedKeyPossession.confirmed_at_us"

/-! ## The envelope -/

def bodyToPb : Command → Pb.Body
  | .submitJob c => .submitJob (submitJobToPb L c)
  | .abortJob c => .abortJob (abortJobToPb L c)
  | .updateJobMetadata c => .updateJobMetadata (updateJobMetadataToPb L c)
  | .commitPlacements c => .commitPlacements (commitPlacementsToPb L c)
  | .dispatchAttempt c => .dispatchAttempt (dispatchAttemptToPb L c)
  | .recordAttemptStarted c => .recordAttemptStarted (recordAttemptStartedToPb L c)
  | .recordAttemptExited c => .recordAttemptExited (recordAttemptExitedToPb L c)
  | .recordAttemptOutcome c => .recordAttemptOutcome (recordAttemptOutcomeToPb L c)
  | .reconcileNode c => .reconcileNode (reconcileNodeToPb L c)
  | .recordAttemptNotified c => .recordAttemptNotified (recordAttemptNotifiedToPb L c)
  | .registerNode c => .registerNode (registerNodeToPb L c)
  | .declareNodeLost c => .declareNodeLost (declareNodeLostToPb L c)
  | .setNodeDrain c => .setNodeDrain (setNodeDrainToPb L c)
  | .setNodeDraining c => .setNodeDraining (setNodeDrainingToPb L c)
  | .evictTerminalJobs c => .evictTerminalJobs (evictTerminalJobsToPb L c)
  | .evictNodes c => .evictNodes (evictNodesToPb L c)
  | .renewIntervalCharges c => .renewIntervalCharges (renewIntervalChargesToPb L c)
  | .configureQuotaEntity c => .configureQuotaEntity (configureQuotaEntityToPb L c)
  | .updatePolicy c => .updatePolicy (updatePolicyToPb c)
  | .updateAuthorization c => .updateAuthorization (updateAuthorizationToPb L c)
  | .bumpClusterVersion c => .bumpClusterVersion (bumpClusterVersionToPb c)
  | .recordCaCertificate c => .recordCaCertificate (recordCaCertificateToPb c)
  | .bindMachineIdentity c => .bindMachineIdentity (bindMachineIdentityToPb L c)
  | .mintEnrollToken c => .mintEnrollToken (mintEnrollTokenToPb L c)
  | .revokeEnrollToken c => .revokeEnrollToken (revokeEnrollTokenToPb L c)
  | .revokeIdentity c => .revokeIdentity (revokeIdentityToPb L c)
  | .confirmKeyPossession c => .confirmKeyPossession (confirmKeyPossessionToPb c)
  | .recordEnrolledIdentity c => .recordEnrolledIdentity (recordEnrolledIdentityToPb L c)
  | .rebindMachineAddress c => .rebindMachineAddress (rebindMachineAddressToPb c)
  | .retireMachineBinding c => .retireMachineBinding (retireMachineBindingToPb L c)
  | .recordKeyTransferIntent c => .recordKeyTransferIntent (recordKeyTransferIntentToPb c)
  | .recordStagedKeyTransferIntent c =>
    .recordStagedKeyTransferIntent (recordStagedKeyTransferIntentToPb c)
  | .confirmStagedKeyPossession c => .confirmStagedKeyPossession (confirmStagedKeyPossessionToPb c)

def bodyFromPb : Pb.Body → Read Command
  | .submitJob c => .submitJob <$> submitJobFromPb L c
  | .abortJob c => .abortJob <$> abortJobFromPb L c
  | .updateJobMetadata c => .updateJobMetadata <$> updateJobMetadataFromPb L c
  | .commitPlacements c => .commitPlacements <$> commitPlacementsFromPb L c
  | .dispatchAttempt c => .dispatchAttempt <$> dispatchAttemptFromPb L c
  | .recordAttemptStarted c => .recordAttemptStarted <$> recordAttemptStartedFromPb L c
  | .recordAttemptExited c => .recordAttemptExited <$> recordAttemptExitedFromPb L c
  | .recordAttemptOutcome c => .recordAttemptOutcome <$> recordAttemptOutcomeFromPb L c
  | .reconcileNode c => .reconcileNode <$> reconcileNodeFromPb L c
  | .recordAttemptNotified c => .recordAttemptNotified <$> recordAttemptNotifiedFromPb L c
  | .registerNode c => .registerNode <$> registerNodeFromPb L c
  | .declareNodeLost c => .declareNodeLost <$> declareNodeLostFromPb L c
  | .setNodeDrain c => .setNodeDrain <$> setNodeDrainFromPb L c
  | .setNodeDraining c => .setNodeDraining <$> setNodeDrainingFromPb L c
  | .evictTerminalJobs c => .evictTerminalJobs <$> evictTerminalJobsFromPb L c
  | .evictNodes c => .evictNodes <$> evictNodesFromPb L c
  | .renewIntervalCharges c => .renewIntervalCharges <$> renewIntervalChargesFromPb L c
  | .configureQuotaEntity c => .configureQuotaEntity <$> configureQuotaEntityFromPb L c
  | .updatePolicy c => .updatePolicy <$> updatePolicyFromPb c
  | .updateAuthorization c => .updateAuthorization <$> updateAuthorizationFromPb L c
  | .bumpClusterVersion c => .bumpClusterVersion <$> bumpClusterVersionFromPb c
  | .recordCaCertificate c => .recordCaCertificate <$> recordCaCertificateFromPb L c
  | .bindMachineIdentity c => .bindMachineIdentity <$> bindMachineIdentityFromPb L c
  | .mintEnrollToken c => .mintEnrollToken <$> mintEnrollTokenFromPb L c
  | .revokeEnrollToken c => .revokeEnrollToken <$> revokeEnrollTokenFromPb L c
  | .revokeIdentity c => .revokeIdentity <$> revokeIdentityFromPb L c
  | .confirmKeyPossession c => .confirmKeyPossession <$> confirmKeyPossessionFromPb c
  | .recordEnrolledIdentity c => .recordEnrolledIdentity <$> recordEnrolledIdentityFromPb L c
  | .rebindMachineAddress c => .rebindMachineAddress <$> rebindMachineAddressFromPb c
  | .retireMachineBinding c => .retireMachineBinding <$> retireMachineBindingFromPb L c
  | .recordKeyTransferIntent c => .recordKeyTransferIntent <$> recordKeyTransferIntentFromPb c
  | .recordStagedKeyTransferIntent c =>
    .recordStagedKeyTransferIntent <$> recordStagedKeyTransferIntentFromPb c
  | .confirmStagedKeyPossession c =>
    .confirmStagedKeyPossession <$> confirmStagedKeyPossessionFromPb c

/-- Wrap a command in the versioned envelope. -/
def commandToPb (command : Command) (clusterVersion : Nat) : Pb.Command :=
  ⟨clusterVersion, some (bodyToPb L command)⟩

/-- Unwrap the envelope, with the version it was written under. -/
def commandFromPb (command : Pb.Command) : Read (Nat × Command) := do
  let body ← req command.body "Command.body" >>= bodyFromPb L
  pure (command.version, body)

end

end Coppice.Proto
