/-
  Coppice.State.Placements

  `StateMachine::commit_placements` (`coppice-state/src/apply.rs`): the
  all-or-nothing validation of a scheduling batch, the accrual limits, and
  the effects of an accepted batch (revocations first, then seats in payload
  order).
-/

import Coppice.State.Admission

namespace Coppice.State

open Lib Coppice.Core

/-- Ordered sets. -/
abbrev OrdSet (K : Type) [LinearOrder K] : Type := OrdMap K Unit

/-! ## Item validation -/

/-- What item validation has gathered so far. -/
structure Screen where
  items : List Rejection
  seenJobs : List JobId
  seenAttempts : List AttemptId
  seenAllocs : List AllocationId
  /-- Backfill already seated per draining node. -/
  seated : OrdMap NodeId Resources
  preempt : Option PreemptCheck
  cutoffs : List (Option Timestamp)
  victims : List (List Victim)

namespace StateMachine

/-- Check the revocations in order; returns the diagnostics and the accepted
    allocations. -/
def validateRevocations (s : StateMachine) :
    List AllocationId → Nat → List AllocationId → List Rejection × List AllocationId
  | [], _, revoked => ([], revoked)
  | id :: rest, idx, revoked =>
    match s.allocations.get? id with
    | none =>
      let (items, revoked) := s.validateRevocations rest (idx + 1) revoked
      ((idx, .unknownAllocation id) :: items, revoked)
    | some r =>
      if r.allocation.state ≠ .accruing ∨ revoked.contains id then
        let (items, revoked) := s.validateRevocations rest (idx + 1) revoked
        ((idx, .allocationNotAccruing id) :: items, revoked)
      else s.validateRevocations rest (idx + 1) (revoked ++ [id])

section

variable (s : StateMachine) (c : CommitPlacements)

/-- Nodes the batch places onto that are under a drain without a deadline. -/
def drainedTargets : List NodeId :=
  (c.placements.flatMap fun p => p.allocations.map AllocationSpec.node).filter fun n =>
    match s.nodes.get? n with
    | none => false
    | some r =>
      (match r.node.drain with
        | none => false
        | some d => d.deadline.isNone) && !r.draining

/-- The horizon of a drained target of the batch, unbounded for any other node. -/
def batchHorizon (node : NodeId) : NodeHorizon :=
  if (s.drainedTargets c).contains node then s.nodeHorizon node else .unbounded

/-- `job` is attempting and its current accrual is revoked in this batch. -/
def isReseat (job : JobRecord) (revoked : List AllocationId) : Bool :=
  match job.state.attempt.bind fun id => s.attempts.get? id with
  | none => false
  | some a => revoked.contains a.attempt.allocation

/-- The checks of a placement that hold for every kind of admission. -/
def placementGates (job : JobRecord) (node : NodeRecord) (spec : AllocationSpec) :
    Except RejectionReason Unit :=
  if node.node.preemptibleOnly && !s.effectivePreemptible job.spec then
    .error (.nodeRequiresPreemptible spec.node)
  else if !spec.requested.fitsWithin node.node.capacity then
    .error (.requestExceedsNodeCapacity spec.id)
  else if !s.quotaEntities.contains job.spec.quotaEntity then
    .error (.unknownQuotaEntity job.spec.quotaEntity)
  else .ok ()

/-- Admission of a placement to its node.  Backfill is funded in full at once,
    counted against the node's free capacity before the batch. -/
def admitPlacement (used : Memo) (seated : OrdMap NodeId Resources) (job : JobRecord)
    (node : NodeRecord) (spec : AllocationSpec) :
    Except RejectionReason (Option Timestamp × OrdMap NodeId Resources) :=
  match node.admits job.spec c.proposedAt s.policy (s.batchHorizon c spec.node) with
  | .refused => .error (.nodeDraining spec.node)
  | .open_ => (s.placementGates job node spec).map fun _ => (none, seated)
  | .backfill cutoff =>
    match s.placementGates job node spec with
    | .error r => .error r
    | .ok () =>
      let here := (seated.get? spec.node).getD .zero
      let free := (s.freeCapacity spec.node (some used)).saturatingSub here
      if !spec.requested.fitsWithin free then .error (.nodeDraining spec.node)
      else .ok (some cutoff, seated.insert spec.node (here.saturatingAdd spec.requested))

/-- Validate one placement; returns its drain cutoff and the backfill seated
    after it. -/
def validatePlacement (revoked : List AllocationId) (used : Memo) (sc : Screen) (p : Placement) :
    Except RejectionReason (Option Timestamp × OrdMap NodeId Resources) :=
  match s.jobs.get? p.job with
  | none => .error (.unknownJob p.job)
  | some job =>
    if (job.state ≠ .queued ∧ !s.isReseat job revoked) ∨ sc.seenJobs.contains p.job then
      .error (.jobNotQueued p.job)
    else if p.group ≠ p.job then .error .unsupportedPlacementShape
    else
      -- exactly one allocation: the plural field is the gang-scheduling seam
      match p.allocations with
      | [spec] =>
        if s.attempts.contains p.attempt ∨ sc.seenAttempts.contains p.attempt then
          .error (.duplicateAttempt p.attempt)
        else if s.allocations.contains spec.id ∨ sc.seenAllocs.contains spec.id then
          .error (.duplicateAllocation spec.id)
        else
          match s.nodes.get? spec.node with
          | none => .error (.unknownNode spec.node)
          | some node => s.admitPlacement c used sc.seated job node spec
      | _ => .error .unsupportedPlacementShape

/-- One placement of the batch: both validations, and what later placements
    see of them. -/
def screenPlacement (revoked : List AllocationId) (used : Memo) (idx : Nat) (sc : Screen)
    (p : Placement) : Screen :=
  match s.validatePlacement c revoked used sc p with
  | .error reason => { sc with items := sc.items ++ [(idx, reason)] }
  | .ok (cutoff, seated) =>
    let sc := { sc with seated := seated }
    let accept (sc : Screen) (group : List Victim) : Screen :=
      { sc with
        seenJobs := p.job :: sc.seenJobs
        seenAttempts := p.attempt :: sc.seenAttempts
        seenAllocs := (p.allocations.head?.map AllocationSpec.id).toList ++ sc.seenAllocs
        cutoffs := sc.cutoffs ++ [cutoff]
        victims := sc.victims ++ [group] }
    match sc.preempt with
    | none => accept sc []
    | some check =>
      match s.validatePreemptions p revoked used check with
      | (.error reason, check) =>
        { sc with preempt := some check, items := sc.items ++ [(idx, reason)] }
      | (.ok group, check) => accept { sc with preempt := some check } group

end

def screenPlacements (s : StateMachine) (c : CommitPlacements) (revoked : List AllocationId)
    (used : Memo) : Nat → Screen → List Placement → Screen
  | _, sc, [] => sc
  | idx, sc, p :: rest =>
    s.screenPlacements c revoked used (idx + 1) (s.screenPlacement c revoked used idx sc p) rest

/-! ## The accrual limits -/

/-- Jobs of the queued allocations that the batch does not revoke. -/
def survivingJobs (s : StateMachine) (revoked : List AllocationId) : OrdSet JobId :=
  s.accrualQueue.values.foldl
    (fun jobs id =>
      if revoked.contains id then jobs
      else
        match s.allocations.get? id with
        | none => jobs
        | some a => jobs.insert a.allocation.job ()) .empty

def touchedNodes (s : StateMachine) (c : CommitPlacements) (revoked : List AllocationId) :
    OrdSet NodeId :=
  let touched := revoked.foldl
    (fun touched id =>
      match s.allocations.get? id with
      | none => touched
      | some a => touched.insert a.allocation.node ()) (.empty : OrdSet NodeId)
  (c.placements.flatMap Placement.allocations).foldl
    (fun touched spec => touched.insert spec.node ()) touched

/-- Free capacity of a node once its revoked holds are returned. -/
def freeAfterRevocation (s : StateMachine) (revoked : List AllocationId) (used : Memo)
    (node : NodeId) : Resources :=
  revoked.foldl
    (fun free id =>
      match s.allocations.get? id with
      | none => free
      | some a =>
        if a.allocation.node = node then free.saturatingAdd a.allocation.funded else free)
    (s.freeCapacity node (some used))

/-- The working state of the limit simulation. -/
structure AccrualSim where
  /-- Jobs accruing anywhere. -/
  accruing : OrdSet JobId
  simFree : OrdMap NodeId Resources
  /-- Jobs accruing on each touched node. -/
  perNode : OrdMap NodeId (OrdSet JobId)

/-- Let freed capacity flow to the surviving queue of one node in commit order. -/
def simQueue (s : StateMachine) (revoked : List AllocationId) :
    List (Nat × AllocationId) → Resources → OrdSet JobId → OrdSet JobId →
      Resources × OrdSet JobId × OrdSet JobId
  | [], free, accruing, nodeJobs => (free, accruing, nodeJobs)
  | (_, id) :: rest, free, accruing, nodeJobs =>
    if revoked.contains id then s.simQueue revoked rest free accruing nodeJobs
    else
      match s.allocations.get? id with
      | none => s.simQueue revoked rest free accruing nodeJobs
      | some rec =>
        let need := rec.allocation.requested.saturatingSub rec.allocation.funded
        let pledge := free.componentMin need
        let free := free.saturatingSub pledge
        if pledge = need then
          s.simQueue revoked rest free (accruing.erase rec.allocation.job) nodeJobs
        else s.simQueue revoked rest free accruing (nodeJobs.insert rec.allocation.job ())

def simNode (s : StateMachine) (revoked : List AllocationId) (used : Memo) (sim : AccrualSim)
    (node : NodeId) : AccrualSim :=
  let (free, accruing, nodeJobs) :=
    s.simQueue revoked (s.nodeQueue node) (s.freeAfterRevocation revoked used node) sim.accruing
      ((sim.perNode.get? node).getD .empty)
  { accruing := accruing
    simFree := sim.simFree.insert node free
    perNode := sim.perNode.insert node nodeJobs }

def simPlacement (sim : AccrualSim) (p : Placement) : AccrualSim :=
  match p.allocations.head? with
  | none => sim
  | some spec =>
    match sim.simFree.get? spec.node with
    | none => sim
    | some free =>
      let pledge := free.componentMin spec.requested
      let sim := { sim with simFree := sim.simFree.insert spec.node (free.saturatingSub pledge) }
      if pledge ≠ spec.requested then
        { sim with
          accruing := sim.accruing.insert p.job ()
          perNode := sim.perNode.insert spec.node
            (((sim.perNode.get? spec.node).getD .empty).insert p.job ()) }
      else sim

section

variable (s : StateMachine) (c : CommitPlacements) (revoked : List AllocationId) (used : Memo)

/-- The simulated outcome of the batch. -/
def simulateAccruals : AccrualSim :=
  let start : AccrualSim := ⟨s.survivingJobs revoked, .empty, .empty⟩
  let drained := (s.touchedNodes c revoked).keys.foldl (s.simNode revoked used) start
  c.placements.foldl simPlacement drained

def checkAccrualLimit : Option RejectionReason :=
  let before := (s.survivingJobs revoked).entries.length
  let sim := s.simulateAccruals c revoked used
  let after := sim.accruing.entries.length
  let limit := s.policy.accrualLimit
  if limit < after ∧ before < after then some (.accrualLimitExceeded limit)
  else
    (sim.perNode.entries.find? fun e => 1 < e.2.entries.length).map
      fun e => .perNodeAccrualExceeded e.1

end

end StateMachine

/-! ## Effects -/

namespace Effects

/-- Price of a placement: charged seconds, folded multiplier, refund fraction
    and, for a job without a declared bound, the charge interval. -/
def pricing (policy : PolicyConfig) (job : JobRecord) (preemptible : Bool) :
    UInt64 × PriorityMultiplier × Nat × Option UInt64 :=
  let (runtimeS, multiplier, refundFractionMilli, interval) :=
    match job.spec.maxRuntime with
    | some bound => (runtimeSecondsCeil bound, job.multiplier, policy.refundFractionMilli, none)
    | none =>
      (policy.unboundedChargeIntervalS,
        PriorityMultiplier.saturatingMul job.multiplier policy.unboundedRuntimeMultiplier,
        fullRefundMilli, some policy.unboundedChargeIntervalS)
  let multiplier :=
    if preemptible then PriorityMultiplier.saturatingMul multiplier policy.preemptibleMultiplier
    else multiplier
  (runtimeS, multiplier, refundFractionMilli, interval)

/-- Record the termination of one victim. -/
def recordVictim (fx : Effects) (proposedAt : Timestamp) (node : NodeId) (victim : Victim) :
    Effects :=
  match fx.st.allocations.get? victim.1 with
  | none => fx
  | some a =>
    let notice :=
      match fx.st.jobs.get? a.allocation.job with
      | none => fx.st.policy.preemptionNoticeFloor
      | some j => fx.st.declaredNotice j.spec
    (fx.modifyAttempt a.allocation.attempt fun r =>
      { r with preemption := some ⟨victim.2, proposedAt, none⟩ }).emit
      (.preemptRequested a.allocation.attempt victim.1 a.allocation.job node victim.2 notice)

/-- The allocation of a placement, funded at once with what is free: capacity
    the accrual queue does not want. -/
def seatedAllocation (fx : Effects) (p : Placement) (spec : AllocationSpec) : AllocationRecord :=
  let funded := (fx.st.freeCapacity spec.node fx.used).componentMin spec.requested
  { allocation :=
      { id := spec.id, job := p.job, attempt := p.attempt, node := spec.node,
        requested := spec.requested, funded := funded,
        state := if funded = spec.requested then .funded else .accruing }
    seq := fx.st.nextAllocationSeq }

/-- The attempt of a placement, charged up front. -/
def seatedAttempt (s : StateMachine) (proposedAt : Timestamp) (p : Placement)
    (spec : AllocationSpec) (j : JobRecord) (drainCutoff : Option Timestamp)
    (state : AttemptState) : AttemptRecord :=
  let preemptible := s.effectivePreemptible j.spec
  let (runtimeS, multiplier, refundFractionMilli, interval) := pricing s.policy j preemptible
  let rate := resourceRate j.spec.requests s.policy.costWeights
  let charge := costFromRate rate runtimeS multiplier
  { attempt :=
      { id := p.attempt, job := p.job, allocation := spec.id, node := spec.node, state := state }
    group := p.group
    charge :=
      { amount := charge, chargedAt := proposedAt, refundFractionMilli := refundFractionMilli,
        interval := interval.map fun seconds =>
          { seconds := seconds, paid := 1, lastTranche := charge, priorChargedAt := proposedAt } }
    rateUcuPerSecond := rate
    multiplier := multiplier
    startedAt := none
    endedAt := none
    settlement := none
    effectivePreemptible := preemptible
    preemption := none
    drainCutoff := drainCutoff }

/-- Insert the records of a placement. -/
def seatRecords (fx : Effects) (spec : AllocationSpec) (r : AllocationRecord) (a : AttemptRecord) :
    Effects :=
  { fx with
    st :=
      { fx.st with
        nextAllocationSeq := r.seq + 1
        allocations := fx.st.allocations.insert spec.id r
        accrualQueue :=
          if r.allocation.state = .accruing then
            fx.st.accrualQueue.insert (toLex (spec.node, r.seq)) spec.id
          else fx.st.accrualQueue
        attempts := fx.st.attempts.insert a.attempt.id a } }

/-- Seat one validated placement. -/
def seatPlacement (fx : Effects) (proposedAt : Timestamp) (p : Placement)
    (drainCutoff : Option Timestamp) (group : List Victim) : Effects :=
  match p.allocations.head?, fx.st.jobs.get? p.job with
  | some spec, some j =>
    let r := fx.seatedAllocation p spec
    let state : AttemptState := if r.allocation.funded = spec.requested then .ready else .accruing
    let a := seatedAttempt fx.st proposedAt p spec j drainCutoff state
    let fx := (fx.seatRecords spec r a).memoAdd spec.node r.allocation.funded
    let fx := fx.emit (.attemptStateChanged p.attempt p.job spec.node state)
    let fx :=
      if r.allocation.funded = spec.requested then
        fx.emit (.allocationFunded spec.id p.job spec.node)
      else fx
    let fx := fx.modifyJob p.job fun j => { j with attempts := j.attempts ++ [p.attempt] }
    let fx := fx.jobTransition p.job (.attempting p.attempt)
    let fx := { fx with
      st := fx.st.chargeAncestors j.spec.quotaEntity a.charge.amount proposedAt }
    group.foldl (fun fx victim => fx.recordVictim proposedAt spec.node victim) fx
  | _, _ => fx

def revokeOne (proposedAt : Timestamp) (fx : Effects) (id : AllocationId) : Effects :=
  match fx.st.allocations.get? id with
  | none => fx
  | some r => fx.terminateAttempt r.allocation.attempt .revoked Duration.zero proposedAt true

def seatAll (proposedAt : Timestamp) :
    List Placement → List (Option Timestamp) → List (List Victim) →
      Effects → Effects
  | p :: ps, cutoff :: cutoffs, group :: groups, fx =>
    seatAll proposedAt ps cutoffs groups (fx.seatPlacement proposedAt p cutoff group)
  | _, _, _, fx => fx

end Effects

/-- What a command answers. -/
abbrev ApplyResult : Type := Except RejectionReason Applied

/-- The state after a command and its answer. -/
abbrev Reply : Type := StateMachine × ApplyResult

namespace StateMachine

section

variable (s : StateMachine) (c : CommitPlacements)

/-- The validation phase: the revoked allocations and what was screened. -/
def screenBatch : List AllocationId × Screen :=
  let (items, revoked) := s.validateRevocations c.revocations 0 []
  let start : Screen :=
    { items := items, seenJobs := [], seenAttempts := [], seenAllocs := [], seated := .empty
      preempt := PreemptCheck.forBatch s c, cutoffs := [], victims := [] }
  (revoked, s.screenPlacements c revoked s.usedCapacityMemo c.revocations.length start c.placements)

/-- What was screened. -/
abbrev screen : Screen := (s.screenBatch c).2

/-- The effects phase of an accepted batch. -/
def commitEffects (sc : Screen) : Effects :=
  let fx : Effects := ⟨s, [], some s.usedCapacityMemo⟩
  let fx := c.revocations.foldl (Effects.revokeOne c.proposedAt) fx
  Effects.seatAll c.proposedAt c.placements sc.cutoffs sc.victims fx

/-- The effects of a batch that passes. -/
abbrev committing : Effects := s.commitEffects c (s.screen c)

def commitPlacements : Reply :=
  let (revoked, sc) := s.screenBatch c
  if !sc.items.isEmpty then (s, .error (.invalidBatch sc.items))
  else
    match s.checkAccrualLimit c revoked s.usedCapacityMemo with
    | some reason => (s, .error reason)
    | none =>
      let fx := s.commitEffects c sc
      (fx.st, .ok ⟨fx.events⟩)

end

end StateMachine

end Coppice.State
