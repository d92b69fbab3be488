/-
  Coppice.State.Apply

  The remaining commands of `coppice-state/src/apply.rs` and `StateMachine::apply`
  itself: each is a function from the state to the state after it and its answer.
-/

import Coppice.State.Placements
import Coppice.State.Authz

namespace Coppice.State

open Lib Coppice.Core Effects

namespace Effects

def start (s : StateMachine) : Effects := ⟨s, [], none⟩

def finish (fx : Effects) : Reply := (fx.st, .ok ⟨fx.events⟩)

end Effects

namespace StateMachine

/-- Accepted, nothing to report. -/
def done (s : StateMachine) : Reply := (s, .ok ⟨[]⟩)

def reject (s : StateMachine) (r : RejectionReason) : Reply := (s, .error r)

/-! ## API-proposed -/

/-- A retried submission is the same one: everything the client sent agrees. -/
def sameSubmission (existing retried : Job) : Bool :=
  existing.id = retried.id && existing.image = retried.image &&
    existing.command = retried.command && existing.entrypoint = retried.entrypoint &&
    existing.requests = retried.requests && existing.priority = retried.priority &&
    existing.maxRuntime = retried.maxRuntime && existing.quotaEntity = retried.quotaEntity &&
    existing.retry = retried.retry && existing.metadata = retried.metadata &&
    existing.env = retried.env && existing.preemption = retried.preemption

def Job.withNotice (job : Job) (notice : Option Duration) : Job :=
  { job with preemption := { job.preemption with notice := notice } }

section

variable (s : StateMachine) (c : SubmitJob)

/-- A job id already taken: an idempotent retry, or a conflicting payload. -/
def resubmitJob (existing : JobRecord) : Reply :=
  -- a retry that leaves the notice unset means whatever it was given
  let submitted :=
    if c.job.preemption.notice.isNone then Job.withNotice c.job existing.spec.preemption.notice
    else c.job
  if sameSubmission existing.spec submitted then
    match s.authorize c.actor (.submit c.job.quotaEntity) with
    | .error r => s.reject r
    | .ok () => s.done
  else s.reject (.submitSpecMismatch c.job.id)

/-- A new job is accepted and queued at once. -/
def submitEvents (job : JobId) : List Event :=
  [.jobSubmitted job, .jobStateChanged job .submitted .accepted,
    .jobStateChanged job .accepted .queued]

def submitNewJob : Reply :=
  let notice := resolveNotice c.job.preemption.notice s.policy.preemptionNoticeFloor
  match validateNotice notice s.policy.preemptionNoticeFloor s.policy.preemptionNoticeCap with
  | .error e => s.reject (.invalidJobPreemption e)
  | .ok () =>
    if !s.quotaEntities.contains c.job.quotaEntity then
      s.reject (.unknownQuotaEntity c.job.quotaEntity)
    else
      match s.authorize c.actor (.submit c.job.quotaEntity) with
      | .error r => s.reject r
      | .ok () =>
        let spec := Job.withNotice c.job (some notice)
        -- ownership is stamped from the verified actor
        let spec :=
          match c.actor with
          | none => spec
          | some actor => { spec with submittedBy := some actor.principal }
        let record : JobRecord :=
          { spec := spec, state := .queued, multiplier := c.multiplier
            submittedAt := c.submittedAt, terminalAt := none, retriesUsed := 0, attempts := [] }
        ({ s with jobs := s.jobs.insert c.job.id record }, .ok ⟨submitEvents c.job.id⟩)

def submitJob : Reply :=
  if c.job.abortRequested.isSome then
    s.reject (.invalidCommand "submitted job carries a pre-set abort flag")
  else
    match Metadata.validate c.job.metadata with
    | .error e => s.reject (.invalidJobMetadata e)
    | .ok () =>
      match Env.validate c.job.env with
      | .error e => s.reject (.invalidJobEnv e)
      | .ok () =>
        match s.jobs.get? c.job.id with
        | some existing => s.resubmitJob c existing
        | none => s.submitNewJob c

end

variable (s : StateMachine)

def abortJob (c : AbortJob) : Reply :=
  match s.jobs.get? c.job with
  | none => s.reject (.unknownJob c.job)
  | some r =>
    if r.state.isTerminal then s.reject (.jobTerminal c.job)
    else
      match s.authorize c.actor (.abort r.spec.quotaEntity r.spec.submittedBy) with
      | .error e => s.reject e
      | .ok () =>
        -- a repeated abort is an accepted no-op: the first request wins
        let fx := (start s).modifyJob c.job fun r =>
          if r.spec.abortRequested.isNone then
            { r with spec := { r.spec with
                abortRequested := some ⟨c.reason, c.requestedAt⟩ } }
          else r
        match r.state with
        | .submitted | .accepted | .queued =>
          (fx.jobTerminalTransition c.job .aborted c.requestedAt).finish
        | .attempting id =>
          match fx.st.attempts.get? id with
          | none => fx.finish
          | some a =>
            match a.attempt.state with
            | .accruing | .ready =>
              -- not yet dispatched: terminate now
              (fx.terminateAttempt id .aborted Duration.zero c.requestedAt true).finish
            | .dispatching | .running =>
              (fx.emit (.stopRequested a.attempt.node a.attempt.allocation
                a.attempt.job)).finish
            | _ => fx.finish
        | _ => fx.finish

def JobMetadataUpdate.apply (u : JobMetadataUpdate) (current : TextMap) : TextMap :=
  match u with
  | .replace metadata => metadata
  | .patch set unset =>
    unset.foldl (fun m key => m.erase key)
      (set.entries.foldl (fun m e => m.insert e.1 e.2) current)

def updateJobMetadata (s : StateMachine) (c : UpdateJobMetadata) : Reply :=
  match s.jobs.get? c.job with
  | none => s.reject (.unknownJob c.job)
  | some r =>
    match s.authorize c.actor (.updateJobMetadata r.spec.quotaEntity r.spec.submittedBy) with
    | .error e => s.reject e
    | .ok () =>
      let next := JobMetadataUpdate.apply c.update r.spec.metadata
      match Metadata.validate next with
      | .error e => s.reject (.invalidJobMetadata e)
      | .ok () =>
        if next = r.spec.metadata then s.done
        else
          ({ s with jobs := s.jobs.modify c.job fun r =>
              { r with spec := { r.spec with metadata := next } } },
            .ok ⟨[.jobMetadataUpdated c.job r.spec.metadata]⟩)

/-! ## Ingestion-proposed -/

def dispatchAttempt (c : DispatchAttempt) : Reply :=
  match s.attempts.get? c.attempt with
  | none => s.reject (.unknownAttempt c.attempt)
  | some a =>
    if a.attempt.state ≠ .ready then s.reject (.staleAttemptState c.attempt)
    else ((start s).attemptTransition c.attempt .dispatching).finish

def recordAttemptStarted (c : RecordAttemptStarted) : Reply :=
  match s.attempts.get? c.attempt with
  | none => s.reject (.unknownAttempt c.attempt)
  | some a =>
    if a.attempt.state ≠ .dispatching then s.reject (.staleAttemptState c.attempt)
    else ((start s).markAttemptRunning c.attempt c.observedAt).finish

def recordAttemptExited (c : RecordAttemptExited) : Reply :=
  match s.attempts.get? c.attempt with
  | none => s.reject (.unknownAttempt c.attempt)
  | some a =>
    if a.attempt.state ≠ .running then s.reject (.staleAttemptState c.attempt)
    else ((start s).attemptTransition c.attempt .finalizing).finish

def recordAttemptOutcome (c : RecordAttemptOutcome) : Reply :=
  match s.attempts.get? c.attempt with
  | none => s.reject (.unknownAttempt c.attempt)
  | some a =>
    if a.attempt.state.isTerminal then s.reject (.staleAttemptState c.attempt)
    else if c.outcome = .revoked ∧ !(a.drainCutoff.isSome && a.startedAt.isNone) then
      s.reject (.invalidCommand
        "outcome Revoked is only produced by CommitPlacements or a refused drain-backfill launch")
    else
      ((start s).terminateAttempt c.attempt c.outcome c.actualRuntime c.observedAt
        true).finish

/-- The termination record after an agent's notice mark; `none` when the
    recorded deadline is already at least as early. -/
def notifiedPreemption (prior : Option Preemption) (c : RecordAttemptNotified) :
    Option Preemption :=
  let deadline := c.observedAt.saturatingAdd (max c.remaining Duration.zero)
  let shortfall := max c.shortfall Duration.zero
  let acknowledged : Acknowledged := ⟨c.observedAt, deadline, shortfall⟩
  match prior with
  | none => some ⟨c.reason, c.observedAt, some acknowledged⟩
  | some p =>
    match p.acknowledged with
    | none => some ⟨p.reason, p.requestedAt, some acknowledged⟩
    | some ack =>
      if ack.deadline ≤ deadline then none
      else some ⟨p.reason, p.requestedAt, some ⟨ack.notifiedAt, deadline, shortfall⟩⟩

/-- The effects of a notice that changes the record. -/
abbrev notifying (c : RecordAttemptNotified) (a : AttemptRecord) (next : Preemption) : Effects :=
  ((start s).modifyAttempt c.attempt fun a => { a with preemption := some next }).emit
    (.attemptNotified c.attempt a.attempt.job a.attempt.node)

def recordAttemptNotified (c : RecordAttemptNotified) : Reply :=
  match s.attempts.get? c.attempt with
  | none => s.reject (.unknownAttempt c.attempt)
  | some a =>
    if a.attempt.state ≠ .running then s.reject (.staleAttemptState c.attempt)
    else
      match notifiedPreemption a.preemption c with
      | none => s.done
      | some next => (s.notifying c a next).finish

def reconcileAdopted (s : StateMachine) (node : NodeId) : Nat → List AttemptId → List Rejection
  | _, [] => []
  | idx, id :: rest =>
    (match s.attempts.get? id with
      | none => [(idx, RejectionReason.unknownAttempt id)]
      | some a =>
        if a.attempt.node ≠ node then [(idx, .attemptNotOnNode id node)] else []) ++
      s.reconcileAdopted node (idx + 1) rest

def reconcileLost (s : StateMachine) (node : NodeId) : Nat → List LostAttempt → List Rejection
  | _, [] => []
  | idx, l :: rest =>
    (match s.attempts.get? l.attempt with
      | none => [(idx, RejectionReason.unknownAttempt l.attempt)]
      | some a =>
        if a.attempt.node ≠ node then [(idx, .attemptNotOnNode l.attempt node)]
        else if l.outcome = .revoked then
          [(idx, .invalidCommand "outcome Revoked is only produced by CommitPlacements")]
        else []) ++
      s.reconcileLost node (idx + 1) rest

def adoptOne (observedAt : Timestamp) (fx : Effects) (id : AttemptId) : Effects :=
  match fx.st.attempts.get? id with
  | none => fx
  | some a =>
    if a.attempt.state = .dispatching then fx.markAttemptRunning id observedAt else fx

def loseOne (observedAt : Timestamp) (fx : Effects) (l : LostAttempt) : Effects :=
  match fx.st.attempts.get? l.attempt with
  | none => fx
  | some a =>
    if a.attempt.state.isTerminal then fx
    else fx.terminateAttempt l.attempt l.outcome l.actualRuntime observedAt true

/-- The effects of every adoption. -/
abbrev adopting (c : ReconcileNode) : Effects :=
  c.adopted.foldl (adoptOne c.observedAt) (start s)

/-- The effects of every adoption and then of every loss. -/
abbrev reconciling (c : ReconcileNode) : Effects :=
  c.lost.foldl (loseOne c.observedAt) (s.adopting c)

def reconcileNode (c : ReconcileNode) : Reply :=
  match s.nodes.get? c.node with
  | none => s.reject (.unknownNode c.node)
  | some n =>
    if n.epoch ≠ c.nodeEpoch then s.reject (.staleNodeEpoch c.node n.epoch c.nodeEpoch)
    else
      let items := s.reconcileAdopted c.node 0 c.adopted ++
        s.reconcileLost c.node c.adopted.length c.lost
      if !items.isEmpty then s.reject (.invalidBatch items)
      else
        (s.reconciling c).finish

/-! ## Nodes -/

/-- The record of a node after it registered. -/
def registeredRecord (c : RegisterNode) (prior : Option NodeRecord) : NodeRecord where
  node :=
    { id := (prior.map fun r => r.node.id).getD c.node
      capacity := c.capacity
      labels := c.labels
      drain := prior.bind fun r => r.node.drain
      serviceAddr := c.serviceAddr
      hostFacts := c.hostFacts
      detectedCapacity := c.detectedCapacity
      preemptibleOnly := c.preemptibleOnly }
  epoch := (prior.map fun r => r.epoch + 1).getD 1
  draining := c.draining
  interruptionDeadline := c.interruptionDeadline

def registerNode (c : RegisterNode) : Reply :=
  let rec_ := registeredRecord c (s.nodes.get? c.node)
  let fx := (start { s with nodes := s.nodes.insert c.node rec_ }).emit
    (.nodeEpochBumped c.node rec_.epoch)
  (fx.pledgeNode c.node).finish

/-- `(seq, attempt)` in seq order. -/
def insertBySeq (v : Nat × AttemptId) : List (Nat × AttemptId) → List (Nat × AttemptId)
  | [] => [v]
  | w :: rest => if v.1 < w.1 then v :: w :: rest else w :: insertBySeq v rest

/-- Live attempts on a node in commit order. -/
def lostVictims (node : NodeId) : List (Nat × AttemptId) :=
  ((s.allocations.values.filter fun r => r.allocation.node = node && r.isLive).map
    fun r => (r.seq, r.allocation.attempt)).foldl (fun acc v => insertBySeq v acc) []

def loseNodeAttempt (declaredAt : Timestamp) (fx : Effects) (v : Nat × AttemptId) : Effects :=
  let runtime :=
    match (fx.st.attempts.get? v.2).bind AttemptRecord.startedAt with
    | none => Duration.zero
    | some started => max (declaredAt.durationSince started) Duration.zero
  fx.terminateAttempt v.2 .nodeLost runtime declaredAt false

section

variable (s : StateMachine)

def declareNodeLost (c : DeclareNodeLost) : Reply :=
  match s.nodes.get? c.node with
  | none => s.reject (.unknownNode c.node)
  | some rec_ =>
    let drain := rec_.node.drain.getD ⟨c.declaredAt, none⟩
    let lost : NodeRecord :=
      { rec_ with epoch := rec_.epoch + 1, node := { rec_.node with drain := some drain } }
    let fx := (start { s with nodes := s.nodes.insert c.node lost }).emit
      (.nodeEpochBumped c.node lost.epoch)
    ((fx.st.lostVictims c.node).foldl (loseNodeAttempt c.declaredAt) fx).finish

def setDrainRecord (node : NodeId) (drain : Option Drain) : StateMachine :=
  { s with nodes := s.nodes.modify node fun r => { r with node := { r.node with drain := drain } } }

def setNodeDrain (c : SetNodeDrain) : Reply :=
  match s.nodes.get? c.node with
  | none => s.reject (.unknownNode c.node)
  | some rec_ =>
    match s.authorize c.actor .drain with
    | .error e => s.reject e
    | .ok () =>
      match c.drain with
      | none => (s.setDrainRecord c.node none).done
      | some drain =>
        let now := drain.requestedAt
        match drain.deadline with
        | none =>
          if rec_.node.drain.isNone then (s.setDrainRecord c.node (some drain)).done
          else s.done
        | some deadline =>
          let previous := rec_.node.drain.bind Drain.deadline
          if previous = some deadline then s.done
          else
            let minLead := s.policy.deadlineDrainMinLead
            if deadline.durationSince now < minLead then
              s.reject (.drainDeadlineTooSoon c.node minLead)
            else
              let requestedAt := (rec_.node.drain.map Drain.requestedAt).getD now
              let accept := (s.setDrainRecord c.node
                (some ⟨requestedAt, some deadline⟩)).done
              match previous with
              | none => accept
              | some previous =>
                let noticeAt := s.policy.tNotice previous
                if noticeAt ≤ now then s.reject (.drainNoticeStarted c.node noticeAt)
                else accept

def setNodeDraining (c : SetNodeDraining) : Reply :=
  match s.nodes.get? c.node with
  | none => s.reject (.unknownNode c.node)
  | some _ =>
    ({ s with nodes := s.nodes.modify c.node fun r =>
        { r with draining := c.draining, interruptionDeadline := c.interruptionDeadline } }).done

/-! ## Housekeeping -/

/-- Remove one attempt and its allocation. -/
def evictAttempt (attempt : AttemptId) : StateMachine :=
  match s.attempts.get? attempt with
  | none => s
  | some a =>
    let s := { s with attempts := s.attempts.erase attempt }
    match s.allocations.get? a.attempt.allocation with
    | none => s
    | some al =>
      { s with
        allocations := s.allocations.erase a.attempt.allocation
        accrualQueue := s.accrualQueue.erase (toLex (al.allocation.node, al.seq)) }

end

def evictJob (fx : Effects) (job : JobId) : Effects :=
  match fx.st.jobs.get? job with
  | none => fx
  | some rec_ =>
    let st := { fx.st with jobs := fx.st.jobs.erase job }
    let st := rec_.attempts.foldl evictAttempt st
    { fx with st := st }.emit
      (.jobEvicted job ⟨st.entityChain rec_.spec.quotaEntity, rec_.spec.submittedBy,
        rec_.spec.metadata⟩)

def evictTerminalJobs (s : StateMachine) (c : EvictTerminalJobs) : Reply :=
  let items := c.jobs.zipIdx.filterMap fun ji =>
    match s.jobs.get? ji.1 with
    | none => none
    | some r =>
      if r.state.isTerminal then none else some (ji.2, RejectionReason.jobNotTerminal ji.1)
  if !items.isEmpty then s.reject (.invalidBatch items)
  else (c.jobs.foldl evictJob (start s)).finish

def evictNode (s : StateMachine) (node : NodeId) : StateMachine :=
  match s.nodes.get? node with
  | none => s
  | some _ =>
    { s with
      nodes := s.nodes.erase node
      accrualQueue := s.accrualQueue.filter fun k _ => (ofLex k).1 ≠ node }

def evictNodes (s : StateMachine) (c : EvictNodes) : Reply :=
  let items := c.nodes.zipIdx.filterMap fun ni =>
    match s.nodes.get? ni.1 with
    | none => none
    | some r =>
      if !r.isDraining then some (ni.2, RejectionReason.nodeNotDraining ni.1)
      else if s.allocations.values.any fun a => a.allocation.node = ni.1 && a.isLive then
        some (ni.2, .nodeNotEmpty ni.1)
      else none
  if !items.isEmpty then s.reject (.invalidBatch items)
  else
    match s.authorize c.actor .drain with
    | .error e => s.reject e
    | .ok () => (c.nodes.foldl evictNode s).done

/-- Charge one attempt for the intervals it has entered since it last paid. -/
def renewOne (proposedAt : Timestamp) (s : StateMachine) (r : IntervalRenewal) : StateMachine :=
  match s.attempts.get? r.attempt with
  | none => s
  | some a =>
    if a.attempt.state ≠ .running then s
    else
      match a.startedAt, a.charge.interval with
      | some startedAt, some interval =>
        if interval.paid ≠ r.paid then s
        else
          let target := intervalsDue (proposedAt.durationSince startedAt) interval.seconds
          if target ≤ interval.paid then s
          else
            let charge := costFromRate a.rateUcuPerSecond
              ((UInt64.ofNat (target - interval.paid)).saturatingMul interval.seconds)
              a.multiplier
            let s := { s with attempts := s.attempts.modify r.attempt fun a =>
              { a with charge :=
                  { a.charge with
                    amount := a.charge.amount.saturatingAdd charge
                    interval := some ⟨interval.seconds, target, charge, a.charge.chargedAt⟩
                    chargedAt := proposedAt } } }
            match s.jobs.get? a.attempt.job with
            | none => s
            | some j => s.chargeAncestors j.spec.quotaEntity charge proposedAt
      | _, _ => s

section

variable (s : StateMachine)

def renewIntervalCharges (c : RenewIntervalCharges) : Reply :=
  let items := c.renewals.zipIdx.filterMap fun ri =>
    match s.attempts.get? ri.1.attempt with
    | none => none
    | some a =>
      if a.charge.interval.isNone then
        some (ri.2, RejectionReason.attemptNotIntervalCharged ri.1.attempt)
      else none
  if !items.isEmpty then s.reject (.invalidBatch items)
  else (c.renewals.foldl (renewOne c.proposedAt) s).done

/-! ## Administration -/

variable (c : ConfigureQuotaEntity)

def reconfigureQuotaEntity (existing : QuotaEntity) : Reply :=
  match s.authorize c.actor (.configureQuotaEntity c.entity c.parent) with
  | .error e => s.reject e
  | .ok () =>
    if existing.name ≠ c.name ∨ existing.parent ≠ c.parent then
      s.reject (.quotaEntityImmutable c.entity)
    else
      let entity : QuotaEntity :=
        { existing with
          quota := c.quota
          preemptible := c.preemptible.getD existing.preemptible
          updatedAt := c.updatedAt }
      ({ s with quotaEntities := s.quotaEntities.insert c.entity entity },
        .ok ⟨[.quotaEntityConfigured c.entity]⟩)

/-- A parent must exist and leave room for one more level. -/
def checkParent : Except RejectionReason Unit :=
  match c.parent with
  | none => .ok ()
  | some parent =>
    if !s.quotaEntities.contains parent then .error (.unknownQuotaEntity parent)
    else if quotaTreeDepthCap ≤ (s.entityChain parent).length then
      .error (.quotaEntityTooDeep c.entity)
    else .ok ()

def createQuotaEntity : Reply :=
  match Segment.validate c.name with
  | .error e => s.reject (.invalidQuotaEntityName e)
  | .ok () =>
    match s.checkParent c with
    | .error r => s.reject r
    | .ok () =>
      match s.authorize c.actor (.configureQuotaEntity c.entity c.parent) with
      | .error e => s.reject e
      | .ok () =>
        match s.quotaEntities.entries.find? fun e =>
            e.2.parent = c.parent && e.2.name = c.name with
        | some holder => s.reject (.quotaEntityNameTaken c.name holder.1)
        | none =>
          let entity : QuotaEntity :=
            { parent := c.parent, name := c.name, quota := c.quota
              usage := UsageState.new c.updatedAt
              createdAt := c.updatedAt, updatedAt := c.updatedAt
              preemptible := c.preemptible.getD true }
          ({ s with quotaEntities := s.quotaEntities.insert c.entity entity },
            .ok ⟨[.quotaEntityConfigured c.entity]⟩)

def configureQuotaEntity : Reply :=
  match s.quotaEntities.get? c.entity with
  | some existing => s.reconfigureQuotaEntity c existing
  | none => s.createQuotaEntity c

end

def policyFault (p : PolicyConfig) : Option PolicyFault :=
  match p.decay.validate with
  | .error e => some (.decay e)
  | .ok () =>
    if p.unboundedRuntimeMultiplier < PriorityMultiplier.one then
      some (.unboundedRuntimeMultiplierBelowOne p.unboundedRuntimeMultiplier)
    else if p.unboundedChargeIntervalS = 0 then some .unboundedChargeIntervalNotPositive
    else if fullRefundMilli < p.refundFractionMilli then
      some (.refundFractionAboveMaximum p.refundFractionMilli)
    else if PriorityMultiplier.one < p.preemptibleMultiplier then
      some (.preemptibleMultiplierAboveOne p.preemptibleMultiplier)
    else if p.preemptionNoticeFloor.isNegative then
      some (.noticeFloorNegative p.preemptionNoticeFloor)
    else if p.preemptionNoticeCap < p.preemptionNoticeFloor then
      some (.noticeFloorAboveCap p.preemptionNoticeFloor p.preemptionNoticeCap)
    else none

def updatePolicy (s : StateMachine) (c : UpdatePolicy) : Reply :=
  match policyFault c.policy with
  | some fault => s.reject (.invalidPolicy fault)
  | none =>
    match s.authorize c.actor .updatePolicy with
    | .error e => s.reject e
    | .ok () => ({ s with policy := c.policy }, .ok ⟨[.policyUpdated]⟩)

def emptySubject (ib : Binding × Nat) : Option AuthorizationFault :=
  match ib.1.subject with
  | .group name => if name = "" then some (.emptySubject ib.2 "group") else none
  | .principal name => if name = "" then some (.emptySubject ib.2 "principal") else none

/-- What is wrong with a replacement of the bindings. -/
def authorizationFault (s : StateMachine) (c : UpdateAuthorization) : Option RejectionReason :=
  match c.bindings.zipIdx.findSome? emptySubject with
  | some fault => some (.invalidAuthorization fault)
  | none =>
    match c.bindings.findSome? fun b => b.scope.filter fun e => !s.quotaEntities.contains e with
    | some scope => some (.unknownQuotaEntity scope)
    | none =>
      if c.groupsClaim.any fun claim => claim.toList.all isWhiteSpace then
        some (.invalidAuthorization .emptyGroupsClaim)
      else if !c.bindings.any fun b => b.role = .admin && b.scope.isNone then
        some .authorizationLockout
      else none

def updateAuthorization (s : StateMachine) (c : UpdateAuthorization) : Reply :=
  match s.authorize c.actor .updateAuthorization with
  | .error e => s.reject e
  | .ok () =>
    match s.authorizationFault c with
    | some r => s.reject r
    | none =>
      ({ s with
          bindings := c.bindings
          policy := { s.policy with groupsClaim := c.groupsClaim.getD s.policy.groupsClaim } },
        .ok ⟨[.authorizationUpdated]⟩)

def bumpClusterVersion (s : StateMachine) (c : BumpClusterVersion) : Reply :=
  if c.to_ ≤ s.clusterVersion then
    s.reject (.clusterVersionNotMonotonic s.clusterVersion c.to_)
  else
    match s.authorize c.actor .bumpClusterVersion with
    | .error e => s.reject e
    | .ok () => ({ s with clusterVersion := c.to_ }, .ok ⟨[.clusterVersionBumped c.to_]⟩)

/-! ## Machine identity and keys -/

/-- `entry(k).or_insert(v)`. -/
def orInsert {K V : Type} [LinearOrder K] (m : OrdMap K V) (k : K) (v : V) : OrdMap K V :=
  match m.get? k with
  | some _ => m
  | none => m.insert k v

section

variable (s : StateMachine)

/-- A holder of the staged root's key holds the active root's key once the
    staged root becomes the first of the bundle. -/
def promoteHolder (h : Nat × Timestamp) : StateMachine :=
  { s with
    keyConfirmations :=
      match s.keyConfirmations.get? h.1 with
      | some existing => if h.2 ≤ existing then s.keyConfirmations
          else s.keyConfirmations.insert h.1 h.2
      | none => s.keyConfirmations.insert h.1 h.2
    keyTransferIntents := s.keyTransferIntents.erase h.1 }

def promoteIntent (i : Nat × Timestamp) : StateMachine :=
  if s.keyConfirmations.contains i.1 then s
  else { s with keyTransferIntents := orInsert s.keyTransferIntents i.1 i.2 }

def recordCaCertificate (c : RecordCaCertificate) : Reply :=
  let serials := c.bundle.serials
  let record (s : StateMachine) : Reply :=
    ({ s with ca := some ⟨c.bundle, c.recordedAt⟩ }).done
  match c.stagedRootSerial with
  | some serial =>
    if !(serials.drop 1).contains serial then s.reject (.unknownStagedRoot serial)
    else
      let (holders, intents) :=
        match s.stagedRoot with
        | some existing =>
          if existing.serial = serial then (existing.holders, existing.intents)
          else (.empty, .empty)
        | none => (.empty, .empty)
      record { s with stagedRoot := some ⟨serial, c.recordedAt, holders, intents⟩ }
  | none =>
    match s.stagedRoot with
    | none => record s
    | some staged =>
      let s := { s with stagedRoot := none }
      if serials.head? = some staged.serial then
        let s := staged.holders.entries.foldl promoteHolder s
        record (staged.intents.entries.foldl promoteIntent s)
      else record s

def machineForRaftNode (raftNodeId : Nat) : Option MachineId :=
  (s.machineBindings.entries.find? fun e => e.2.raftNodeId = raftNodeId).map Prod.fst

def bindMachineIdentity (c : BindMachineIdentity) : Reply :=
  let retired :=
    match s.machineBindings.get? c.machine with
    | none => false
    | some b => b.retiredAt.isSome
  let taken :=
    match s.machineForRaftNode c.raftNodeId with
    | none => false
    | some existing => existing ≠ c.machine
  if retired then s.reject (.machineIdentityRetired c.machine)
  else if taken then s.reject (.machineIdentityConflict c.machine c.raftNodeId)
  else
    match s.machineBindings.get? c.machine with
    | some b =>
      if b.raftNodeId ≠ c.raftNodeId then
        s.reject (.machineIdentityConflict c.machine c.raftNodeId)
      else if b.address ≠ c.address then
        s.reject (.machineAddressConflict c.machine c.raftNodeId)
      else s.done
    | none =>
      ({ s with
          machineBindings := s.machineBindings.insert c.machine
            ⟨c.raftNodeId, c.address, c.boundAt, none⟩ }).done

def mintEnrollToken (c : MintEnrollToken) : Reply :=
  if s.enrollTokens.contains c.token then s.reject (.duplicateEnrollToken c.token)
  else if c.hash = "" then s.reject (.invalidCommand "enrollment token hash is empty")
  else
    ({ s with
        enrollTokens := s.enrollTokens.insert c.token
          ⟨c.hash, c.role, c.label, c.expiresAt, c.mintedAt, false⟩ }).done

def revokeEnrollToken (c : RevokeEnrollToken) : Reply :=
  match s.enrollTokens.get? c.token with
  | none => s.reject (.unknownEnrollToken c.token)
  | some t =>
    ({ s with enrollTokens := s.enrollTokens.insert c.token { t with revoked := true } }).done

def revokeIdentity (c : RevokeIdentity) : Reply :=
  ({ s with revokedIdentities := s.revokedIdentities.insert c.identity () }).done

def confirmKeyPossession (c : ConfirmKeyPossession) : Reply :=
  ({ s with
      keyConfirmations := s.keyConfirmations.insert c.raftNodeId c.confirmedAt
      keyTransferIntents := s.keyTransferIntents.erase c.raftNodeId }).done

def recordKeyTransferIntent (c : RecordKeyTransferIntent) : Reply :=
  if s.keyConfirmations.contains c.raftNodeId then s.done
  else
    ({ s with
        keyTransferIntents := orInsert s.keyTransferIntents c.raftNodeId c.intendedAt }).done

end

def stagedRootInScope (staged : Option StagedRoot) (rootSerial : String) :
    Except RejectionReason StagedRoot :=
  match staged with
  | some staged =>
    if staged.serial = rootSerial then .ok staged
    else .error (.stagedRootMismatch (some staged.serial) rootSerial)
  | none => .error (.stagedRootMismatch none rootSerial)

def confirmStagedKeyPossession (s : StateMachine) (c : ConfirmStagedKeyPossession) : Reply :=
  match stagedRootInScope s.stagedRoot c.rootSerial with
  | .error r => s.reject r
  | .ok staged =>
    ({ s with
        stagedRoot := some
          { staged with
            holders := staged.holders.insert c.raftNodeId c.confirmedAt
            intents := staged.intents.erase c.raftNodeId } }).done

def recordStagedKeyTransferIntent (s : StateMachine) (c : RecordStagedKeyTransferIntent) : Reply :=
  match stagedRootInScope s.stagedRoot c.rootSerial with
  | .error r => s.reject r
  | .ok staged =>
    if staged.holders.contains c.raftNodeId then s.done
    else
      ({ s with
          stagedRoot := some
            { staged with intents := orInsert staged.intents c.raftNodeId c.intendedAt } }).done

def rebindMachineAddress (s : StateMachine) (c : RebindMachineAddress) : Reply :=
  match s.machineForRaftNode c.raftNodeId with
  | none => s.reject (.unknownMachineBinding c.raftNodeId)
  | some machine =>
    match s.machineBindings.get? machine with
    | none => s.reject (.unknownMachineBinding c.raftNodeId)
    | some b =>
      if b.retiredAt.isSome then s.reject (.machineIdentityRetired machine)
      else
        ({ s with
            machineBindings := s.machineBindings.insert machine
              { b with address := c.address } }).done

def retireMachineBinding (s : StateMachine) (c : RetireMachineBinding) : Reply :=
  match s.machineBindings.get? c.machine with
  | none => s.reject (.unknownMachineIdentity c.machine)
  | some b =>
    if b.retiredAt.isNone then
      ({ s with
          machineBindings := s.machineBindings.insert c.machine
            { b with retiredAt := some c.retiredAt } }).done
    else s.done

def recordEnrolledIdentity (s : StateMachine) (c : RecordEnrolledIdentity) : Reply :=
  ({ s with enrolledIdentities := orInsert s.enrolledIdentities c.machine c.recordedAt }).done

/-! ## Dispatch -/

/-- The command's own function. -/
def dispatch (s : StateMachine) : Command → Reply
  | .submitJob c => s.submitJob c
  | .abortJob c => s.abortJob c
  | .updateJobMetadata c => s.updateJobMetadata c
  | .commitPlacements c => s.commitPlacements c
  | .dispatchAttempt c => s.dispatchAttempt c
  | .recordAttemptStarted c => s.recordAttemptStarted c
  | .recordAttemptExited c => s.recordAttemptExited c
  | .recordAttemptOutcome c => s.recordAttemptOutcome c
  | .reconcileNode c => s.reconcileNode c
  | .recordAttemptNotified c => s.recordAttemptNotified c
  | .registerNode c => s.registerNode c
  | .declareNodeLost c => s.declareNodeLost c
  | .setNodeDrain c => s.setNodeDrain c
  | .setNodeDraining c => s.setNodeDraining c
  | .evictTerminalJobs c => s.evictTerminalJobs c
  | .evictNodes c => s.evictNodes c
  | .renewIntervalCharges c => s.renewIntervalCharges c
  | .configureQuotaEntity c => s.configureQuotaEntity c
  | .updatePolicy c => s.updatePolicy c
  | .updateAuthorization c => s.updateAuthorization c
  | .bumpClusterVersion c => s.bumpClusterVersion c
  | .recordCaCertificate c => s.recordCaCertificate c
  | .bindMachineIdentity c => s.bindMachineIdentity c
  | .mintEnrollToken c => s.mintEnrollToken c
  | .revokeEnrollToken c => s.revokeEnrollToken c
  | .revokeIdentity c => s.revokeIdentity c
  | .confirmKeyPossession c => s.confirmKeyPossession c
  | .recordEnrolledIdentity c => s.recordEnrolledIdentity c
  | .rebindMachineAddress c => s.rebindMachineAddress c
  | .retireMachineBinding c => s.retireMachineBinding c
  | .recordKeyTransferIntent c => s.recordKeyTransferIntent c
  | .recordStagedKeyTransferIntent c => s.recordStagedKeyTransferIntent c
  | .confirmStagedKeyPossession c => s.confirmStagedKeyPossession c

/-- Every command, accepted or rejected, advances the version. -/
def apply (s : StateMachine) (c : Command) : Reply :=
  let (s', result) := s.dispatch c
  ({ s' with version := s'.version + 1 }, result)

end StateMachine

/-! ## Sample commands -/

namespace Sample

/-- The origin of time. -/
def epoch : Timestamp := Timestamp.clamp 0

/-- An amount in the first dimension only. -/
def cpu (n : UInt64) : Resources := ⟨n, 0, 0⟩

/-- A job of the root entity with up to three retries. -/
def job (id : JobId) (requests : Resources) : Job where
  id := id
  image := "image"
  command := []
  entrypoint := none
  env := .empty
  requests := requests
  priority := 0
  maxRuntime := none
  quotaEntity := 1
  retry := ⟨3, false⟩
  abortRequested := none
  submittedBy := none
  metadata := .empty
  preemption := ⟨false, none, .sigusr1⟩

/-- The root entity. -/
def configure : Command := .configureQuotaEntity ⟨1, none, "root", 0, none, none, epoch⟩

/-- Submit a job as it stands. -/
def submitJob (job : Job) : Command := .submitJob ⟨job, PriorityMultiplier.one, none, epoch⟩

/-- Submit job `id` for `n` units. -/
def submit (id : JobId) (n : UInt64) : Command := submitJob (job id (cpu n))

/-- Register node 1 with `n` units. -/
def register (n : UInt64) : Command :=
  .registerNode ⟨1, cpu n, .empty, epoch, none, none, none, false, false, none⟩

/-- Place job `id` with attempt and allocation `id` on the node. -/
def place (id : Nat) (n : UInt64) : Placement := ⟨id, id, id, [⟨id, 1, cpu n⟩], []⟩

/-- A batch of revocations and placements. -/
def commit (revocations : List AllocationId) (placements : List Placement) : Command :=
  .commitPlacements ⟨0, revocations, placements, epoch⟩

/-- The attempt is sent to its node. -/
def send (id : AttemptId) : Command := .dispatchAttempt ⟨id, epoch⟩

/-- The attempt runs. -/
def start (id : AttemptId) : Command := .recordAttemptStarted ⟨id, epoch⟩

/-- The state after a list of commands. -/
def run (cmds : List Command) : StateMachine := cmds.foldl (fun s c => (s.apply c).1) .default

/-- One job runs and succeeds, a second takes its place, a third accrues. -/
def busy : List Command :=
  [configure, register 10, submit 1 8, submit 2 8, submit 3 5, commit [] [place 1 8], send 1,
    start 1, .recordAttemptOutcome ⟨1, .exited 0, Duration.zero, epoch⟩, commit [] [place 2 8],
    commit [] [place 3 5]]

end Sample

end Coppice.State
