/-
  Coppice.Coordinator.Ingestion

  How the leader turns an agent's report into commands (`coppice-
  coordinator/src/tasks/ingestion.rs`), with the rules of `tasks/dispatch.rs` it
  consults.
-/

import Coppice.Protocol.Messages
import Coppice.State.Apply

namespace Coppice.Coordinator

open Lib Coppice.Core State
open Protocol

/-- A command routed to the agent itself, never to the log. -/
inductive AgentCommand where
  | preemptJob (c : PreemptJob)
  | drain (c : Protocol.Drain)
  deriving DecidableEq

/-- What one report amounts to. -/
structure Normalized where
  commands : List Command
  stops : List AllocationId
  preempts : List AgentCommand
  agentCommands : List AgentCommand
  register : Bool
  liveness : Bool

def Normalized.empty : Normalized := ⟨[], [], [], [], false, true⟩

structure InboundReport where
  node : NodeId
  report : AgentReport

/-! ## What an agent should have been told -/

variable (s : StateMachine) (record : AttemptRecord)

def attemptHasPendingAbort : Bool :=
  (record.attempt.state = .dispatching || record.attempt.state = .running) &&
    match s.jobs.get? record.attempt.job with
    | none => false
    | some job => job.spec.abortRequested.isSome && job.currentAttempt = some record.attempt.id

/-- The job a preemption makes room for. -/
def preemptReasonForJob : PreemptReason → Option JobId
  | .priority job | .relocation job => some job
  | .drain | .interruption => none

def attemptHasPendingPreempt : Bool :=
  record.attempt.state = .running &&
    (match record.preemption with
      | none => false
      | some p => p.acknowledged.isNone && (preemptReasonForJob p.reason).isSome) &&
    match s.jobs.get? record.attempt.job with
    | none => false
    | some job => job.currentAttempt = some record.attempt.id

def preemptJobCommand (allocation : AllocationId) (notice : Duration) (reason : PreemptReason) :
    AgentCommand :=
  .preemptJob ⟨allocation, unsignedMicros notice, reason⟩

def pendingPreemptCommand : Option AgentCommand :=
  if !attemptHasPendingPreempt s record then none
  else
    match record.preemption, s.jobs.get? record.attempt.job with
    | some p, some job =>
      some (preemptJobCommand record.attempt.allocation (s.declaredNotice job.spec) p.reason)
    | _, _ => none

variable (node : NodeId)

def drainCommandFor (echo : Option Timestamp) : Option AgentCommand :=
  let target := ((s.nodes.get? node).bind fun r => r.node.drain).bind Core.Drain.deadline
  if target = echo then none
  else
    some (.drain ⟨target.map fun t => I64.clamp t.asMicros,
      unsignedMicros s.policy.preemptionNoticeCap⟩)

/-! ## Readings of the wire -/

def reportedInstant (micros : Option I64) : Option Timestamp :=
  micros.bind fun us => Timestamp.ofMicros us.val

/-- An unsigned span; one out of range is the longest there is. -/
def reportedRuntime (runtimeUs : UInt64) : Duration := Duration.ofMicros runtimeUs.toNat

/-- A delivered notice as the agent reports it. -/
structure Notice where
  reason : PreemptReason
  remaining : Duration
  shortfall : Duration

def observedNotice (mark : ObservedNotice) : Option Notice :=
  mark.reason.map fun reason =>
    ⟨reason, reportedRuntime mark.remainingUs, reportedRuntime mark.shortfallUs⟩

def phaseRank : AttemptState → Nat
  | .accruing => 0
  | .ready => 1
  | .dispatching => 2
  | .running => 3
  | .finalizing => 4
  | .terminal _ => 5

def agentMayReportRevoked : Bool :=
  record.drainCutoff.isSome && record.startedAt.isNone &&
    phaseRank record.attempt.state < phaseRank .running

def runtimeSince (startedAt : Option Timestamp) (now : Timestamp) : Duration :=
  match startedAt with
  | some started => max (now.durationSince started) Duration.zero
  | none => Duration.zero

/-- Recording the notice would change the attempt's record. -/
def noticeChangesRecord (notice : Notice) (now : Timestamp) : Bool :=
  let deadline := now.saturatingAdd notice.remaining
  match record.preemption.bind Preemption.acknowledged with
  | some ack => deadline < ack.deadline
  | none => true

/-! ## The reports -/

def noticeCommand (attempt : AttemptId) (notice : Notice) (now : Timestamp) : Command :=
  .recordAttemptNotified ⟨attempt, notice.reason, notice.remaining, notice.shortfall, now⟩

def noticeDiff (attempt : AttemptId) (notice : Notice) (now : Timestamp) : List Command :=
  match s.attempts.get? attempt with
  | none => []
  | some record =>
    if record.attempt.node ≠ node then []
    else
      match record.attempt.state with
      | .dispatching =>
        [.recordAttemptStarted ⟨attempt, now⟩, noticeCommand attempt notice now]
      | .running =>
        if !noticeChangesRecord record notice now then []
        else [noticeCommand attempt notice now]
      | _ => []

/-- A single attempt's progress; the attempt is looked up by its id alone. -/
def attemptStatusDiff (status : AttemptStatus) (now : Timestamp) : List Command :=
  match status.attempt, status.observed with
  | some attempt, some observed =>
    match s.attempts.get? attempt with
    | none => []
    | some record =>
      match observed with
      | .running =>
        if phaseRank record.attempt.state < phaseRank .running then
          [.recordAttemptStarted ⟨attempt, now⟩]
        else []
      | .finalizing =>
        if phaseRank record.attempt.state < phaseRank .finalizing then
          [.recordAttemptExited ⟨attempt, now⟩]
        else []
      | .terminal outcome =>
        if record.attempt.state.isTerminal then []
        else if outcome = .revoked ∧ !agentMayReportRevoked record then []
        else
          [.recordAttemptOutcome ⟨attempt, outcome, reportedRuntime status.runtimeUs, now⟩]
      | .accruing | .ready | .dispatching => []
  | _, _ => []

/-- The verdict on one allocation that a heartbeat reports running: stop it, or adopt
    its attempt. -/
def heartbeatForward (allocation : AllocationId) : List AllocationId × List AttemptId :=
  match s.allocations.get? allocation with
  | none => ([allocation], [])
  | some alloc =>
    if alloc.allocation.state = .released then ([allocation], [])
    else
      match s.attempts.get? alloc.allocation.attempt with
      | none => ([allocation], [])
      | some att =>
        if att.attempt.state.isTerminal then ([allocation], [])
        else if att.attempt.state = .dispatching then ([], [alloc.allocation.attempt])
        else ([], [])

def lostAttempt (now : Timestamp) (e : AttemptId × AttemptRecord) : LostAttempt :=
  ⟨e.1, .agentError, runtimeSince e.2.startedAt now⟩

/-- Empty reconciliations are not proposed. -/
def reconcile (epoch : Nat) (adopted : List AttemptId) (lost : List LostAttempt) (now : Timestamp) :
    List Command :=
  if !adopted.isEmpty || !lost.isEmpty then [.reconcileNode ⟨node, epoch, adopted, lost, now⟩]
  else []

def heartbeatDiff (epoch : Nat) (hb : Heartbeat) (now : Timestamp) : Normalized :=
  let interruptionDeadline := reportedInstant hb.interruptionDeadlineUs
  let draining : List Command :=
    match s.nodes.get? node with
    | none => []
    | some record =>
      if record.draining ≠ hb.draining ∨ record.interruptionDeadline ≠ interruptionDeadline then
        [.setNodeDraining ⟨node, hb.draining, interruptionDeadline, now⟩]
      else []
  let running := OrdMap.ofList ((hb.running.filterMap id).map fun al => (al, ()))
  let forward := running.keys.map (heartbeatForward s)
  let adopted := forward.flatMap Prod.snd
  -- running attempts of the node that the set leaves out are lost
  let lost := (s.attempts.entries.filter fun e =>
    e.2.attempt.node = node && e.2.attempt.state = .running &&
      !running.contains e.2.attempt.allocation).map (lostAttempt now)
  { Normalized.empty with
    commands := draining ++ reconcile node epoch adopted lost now
    stops := forward.flatMap Prod.fst
    agentCommands := (drainCommandFor s node (reportedInstant hb.drainTargetUs)).toList }

/-- The live attempt that holds the allocation. -/
def liveIntent (allocation : AllocationId) : Option AttemptRecord :=
  (((s.allocations.get? allocation).filter fun a => a.allocation.state ≠ .released).bind fun a =>
    s.attempts.get? a.allocation.attempt).filter fun att => !att.attempt.state.isTerminal

/-- What one entry of an observed set contributes. -/
structure Verdict where
  commands : List Command
  stops : List AllocationId
  preempts : List AgentCommand
  adopted : List AttemptId
  notices : List Command

def observedOutcome (obs : ObservedAllocation) (revokedOk : Bool) : AttemptOutcome :=
  ((obs.outcome.join).filter fun o => revokedOk || o ≠ .revoked).getD .agentError

/-- The mark an entry repeats for running work. -/
def observedMark (att : AttemptRecord) (obs : ObservedAllocation) (now : Timestamp) :
    List Command :=
  match obs.notice.bind observedNotice with
  | none => []
  | some notice =>
    match att.attempt.state with
    | .dispatching => [noticeCommand att.attempt.id notice now]
    | .running =>
      if noticeChangesRecord att notice now then [noticeCommand att.attempt.id notice now]
      else []
    | _ => []

def observedVerdict (stale : Bool) (now : Timestamp) (obs : ObservedAllocation) : Verdict :=
  match obs.allocation with
  | none => ⟨[], [], [], [], []⟩
  | some allocation =>
    match liveIntent s allocation with
    | none => ⟨[], if obs.running then [allocation] else [], [], [], []⟩
    | some att =>
      let unresolved := !obs.running && obs.outcome.isNone
      let stops :=
        if (obs.running || unresolved) && attemptHasPendingAbort s att then [allocation]
        else []
      let preempts := if obs.running then (pendingPreemptCommand s att).toList else []
      -- under a stale epoch only what current state alone says survives
      if stale then ⟨[], stops, preempts, [], []⟩
      else if obs.running then
        ⟨[], stops, preempts, if att.attempt.state = .dispatching then [att.attempt.id] else [],
          observedMark att obs now⟩
      else if obs.outcome.isNone then ⟨[], stops, preempts, [], []⟩
      else
        ⟨[.recordAttemptOutcome ⟨att.attempt.id, observedOutcome obs (agentMayReportRevoked att),
            reportedRuntime obs.runtimeUs, now⟩], stops, preempts, [], []⟩

def observedSetDiff (epoch : Nat) (set : ObservedSet) (now : Timestamp) (stale : Bool) :
    Normalized :=
  let verdicts := set.allocations.map (observedVerdict s stale now)
  let mentionedAlloc := set.allocations.filterMap ObservedAllocation.allocation
  -- the attempt of an entry counts only if its allocation is well formed
  let mentionedAttempt := (set.allocations.filter fun o => o.allocation.isSome).filterMap
    ObservedAllocation.attempt
  let lost := (s.attempts.entries.filter fun e =>
    e.2.attempt.node = node &&
      (e.2.attempt.state = .dispatching || e.2.attempt.state = .running ||
        e.2.attempt.state = .finalizing) &&
      !mentionedAttempt.contains e.1 && !mentionedAlloc.contains e.2.attempt.allocation).map
        (lostAttempt now)
  { Normalized.empty with
    commands :=
      if stale then []
      else
        verdicts.flatMap Verdict.commands ++
          reconcile node epoch (verdicts.flatMap Verdict.adopted) lost now ++
          verdicts.flatMap Verdict.notices
    stops := verdicts.flatMap Verdict.stops
    preempts := verdicts.flatMap Verdict.preempts }

/-- Registration is never fenced. -/
def registerDiff (reg : Register) (now : Timestamp) : Normalized :=
  match reg.capacity with
  | none => Normalized.empty
  | some capacity =>
    { Normalized.empty with
      register := true
      commands := [.registerNode
        { node := node
          capacity := capacity
          labels := OrdMap.ofList reg.labels
          registeredAt := now
          serviceAddr := reg.serviceAddr.filter fun addr => addr ≠ ""
          hostFacts := reg.hostFacts
          detectedCapacity := reg.detectedCapacity
          draining := reg.draining
          preemptibleOnly := reg.preemptibleOnly
          interruptionDeadline := reportedInstant reg.interruptionDeadlineUs }] }

/-- A report under an epoch other than the node's own counts as liveness only. -/
def fenced (epoch : Nat) (fresh : Normalized) : Normalized :=
  match s.nodes.get? node with
  | none => Normalized.empty
  | some record => if epoch ≠ record.epoch then Normalized.empty else fresh

def normalize (report : InboundReport) (now : Timestamp) : Normalized :=
  let node := report.node
  let epoch := report.report.nodeEpoch
  match report.report.body with
  | none => Normalized.empty
  | some (.register reg) => registerDiff node reg now
  | some (.heartbeat hb) => fenced s node epoch (heartbeatDiff s node epoch hb now)
  | some (.attemptStatus status) =>
    fenced s node epoch { Normalized.empty with commands := attemptStatusDiff s status now }
  | some (.observedSet set) =>
    match s.nodes.get? node with
    | none => Normalized.empty
    | some record => observedSetDiff s node epoch set now (epoch ≠ record.epoch)
  | some (.attemptNotice notice) =>
    fenced s node epoch <|
      match notice.attempt, notice.reason with
      | some attempt, some reason =>
        { Normalized.empty with
          commands := noticeDiff s node attempt
            ⟨reason, reportedRuntime notice.remainingUs, reportedRuntime notice.shortfallUs⟩
            now }
      | _, _ => Normalized.empty

/-- The state after the commands of a report. -/
def ingest (report : InboundReport) (now : Timestamp) : StateMachine :=
  (normalize s report now).commands.foldl (fun s c => (s.apply c).1) s

end Coppice.Coordinator
