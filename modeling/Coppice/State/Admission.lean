/-
  Coppice.State.Admission

  Which work a node admits (`coppice-state/src/drain.rs`) and the validation
  of eviction groups (`coppice-state/src/preempt.rs`).
-/

import Coppice.State.Effects

namespace Coppice.State

open Lib Coppice.Core

/-! ## Drain admission -/

/-- When the last commitment on a node is certain to be over. -/
inductive NodeHorizon where
  | empty
  | unbounded
  | bounded (at_ : Timestamp)
  deriving DecidableEq

def NodeHorizon.absorb : NodeHorizon → Option Timestamp → NodeHorizon
  | .unbounded, _ => .unbounded
  | _, none => .unbounded
  | .empty, some b => .bounded b
  | .bounded h, some b => .bounded (max h b)

inductive NodeAdmission where
  | open_
  | backfill (cutoff : Timestamp)
  | closed
  deriving DecidableEq

inductive Admission where
  | open_
  | backfill (cutoff : Timestamp)
  | refused
  deriving DecidableEq

def NodeAdmission.admits (a : NodeAdmission) (job : Job) (now : Timestamp) (abortGrace : Duration) :
    Admission :=
  match a with
  | .open_ => .open_
  | .closed => .refused
  | .backfill cutoff =>
    match job.maxRuntime with
    | none => .refused
    | some runtime =>
      if (now.saturatingAdd runtime).saturatingAdd abortGrace ≤ cutoff then .backfill cutoff
      else .refused

namespace NodeRecord

def isDraining (r : NodeRecord) : Bool := r.node.drain.isSome || r.draining

def admission (r : NodeRecord) (policy : PolicyConfig) (horizon : NodeHorizon) : NodeAdmission :=
  if r.draining then .closed
  else
    match r.node.drain with
    | none => .open_
    | some drain =>
      match drain.deadline with
      | some deadline => .backfill (policy.tNotice deadline)
      | none =>
        match horizon with
        | .bounded cutoff => .backfill cutoff
        | .empty => .closed
        | .unbounded => .closed

def admits (r : NodeRecord) (job : Job) (now : Timestamp) (policy : PolicyConfig)
    (horizon : NodeHorizon) : Admission :=
  (r.admission policy horizon).admits job now policy.abortGrace

end NodeRecord

/-- The earlier of two optional instants. -/
def minSome : Option Timestamp → Option Timestamp → Option Timestamp
  | some a, some b => some (min a b)
  | some a, none => some a
  | none, b => b

namespace StateMachine

def commitmentBound (s : StateMachine) (record : AllocationRecord) : Option Timestamp :=
  if record.allocation.state = .accruing then none
  else
    match s.attempts.get? record.allocation.attempt with
    | none => none
    | some attempt =>
      let maxRuntime := (s.jobs.get? record.allocation.job).bind fun j => j.spec.maxRuntime
      let grace := s.policy.abortGrace
      match attempt.startedAt with
      | none => attempt.drainCutoff
      | some started =>
        let running := maxRuntime.map fun m => (started.saturatingAdd m).saturatingAdd grace
        let preempted := (attempt.preemption.bind Preemption.acknowledged).map
          fun ack => ack.deadline.saturatingAdd grace
        minSome running (minSome preempted attempt.drainCutoff)

def nodeHorizon (s : StateMachine) (node : NodeId) : NodeHorizon :=
  s.allocations.values.foldl
    (fun h record =>
      if record.allocation.node = node ∧ record.isLive then h.absorb (s.commitmentBound record)
      else h) .empty

/-- The instant by which a running attempt's hold is certain to be released. -/
def guaranteedRelease (s : StateMachine) (record : AllocationRecord) : Option Timestamp :=
  if record.allocation.state = .released then none
  else
    match s.attempts.get? record.allocation.attempt with
    | none => none
    | some attempt =>
      if attempt.attempt.state ≠ .running then none
      else
        match attempt.startedAt with
        | none => none
        | some started =>
          let runtimeBound :=
            ((s.jobs.get? record.allocation.job).bind fun j => j.spec.maxRuntime).map
              fun runtime => started.saturatingAdd runtime
          let preemptionBound := (attempt.preemption.bind Preemption.acknowledged).map
            fun ack => ack.deadline.saturatingAdd s.policy.abortGrace
          minSome runtimeBound preemptionBound

def declaredNotice (s : StateMachine) (job : Job) : Duration :=
  job.preemption.notice.getD s.policy.preemptionNoticeFloor

end StateMachine

/-! ## Eviction groups -/

def PreemptReason.forJob : PreemptReason → Option JobId
  | .priority j => some j
  | .relocation j => some j
  | .drain => none
  | .interruption => none

/-- The scheduler's own terminations: which nodes still carry one outstanding,
    for whom, and when the latest was asked for. -/
structure PreemptionLedger where
  guarded : List NodeId
  beneficiaries : List JobId
  latestRequest : OrdMap NodeId Timestamp

def StateMachine.preemptionLedger (s : StateMachine) : PreemptionLedger :=
  s.attempts.values.foldl
    (fun ledger record =>
      match record.preemption with
      | none => ledger
      | some preemption =>
        match PreemptReason.forJob preemption.reason with
        | none => ledger
        | some forJob =>
          let node := record.attempt.node
          let latest := max ((ledger.latestRequest.get? node).getD preemption.requestedAt)
            preemption.requestedAt
          let ledger := { ledger with latestRequest := ledger.latestRequest.insert node latest }
          if record.attempt.state.isTerminal then ledger
          else
            { ledger with
              guarded := node :: ledger.guarded
              beneficiaries := forJob :: ledger.beneficiaries })
    ⟨[], [], .empty⟩

/-- An evicted allocation and why it goes. -/
abbrev Victim : Type := AllocationId × PreemptReason

/-- Working state of eviction-group validation across one batch. -/
structure PreemptCheck where
  now : Timestamp
  ledger : PreemptionLedger
  victims : List AllocationId
  groups : List NodeId
  spotReserved : OrdMap NodeId Resources

/-- Nothing to check when no placement of the batch preempts. -/
def PreemptCheck.forBatch (s : StateMachine) (c : CommitPlacements) : Option PreemptCheck :=
  let targets := (c.placements.filter fun p => !p.preemptions.isEmpty).flatMap
    fun p => p.allocations.map AllocationSpec.node
  if targets.isEmpty then none
  else some ⟨c.proposedAt, s.preemptionLedger, [], [], .empty⟩

namespace StateMachine

/-- Find spot capacity for a relocated victim, beyond what the batch's earlier
    victims took. -/
def reserveSpotCapacity (s : StateMachine) (victimJob : JobRecord) (alloc : AllocationRecord)
    (used : Memo) (reserved : OrdMap NodeId Resources) : Option (OrdMap NodeId Resources) :=
  if !s.effectivePreemptible victimJob.spec then none
  else
    let requested := alloc.allocation.requested
    let spot := s.nodes.entries.find? fun e =>
      let taken := (reserved.get? e.1).getD .zero
      e.2.node.preemptibleOnly && !e.2.isDraining && requested.fitsWithin e.2.node.capacity &&
        requested.fitsWithin ((s.freeCapacity e.1 (some used)).saturatingSub taken)
    match spot with
    | none => none
    | some e =>
      some (reserved.insert e.1 (((reserved.get? e.1).getD .zero).saturatingAdd requested))

/-- One victim of the group: its validated reason and declared notice.  The
    check is updated as far as the validation gets. -/
def validateVictim (s : StateMachine) (p : Placement) (job : JobRecord) (nodeId : NodeId)
    (relocating : Bool) (used : Memo) (check : PreemptCheck) (eviction : Eviction) :
    Except RejectionReason (PreemptReason × Duration) × PreemptCheck :=
  let victim := eviction.allocation
  let refuse (r : PreemptionRefusal) : Except RejectionReason (PreemptReason × Duration) :=
    .error (.invalidPreemption victim r)
  if check.victims.contains victim then (refuse .duplicate, check)
  else
    let check := { check with victims := victim :: check.victims }
    match s.allocations.get? victim with
    | none => (.error (.unknownAllocation victim), check)
    | some alloc =>
      if alloc.allocation.node ≠ nodeId then (refuse .wrongNode, check)
      else if alloc.allocation.state ≠ .active then (refuse .notActive, check)
      else
        match s.attempts.get? alloc.allocation.attempt, s.jobs.get? alloc.allocation.job with
        | some attempt, some victimJob =>
          if attempt.attempt.state ≠ .running then (refuse .notRunning, check)
          else if victimJob.currentAttempt ≠ some attempt.attempt.id then
            (refuse .notRunning, check)
          else if attempt.preemption.isSome then (refuse .alreadyTerminating, check)
          else if !attempt.effectivePreemptible then (refuse .notPreemptible, check)
          else
            let notice := s.declaredNotice victimJob.spec
            match eviction.rule with
            | .priority =>
              if job.spec.priority ≤ victimJob.spec.priority then
                (refuse .notOutranked, check)
              else (.ok (.priority p.job, notice), check)
            | .relocation =>
              if !relocating then (refuse .notRelocatable, check)
              else
                match s.reserveSpotCapacity victimJob alloc used check.spotReserved with
                | none => (refuse .notRelocatable, check)
                | some reserved =>
                  (.ok (.relocation p.job, notice), { check with spotReserved := reserved })
        | _, _ => (refuse .notRunning, check)

/-- The group's victims in order, with the largest declared notice. -/
def validateVictims (s : StateMachine) (p : Placement) (job : JobRecord) (nodeId : NodeId)
    (relocating : Bool) (used : Memo) :
    List Eviction → PreemptCheck → Duration →
      Except RejectionReason (List Victim × Duration) × PreemptCheck
  | [], check, maxNotice => (.ok ([], maxNotice), check)
  | e :: rest, check, maxNotice =>
    match s.validateVictim p job nodeId relocating used check e with
    | (.error r, check) => (.error r, check)
    | (.ok (reason, notice), check) =>
      match s.validateVictims p job nodeId relocating used rest check (max maxNotice notice) with
      | (.error r, check) => (.error r, check)
      | (.ok (group, maxNotice), check) =>
        (.ok ((e.allocation, reason) :: group, maxNotice), check)

/-- Holds on the node that are neither revoked, nor named as victims, nor
    certain to be released by `bound`. -/
def heldBeyond (s : StateMachine) (p : Placement) (nodeId : NodeId) (revoked : List AllocationId)
    (bound : Timestamp) : Resources :=
  s.allocations.values.foldl
    (fun acc r =>
      if r.allocation.node = nodeId ∧ r.isLive ∧ r.allocation.id ∉ revoked ∧
          (p.preemptions.all fun e => e.allocation ≠ r.allocation.id) ∧
          ((s.guaranteedRelease r).all fun at_ => bound < at_)
      then acc.saturatingAdd r.allocation.funded
      else acc) .zero

/-- The eviction group of one placement. -/
def validatePreemptions (s : StateMachine) (p : Placement) (revoked : List AllocationId)
    (used : Memo) (check : PreemptCheck) : Except RejectionReason (List Victim) × PreemptCheck :=
  match p.preemptions with
  | [] => (.ok [], check)
  | first :: _ =>
    match s.jobs.get? p.job, p.allocations.head? with
    | some job, some spec =>
      match s.nodes.get? spec.node with
      | none => (.error (.unknownNode spec.node), check)
      | some node =>
        if node.isDraining then
          (.error (.invalidPreemption first.allocation .nodeDraining), check)
        else if check.ledger.guarded.contains spec.node ∨
            check.ledger.beneficiaries.contains p.job ∨ check.groups.contains spec.node then
          (.error (.invalidPreemption first.allocation .guarded), check)
        else
          let check := { check with groups := spec.node :: check.groups }
          -- only a job that cannot itself go to spot capacity relocates
          -- others, and only off a persistent node
          let relocating := !node.node.preemptibleOnly && !s.effectivePreemptible job.spec
          match s.validateVictims p job spec.node relocating used p.preemptions check
              Duration.zero with
          | (.error r, check) => (.error r, check)
          | (.ok (group, maxNotice), check) =>
            let bound := (check.now.saturatingAdd maxNotice).saturatingAdd
              s.policy.abortGrace
            let held := s.heldBeyond p spec.node revoked bound
            if spec.requested.fitsWithin (node.node.capacity.saturatingSub held) then
              (.ok group, check)
            else (.error (.invalidPreemption first.allocation .doesNotFit), check)
    | _, _ => (.error (.unknownJob p.job), check)

end StateMachine

end Coppice.State
