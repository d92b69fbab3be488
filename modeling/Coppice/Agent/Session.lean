/-
  Coppice.Agent.Session

  The transport-free core of an agent session (`coppice-agent/src/session.rs`): its
  state, the reports it sends, and the opening of a registration.  The answers of
  the executor and the readings of the clocks are arguments.
-/

import Coppice.Agent.Observed
import Coppice.Protocol.Messages

namespace Coppice.Agent

open Lib Coppice.Core

/-- A set of allocations. -/
abbrev AllocationSet : Type := OrdMap AllocationId Unit

/-- One reading of the wall clock and of the monotonic clock. -/
structure Clock where
  now : Timestamp
  instant : Nat

structure ArmedWatchdog where
  allocation : AllocationId
  firesAfter : Duration
  measuredAt : Nat
  deriving DecidableEq

structure StopRequest where
  allocation : AllocationId
  grace : Duration
  deriving DecidableEq

/-- The launch bound of a start in flight. -/
structure StartBound where
  /-- the bound as the executor now reads it -/
  current : Option Timestamp
  /-- the command's own `latest_start` -/
  latestStart : Option Timestamp
  /-- the reason of the plan that last set the bound below `latestStart` -/
  planReason : Option PreemptReason
  deriving DecidableEq

/-- A session over its journal, whose open file is `journal`. -/
structure Session where
  node : NodeId
  journal : Nat
  state : JournalState
  epoch : UInt64
  lastSeq : Option UInt64 := none
  registered : Bool := false
  draining : Bool := false
  armedWatchdogs : List ArmedWatchdog := []
  pendingReaps : List AllocationId := []
  starting : AllocationSet := .empty
  launchBounds : OrdMap AllocationId StartBound := .empty
  pendingStarts : List StartSpec := []
  stopping : AllocationSet := .empty
  pendingStops : List StopRequest := []
  deferredExits : OrdMap AllocationId ExitInfo := .empty
  stopAbandoned : AllocationSet := .empty
  stopRetryAt : OrdMap AllocationId Timestamp := .empty

namespace Session

/-- A session over a freshly recovered journal. -/
def new (node : NodeId) (journal : Nat) (state : JournalState) : Session where
  node := node
  journal := journal
  state := state
  epoch := state.watermark.nodeEpoch

section

variable (s : Session)

/-- Forget what was scoped to a broken stream. -/
def reset : Session := { s with registered := false, lastSeq := none }

/-- Accountable live work: an intent and no exit. -/
def outstandingLiveWork : List AllocationId :=
  s.state.intents.keys.filter fun a => !s.state.exits.contains a

/-! ## What the plan in force announces -/

def interruptionDeadline : Option Timestamp := s.state.plan.interruption

/-- The operator deadline the agent last accepted. -/
def drainTarget : Option Timestamp := s.state.plan.operator.map (·.deadline)

def announcesDraining : Bool := s.draining || s.state.plan.interruption.isSome

/-- Reason, remaining time and shortfall of the mark in force. -/
def noticePayload (alloc : AllocationId) (now : Timestamp) :
    Option (PreemptReason × UInt64 × UInt64) :=
  match s.state.noticeIntents.get? alloc, s.state.marks.get? alloc with
  | some reason, some mark =>
    some (reason, microsOrZero (max (mark.stopAt.durationSince now) Duration.zero),
      microsOrZero mark.shortfall)
  | _, _ => none

/-! ## Reports -/

def report (body : Protocol.ReportBody) : Protocol.AgentReport :=
  ⟨s.epoch.toNat, some body⟩

/-- What the agent claims of one container: running, or exited under an intent whose
    exit is not journaled yet. -/
def claims (c : ObservedContainer) : Bool :=
  match c.state with
  | .running _ => true
  | .exited _ => s.state.intents.contains c.allocation && !s.state.exits.contains c.allocation

/-- A periodic heartbeat; with no observation the running set is empty. -/
def heartbeatReport (observed : Observation) : Protocol.AgentReport :=
  let running :=
    match observed with
    | .ok containers => (containers.filter s.claims).map fun c => some c.allocation
    | .error _ => []
  s.report (.heartbeat {
    running := running
    draining := s.announcesDraining
    interruptionDeadlineUs := s.interruptionDeadline.map timestampUs
    drainTargetUs := s.drainTarget.map timestampUs })

def runningStatus (attempt : AttemptId) : Protocol.AgentReport :=
  s.report (.attemptStatus ⟨some attempt, some .running, 0⟩)

def terminalStatus (attempt : AttemptId) (outcome : AttemptOutcome) (runtime : Duration) :
    Protocol.AgentReport :=
  s.report (.attemptStatus ⟨some attempt, some (.terminal outcome), microsCast runtime⟩)

/-- The known status of an allocation, without acting. -/
def reportCurrentStatus (alloc : AllocationId) (attempt : AttemptId) : List Protocol.AgentReport :=
  match s.state.exits.get? alloc with
  | some exit => [s.terminalStatus exit.attempt exit.outcome exit.runtime]
  | none =>
    match s.state.tombstones.get? alloc with
    | some reason => [s.terminalStatus attempt reason.outcome Duration.zero]
    | none => [s.runningStatus attempt]

def noticeReport (alloc : AllocationId) (now : Timestamp) : List Protocol.AgentReport :=
  match s.state.intents.get? alloc, s.noticePayload alloc now with
  | some intent, some (reason, remainingUs, shortfallUs) =>
    [s.report (.attemptNotice ⟨some intent.attempt, some reason, remainingUs, shortfallUs⟩)]
  | _, _ => []

/-! ## Registration accepted -/

/-- An entry of the observed set on the wire; running work repeats its notice. -/
def observedToPb (o : ObservedAllocation) (now : Timestamp) : Protocol.ObservedAllocation where
  allocation := some o.allocation
  attempt := some o.attempt
  running := o.running
  outcome := o.outcome.map some
  runtimeUs := microsCast o.runtime
  notice :=
    if o.running then
      (s.noticePayload o.allocation now).map fun (reason, remaining, shortfall) =>
        ⟨some reason, remaining, shortfall⟩
    else none

/-- A start or a stop of this process is in flight. -/
def inFlight (alloc : AllocationId) : Bool :=
  s.starting.contains alloc || s.stopping.contains alloc

/-- An entry whose start or stop is in flight is unresolved, not terminal. -/
def unresolve (o : ObservedAllocation) : ObservedAllocation :=
  if s.inFlight o.allocation && !o.running && !s.state.exits.contains o.allocation then
    { o with outcome := none }
  else o

/-- The watchdog of a container that runs under a bounded intent. -/
def rearm (measuredAt : Nat) (c : ObservedContainer) : Option ArmedWatchdog :=
  match c.state with
  | .exited _ => none
  | .running ran =>
    if s.state.exits.contains c.allocation then none
    else
      ((s.state.intents.get? c.allocation).bind (·.maxRuntime)).map fun maxRuntime =>
        ⟨c.allocation, max (maxRuntime.saturatingSub ran) Duration.zero, measuredAt⟩

/-- A journaled exit makes its container debris. -/
def spent (c : ObservedContainer) : Bool :=
  match c.state with
  | .running _ => false
  | .exited _ => s.state.exits.contains c.allocation

/-- The full observed set goes out before any work is accepted; with no observation it
    is built from the journal alone. -/
def onRegisterAccepted (observed : Observation) (clock : Clock) :
    Session × List Protocol.AgentReport :=
  let runtime :=
    match observed with
    | .ok runtime => runtime
    | .error _ => []
  let s := { s with registered := true }
  let set := (buildObservedSet s.state runtime).map s.unresolve
  let allocations := set.map fun o => s.observedToPb o clock.now
  let s' := { s with
    pendingReaps := s.pendingReaps ++ (runtime.filter s.spent).map (·.allocation)
    armedWatchdogs := s.armedWatchdogs ++ runtime.filterMap (s.rearm clock.instant) }
  (s', [s.report (.observedSet ⟨allocations⟩)])

end

end Session

end Coppice.Agent
