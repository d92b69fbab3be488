/-
  Coppice.Agent.Commands

  What a session does with commands, finished starts, exits and watchdogs (`coppice-
  agent/src/session.rs`), and the loop that feeds it (`session/runner.rs`): each
  event runs one handler, then the queued starts and stops go to the executor.
-/

import Coppice.Agent.Notice

namespace Coppice.Agent

open Lib Coppice.Core Protocol

/-! ## Fencing -/

inductive Admit where
  /-- a stale term or epoch: dropped -/
  | reject
  /-- a sequence number already processed -/
  | duplicate
  | fresh
  deriving DecidableEq

/-- A higher watermark is durable before it is obeyed, and retires the sequence space. -/
def raiseWatermark (w : JournalWire) (token : FencingToken) : Act Unit := do
  let s ← Act.session
  let wm := s.state.watermark
  if wm.leaderTerm < token.leaderTerm ∨ wm.nodeEpoch < token.nodeEpoch then
    let raised : Watermark := ⟨max token.leaderTerm wm.leaderTerm, max token.nodeEpoch wm.nodeEpoch⟩
    journalled w (.fencing raised)
    Act.update fun s => { s with
      state := { s.state with watermark := raised }
      epoch := raised.nodeEpoch
      lastSeq := none }
  else return ()

/-- `Session::admit`. -/
def admitHeader (w : JournalWire) (header : CommandHeader) : Act Admit := do
  let s ← Act.session
  let token := header.token.getD {}
  let wm := s.state.watermark
  if token.leaderTerm < wm.leaderTerm ∨ token.nodeEpoch < wm.nodeEpoch then return .reject
  else
    raiseWatermark w token
    let s ← Act.session
    if s.lastSeq.any (fun last => header.commandSeq ≤ last) then
      Act.log (.admitted token header.commandSeq false)
      return .duplicate
    else
      Act.update fun s => { s with lastSeq := some header.commandSeq }
      Act.log (.admitted token header.commandSeq true)
      return .fresh

/-! ## Reading a StartJob -/

/-- The bound a command carries, as a span; one past the range saturates. -/
def runtimeBound (micros : UInt64) : Duration := Duration.ofMicros micros.toNat

structure StartIds where
  allocation : AllocationId
  attempt : AttemptId
  job : JobId

def startIds (sj : StartJob) : Option StartIds := do
  let allocation ← sj.allocation
  let attempt ← sj.attempt
  let job ← sj.job
  return ⟨allocation, attempt, job⟩

/-- The environment as a map, unless a name is empty or given twice. -/
def startEnv (sj : StartJob) : Option TextMap :=
  sj.env.foldlM
    (fun env var => if var.1 = "" ∨ env.contains var.1 then none else some (env.insert var.1 var.2))
    .empty

/-- The attempt this one resumes; an id and its outcome come together or not at all. -/
def previousAttempt (sj : StartJob) : Option (Option (AttemptId × AttemptOutcome)) :=
  match sj.previousAttempt, sj.previousAttemptOutcome with
  | none, none => some none
  | some (some id), some (some outcome) => some (some (id, outcome))
  | _, _ => none

def resumptionEnv (sj : StartJob) (ids : StartIds) : Option ResumptionIdentity := do
  let signal ← sj.noticeSignal
  let previous ← previousAttempt sj
  return {
    attempt := ids.attempt
    attemptIndex := sj.attemptIndex
    job := ids.job
    noticeS := sj.noticeUs.toNat / 1000000
    noticeSignal := signal
    preemptible := sj.preemptible
    previous := previous }

/-- The launch bound of a drain backfill; one out of range is malformed. -/
def latestStart (sj : StartJob) : Option (Option Timestamp) :=
  match sj.latestStartUs with
  | none => some none
  | some us => (Timestamp.ofMicros us.val).map some

/-! ## Finished starts -/

section

variable (w : JournalWire) (alloc : AllocationId)

/-- The outcome of a start that failed; a launch refused by the plan is tombstoned first. -/
def refusedOutcome (bound : Option StartBound) (e : StartError) : Act AttemptOutcome :=
  match bound.bind fun b => b.planRefusal e with
  | some reason => do
      journalled w (.tombstone alloc (.preempt reason))
      return (TombstoneReason.preempt reason).outcome
  | none => return e.outcome

/-- A started container: stopped if a tombstone was written meanwhile, else notified under
    an active plan. -/
def startedUnderPlan (intent : IntentRec) (now : Timestamp) : Handler := do
  let s ← Act.session
  if s.state.tombstones.contains alloc then
    Act.update fun s => s.queueStop alloc intent.abortGrace
    return []
  else if s.state.plan.isEmpty then return []
  else notifyUnderPlan w alloc now

def finishStart (result : Except StartError Unit) (clock : Clock) : Handler := do
  let s ← Act.session
  Act.update fun s => { s with
    launchBounds := s.launchBounds.erase alloc
    starting := s.starting.erase alloc }
  if !s.starting.contains alloc || s.state.exits.contains alloc then return []
  else
    match s.state.intents.get? alloc with
    | none => return []
    | some intent =>
      match result with
      | .ok () =>
        Act.update fun s => { s with
          armedWatchdogs := s.armedWatchdogs ++
            (intent.maxRuntime.map fun max => ⟨alloc, max, clock.instant⟩).toList }
        let s ← Act.session
        let more ← startedUnderPlan w alloc intent clock.now
        return s.runningStatus intent.attempt :: more
      | .error e =>
        let outcome ← refusedOutcome w alloc (s.launchBounds.get? alloc) e
        journalExit w alloc intent.attempt intent.job outcome Duration.zero
        return [(← Act.session).terminalStatus intent.attempt outcome Duration.zero]

end

/-! ## StartJob -/

inductive DoorRefusal where
  | interruption
  | shutdownDrain
  | deadlineDrain (noticeAt : Timestamp)
  deriving DecidableEq

def DoorRefusal.reason : DoorRefusal → PreemptReason
  | .interruption => .interruption
  | .shutdownDrain | .deadlineDrain _ => .drain

/-- Why a start that arrives at `now` is refused at the door, if it is. -/
def Session.doorRefusal (s : Session) (abortGrace cleanupMargin : Duration) (now : Timestamp) :
    Option DoorRefusal :=
  if s.state.plan.interruption.isSome then some .interruption
  else if s.draining then some .shutdownDrain
  else
    ((s.operatorNoticeAt abortGrace cleanupMargin).filter (· ≤ now)).map .deadlineDrain

def startIntent (sj : StartJob) (ids : StartIds) (epoch : UInt64) : IntentRec where
  allocation := ids.allocation
  attempt := ids.attempt
  job := ids.job
  nodeEpoch := epoch
  maxRuntime := sj.maxRuntimeUs.map runtimeBound
  noticeSignal := sj.noticeSignal.getD .sigusr1
  notice := runtimeBound sj.noticeUs
  abortGrace := runtimeBound sj.abortGraceUs
  cleanupMargin := runtimeBound sj.drainCleanupMarginUs

def startSpec (sj : StartJob) (ids : StartIds) (env : TextMap) (identity : ResumptionIdentity)
    (launchBound : Option Timestamp) : StartSpec where
  allocation := ids.allocation
  attempt := ids.attempt
  job := ids.job
  image := sj.image
  command := sj.command
  entrypoint := sj.entrypoint
  env := env
  identity := identity
  limits := sj.limits.getD Resources.zero
  maxRuntime := sj.maxRuntimeUs.map runtimeBound
  launchBound := launchBound

section

variable (w : JournalWire) (sj : StartJob) (ids : StartIds) (env : TextMap)
  (identity : ResumptionIdentity) (latest : Option Timestamp) (clock : Clock)

/-- Journal the intent, and only then queue the start; one past its launch bound is
    refused without a pull. -/
def launch : Handler := do
  let s ← Act.session
  let intent := startIntent sj ids s.epoch
  journalled w (.intent intent)
  Act.update fun s =>
    let s := s.openLaunchBound intent latest clock.now
    { s with starting := s.starting.insert ids.allocation () }
  match latest.filter (· < clock.now) with
  | some passed => finishStart w ids.allocation (.error (.launchBoundPassed passed)) clock
  | none =>
    Act.update fun s => { s with
      pendingStarts := s.pendingStarts ++
        [startSpec sj ids env identity ((s.launchBounds.get? ids.allocation).bind (·.current))] }
    return []

/-- A start with nothing journaled for it yet: refused at the door, or launched. -/
def admitStart : Handler := do
  let s ← Act.session
  let refusal :=
    -- a launch bound already passed answers first
    if latest.any (· < clock.now) then none
    else
      s.doorRefusal (runtimeBound sj.abortGraceUs) (runtimeBound sj.drainCleanupMarginUs) clock.now
  match refusal with
  | some refusal =>
    let tombstone := TombstoneReason.preempt refusal.reason
    journalled w (.tombstone ids.allocation tombstone)
    return [(← Act.session).terminalStatus ids.attempt tombstone.outcome Duration.zero]
  | none => launch w sj ids env identity latest clock

end

/-- What a start refused by a tombstone reports; a journaled exit is the honest outcome. -/
def Session.refusedStatus (s : Session) (ids : StartIds) (reason : TombstoneReason) : AgentReport :=
  match s.state.exits.get? ids.allocation with
  | some exit => s.terminalStatus exit.attempt exit.outcome exit.runtime
  | none => s.terminalStatus ids.attempt reason.outcome Duration.zero

section

variable (w : JournalWire)

def startJob (sj : StartJob) (clock : Clock) : Handler := do
  match startIds sj with
  | none => return []
  | some ids =>
    let s ← Act.session
    match s.state.tombstones.get? ids.allocation with
    | some reason => return [s.refusedStatus ids reason]
    | none =>
      if s.state.intents.contains ids.allocation then
        if s.starting.contains ids.allocation then return []
        else return s.reportCurrentStatus ids.allocation ids.attempt
      else
        -- everything malformed is dropped before the journal is written
        match startEnv sj, resumptionEnv sj ids, latestStart sj with
        | some env, some identity, some latest => admitStart w sj ids env identity latest clock
        | _, _, _ => return []

/-! ## StopJob -/

/-- The tombstone comes first, even for an unknown allocation. -/
def stopJob (sp : StopJob) : Handler := do
  match sp.allocation with
  | none => return []
  | some alloc =>
    let grace := max (Duration.ofMicros sp.graceUs.val) Duration.zero
    journalled w (.tombstone alloc .abort)
    let s ← Act.session
    match s.state.exits.get? alloc with
    | some exit => return [s.terminalStatus exit.attempt exit.outcome exit.runtime]
    | none =>
      if s.state.intents.contains alloc && !s.starting.contains alloc &&
          !s.stopping.contains alloc then
        Act.update fun s => s.queueStop alloc grace
        return []
      else return []

/-! ## Watchdogs and natural exits -/

/-- A stop awaited in place, and its classification. -/
def stopAndClassify (alloc : AllocationId) (intent : IntentRec) (kill : AttemptOutcome)
    (answer : Except ExecutorError StopOutcome) : Handler := do
  let s ← Act.session
  match answer with
  | .error _ => return []
  | .ok stopped =>
    match classifyStop stopped kill (s.state.attribution alloc) with
    | none => return []
    | some (outcome, runtime) =>
      journalExit w alloc intent.attempt intent.job outcome runtime
      Act.update fun s => { s with pendingReaps := s.pendingReaps ++ [alloc] }
      return [(← Act.session).terminalStatus intent.attempt outcome runtime]

/-- The max-runtime watchdog fired; `answer` is what the executor's stop says. -/
def triggerMaxRuntime (alloc : AllocationId) (answer : Except ExecutorError StopOutcome) :
    Handler := do
  let s ← Act.session
  if s.state.exits.contains alloc || s.stopping.contains alloc || s.starting.contains alloc then
    return []
  else
    match s.state.intents.get? alloc with
    | none => return []
    | some intent => stopAndClassify w alloc intent .runtimeLimitExceeded answer

/-- A natural exit; one seen while our stop is in flight is held for the stop's answer. -/
def handleObservedExit (alloc : AllocationId) (exit : ExitInfo) : Handler := do
  let s ← Act.session
  if s.state.exits.contains alloc then return []
  else
    match s.state.intents.get? alloc with
    | none => return []
    | some intent =>
      if s.stopping.contains alloc then
        Act.update fun s => { s with deferredExits := s.deferredExits.insert alloc exit }
        return []
      else
        let outcome := classifyExit exit (s.state.attribution alloc)
        Act.update fun s => { s with stopRetryAt := s.stopRetryAt.erase alloc }
        journalExit w alloc intent.attempt intent.job outcome exit.runtime
        Act.update fun s => { s with pendingReaps := s.pendingReaps ++ [alloc] }
        return [(← Act.session).terminalStatus intent.attempt outcome exit.runtime]

end

/-- The containers the backstop sweep reaps. -/
def Session.janitorSweep (s : Session) (observed : Observation) (now : Timestamp)
    (bound : Duration) : List AllocationId :=
  match observed with
  | .error _ => []
  | .ok containers =>
    (containers.filter fun c =>
      match c.state with
      | .running _ => false
      | .exited info =>
        s.state.exits.contains c.allocation && bound < now.durationSince info.finishedAt).map
      (·.allocation)

/-! ## Dispatch -/

/-- Acknowledged without acting; a StartJob repeats the attempt's status. -/
def Session.handleDuplicate (s : Session) : CommandBody → List AgentReport
  | .startJob sj =>
    match startIds sj with
    | none => []
    | some ids =>
      if s.starting.contains ids.allocation then []
      else s.reportCurrentStatus ids.allocation ids.attempt
  | _ => []

def handleFresh (w : JournalWire) (body : CommandBody) (clock : Clock) : Handler :=
  match body with
  | .startJob sj => startJob w sj clock
  | .stopJob sp => stopJob w sp
  | .preemptJob pj => preemptJob w pj clock.now
  | .drain d => onDrain w d clock.now
  -- advisory hints go to the executor's cache
  | .prepareCache _ | .evictImageHint _ => return []
  | .registerAccepted => return []

/-- Registration applied; `observed` is what the executor's observation says. -/
def registerAccepted (observed : Observation) (clock : Clock) :
    Handler := do
  let s ← Act.session
  let (s', reports) := s.onRegisterAccepted observed clock
  Act.update fun _ => s'
  return reports

def handleCommand (w : JournalWire) (cmd : AgentCommand) (observed : Observation) (clock : Clock) :
    Handler := do
  match cmd.header, cmd.body with
  | some header, some .registerAccepted =>
    match ← admitHeader w header with
    | .reject => return []
    | .duplicate | .fresh => registerAccepted observed clock
  | some header, some body =>
    let s ← Act.session
    if s.registered then
      match ← admitHeader w header with
      | .reject => return []
      | .duplicate => return (← Act.session).handleDuplicate body
      | .fresh => handleFresh w body clock
    else return []
  | _, _ => return []

/-! ## The loop -/

/-- Hand every queued start and stop to the executor. -/
def spawn : Act Unit :=
  Eff.modify fun a => { a with
    session := { a.session with pendingStarts := [], pendingStops := [] }
    deeds := a.deeds ++ a.session.pendingStarts.map .start ++ a.session.pendingStops.map .stop }

/-- Give up the queued containers for removal, and take the armed watchdogs. -/
def housekeep : Act Unit :=
  Eff.modify fun a => { a with
    session := { a.session with pendingReaps := [], armedWatchdogs := [] }
    deeds := a.deeds ++ a.session.pendingReaps.map .reap }

/-- The backstop sweep. -/
def sweep (observed : Observation) (now : Timestamp) (bound : Duration) : Act Unit :=
  Eff.modify fun a => { a with
    deeds := a.deeds ++ (a.session.janitorSweep observed now bound).map .reap }

/-- What wakes the loop, with the executor's answers and the clock's readings. -/
inductive Event where
  /-- the first thing a process does -/
  | resume (now : Timestamp)
  | command (cmd : AgentCommand) (observed : Observation)
      (clock : Clock)
  | interruption (deadline now : Timestamp)
  | timersDue (now : Timestamp)
  | startDone (alloc : AllocationId) (result : Except StartError Unit) (clock : Clock)
  | stopDone (alloc : AllocationId) (result : Except ExecutorError StopOutcome) (now : Timestamp)
  | exit (alloc : AllocationId) (info : ExitInfo)
  | watchdog (alloc : AllocationId) (answer : Except ExecutorError StopOutcome)
  | heartbeat (observed : Observation)
  | janitor (observed : Observation) (now : Timestamp)
      (bound : Duration)
  /-- the loop takes the queued reaps and the armed watchdogs -/
  | housekeeping
  /-- the process was asked to stop -/
  | shutdown
  /-- the stream to the coordinator broke -/
  | disconnected

/-- One turn of the loop. -/
def handle (w : JournalWire) : Event → Handler
  | .resume now => do
      let _ ← resumeNotices w now
      return []
  | .command cmd observed clock => do
      let reports ← handleCommand w cmd observed clock
      spawn
      return reports
  | .interruption deadline now => do
      let reports ← onInterruption w deadline now
      spawn
      return reports
  | .timersDue now => do
      let reports ← beginDueNotices w now
      beginDueStops w now
      spawn
      return reports
  | .startDone alloc result clock => do
      let reports ← finishStart w alloc result clock
      spawn
      return reports
  | .stopDone alloc result now => do
      let reports ← finishStop w alloc result now
      spawn
      return reports
  | .exit alloc info => handleObservedExit w alloc info
  | .watchdog alloc answer => triggerMaxRuntime w alloc answer
  | .heartbeat observed => do
      let s ← Act.session
      return if s.registered then [s.heartbeatReport observed] else []
  | .janitor observed now bound => do
      sweep observed now bound
      return []
  | .housekeeping => do
      housekeep
      return []
  | .shutdown => do
      Act.update fun s => { s with draining := true }
      return []
  | .disconnected => do
      Act.update Session.reset
      Act.log .reset
      return []

end Coppice.Agent
