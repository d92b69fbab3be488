/-
  Coppice.Agent.Notice

  The termination mechanism and the drain-plan executor (`coppice-
  agent/src/session/notice.rs`).  A handler runs over a `Process`: the data
  directory, the session and the deeds done so far, a ghost record of what was
  admitted, tombstoned and handed over.
-/

import Coppice.Agent.Replay
import Coppice.Agent.Session

namespace Coppice.Agent

open Lib Coppice.Core Storage Protocol

/-! ## Agents -/

inductive Deed where
  /-- a tombstone was journaled -/
  | tombstoned (allocation : AllocationId)
  /-- a start was handed to the executor -/
  | start (spec : StartSpec)
  /-- a stop was handed to the executor -/
  | stop (request : StopRequest)
  /-- a container was given up for removal -/
  | reap (allocation : AllocationId)
  /-- a command passed the fencing check, as a fresh one or as a duplicate -/
  | admitted (token : FencingToken) (commandSeq : UInt64) (fresh : Bool)
  /-- the session began anew: the process started, or its stream broke -/
  | reset
  deriving DecidableEq

structure Process where
  fs : DataDir
  session : Session
  deeds : List Deed := []

abbrev Act (α : Type) : Type := Eff Process IoError α

/-- A computation that answers with reports. -/
abbrev Handler : Type := Act (List AgentReport)

namespace Act

def session : Act Session := do return (← Eff.get).session

def update (f : Session → Session) : Act Unit :=
  Eff.modify fun a => { a with session := f a.session }

def log (d : Deed) : Act Unit := Eff.modify fun a => { a with deeds := a.deeds ++ [d] }

def onFs {α : Type} (x : Fs α) : Act α := Eff.within Process.fs (fun a fs => { a with fs := fs }) x

/-- Run over each allocation in turn, and collect. -/
def gather {α : Type} (f : AllocationId → Act (List α)) : List AllocationId → Act (List α)
  | [] => return []
  | alloc :: rest => do
      let first ← f alloc
      let others ← gather f rest
      return first ++ others

end Act

def Entry.deeds : Entry → List Deed
  | .tombstone allocation _ => [.tombstoned allocation]
  | _ => []

/-- Journal an entry, fsynced, and only then fold it into the state in memory. -/
def journalled (w : JournalWire) (e : Entry) : Act Unit := do
  let s ← Act.session
  Act.onFs (appendEntry w s.journal e)
  Eff.modify fun a => { a with
    session := { a.session with state := a.session.state.note e }
    deeds := a.deeds ++ e.deeds }

/-! ## The plan in force -/

/-- How long a failed stop waits before it is tried again. -/
def stopRetry : Duration := Duration.ofSecs 5

/-- What the plan in force says about one attempt. -/
structure PlanTerms where
  noticeAt : Timestamp
  stopAt : Timestamp
  reason : PreemptReason
  deriving DecidableEq

/-- An attempt's stop under a deadline, with the margin and grace it was dispatched under. -/
def stopTime (deadline : Timestamp) (intent : IntentRec) : Timestamp :=
  (deadline.saturatingSub intent.cleanupMargin).saturatingSub intent.abortGrace

/-- How much of `notice` the window from `notifiedAt` to `stopAt` misses. -/
def shortfall (notice : Duration) (notifiedAt stopAt : Timestamp) : Duration :=
  let window := max (stopAt.durationSince notifiedAt) Duration.zero
  max (notice.saturatingSub window) Duration.zero

namespace Session

section

variable (s : Session)

/-- When an attempt not yet notified is due for notice. -/
def planNoticeAt (intent : IntentRec) : Option Timestamp :=
  if s.state.plan.interruption.isSome then some Timestamp.minValue
  else
    s.state.plan.operator.map fun o => (stopTime o.deadline intent).saturatingSub o.noticeWindow

def planTerms (intent : IntentRec) (now : Timestamp) : Option PlanTerms :=
  let interruption := s.state.plan.interruption.map fun d => stopTime d intent
  let operator := s.state.plan.operator.map fun o =>
    let stop := stopTime o.deadline intent
    (stop.saturatingSub o.noticeWindow, stop)
  match interruption, operator with
  | none, none => none
  | some stopAt, none => some ⟨Timestamp.minValue, stopAt, .interruption⟩
  | none, some (noticeAt, stopAt) => some ⟨noticeAt, stopAt, .drain⟩
  | some interrupted, some (operatorNotice, drained) =>
    -- the operator's stop counts only once its own notice time has come
    some ⟨Timestamp.minValue,
      if now < operatorNotice then interrupted else min interrupted drained, .interruption⟩

/-- When the operator's plan closed admission for such a start. -/
def operatorNoticeAt (abortGrace cleanupMargin : Duration) : Option Timestamp :=
  s.state.plan.operator.map fun o =>
    ((o.deadline.saturatingSub cleanupMargin).saturatingSub abortGrace).saturatingSub o.noticeWindow

/-! ### Launch bounds of starts in flight -/

/-- One start's bound: the earlier of its own and its stop under the plan in force. -/
def refreshLaunchBound (intent : IntentRec) (now : Timestamp) : Session :=
  match s.launchBounds.get? intent.allocation with
  | none => s
  | some bound =>
    let rebound : StartBound :=
      match s.planTerms intent now with
      | some terms =>
        if bound.latestStart.any (fun own => own ≤ terms.stopAt) then
          { bound with current := bound.latestStart }
        else { bound with current := some terms.stopAt, planReason := some terms.reason }
      | none => { bound with current := bound.latestStart }
    { s with launchBounds := s.launchBounds.insert intent.allocation rebound }

def refreshLaunchBounds (now : Timestamp) : Session :=
  (s.starting.keys.filterMap s.state.intents.get?).foldl
    (fun s intent => s.refreshLaunchBound intent now) s

/-- The launch bound of a start being queued. -/
def openLaunchBound (intent : IntentRec) (latestStart : Option Timestamp) (now : Timestamp) :
    Session :=
  refreshLaunchBound { s with
    launchBounds := s.launchBounds.insert intent.allocation ⟨latestStart, latestStart, none⟩ }
    intent now

end

end Session

/-- The reason a refused launch resolves as, when the bound that passed was the plan's. -/
def StartBound.planRefusal (b : StartBound) : StartError → Option PreemptReason
  | .launchBoundPassed passed =>
    if b.latestStart = some passed then none else some (b.planReason.getD .drain)
  | _ => none

/-- Journal the plan and only then put it in force, then re-bound the starts in flight. -/
def setPlan (w : JournalWire) (plan : DrainPlanRec) (now : Timestamp) : Act Unit := do
  journalled w (.drainPlan plan)
  Act.update fun s => s.refreshLaunchBounds now

/-! ## Notices -/

/-- Signal the container and mark the notice.  The signal's own outcome is only logged. -/
def signalAndMark (w : JournalWire) (alloc : AllocationId) (stopAt now : Timestamp) :
    Handler := do
  let s ← Act.session
  match s.state.intents.get? alloc with
  | none => return []
  | some intent =>
    journalled w (.noticeMark alloc ⟨stopAt, shortfall intent.notice now stopAt, now⟩)
    return (← Act.session).noticeReport alloc now

/-- The notice intent is durable before the signal goes out. -/
def notify (w : JournalWire) (alloc : AllocationId) (reason : PreemptReason)
    (stopAt now : Timestamp) : Handler := do
  journalled w (.noticeIntent alloc reason)
  signalAndMark w alloc stopAt now

/-- Shorten a notified attempt's stop to that of an interruption, if it is earlier. -/
def shortenMark (w : JournalWire) (alloc : AllocationId) (intent : IntentRec) (mark : NoticeMarkRec)
    (now : Timestamp) : Handler := do
  let s ← Act.session
  match s.state.plan.interruption.map fun d => stopTime d intent with
  | none => return []
  | some interrupted =>
    if mark.stopAt ≤ interrupted then return []
    else
      journalled w (.noticeMark alloc
        ⟨interrupted, shortfall intent.notice mark.notifiedAt interrupted, mark.notifiedAt⟩)
      return (← Act.session).noticeReport alloc now

/-- The stop of a notice whose signal may never have gone out. -/
def resignalAt (reason : PreemptReason) (intent : IntentRec) (terms : PlanTerms) (now : Timestamp) :
    Timestamp :=
  match reason with
  | .drain | .interruption => terms.stopAt
  | .priority _ | .relocation _ => min (now.saturatingAdd intent.notice) terms.stopAt

/-- Bring one live allocation under the plan in force. -/
def notifyUnderPlan (w : JournalWire) (alloc : AllocationId) (now : Timestamp) :
    Handler := do
  let s ← Act.session
  match s.state.intents.get? alloc with
  | none => return []
  | some intent =>
    if s.state.exits.contains alloc || s.starting.contains alloc then return []
    else
      match s.planTerms intent now with
      | none => return []
      | some terms =>
        match s.state.noticeIntents.get? alloc, s.state.marks.get? alloc with
        | none, _ =>
          if now < terms.noticeAt || s.state.tombstones.contains alloc then return []
          else notify w alloc terms.reason terms.stopAt now
        | some reason, none => signalAndMark w alloc (resignalAt reason intent terms now) now
        | some _, some mark => shortenMark w alloc intent mark now

/-- Live allocations the plan could still notify, and when. -/
def Session.noticeCandidates (s : Session) : List (AllocationId × Timestamp) :=
  s.state.intents.values.filterMap fun intent =>
    let alloc := intent.allocation
    if s.state.exits.contains alloc || s.starting.contains alloc ||
        s.state.tombstones.contains alloc || s.state.noticeIntents.contains alloc then none
    else (s.planNoticeAt intent).map fun at_ => (alloc, at_)

/-- The allocations due by `now`. -/
def dueBy (now : Timestamp) (candidates : List (AllocationId × Timestamp)) : List AllocationId :=
  (candidates.filter fun c => c.2 ≤ now).map Prod.fst

/-- Notify every attempt due for notice. -/
def beginDueNotices (w : JournalWire) (now : Timestamp) : Handler := do
  let s ← Act.session
  Act.gather (fun alloc => notifyUnderPlan w alloc now) (dueBy now s.noticeCandidates)

/-- The operator's deadline, or its withdrawal. -/
def onDrain (w : JournalWire) (drain : Protocol.Drain) (now : Timestamp) : Handler := do
  match drain.deadlineUs with
  | none => accept none
  | some us =>
    match Timestamp.ofMicros us.val with
    -- out of range: a malformed command is dropped
    | none => return []
    | some deadline => accept (some deadline)
where
  accept (target : Option Timestamp) : Handler := do
    let s ← Act.session
    if s.drainTarget = target then return []
    else
      setPlan w { s.state.plan with
        operator := target.map fun deadline =>
          ⟨deadline, Duration.ofMicros drain.noticeWindowUs.toNat⟩ } now
      beginDueNotices w now

/-- Whether an interruption notice changes the plan: one that is stale or would postpone
    published stops does not. -/
def Session.takesInterruption (s : Session) (deadline now : Timestamp) : Bool :=
  match s.state.plan.interruption with
  | some current => deadline < current
  | none => now < deadline

section

variable (w : JournalWire)

/-- Start or shorten the interruption, then notify every live attempt. -/
def onInterruption (deadline now : Timestamp) : Handler := do
  let s ← Act.session
  if s.takesInterruption deadline now then
    setPlan w { s.state.plan with interruption := some deadline } now
    let s ← Act.session
    Act.gather (fun alloc => notifyUnderPlan w alloc now) s.outstandingLiveWork
  else return []

/-- The scheduler's preemption of a running attempt; an attempt already notified keeps its
    one stop. -/
def preemptJob (pj : PreemptJobPb) (now : Timestamp) : Handler := do
  match pj.allocation, pj.reason with
  | some alloc, some reason =>
    let s ← Act.session
    match s.state.intents.get? alloc with
    | none => return []
    | some intent =>
      if s.state.exits.contains alloc || s.state.tombstones.contains alloc ||
          s.starting.contains alloc then
        return []
      else
        let wanted := now.saturatingAdd (Duration.ofMicros pj.noticeUs.toNat)
        let stopAt :=
          match s.planTerms intent now with
          | some terms => min wanted terms.stopAt
          | none => wanted
        match s.state.noticeIntents.get? alloc, s.state.marks.contains alloc with
        | some _, true => return s.noticeReport alloc now
        | some _, false => signalAndMark w alloc stopAt now
        | none, _ => notify w alloc reason stopAt now
  | _, _ => return []

/-! ## Recovery -/

/-- Finish one notice a restart may have interrupted, with no plan in force. -/
def resumeNotice (alloc : AllocationId) (now : Timestamp) : Handler := do
  let s ← Act.session
  match s.state.intents.get? alloc with
  | none => return []
  | some intent =>
    if s.state.noticeIntents.contains alloc && !s.state.marks.contains alloc then
      signalAndMark w alloc (now.saturatingAdd intent.notice) now
    else return []

/-- Retire an interruption whose deadline has passed: the host came back. -/
def retireInterruption (now : Timestamp) : Act Unit := do
  let s ← Act.session
  if s.state.plan.interruption.any (· ≤ now) then
    setPlan w { s.state.plan with interruption := none } now
  else return ()

/-- Re-establish every notice from the recovered journal. -/
def resumeNotices (now : Timestamp) : Handler := do
  let s ← Act.session
  let planned := !s.state.plan.isEmpty
  let reports ← Act.gather
    (fun alloc => if planned then notifyUnderPlan w alloc now else resumeNotice w alloc now)
    s.outstandingLiveWork
  retireInterruption w now
  return reports

end

/-! ## Stops -/

namespace Session

/-- Live marked or tombstoned allocations with nothing in flight, and when each stop is due. -/
def stopCandidates (s : Session) : List (AllocationId × Timestamp) :=
  s.state.intents.keys.filterMap fun alloc =>
    if s.state.exits.contains alloc || s.stopping.contains alloc || s.starting.contains alloc ||
        s.stopAbandoned.contains alloc then none
    else
      let due :=
        if s.state.tombstones.contains alloc then some Timestamp.minValue
        else (s.state.marks.get? alloc).map NoticeMarkRec.stopAt
      due.map fun due =>
        (alloc, match s.stopRetryAt.get? alloc with
          | some retry => max due retry
          | none => due)

def queueStop (s : Session) (alloc : AllocationId) (grace : Duration) : Session :=
  { s with
    stopRetryAt := s.stopRetryAt.erase alloc
    stopping := s.stopping.insert alloc ()
    pendingStops := s.pendingStops ++ [⟨alloc, grace⟩] }

/-- The reason a stop at the end of its window is attributed to. -/
def stopReason (s : Session) (alloc : AllocationId) : PreemptReason :=
  (s.state.noticeIntents.get? alloc).getD
    (if s.state.plan.operator.isSome && s.state.plan.interruption.isNone then .drain
      else .interruption)

end Session

/-- Journal a tombstone that is not there yet; one already there keeps its attribution. -/
def tombstoneOnce (w : JournalWire) (alloc : AllocationId) : Act Unit := do
  let s ← Act.session
  if s.state.tombstones.contains alloc then return ()
  else journalled w (.tombstone alloc (.preempt (s.stopReason alloc)))

/-- Begin one due stop. -/
def beginStop (w : JournalWire) (alloc : AllocationId) : Act Unit := do
  tombstoneOnce w alloc
  Act.update fun s =>
    s.queueStop alloc (((s.state.intents.get? alloc).map (·.abortGrace)).getD Duration.zero)

def beginDueStops (w : JournalWire) (now : Timestamp) : Act Unit := do
  let s ← Act.session
  forM (dueBy now s.stopCandidates) (beginStop w)

/-- Journal an exit under its allocation. -/
def journalExit (w : JournalWire) (alloc : AllocationId) (attempt : AttemptId) (job : JobId)
    (outcome : AttemptOutcome) (runtime : Duration) : Act Unit :=
  journalled w (.exit ⟨alloc, attempt, job, outcome, runtime⟩)

/-- How a finished stop classifies; a held natural exit answers when the stop cannot. -/
def Session.classifyFinished (s : Session) (alloc : AllocationId) (deferred : Option ExitInfo) :
    Except ExecutorError StopOutcome → Option (AttemptOutcome × Duration)
  | .ok (.stopped exit) => classifyStop (.stopped exit) kill (s.state.attribution alloc)
  | .ok (.alreadyExited exit) => classifyStop (.alreadyExited exit) kill (s.state.attribution alloc)
  | .ok .unknown | .error _ =>
    deferred.map fun exit => (classifyExit exit (s.state.attribution alloc), exit.runtime)
where
  kill : AttemptOutcome := ((s.state.tombstones.get? alloc).getD .abort).outcome

/-- A stop that could not be classified: a failed one is retried, one that found no
    container is abandoned. -/
def Session.unresolvedStop (s : Session) (alloc : AllocationId) (now : Timestamp) :
    Except ExecutorError StopOutcome → Session
  | .error _ => { s with stopRetryAt := s.stopRetryAt.insert alloc (now.saturatingAdd stopRetry) }
  | .ok _ => { s with stopAbandoned := s.stopAbandoned.insert alloc () }

/-- A spawned stop finished: classify, journal and report the exit. -/
def finishStop (w : JournalWire) (alloc : AllocationId) (result : Except ExecutorError StopOutcome)
    (now : Timestamp) : Handler := do
  let s ← Act.session
  let deferred := s.deferredExits.get? alloc
  Act.update fun s => { s with
    stopping := s.stopping.erase alloc
    deferredExits := s.deferredExits.erase alloc }
  if s.state.exits.contains alloc then return []
  else
    match s.state.intents.get? alloc with
    | none => return []
    | some intent =>
      match s.classifyFinished alloc deferred result with
      | none =>
        Act.update fun s => s.unresolvedStop alloc now result
        return []
      | some (outcome, runtime) =>
        journalExit w alloc intent.attempt intent.job outcome runtime
        Act.update fun s => { s with pendingReaps := s.pendingReaps ++ [alloc] }
        return [(← Act.session).terminalStatus intent.attempt outcome runtime]

end Coppice.Agent
