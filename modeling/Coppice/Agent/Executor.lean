/-
  Coppice.Agent.Executor

  The container runtime as the agent sees it (`coppice-agent/src/executor.rs`): what
  a start is given, what the runtime answers, and how an exit is classified.
-/

import Coppice.Core.Types

namespace Coppice.Agent

open Coppice.Core

/-! ## Evidence -/

inductive ExitCause where
  | natural
  | oomKilled
  | diskKilled
  /-- a SIGKILL nobody can attribute -/
  | killed
  deriving DecidableEq

structure ExitInfo where
  code : Int
  cause : ExitCause
  runtime : Duration
  finishedAt : Timestamp
  deriving DecidableEq

inductive ContainerState where
  | running (runtime : Duration)
  | exited (info : ExitInfo)
  deriving DecidableEq

/-- One container of the runtime, identified by its labels. -/
structure ObservedContainer where
  allocation : AllocationId
  attempt : AttemptId
  job : JobId
  state : ContainerState
  deriving DecidableEq

inductive StopOutcome where
  | stopped (exit : ExitInfo)
  | alreadyExited (exit : ExitInfo)
  | unknown
  deriving DecidableEq

inductive ExecutorError where
  | unimplemented (what : String)
  | other (message : String)
  deriving DecidableEq

/-- What the runtime answers when asked for its containers. -/
abbrev Observation : Type := Except ExecutorError (List ObservedContainer)

inductive StartError where
  | pull (userError : Bool) (message : String)
  | start (userError : Bool) (message : String)
  | launchBoundPassed (latestStart : Timestamp)
  deriving DecidableEq

def StartError.outcome : StartError → AttemptOutcome
  | .pull userError _ => .pullFailed userError
  | .start userError _ => .startFailed userError
  | .launchBoundPassed _ => .revoked

/-! ## Starts -/

/-- The reserved environment block of a start, before it is rendered as text. -/
structure ResumptionIdentity where
  attempt : AttemptId
  attemptIndex : Nat
  job : JobId
  noticeS : Nat
  noticeSignal : NoticeSignal
  preemptible : Bool
  previous : Option (AttemptId × AttemptOutcome)
  deriving DecidableEq

/-- Everything the executor is given to start one container. -/
structure StartSpec where
  allocation : AllocationId
  attempt : AttemptId
  job : JobId
  image : String
  command : List String
  entrypoint : Option (List String)
  env : TextMap
  /-- laid over `env` -/
  identity : ResumptionIdentity
  limits : Resources
  maxRuntime : Option Duration
  /-- the bound when the start was queued; the session may move it afterwards -/
  launchBound : Option Timestamp
  deriving DecidableEq

/-! ## Classification -/

/-- What the journal says about who asked an allocation to end. -/
structure Attribution where
  kill : Option AttemptOutcome := none
  notice : Option PreemptReason := none
  deriving DecidableEq

def classifyExit (exit : ExitInfo) (attribution : Attribution) : AttemptOutcome :=
  let preempted := attribution.notice.map AttemptOutcome.preempted
  match exit.cause with
  | .oomKilled => .memoryLimitExceeded
  | .diskKilled => .diskLimitExceeded
  | .killed => (attribution.kill.or preempted).getD (.exited exit.code)
  | .natural =>
    if exit.code ≠ 0 then preempted.getD (.exited exit.code) else .exited exit.code

/-- The end of a stop the agent ran, with the runtime to journal. -/
def classifyStop (stopped : StopOutcome) (killOutcome : AttemptOutcome)
    (attribution : Attribution) : Option (AttemptOutcome × Duration) :=
  match stopped with
  | .stopped exit =>
    match exit.cause with
    | .natural | .killed => some (killOutcome, exit.runtime)
    | .oomKilled | .diskKilled => some (classifyExit exit {}, exit.runtime)
  | .alreadyExited exit => some (classifyExit exit attribution, exit.runtime)
  | .unknown => none

end Coppice.Agent
