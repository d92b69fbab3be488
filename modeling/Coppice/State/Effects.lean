/-
  Coppice.State.Effects

  The shared effect helpers of `coppice-state/src/apply.rs`: transitions, releases,
  the pledge pass and the ready barrier.  The source threads `&mut self`, the events
  and the capacity memo separately; `Effects` is the three together.
-/

import Coppice.State.Command

namespace Coppice.State

open Lib Coppice.Core

/-- Funded holds per node, kept current while one batch is applied. -/
abbrev Memo : Type := OrdMap NodeId Resources

structure Effects where
  st : StateMachine
  events : List Event
  used : Option Memo

/-- The allocation still holds capacity. -/
def AllocationRecord.isLive (r : AllocationRecord) : Bool := r.allocation.state ≠ .released

/-! ## Capacity -/

namespace Memo

def add (used : Memo) (node : NodeId) (amount : Resources) : Memo :=
  used.insert node (((used.get? node).getD .zero).saturatingAdd amount)

def sub (used : Memo) (node : NodeId) (amount : Resources) : Memo :=
  used.modify node fun e => e.saturatingSub amount

end Memo

namespace StateMachine

variable (s : StateMachine)

/-- Saturating sum of the funded holds on `node`. -/
def usedHere (node : NodeId) : Resources :=
  s.allocations.values.foldl
    (fun u r => if r.allocation.node = node ∧ r.isLive then u.saturatingAdd r.allocation.funded
      else u) .zero

def usedCapacityMemo : Memo :=
  s.allocations.values.foldl
    (fun used r => if r.isLive then Memo.add used r.allocation.node r.allocation.funded else used)
    .empty

def freeCapacity (node : NodeId) (used : Option Memo) : Resources :=
  match s.nodes.get? node with
  | none => .zero
  | some rec =>
    let usedHere :=
      match used with
      | some memo => (memo.get? node).getD .zero
      | none => s.usedHere node
    rec.node.capacity.saturatingSub usedHere

/-- The accrual queue of one node, in commit order. -/
def nodeQueue (node : NodeId) : List (Nat × AllocationId) :=
  (s.accrualQueue.entries.filter fun e => (ofLex e.1).1 = node).map
    fun e => ((ofLex e.1).2, e.2)

/-- Apply `f` to the usage of an entity and its ancestors, at most `fuel` levels up. -/
def walkAncestors (f : UsageState → UsageState) :
    Nat → Option QuotaEntityId → StateMachine → StateMachine
  | 0, _, s => s
  | _ + 1, none, s => s
  | fuel + 1, some id, s =>
    match s.quotaEntities.get? id with
    | none => s
    | some e =>
      walkAncestors f fuel e.parent
        { s with quotaEntities := s.quotaEntities.insert id { e with usage := f e.usage } }

def chargeAncestors (entity : QuotaEntityId) (amount : CostUnits) (at_ : Timestamp) :
    StateMachine :=
  walkAncestors (fun u => u.charge amount at_ s.policy.decay) quotaTreeDepthCap (some entity) s

def settleAncestors (entity : QuotaEntityId) (adjustment : TrueUp) (at_ : Timestamp) :
    StateMachine :=
  walkAncestors (fun u => u.settle adjustment at_ s.policy.decay) quotaTreeDepthCap (some entity) s

end StateMachine

/-! ## Transitions -/

namespace Effects

section

variable (fx : Effects)

def emit (e : Event) : Effects := { fx with events := fx.events ++ [e] }

def modifyJob (job : JobId) (f : JobRecord → JobRecord) : Effects :=
  { fx with st := { fx.st with jobs := fx.st.jobs.modify job f } }

def modifyAttempt (attempt : AttemptId) (f : AttemptRecord → AttemptRecord) : Effects :=
  { fx with st := { fx.st with attempts := fx.st.attempts.modify attempt f } }

def modifyAllocation (allocation : AllocationId) (f : AllocationRecord → AllocationRecord) :
    Effects :=
  { fx with st := { fx.st with allocations := fx.st.allocations.modify allocation f } }

def dequeue (node : NodeId) (seq : Nat) : Effects :=
  { fx with st := { fx.st with accrualQueue := fx.st.accrualQueue.erase (toLex (node, seq)) } }

def jobTransition (job : JobId) (to_ : JobState) : Effects :=
  match fx.st.jobs.get? job with
  | none => fx
  | some r =>
    if r.state ≠ to_ then
      (fx.modifyJob job fun r => { r with state := to_ }).emit
        (.jobStateChanged job r.state to_)
    else fx

def jobTerminalTransition (job : JobId) (to_ : JobState) (at_ : Timestamp) : Effects :=
  (fx.modifyJob job fun r =>
    if r.terminalAt.isNone then { r with terminalAt := some at_ } else r).jobTransition job to_

def attemptTransition (attempt : AttemptId) (to_ : AttemptState) : Effects :=
  match fx.st.attempts.get? attempt with
  | none => fx
  | some a =>
    if a.attempt.state ≠ to_ then
      (fx.modifyAttempt attempt fun a =>
          { a with attempt := { a.attempt with state := to_ } }).emit
        (.attemptStateChanged attempt a.attempt.job a.attempt.node to_)
    else fx

def markAttemptRunning (attempt : AttemptId) (observedAt : Timestamp) : Effects :=
  match fx.st.attempts.get? attempt with
  | none => fx
  | some a =>
    let fx := fx.modifyAttempt attempt fun a =>
      if a.startedAt.isNone then { a with startedAt := some observedAt } else a
    let fx := fx.attemptTransition attempt .running
    fx.modifyAllocation a.attempt.allocation fun al =>
      if al.allocation.state = .funded then
        { al with allocation := { al.allocation with state := .active } }
      else al

/-! ## The pledge pass -/

/-- Every live attempt of the group becomes ready once all of them are funded. -/
def checkReadyBarrier (attempt : AttemptId) : Effects :=
  match fx.st.attempts.get? attempt with
  | none => fx
  | some rec =>
    let members := (fx.st.attempts.entries.filter fun e =>
      e.2.group = rec.group && !e.2.attempt.state.isTerminal).map Prod.fst
    let allFunded := members.all fun id =>
      match (fx.st.attempts.get? id).bind fun a => fx.st.allocations.get? a.attempt.allocation with
      | none => false
      | some r => r.allocation.state = .funded || r.allocation.state = .active
    if allFunded then
      members.foldl (fun fx id =>
        match fx.st.attempts.get? id with
        | none => fx
        | some a =>
          if a.attempt.state = .accruing then fx.attemptTransition id .ready else fx) fx
    else fx

def memoAdd (node : NodeId) (amount : Resources) : Effects :=
  { fx with used := fx.used.map fun memo => memo.add node amount }

def memoSub (node : NodeId) (amount : Resources) : Effects :=
  { fx with used := fx.used.map fun memo => memo.sub node amount }

end

/-- Give one queued allocation what it still needs of `free`; returns what is
    left and whether the allocation became fully funded. -/
def pledgeOne (node : NodeId) (seq : Nat) (id : AllocationId) (fx : Effects) (free : Resources) :
    Effects × Resources × Bool :=
  match fx.st.allocations.get? id with
  | none => (fx, free, false)
  | some rec =>
    let need := rec.allocation.requested.saturatingSub rec.allocation.funded
    let pledge := free.componentMin need
    if pledge.isZero then (fx, free, false)
    else
      let funded := rec.allocation.funded.saturatingAdd pledge
      let free := free.saturatingSub pledge
      if funded = rec.allocation.requested then
        let fx := fx.modifyAllocation id fun r =>
          { r with allocation := { r.allocation with funded := funded, state := .funded } }
        let fx := (fx.dequeue node seq).emit (.allocationFunded id rec.allocation.job node)
        (fx.memoAdd node pledge, free, true)
      else
        let fx := fx.modifyAllocation id fun r =>
          { r with allocation := { r.allocation with funded := funded } }
        (fx.memoAdd node pledge, free, false)

/-- Walk the queue until nothing is free; returns the newly funded allocations. -/
def pledgeLoop (node : NodeId) :
    List (Nat × AllocationId) → Effects → Resources → Effects × List AllocationId
  | [], fx, _ => (fx, [])
  | (seq, id) :: rest, fx, free =>
    if free.isZero then (fx, [])
    else
      match pledgeOne node seq id fx free with
      | (fx, free, true) =>
        let (fx, newly) := pledgeLoop node rest fx free
        (fx, id :: newly)
      | (fx, free, false) => pledgeLoop node rest fx free

def pledgeNode (fx : Effects) (node : NodeId) : Effects :=
  let free := fx.st.freeCapacity node fx.used
  if free.isZero then fx
  else
    let (fx, newlyFunded) := pledgeLoop node (fx.st.nodeQueue node) fx free
    newlyFunded.foldl (fun fx id =>
      match fx.st.allocations.get? id with
      | none => fx
      | some r => fx.checkReadyBarrier r.allocation.attempt) fx

/-! ## Release and termination -/

def releaseAllocation (fx : Effects) (allocation : AllocationId) (pledge : Bool) : Effects :=
  match fx.st.allocations.get? allocation with
  | none => fx
  | some rec =>
    if rec.allocation.state = .released then fx
    else
      let fx := fx.modifyAllocation allocation fun r =>
        { r with allocation := { r.allocation with state := .released } }
      let fx := fx.dequeue rec.allocation.node rec.seq
      let fx := fx.memoSub rec.allocation.node rec.allocation.funded
      if pledge then fx.pledgeNode rec.allocation.node else fx

/-- Where a job goes when its attempt ends. -/
inductive Resolution where
  | terminal (state : JobState)
  | requeue (consumeBudget : Bool)
  deriving DecidableEq

/-- Abort wins over any requeue; revoked and preempted attempts requeue free
    of the retry budget. -/
def resolution (rec : JobRecord) (outcome : AttemptOutcome) : Resolution :=
  let abortPending := rec.spec.abortRequested.isSome
  match outcome with
  | .aborted => .terminal .aborted
  | .revoked | .preempted _ =>
    if abortPending then .terminal .aborted else .requeue false
  | o =>
    if o.class_ = .success then .terminal .succeeded
    else
      let eligible :=
        match o.class_ with
        | .platform => true
        | .userError => rec.spec.retry.retryUserErrors
        | _ => false
      if eligible && !abortPending && rec.retriesUsed < rec.spec.retry.maxRetries then
        .requeue true
      else .terminal .failed

def resolveJob (fx : Effects) (job : JobId) (outcome : AttemptOutcome) (at_ : Timestamp) :
    Effects :=
  match fx.st.jobs.get? job with
  | none => fx
  | some rec =>
    if rec.state.isTerminal then fx
    else
      match resolution rec outcome with
      | .terminal to_ => fx.jobTerminalTransition job to_ at_
      | .requeue consumeBudget =>
        let fx :=
          if consumeBudget then
            fx.modifyJob job fun r => { r with retriesUsed := r.retriesUsed + 1 }
          else fx
        fx.jobTransition job .queued

def terminateAttempt (fx : Effects) (attempt : AttemptId) (outcome : AttemptOutcome)
    (actualRuntime : Duration) (at_ : Timestamp) (pledge : Bool) : Effects :=
  match fx.st.attempts.get? attempt with
  | none => fx
  | some a =>
    if a.attempt.state.isTerminal then fx
    else
      let started := a.startedAt.isSome
      let fx := fx.attemptTransition attempt (.terminal outcome)
      let fx := fx.modifyAttempt attempt fun a =>
        if a.endedAt.isNone then { a with endedAt := some at_ } else a
      let fx := fx.releaseAllocation a.attempt.allocation pledge
      -- an attempt that never started has cost nothing
      let actual :=
        if started then
          costFromRate a.rateUcuPerSecond (runtimeSecondsCeil actualRuntime) a.multiplier
        else 0
      let retain := started && outcome.class_ ≠ .platform
      let adjustment := trueUp a.charge actual at_ fx.st.policy.decay retain
      let fx := fx.modifyAttempt attempt fun a =>
        if a.settlement.isNone then { a with settlement := some ⟨actual, adjustment⟩ } else a
      let fx :=
        match fx.st.jobs.get? a.attempt.job with
        | none => fx
        | some j => { fx with st := fx.st.settleAncestors j.spec.quotaEntity adjustment at_ }
      fx.resolveJob a.attempt.job outcome at_

end Effects

end Coppice.State
