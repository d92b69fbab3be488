/-
  Coppice.State.Terminate

  The end of an attempt: its allocation is released, the freed capacity is
  pledged onward, and the job is resolved.  `terminateAttempt_spec` says what
  the whole helper keeps.
-/

import Coppice.State.Pledge

namespace Coppice.State

open Lib Coppice.Core StateMachine OrdMap Effects JobRecord

/-! ## Transitions as map updates -/

namespace Effects

theorem attemptTransition_st (fx : Effects) (id : AttemptId) (to_ : AttemptState) :
    (fx.attemptTransition id to_).st =
      { fx.st with attempts := fx.st.attempts.modify id fun a =>
          { a with attempt := { a.attempt with state := to_ } } } := by
  unfold attemptTransition
  cases ha : fx.st.attempts.get? id with
  | none => rw [modify_of_none _ ha]
  | some a =>
    simp only
    split_ifs with hne
    · rfl
    · -- the state is already `to_`, so the update changes nothing
      rw [modify_eq_self]
      intro b hb
      rw [ha] at hb
      cases hb
      rw [← not_not.mp hne]

theorem jobTransition_st (fx : Effects) (job : JobId) (to_ : JobState) :
    (fx.jobTransition job to_).st =
      { fx.st with jobs := fx.st.jobs.modify job fun r => { r with state := to_ } } := by
  unfold jobTransition
  cases hj : fx.st.jobs.get? job with
  | none => rw [modify_of_none _ hj]
  | some r =>
    simp only
    split_ifs with hne
    · rfl
    · rw [modify_eq_self]
      intro q hq
      rw [hj] at hq
      cases hq
      rw [← not_not.mp hne]

@[simp] theorem jobTransition_used (fx : Effects) (job : JobId) (to_ : JobState) :
    (fx.jobTransition job to_).used = fx.used := by
  unfold jobTransition
  split
  · rfl
  · split_ifs <;> rfl

@[simp] theorem jobTerminalTransition_used (fx : Effects) (job : JobId) (to_ : JobState)
    (at_ : Timestamp) : (fx.jobTerminalTransition job to_ at_).used = fx.used := by
  simp [jobTerminalTransition]

end Effects

/-- Stamp the end of a job, first write wins. -/
def JobRecord.stampTerminal (at_ : Timestamp) (r : JobRecord) : JobRecord :=
  if r.terminalAt.isNone then { r with terminalAt := some at_ } else r

section

variable (outcome : AttemptOutcome) (at_ : Timestamp)

/-- The job record after its attempt ended with `outcome`. -/
def JobRecord.resolve (r : JobRecord) : JobRecord :=
  if r.state.isTerminal then r
  else
    match Effects.resolution r outcome with
    | .terminal to_ => { r.stampTerminal at_ with state := to_ }
    | .requeue consumeBudget =>
      { r with
        retriesUsed := if consumeBudget then r.retriesUsed + 1 else r.retriesUsed
        state := .queued }

/-- The attempt over with `outcome`, its end stamped; first write wins. -/
def AttemptRecord.endWith (a : AttemptRecord) : AttemptRecord :=
  { a with
    attempt := { a.attempt with state := .terminal outcome }
    endedAt := if a.endedAt.isNone then some at_ else a.endedAt }

theorem AttemptRecord.endWith_same (a : AttemptRecord) :
    Linked.SameAttempt a (a.endWith outcome at_) := ⟨rfl, rfl, rfl, rfl, rfl⟩

end

/-- The attempt settled; first write wins. -/
def AttemptRecord.settleWith (x : Settlement) (a : AttemptRecord) : AttemptRecord :=
  if a.settlement.isNone then { a with settlement := some x } else a

theorem AttemptRecord.settleWith_attempt (x : Settlement) (a : AttemptRecord) :
    (a.settleWith x).attempt = a.attempt ∧ (a.settleWith x).group = a.group := by
  unfold settleWith
  split_ifs <;> exact ⟨rfl, rfl⟩

namespace Effects

theorem jobTerminalTransition_st (fx : Effects) (job : JobId) (to_ : JobState) (at_ : Timestamp) :
    (fx.jobTerminalTransition job to_ at_).st =
      { fx.st with jobs := fx.st.jobs.modify job fun r =>
          { r.stampTerminal at_ with state := to_ } } := by
  unfold jobTerminalTransition
  rw [jobTransition_st]
  simp only [modifyJob, modify_modify]
  rfl

theorem resolveJob_st (fx : Effects) (job : JobId) (outcome : AttemptOutcome) (at_ : Timestamp) :
    (fx.resolveJob job outcome at_).st =
      { fx.st with jobs := fx.st.jobs.modify job (JobRecord.resolve outcome at_) } := by
  unfold resolveJob
  cases hj : fx.st.jobs.get? job with
  | none => rw [modify_of_none _ hj]
  | some r =>
    rw [modify_of_some _ hj]
    simp only [resolve]
    by_cases hterm : r.state.isTerminal = true
    · simp only [if_pos hterm]
      rw [insert_eq_self hj]
    · simp only [if_neg hterm]
      cases resolution r outcome with
      | terminal to_ =>
        simp [jobTerminalTransition_st, modify_of_some _ hj]
      | requeue consumeBudget =>
        rw [jobTransition_st]
        cases consumeBudget with
        | false => simp [modify_of_some _ hj]
        | true =>
          simp only [if_true, modifyJob, modify_modify]
          rw [modify_of_some _ hj]
          rfl

theorem resolveJob_events (fx : Effects) {job : JobId} {r : JobRecord} (outcome : AttemptOutcome)
    (at_ : Timestamp) (hr : fx.st.jobs.get? job = some r) (hlive : r.state.isTerminal = false)
    (hne : (r.resolve outcome at_).state ≠ r.state) :
    (fx.resolveJob job outcome at_).events =
      fx.events ++ [.jobStateChanged job r.state (r.resolve outcome at_).state] := by
  unfold resolveJob
  simp only [hr, hlive]
  simp only [resolve, hlive] at hne ⊢
  cases hres : resolution r outcome with
  | terminal to_ =>
    simp only [hres, Bool.false_eq_true, if_false] at hne ⊢
    have hstamp : (fx.modifyJob job fun r =>
        if r.terminalAt.isNone then { r with terminalAt := some at_ } else r).st.jobs.get? job =
          some (r.stampTerminal at_) := by
      simp only [modifyJob, get?_modify_self, hr]
      rfl
    have hstate : (r.stampTerminal at_).state = r.state := by
      simp only [stampTerminal]
      split_ifs <;> rfl
    unfold jobTerminalTransition jobTransition
    simp only [hstamp, hstate, if_pos (Ne.symm hne)]
    rfl
  | requeue consumeBudget =>
    simp only [hres, Bool.false_eq_true, if_false] at hne ⊢
    cases consumeBudget with
    | false =>
      unfold jobTransition
      simp only [hr, Bool.false_eq_true, if_false, if_pos (Ne.symm hne)]
      rfl
    | true =>
      unfold jobTransition
      simp only [modifyJob, get?_modify_self, hr, Option.map_some, if_true, if_pos (Ne.symm hne)]
      rfl

@[simp] theorem resolveJob_used (fx : Effects) (job : JobId) (outcome : AttemptOutcome)
    (at_ : Timestamp) : (fx.resolveJob job outcome at_).used = fx.used := by
  unfold resolveJob
  split
  · rfl
  · split_ifs
    · rfl
    · split
      · simp
      · split_ifs <;> simp

end Effects

/-- Walking the quota tree touches the quota tree only. -/
theorem walkAncestors_st (f : UsageState → UsageState) (fuel : Nat) (e : Option QuotaEntityId)
    (s : StateMachine) : ∃ q, walkAncestors f fuel e s = { s with quotaEntities := q } := by
  induction fuel generalizing e s with
  | zero => exact ⟨s.quotaEntities, rfl⟩
  | succ fuel ih =>
    cases e with
    | none => exact ⟨s.quotaEntities, rfl⟩
    | some id =>
      simp only [walkAncestors]
      cases s.quotaEntities.get? id with
      | none => exact ⟨s.quotaEntities, rfl⟩
      | some entity =>
        let s1 := { s with
          quotaEntities := s.quotaEntities.insert id { entity with usage := f entity.usage } }
        obtain ⟨q, hq⟩ := ih entity.parent s1
        exact ⟨q, hq⟩

variable {s t : StateMachine} {a : AttemptRecord} {fx fx' : Effects} {id : AttemptId}
  {r : AllocationRecord}

/-- The walk reads the quota tree only. -/
theorem walkAncestors_congr (f : UsageState → UsageState) (fuel : Nat) (e : Option QuotaEntityId)
    (h : s.quotaEntities = t.quotaEntities) :
    (walkAncestors f fuel e s).quotaEntities = (walkAncestors f fuel e t).quotaEntities := by
  induction fuel generalizing e s t with
  | zero => exact h
  | succ fuel ih =>
    cases e with
    | none => exact h
    | some id =>
      simp only [walkAncestors, ← h]
      cases s.quotaEntities.get? id with
      | none => exact h
      | some entity => exact ih entity.parent rfl

theorem chargeAncestors_congr (e : QuotaEntityId) (amount : CostUnits) (at_ : Timestamp)
    (hq : s.quotaEntities = t.quotaEntities) (hp : s.policy = t.policy) :
    (s.chargeAncestors e amount at_).quotaEntities =
      (t.chargeAncestors e amount at_).quotaEntities := by
  unfold chargeAncestors
  rw [hp]
  exact walkAncestors_congr _ _ _ hq

theorem settleAncestors_st (s : StateMachine) (e : QuotaEntityId) (adj : TrueUp) (at_ : Timestamp) :
    ∃ q, s.settleAncestors e adj at_ = { s with quotaEntities := q } :=
  walkAncestors_st _ _ _ _

theorem chargeAncestors_st (s : StateMachine) (e : QuotaEntityId) (amount : CostUnits)
    (at_ : Timestamp) : ∃ q, s.chargeAncestors e amount at_ = { s with quotaEntities := q } :=
  walkAncestors_st _ _ _ _

/-! ## Forward steps -/

structure AttemptRecord.Advances (a a' : AttemptRecord) : Prop where
  same : Linked.SameAttempt a a'
  terminal : a.attempt.state.isTerminal = true → a'.attempt.state.isTerminal = true

structure AllocationRecord.Advances (r r' : AllocationRecord) : Prop where
  same : Linked.SameAllocation r r'
  accruing : r'.allocation.state = .accruing → r.allocation.state = .accruing
  released : r.allocation.state = .released → r'.allocation.state = .released

structure JobRecord.Advances (j j' : JobRecord) : Prop where
  attempts : j'.attempts = j.attempts
  attempting : ∀ id, j'.state = .attempting id → j.state = .attempting id

/-- Nothing is created or destroyed: attempts, allocations and jobs only move
    forward in their life cycles, and no job starts a new attempt. -/
structure Advances (s s' : StateMachine) : Prop where
  nodes : s'.nodes = s.nodes
  nextAllocationSeq : s'.nextAllocationSeq = s.nextAllocationSeq
  policy : s'.policy = s.policy
  attempts : OrdMap.Rel AttemptRecord.Advances s.attempts s'.attempts
  allocations : OrdMap.Rel AllocationRecord.Advances s.allocations s'.allocations
  jobs : OrdMap.Rel JobRecord.Advances s.jobs s'.jobs

@[refl] theorem AttemptRecord.Advances.refl (a : AttemptRecord) : a.Advances a := ⟨.refl a, id⟩

@[refl] theorem AllocationRecord.Advances.refl (r : AllocationRecord) : r.Advances r :=
  ⟨.refl r, id, id⟩

@[refl] theorem JobRecord.Advances.refl (j : JobRecord) : j.Advances j := ⟨rfl, fun _ => id⟩

theorem AttemptRecord.Advances.trans (h : a.Advances b) (h' : b.Advances c) : a.Advances c :=
  ⟨h.same.trans h'.same, h'.terminal ∘ h.terminal⟩

theorem AllocationRecord.Advances.trans {a : AllocationRecord} (h : a.Advances b)
    (h' : b.Advances c) : a.Advances c :=
  ⟨h.same.trans h'.same, h.accruing ∘ h'.accruing, h'.released ∘ h.released⟩

theorem JobRecord.Advances.trans {a : JobRecord} (h : a.Advances b) (h' : b.Advances c) :
    a.Advances c :=
  ⟨h'.attempts.trans h.attempts, fun id hid => h.attempting id (h'.attempting id hid)⟩

namespace Advances

variable {s' s'' : StateMachine}

theorem refl (s : StateMachine) : Advances s s :=
  ⟨rfl, rfl, rfl, .refl .refl _, .refl .refl _, .refl .refl _⟩

theorem trans (h : Advances s s') (h' : Advances s' s'') : Advances s s'' :=
  ⟨h'.nodes.trans h.nodes, h'.nextAllocationSeq.trans h.nextAllocationSeq,
    h'.policy.trans h.policy, h.attempts.trans .trans h'.attempts,
    h.allocations.trans .trans h'.allocations, h.jobs.trans .trans h'.jobs⟩

theorem of_pledged (h : Pledged s s') : Advances s s' := by
  refine ⟨h.nodes, h.nextAllocationSeq, by rw [h.rest], ?_, ?_, .of_eq .refl h.jobs⟩
  · exact h.attempts_rel.mono fun ⟨hsame, hterm⟩ => ⟨hsame, fun ht => hterm.trans ht⟩
  · intro al
    rcases h.allocations al with e | ⟨r, r', hr, hr', hacc, hsame, -⟩
    · rw [e]
      exact OrdMap.Rel.refl .refl s.allocations al
    · exact .inr ⟨r, r', hr, hr', hsame, fun _ => hacc, fun hrel => by simp [hacc] at hrel⟩

end Advances

/-! ## Giving an allocation back -/

/-- The books between the steps of one command. -/
structure Books (fx : Effects) : Prop where
  linked : Linked fx.st []
  fit : HoldsFit fx.st
  memo : MemoExact fx

def AllocationRecord.freed (r : AllocationRecord) : AllocationRecord :=
  { r with allocation := { r.allocation with state := .released } }

/-- Holds stay bounded and everything moves forward. -/
structure Settles (s s' : StateMachine) : Prop where
  bounded : HoldsBounded s s'
  advances : Advances s s'

theorem Settles.refl (s : StateMachine) : Settles s s := ⟨.refl s, .refl s⟩

theorem Settles.trans (h : Settles s s') (h' : Settles s' s'') : Settles s s'' :=
  ⟨h.bounded.trans h'.bounded h'.advances.nodes, h.advances.trans h'.advances⟩

theorem heldOn_freed {s' : StateMachine} (hr : s.allocations.get? al = some r)
    (h : s'.allocations = s.allocations.insert al r.freed) (n : NodeId) (d : Dim) :
    holdOf n d r + s'.heldOn n d = s.heldOn n d := by
  have hup := heldOn_update hr (fun j => by rw [h, get?_insert]) n d
  have hfreed : holdOf n d r.freed = 0 := by
    simp [holdOf, AllocationRecord.isLive, AllocationRecord.freed]
  rwa [hfreed, Nat.zero_add] at hup

/-- An attempt ends and its allocation gives its hold back. -/
theorem Books.freed (h : Books fx) (ha : fx.st.attempts.get? id = some a)
    (hr : fx.st.allocations.get? a.attempt.allocation = some r)
    (hlive : r.allocation.state ≠ .released) (hsame : Linked.SameAttempt a a')
    (hterm : a'.attempt.state.isTerminal = true) (hst : fx'.st = { fx.st with
      attempts := fx.st.attempts.insert id a'
      allocations := fx.st.allocations.insert a.attempt.allocation r.freed
      accrualQueue := fx.st.accrualQueue.erase (toLex (r.allocation.node, r.seq)) })
    (hused : fx'.used = fx.used.map fun memo => memo.sub r.allocation.node r.allocation.funded) :
    Books fx' ∧ Settles fx.st fx'.st ∧
      ∀ n, n ≠ r.allocation.node → ConservedOn fx.st n → ConservedOn fx'.st n := by
  have hatt j : fx'.st.attempts.get? j = if id = j then some a' else fx.st.attempts.get? j := by
    rw [hst, get?_insert]
  have hall j : fx'.st.allocations.get? j = if a.attempt.allocation = j then some r.freed else
      fx.st.allocations.get? j := by
    rw [hst, get?_insert]
  have hheld := heldOn_freed hr (show fx'.st.allocations = _ by rw [hst])
  have hbounded : HoldsBounded fx.st fx'.st := HoldsBounded.of_le fun n d => by
    have := hheld n d
    omega
  refine ⟨⟨?_, hbounded.holdsFit h.fit, ?_⟩, ⟨hbounded, ?_⟩, ?_⟩
  · refine h.linked.update a' r.freed ha hr hsame ⟨rfl, rfl, rfl, rfl, rfl, rfl⟩ hatt hall ?_
      (by rw [hst]) (by rw [hst]) ?_ (by simp) (by simp) (fun _ => hterm) ?_ ?_ ?_
    · intro k
      rw [hst, if_neg (by simp [AllocationRecord.freed])]
    · intro _
      cases hs : a'.attempt.state <;> simp_all [AttemptState.isTerminal, InStep,
        AllocationRecord.freed]
    · exact ⟨(h.linked.funding hr).le, by simp [AllocationRecord.freed],
        by simp [AllocationRecord.freed], by simp [AllocationRecord.freed]⟩
    · simp [AllocationRecord.freed]
    · simp [AllocationRecord.freed, AllocationRecord.isLive]
  · intro memo hm n d
    rw [hused] at hm
    obtain ⟨memo0, hm0, rfl⟩ := Option.map_eq_some_iff.mp hm
    rw [memo_get_sub, h.memo memo0 hm0]
    have := hheld n d
    split_ifs with hn
    · have hhold : holdOf n d r = r.allocation.funded.get d := by
        simp [holdOf, hn, AllocationRecord.isLive, hlive]
      omega
    · have hhold : holdOf n d r = 0 := by simp [holdOf, hn]
      omega
  · refine ⟨by rw [hst], by rw [hst], by rw [hst], ?_, ?_, .of_eq .refl (by rw [hst])⟩
    · rw [hst]
      exact .of_insert .refl ha ⟨hsame, fun _ => hterm⟩
    · rw [hst]
      exact .of_insert .refl hr ⟨⟨rfl, rfl, rfl, rfl, rfl, rfl⟩, by simp [AllocationRecord.freed],
        fun _ => rfl⟩
  · intro n hn hcon al q hq hacc hnode d
    rw [capacityOf_congr (s := fx.st) (by rw [hst])]
    have hold : fx.st.allocations.get? al = some q := by
      rw [hall] at hq
      split_ifs at hq with e
      · cases hq
        simp [AllocationRecord.freed] at hacc
      · exact hq
    have hhold : holdOf n d r = 0 := by simp [holdOf, Ne.symm hn]
    have := hheld n d
    rcases hcon al q hold hacc hnode d with hc | hc
    · exact .inl (by omega)
    · exact .inr hc

/-! ## Ending an attempt -/

theorem JobRecord.resolve_attempts (outcome : AttemptOutcome) (at_ : Timestamp) (r : JobRecord) :
    (r.resolve outcome at_).attempts = r.attempts := by
  unfold resolve
  split_ifs
  · rfl
  · split
    · simp only [stampTerminal]
      split_ifs <;> rfl
    · rfl

theorem Effects.resolution_terminal {rec : JobRecord} {outcome : AttemptOutcome} {to_ : JobState}
    (h : resolution rec outcome = .terminal to_) : to_.isTerminal = true := by
  unfold resolution at h
  simp only at h
  split at h
  · cases h
    rfl
  · split_ifs at h
    cases h
    rfl
  · split_ifs at h
    cases h
    rfl
  · split_ifs at h <;> cases h <;> rfl

/-- A resolved job is not attempting. -/
theorem JobRecord.resolve_state (outcome : AttemptOutcome) (at_ : Timestamp) (r : JobRecord)
    (x : AttemptId) : (r.resolve outcome at_).state ≠ .attempting x := by
  unfold resolve
  split_ifs with hterm
  · intro e
    rw [e] at hterm
    cases hterm
  · split
    · rename_i to_ hres
      intro e
      have hto := resolution_terminal hres
      simp only at e
      rw [e] at hto
      cases hto
    · simp

namespace Effects

/-- The effects of a release before its pledge pass. -/
def releasing (fx : Effects) (al : AllocationId) (r : AllocationRecord) : Effects :=
  ((fx.modifyAllocation al fun r =>
    { r with allocation := { r.allocation with state := .released } }).dequeue
      r.allocation.node r.seq).memoSub r.allocation.node r.allocation.funded

variable {al : AllocationId}

theorem releasing_st (fx : Effects) (hr : fx.st.allocations.get? al = some r) :
    (fx.releasing al r).st = { fx.st with
      allocations := fx.st.allocations.insert al r.freed
      accrualQueue := fx.st.accrualQueue.erase (toLex (r.allocation.node, r.seq)) } := by
  simp only [releasing, memoSub_st, dequeue, modifyAllocation, modify_of_some _ hr]
  rfl

theorem releaseAllocation_live (fx : Effects) (pledge : Bool)
    (hr : fx.st.allocations.get? al = some r) (hlive : r.allocation.state ≠ .released) :
    fx.releaseAllocation al pledge =
      if pledge then (fx.releasing al r).pledgeNode r.allocation.node else fx.releasing al r := by
  unfold releaseAllocation
  simp only [hr, if_neg hlive]
  rfl

/-- The effects of an attempt's end before its pledge pass: the attempt is over and its
    allocation `r` released. -/
def ending (fx : Effects) (id : AttemptId) (a : AttemptRecord) (r : AllocationRecord)
    (outcome : AttemptOutcome) (at_ : Timestamp) : Effects :=
  ((fx.attemptTransition id (.terminal outcome)).modifyAttempt id fun a =>
    if a.endedAt.isNone then { a with endedAt := some at_ } else a).releasing
      a.attempt.allocation r

/-- Before the pass the attempt is over, with its end stamped, and its hold is freed. -/
theorem ending_spec (fx : Effects) {id : AttemptId} {a : AttemptRecord} (outcome : AttemptOutcome)
    (at_ : Timestamp) (ha : fx.st.attempts.get? id = some a)
    (hlive : a.attempt.state.isTerminal = false)
    (hr : fx.st.allocations.get? a.attempt.allocation = some r) :
    (fx.ending id a r outcome at_).st = { fx.st with
        attempts := fx.st.attempts.insert id (a.endWith outcome at_)
        allocations := fx.st.allocations.insert a.attempt.allocation r.freed
        accrualQueue := fx.st.accrualQueue.erase (toLex (r.allocation.node, r.seq)) } ∧
      (fx.ending id a r outcome at_).used =
        fx.used.map (fun memo => memo.sub r.allocation.node r.allocation.funded) ∧
      (fx.ending id a r outcome at_).events = fx.events ++
        [.attemptStateChanged id a.attempt.job a.attempt.node (.terminal outcome)] := by
  let fx0 := (fx.attemptTransition id (.terminal outcome)).modifyAttempt id fun a =>
    if a.endedAt.isNone then { a with endedAt := some at_ } else a
  have hst0 : fx0.st = { fx.st with
      attempts := fx.st.attempts.insert id (a.endWith outcome at_) } := by
    simp only [fx0, modifyAttempt, attemptTransition_st, modify_modify]
    rw [modify_of_some _ ha]
    simp only [Function.comp, AttemptRecord.endWith]
    split_ifs <;> rfl
  have hused0 : fx0.used = fx.used := by simp [fx0]
  have hne : a.attempt.state ≠ .terminal outcome := by
    intro e
    rw [e] at hlive
    cases hlive
  refine ⟨?_, ?_, ?_⟩
  · show (fx0.releasing a.attempt.allocation r).st = _
    rw [releasing_st _ (by rw [hst0]; exact hr), hst0]
  · show fx0.used.map _ = _
    rw [hused0]
  · exact fx.attemptTransition_events ha hne

/-- Ending an attempt is a no-op when it is gone or over; otherwise it is live. -/
theorem terminateAttempt_idle_or_live (fx : Effects) (id : AttemptId) (outcome : AttemptOutcome)
    (rt : Duration) (at_ : Timestamp) (pledge : Bool) :
    (∀ a, fx.st.attempts.get? id = some a → a.attempt.state.isTerminal = true) ∧
        fx.terminateAttempt id outcome rt at_ pledge = fx ∨
      ∃ a, fx.st.attempts.get? id = some a ∧ a.attempt.state.isTerminal = false := by
  cases ha : fx.st.attempts.get? id with
  | none =>
    refine .inl ⟨by simp, ?_⟩
    unfold terminateAttempt
    rw [ha]
  | some a =>
    cases hlive : a.attempt.state.isTerminal with
    | true =>
      refine .inl ⟨fun b hb => ?_, ?_⟩
      · cases hb
        exact hlive
      · unfold terminateAttempt
        simp [ha, hlive]
    | false => exact .inr ⟨a, rfl, hlive⟩

end Effects

/-- The allocation of a live attempt is not released. -/
theorem Linked.allocation_of_live (h : Linked s []) (ha : s.attempts.get? id = some a)
    (hlive : a.attempt.state.isTerminal = false) :
    ∃ r, s.allocations.get? a.attempt.allocation = some r ∧ r.allocation.state ≠ .released ∧
      Ties [] id a r := by
  obtain ⟨r, hr, ht⟩ := h.allocation_of ha
  refine ⟨r, hr, fun e => ?_, ht⟩
  have := (ht.step (by simp)).terminal_iff.mpr e
  rw [hlive] at this
  cases this

/-- The invariant between the steps of one command: the books are exact, jobs
    and attempts agree, and every node outside `skip` conserves its capacity. -/
structure Sound (skip : Set NodeId) (fx : Effects) : Prop where
  books : Books fx
  jobs : JobLinked fx.st
  conserved : ∀ n, n ∉ skip → ConservedOn fx.st n

/-- Books do not look at job records, quotas or the annotations of attempts. -/
theorem Books.annotate (h : Books fx)
    (hatt : OrdMap.Rel (fun a a' => a'.attempt = a.attempt ∧ a'.group = a.group)
      fx.st.attempts fx'.st.attempts) (hall : fx'.st.allocations = fx.st.allocations)
    (hq : fx'.st.accrualQueue = fx.st.accrualQueue)
    (hseq : fx'.st.nextAllocationSeq = fx.st.nextAllocationSeq) (hn : fx'.st.nodes = fx.st.nodes)
    (hused : fx'.used = fx.used) : Books fx' := by
  refine ⟨h.linked.annotate hatt hall hq hseq fun hx => ⟨_, hn ▸ hx⟩,
    (HoldsBounded.of_eq hall).holdsFit h.fit, ?_⟩
  intro memo hm n d
  rw [hused] at hm
  rw [h.memo memo hm, heldOn_congr hall]

/-- A pledge pass, if there is one, keeps the books. -/
theorem Books.pledgeIf (h : Books fx) (pledge : Bool) (node : NodeId) :
    Books (if pledge then fx.pledgeNode node else fx) ∧
      Pledged fx.st (if pledge then fx.pledgeNode node else fx).st ∧
      Settles fx.st (if pledge then fx.pledgeNode node else fx).st ∧
      (∀ n, (n ≠ node → ConservedOn fx.st n) → (n = node → pledge = true) →
        ConservedOn (if pledge then fx.pledgeNode node else fx).st n) := by
  cases pledge with
  | false =>
    refine ⟨h, .refl _, .refl _, fun n hn hp => hn fun e => ?_⟩
    cases hp e
  | true =>
    obtain ⟨hL, hM, hp, hb, hc, hoth⟩ := pledgeNode_spec node h.linked h.fit h.memo
    refine ⟨⟨hL, hb.holdsFit h.fit, hM⟩, hp, ⟨hb, .of_pledged hp⟩, fun n hn _ => ?_⟩
    by_cases e : n = node
    · rw [e]
      exact hc
    · exact hoth n e (hn e)

section

variable (outcome : AttemptOutcome) (rt : Duration) (at_ : Timestamp) (pledge : Bool)

/-- What an attempt that ends now has cost; one that never started cost nothing. -/
def AttemptRecord.actualCost (a : AttemptRecord) (runtime : Duration) : CostUnits :=
  if a.startedAt.isSome then
    costFromRate a.rateUcuPerSecond (runtimeSecondsCeil runtime) a.multiplier
  else 0

/-- Whether part of the unused charge is withheld. -/
def AttemptRecord.retains (a : AttemptRecord) (outcome : AttemptOutcome) : Bool :=
  a.startedAt.isSome && outcome.class_ ≠ .platform

/-- The phases of `terminate_attempt` on a live attempt: the attempt ends and the hold of `r` is
    freed (`fx1`), the node is pledged (`fx2`), the attempt is settled and the job resolved. -/
structure Ending (fx : Effects) (id : AttemptId) (a : AttemptRecord) (outcome : AttemptOutcome)
    (rt : Duration) (at_ : Timestamp) (pledge : Bool) (r : AllocationRecord) (fx1 fx2 : Effects)
    (x : Settlement) (fx' : Effects) : Prop where
  allocation : fx.st.allocations.get? a.attempt.allocation = some r
  held : r.allocation.state ≠ .released
  ties : Ties [] id a r
  first : fx1 = fx.ending id a r outcome at_
  st1 : fx1.st = { fx.st with
    attempts := fx.st.attempts.insert id (a.endWith outcome at_)
    allocations := fx.st.allocations.insert a.attempt.allocation r.freed
    accrualQueue := fx.st.accrualQueue.erase (toLex (r.allocation.node, r.seq)) }
  events1 : fx1.events = fx.events ++
    [.attemptStateChanged id a.attempt.job a.attempt.node (.terminal outcome)]
  books1 : Books fx1
  settles1 : Settles fx.st fx1.st
  conserved1 : ∀ n, n ≠ r.allocation.node → ConservedOn fx.st n → ConservedOn fx1.st n
  second : fx2 = if pledge then fx1.pledgeNode r.allocation.node else fx1
  pledged : Pledged fx1.st fx2.st
  /-- the pass does not touch the ended attempt -/
  ended : fx2.st.attempts.get? id = some (a.endWith outcome at_)
  bill : x = ⟨a.actualCost rt, trueUp a.charge (a.actualCost rt) at_ fx.st.policy.decay
    (a.retains outcome)⟩
  st : fx'.st = { fx2.st with
    attempts := fx2.st.attempts.insert id ((a.endWith outcome at_).settleWith x)
    quotaEntities := fx'.st.quotaEntities
    jobs := fx.st.jobs.modify a.attempt.job (JobRecord.resolve outcome at_) }
  quotas : ∀ j, fx.st.jobs.get? a.attempt.job = some j → fx'.st.quotaEntities = (walkAncestors
    (fun u => u.settle x.trueUp at_ fx.st.policy.decay) quotaTreeDepthCap
    (some j.spec.quotaEntity) fx.st).quotaEntities
  used : fx'.used = fx2.used
  events : ∀ j, fx.st.jobs.get? a.attempt.job = some j → j.state.isTerminal = false →
    (j.resolve outcome at_).state ≠ j.state → fx'.events = fx2.events ++
      [.jobStateChanged a.attempt.job j.state (j.resolve outcome at_).state]

theorem Books.ends (outcome : AttemptOutcome) (rt : Duration) (at_ : Timestamp) (pledge : Bool)
    (h : Books fx) (ha : fx.st.attempts.get? id = some a)
    (hlive : a.attempt.state.isTerminal = false) : ∃ r fx1 fx2 x, Ending fx id a outcome rt at_
      pledge r fx1 fx2 x (fx.terminateAttempt id outcome rt at_ pledge) := by
  obtain ⟨r, hr, hrl, ht⟩ := h.linked.allocation_of_live ha hlive
  obtain ⟨hst1, hused1, hev1⟩ := fx.ending_spec outcome at_ ha hlive hr
  obtain ⟨hB1, hS1, hC1⟩ := h.freed ha hr hrl (a.endWith_same outcome at_) rfl hst1 hused1
  obtain ⟨-, hP, -, -⟩ := hB1.pledgeIf pledge r.allocation.node
  have hrel : ((fx.attemptTransition id (.terminal outcome)).modifyAttempt id fun a =>
      if a.endedAt.isNone then { a with endedAt := some at_ } else a).releaseAllocation
        a.attempt.allocation pledge = if pledge then (fx.ending id a r outcome at_).pledgeNode
          r.allocation.node else fx.ending id a r outcome at_ :=
    releaseAllocation_live _ pledge (by simp only [modifyAttempt, attemptTransition_st]; exact hr)
      hrl
  generalize hfx1 : fx.ending id a r outcome at_ = fx1 at *
  generalize hfx2 : (if pledge then fx1.pledgeNode r.allocation.node else fx1) = fx2 at *
  have hget2 : fx2.st.attempts.get? id = some (a.endWith outcome at_) := by
    rcases hP.attempts id with e | ⟨c, hc, hacc, -⟩
    · rw [e, hst1, get?_insert_self]
    · rw [hst1, get?_insert_self] at hc
      cases hc
      cases hacc
  have hjobs2 : fx2.st.jobs = fx.st.jobs := by rw [hP.jobs, hst1]
  have hpolicy : fx2.st.policy = fx.st.policy := by rw [hP.rest, hst1]
  have htree : fx2.st.quotaEntities = fx.st.quotaEntities := by rw [hP.rest, hst1]
  let x : Settlement := ⟨a.actualCost rt, trueUp a.charge (a.actualCost rt) at_
    fx2.st.policy.decay (a.retains outcome)⟩
  let fx3 := fx2.modifyAttempt id (AttemptRecord.settleWith x)
  have hst3 : fx3.st = { fx2.st with
      attempts := fx2.st.attempts.insert id ((a.endWith outcome at_).settleWith x) } := by
    simp only [fx3, modifyAttempt, modify_of_some _ hget2]
  -- the settlement bills the ancestors, if the job is there
  obtain ⟨fx4, hfx, hst4, hused4, hev4, hq⟩ : ∃ fx4 : Effects,
      fx.terminateAttempt id outcome rt at_ pledge = fx4.resolveJob a.attempt.job outcome at_ ∧
      fx4.st = { fx3.st with quotaEntities := fx4.st.quotaEntities } ∧ fx4.used = fx2.used ∧
      fx4.events = fx2.events ∧ ∀ j, fx.st.jobs.get? a.attempt.job = some j →
        fx4.st = fx3.st.settleAncestors j.spec.quotaEntity x.trueUp at_ := by
    unfold terminateAttempt
    simp only [ha, hlive, hrel]
    refine ⟨_, rfl, ?_⟩
    rw [← hjobs2]
    split
    · rename_i hj
      refine ⟨rfl, rfl, rfl, fun j hj' => ?_⟩
      cases hj.symm.trans hj'
    · rename_i j hj
      obtain ⟨q, hq⟩ := settleAncestors_st fx3.st j.spec.quotaEntity x.trueUp at_
      have hset : fx3.st.settleAncestors j.spec.quotaEntity x.trueUp at_ = { fx3.st with
          quotaEntities := (fx3.st.settleAncestors j.spec.quotaEntity x.trueUp at_).quotaEntities
          } := by rw [hq]
      refine ⟨hset, rfl, rfl, fun j' hj' => ?_⟩
      cases hj.symm.trans hj'
      rfl
  refine ⟨r, fx1, fx2, x, hr, hrl, ht, hfx1.symm, hst1, hev1, hB1, hS1, hC1, hfx2.symm, hP, hget2,
    by simp only [x, hpolicy], ?_, fun j hj => ?_, ?_, fun j hj hlive hne => ?_⟩
  · rw [hfx, resolveJob_st, hst4, hst3, hjobs2]
  · rw [hfx, resolveJob_st, hq j hj, ← hpolicy]
    exact walkAncestors_congr _ _ _ htree
  · rw [hfx, resolveJob_used, hused4]
  · rw [hfx, ← hev4]
    exact resolveJob_events _ _ _ (by rw [hst4]; exact hjobs2 ▸ hj) hlive hne

section

variable {outcome rt at_ pledge} {fx1 fx2 : Effects} {x : Settlement}
variable (he : Ending fx id a outcome rt at_ pledge r fx1 fx2 x fx')

include he

namespace Ending

theorem self : fx'.st.attempts.get? id = some ((a.endWith outcome at_).settleWith x) := by
  rw [he.st, get?_insert_self]

theorem attempts_of_ne (hi : i ≠ id) : fx'.st.attempts.get? i = fx2.st.attempts.get? i := by
  rw [he.st]
  exact get?_insert_of_ne _ _ (Ne.symm hi)

/-- Another attempt is left alone, or readied by the pass. -/
theorem elsewhere (hi : i ≠ id) : fx'.st.attempts.get? i = fx.st.attempts.get? i ∨
    ∃ b, fx.st.attempts.get? i = some b ∧ b.attempt.state = .accruing ∧
      fx'.st.attempts.get? i = some b.readied := by
  have hget1 : fx1.st.attempts.get? i = fx.st.attempts.get? i := by
    rw [he.st1]
    exact get?_insert_of_ne _ _ (Ne.symm hi)
  rw [he.attempts_of_ne hi, ← hget1]
  exact he.pledged.attempts i

theorem allocations : fx'.st.allocations = fx2.st.allocations := by rw [he.st]

theorem allocations_of_ne (hal : al ≠ a.attempt.allocation) :
    fx1.st.allocations.get? al = fx.st.allocations.get? al := by
  rw [he.st1]
  exact get?_insert_of_ne _ _ (Ne.symm hal)

theorem heldOn (n : NodeId) (d : Dim) : holdOf n d r + fx1.st.heldOn n d = fx.st.heldOn n d :=
  heldOn_freed he.allocation (by rw [he.st1]) n d

/-- Another allocation is left alone, or funded by the pass. -/
theorem survives (hal : al ≠ a.attempt.allocation) (hq : fx.st.allocations.get? al = some q) :
    ∃ q', fx'.st.allocations.get? al = some q' ∧ q.Served q' := by
  rw [he.allocations]
  rcases he.pledged.allocations al with e | ⟨q1, q', hq1, hq', hacc1, hsame, hst⟩
  · exact ⟨q, e.trans ((he.allocations_of_ne hal).trans hq), .refl q, .inl rfl⟩
  · rw [he.allocations_of_ne hal, hq] at hq1
    cases hq1
    exact ⟨q', hq', hsame, .inr ⟨hacc1, hst⟩⟩

end Ending

end

/-- What ending a live attempt does to the jobs, and to the other attempts. -/
theorem Books.terminateAttempt_elsewhere (h : Books fx) (ha : fx.st.attempts.get? id = some a)
    (hlive : a.attempt.state.isTerminal = false) :
    (fx.terminateAttempt id outcome rt at_ pledge).st.jobs =
        fx.st.jobs.modify a.attempt.job (JobRecord.resolve outcome at_) ∧
      ∀ i, i ≠ id →
        (fx.terminateAttempt id outcome rt at_ pledge).st.attempts.get? i = fx.st.attempts.get? i ∨
          ∃ b, fx.st.attempts.get? i = some b ∧ b.attempt.state = .accruing ∧
            (fx.terminateAttempt id outcome rt at_ pledge).st.attempts.get? i = some b.readied := by
  obtain ⟨r, fx1, fx2, x, he⟩ := h.ends outcome rt at_ pledge ha hlive
  exact ⟨by rw [he.st], fun _ => he.elsewhere⟩

/-- Ending a live attempt keeps the invariant, as long as its node is pledged
    afterwards or was not asked to conserve. -/
theorem Sound.terminateAttempt (h : Sound skip fx) (ha : fx.st.attempts.get? id = some a)
    (hlive : a.attempt.state.isTerminal = false) (hpledge : a.attempt.node ∉ skip → pledge = true) :
    Sound skip (fx.terminateAttempt id outcome rt at_ pledge) ∧
      Settles fx.st (fx.terminateAttempt id outcome rt at_ pledge).st ∧
      ∃ a', (fx.terminateAttempt id outcome rt at_ pledge).st.attempts.get? id = some a' ∧
        a'.attempt.state = .terminal outcome := by
  obtain ⟨r, fx1, fx2, x, he⟩ := h.books.ends outcome rt at_ pledge ha hlive
  generalize fx.terminateAttempt id outcome rt at_ pledge = fx' at *
  obtain ⟨hB2, -, hS2, hC2⟩ := he.books1.pledgeIf pledge r.allocation.node
  rw [← he.second] at hB2 hS2 hC2
  have hend := (a.endWith outcome at_).settleWith_attempt x
  have hover : ((a.endWith outcome at_).settleWith x).attempt.state = .terminal outcome := by
    rw [hend.1]
    rfl
  -- the tail annotates the attempt and rewrites quotas and the job
  have hatt3 : OrdMap.Rel (fun a a' => a'.attempt = a.attempt ∧ a'.group = a.group)
      fx2.st.attempts fx'.st.attempts := by
    rw [he.st]
    exact .of_insert (fun _ => ⟨rfl, rfl⟩) he.ended hend
  have hnodes3 : fx'.st.nodes = fx2.st.nodes := by rw [he.st]
  have hjobs3 : fx'.st.jobs = fx.st.jobs.modify a.attempt.job (resolve outcome at_) := by
    rw [he.st]
  have hS3 : Settles fx2.st fx'.st := by
    refine ⟨.of_eq he.allocations, hnodes3, by rw [he.st], by rw [he.st], ?_,
      .of_eq .refl he.allocations, ?_⟩
    · exact hatt3.mono fun ⟨e, g⟩ =>
        ⟨⟨by rw [e], by rw [e], by rw [e], by rw [e], g⟩, by rw [e]; exact fun ht => ht⟩
    · rw [hjobs3, he.pledged.jobs, he.st1]
      exact .of_modify .refl _ fun j _ => ⟨resolve_attempts outcome at_ j,
        fun x hx => absurd hx (resolve_state outcome at_ j x)⟩
  have hS := he.settles1.trans (hS2.trans hS3)
  refine ⟨⟨hB2.annotate hatt3 he.allocations (by rw [he.st]) (by rw [he.st]) hnodes3 he.used, ?_,
    ?_⟩, hS, _, he.self, hover⟩
  · refine h.jobs.ended (resolve outcome at_) ha hlive hjobs3
      (resolve_attempts outcome at_) (resolve_state outcome at_)
      (hS.advances.attempts.mono fun h => h.same.job) ?_ ?_
    · intro c hc
      rw [he.self] at hc
      cases hc
      rw [hover]
      rfl
    · intro i c c' hi hc hc'
      rcases he.elsewhere hi with e | ⟨b, hb, hacc, e⟩
      · rw [hc', hc] at e
        cases e
        rfl
      · rw [hc] at hb
        cases hb
        rw [hc'] at e
        cases e
        rw [hacc]
        rfl
  · intro n hn
    refine ConservedOn.congr (hC2 n ?_ ?_) he.allocations (capacityOf_congr hnodes3 n)
    · exact fun hne => he.conserved1 n hne (h.conserved n hn)
    · rintro rfl
      exact hpledge (he.ties.node ▸ hn)

end

end Coppice.State
