/-
  Coppice.State.Heeded

  What each command signals.  Every command but two leaves the abort flags
  alone and signals what its events say; `AbortJob` sets one flag and asks a
  dispatched attempt to stop, and an eviction only forgets.
-/

import Coppice.State.Screening
import Coppice.State.Signals

namespace Coppice.State

open Lib Coppice.Core OrdMap Effects StateMachine List

/-! ## Commands -/

/-- An accepted command signals what its events say. -/
def Heeded (s : StateMachine) (out : Reply) : Prop :=
  ∀ x, out.2 = .ok x → Signals s x.events out.1

namespace Heeded

variable {s s' : StateMachine}

theorem reject (r : RejectionReason) : Heeded s (s.reject r) := by
  rintro x ⟨⟩

theorem finish {fx : Effects} (h : Signalled (start s) fx) : Heeded s fx.finish := by
  rintro x ⟨⟩
  obtain ⟨evs, hevs, hs⟩ := h
  have hsame : fx.events = evs := hevs
  rw [hsame]
  exact hs

theorem same {evs : List Event} (hj : s'.jobs = s.jobs) (ha : s'.attempts = s.attempts)
    (hm : ∀ e ∈ evs, e.Mute) : Heeded s (s', .ok ⟨evs⟩) := by
  rintro x ⟨⟩
  exact .mute hm (fun id => by rw [owedTo, ha, owedTo])
    (fun j => by rw [abortOf, hj, abortOf])

theorem done (hj : s'.jobs = s.jobs) (ha : s'.attempts = s.attempts) : Heeded s s'.done :=
  same hj ha (by simp)

end Heeded

namespace StateMachine

variable {s : StateMachine} {r : JobRecord} {c : RecordAttemptNotified} {next : Preemption}
  {a : AttemptRecord} {out : Reply} {job : JobId} {fx : Effects} {id : AttemptId}

theorem submitted_heeded {c : SubmitJob} (hnone : s.jobs.get? c.job.id = none)
    (hnew : r.Submitted c) : Heeded s ({ s with jobs := s.jobs.insert c.job.id r },
      .ok ⟨submitEvents c.job.id⟩) := by
  rintro x ⟨⟩
  refine .mute (by simp [submitEvents, Event.Mute]) (fun _ => rfl) fun j => ?_
  show ((s.jobs.insert c.job.id r).get? j).bind _ = (s.jobs.get? j).bind _
  rw [get?_insert]
  split
  · next hj =>
      rw [← hj, hnone]
      exact hnew.clear
  · rfl

/-- A mark leaves the preemption acknowledged. -/
theorem notifiedPreemption_acknowledged {prior : Option Preemption}
    (h : notifiedPreemption prior c = some next) : next.acknowledged ≠ none := by
  unfold notifiedPreemption at h
  simp only at h
  split at h
  · cases h
    simp
  · split at h
    · cases h
      simp
    · split_ifs at h
      cases h
      simp

theorem notified_heeded (hnext : notifiedPreemption a.preemption c = some next) :
    Heeded s (s.notifying c a next).finish := by
  rintro x ⟨⟩
  refine ⟨fun id => ?_, fun _ => rfl, by simp [emit, start,
    modifyAttempt], by simp [emit, start, modifyAttempt]⟩
  show ((s.attempts.modify c.attempt _).get? id).bind _ =
    Event.owing id ((s.attempts.get? id).bind _)
      (.attemptNotified c.attempt a.attempt.job a.attempt.node)
  rw [get?_modify]
  simp only [Event.owing]
  split
  · next hid =>
      simp [AttemptRecord.owed, notifiedPreemption_acknowledged hnext]
  · rfl

theorem registerNode_heeded (c : RegisterNode) :
    Heeded s ((s.registering c).pledgeNode c.node).finish := by
  have hstart : Signalled (start s) (s.registering c) :=
    ⟨_, rfl, .mute (by simp [Event.Mute])
      (fun _ => rfl) fun _ => rfl⟩
  exact .finish (hstart.trans (pledgeNode_progressed _ c.node).signalled)

theorem declareNodeLost_heeded (c : DeclareNodeLost) (n : NodeRecord) :
    Heeded s (s.losses c n).finish := by
  have hstart : Signalled (start s) (s.losing c n) :=
    ⟨_, rfl, .mute (by simp [Event.Mute])
      (fun _ => rfl) fun _ => rfl⟩
  exact .finish (hstart.trans
    (Progressed.foldl _ (loseNodeAttempt_progressed c.declaredAt) _).signalled)

/-! ### Batches -/

theorem commitPlacements_heeded (h : Consistent s) {c : CommitPlacements}
    (hitems : (s.screen c).items = []) : Heeded s (s.committing c).finish := by
  have hempty := isEmpty_iff.mpr hitems
  have hok : BatchOk s c := batchOk_of_items hempty
  obtain ⟨sc, -, hscreens⟩ := screens_of_items (s := s) (c := c) hempty
  obtain ⟨evs, hevs, hs⟩ := (revocations_progressed s c).signalled.trans
    ((hok.trail h).signalled hscreens.scheduled)
  exact .finish ⟨evs, hevs, hs⟩

/-! ### Everything else -/

/-- What a renewal writes of an attempt is its charge. -/
theorem renewOne_owedTo (at_ : Timestamp) (s : StateMachine) (r : IntervalRenewal)
    (id : AttemptId) : (renewOne at_ s r).owedTo id = s.owedTo id := by
  have hcharge {f : AttemptRecord → AttemptRecord} (hf : (∀ a, (f a).owed = a.owed)) :
      ((s.attempts.modify r.attempt f).get? id).bind AttemptRecord.owed = s.owedTo id := by
    rw [get?_modify]
    split
    · simp only [owedTo]
      cases s.attempts.get? id with
      | none => rfl
      | some a => exact hf a
    · rfl
  unfold renewOne
  split
  · rfl
  · split_ifs
    · rfl
    · split
      · simp only
        split_ifs
        · rfl
        · rfl
        · split
          · exact hcharge fun _ => rfl
          · simp only [owedTo, chargeAncestors, (walkAncestors_work _ _ _ _).1]
            exact hcharge fun _ => rfl
      · rfl

theorem renewAll_heeded (at_ : Timestamp) (l : List IntervalRenewal) :
    Heeded s (l.foldl (renewOne at_) s).done := by
  have howed id := foldl_keeps (p := (owedTo · id)) (renewOne_owedTo at_ · · id) l s
  rintro x ⟨⟩
  refine .mute (by simp) howed fun j => ?_
  exact congrArg (fun jobs : OrdMap JobId JobRecord =>
    (jobs.get? j).bind fun r => r.spec.abortRequested) (renewAll_aside at_ l).jobs

theorem Bystands.heeded {c : Command} (h : Bystands c s out) : Heeded s out := by
  intro x hx
  refine .mute (fun e he => ?_) (fun id => by rw [owedTo, h.attempts, owedTo])
    (fun j => by rw [abortOf, h.jobs, abortOf])
  have hsetting := h.events x hx e he
  cases e <;> first | exact False.elim hsetting | trivial

/-- Every command but an abort and an eviction. -/
theorem Step.heeded {c : Command} (hstep : Step s c out) (h : Consistent s)
    (habort : ∀ b, c ≠ .abortJob b) (hevict : ∀ b, c ≠ .evictTerminalJobs b) : Heeded s out := by
  cases hstep with
  | reject c r => exact .reject r
  | noop | setDrain | setDraining => exact .done rfl rfl
  | submit hnew hr => exact submitted_heeded hnew hr
  | abortIdle | abortUndispatched | abortDispatched | abortEnding => exact absurd rfl (habort _)
  | @metadata c =>
    refine .finish (Signalled.trans (.modifyJob _ c.job ?_) (.emit _ ?_))
    · exact fun _ => rfl
    · trivial
  | commit hitems => exact commitPlacements_heeded h hitems
  | dispatchAttempt | exited =>
    exact .finish ((start s).attemptTransition_progressed _ _).signalled
  | started => exact .finish ((start s).markAttemptRunning_progressed _ _).signalled
  | outcome => exact .finish ((start s).terminateAttempt_progressed _ _ _ _ _).signalled
  | notified _ _ hnext => exact notified_heeded hnext
  | @reconcile c => exact .finish (reconcile_progressed s c).signalled
  | register c => exact registerNode_heeded c
  | lost => exact declareNodeLost_heeded _ _
  | evictJobs => exact absurd rfl (hevict _)
  | evictNodes => exact (evictNodes_bystands _).heeded
  | renew => exact renewAll_heeded _ _
  | setting _ hset hevs => exact (Bystands.of_setting hset hevs).heeded

/-! ### Aborts -/

/-- An accepted abort: the flag of the job is set, and a dispatched attempt of it is asked to
    stop. -/
structure Aborts (s : StateMachine) (job : JobId) (evs : List Event) (s' : StateMachine) :
    Prop where
  present : ∀ id, s'.attempts.get? id = none ↔ s.attempts.get? id = none
  owed : ∀ id, s'.owedTo id = owing id evs (s.owedTo id)
  flags : ∀ j, j ≠ job → s'.abortOf j = s.abortOf j
  flagged : ∃ q, s'.abortOf job = some q
  reasons : ∀ i al j n reason notice, Event.preemptRequested i al j n reason notice ∈ evs →
    Scheduled reason
  /-- whoever is asked to stop is the job's attempt -/
  stops : ∀ n al j, Event.stopRequested n al j ∈ evs →
    ∃ id a, s.attempts.get? id = some a ∧ a.attempt.job = job ∧ a.attempt.allocation = al ∧
      a.attempt.state.isTerminal = false
  /-- a dispatched attempt of the job is asked -/
  asked : ∀ id a, s'.attempts.get? id = some a → a.attempt.job = job →
    a.attempt.state = .dispatching ∨ a.attempt.state = .running →
    ∃ n j, Event.stopRequested n a.attempt.allocation j ∈ evs

theorem abortOf_abortFlagged (hr : s.jobs.get? job = some r) (q : AbortRequest) :
    (∀ j, j ≠ job → (s.abortFlagged job q).abortOf j = s.abortOf j) ∧
      ∃ q', (s.abortFlagged job q).abortOf job = some q' := by
  constructor
  · intro j hj
    show ((s.jobs.modify job _).get? j).bind _ = _
    rw [get?_modify_of_ne _ _ (Ne.symm hj)]
    rfl
  · show ∃ q', ((s.jobs.modify job _).get? job).bind _ = some q'
    rw [get?_modify_self, hr]
    show ∃ q', (r.requestAbort q).spec.abortRequested = some q'
    unfold JobRecord.requestAbort
    split
    · exact ⟨q, rfl⟩
    · next hsome => exact Option.ne_none_iff_exists'.mp (by simpa using hsome)

/-- An abort that asks nobody: no attempt of the job is left that could be asked. -/
theorem Aborts.unasked (hr : s.jobs.get? job = some r) (q : AbortRequest)
    (hfx : Signalled (start (s.abortFlagged job q)) fx)
    (hpresent : ∀ id, fx.st.attempts.get? id = none ↔ s.attempts.get? id = none)
    (hnone : ∀ id a, fx.st.attempts.get? id = some a → a.attempt.job = job →
      ¬(a.attempt.state = .dispatching ∨ a.attempt.state = .running)) :
    Aborts s job fx.events fx.st := by
  obtain ⟨hflags, q', hq'⟩ := abortOf_abortFlagged hr q
  obtain ⟨evs, hevs, hs⟩ := hfx
  have hsame : fx.events = evs := hevs
  rw [hsame]
  exact {
    present := hpresent
    owed := hs.owed
    flags := fun j hj => (hs.flags j).trans (hflags j hj)
    flagged := ⟨q', (hs.flags job).trans hq'⟩
    reasons := hs.reasons
    stops := fun n al j hmem => absurd hmem (hs.stops n al j)
    asked := fun id a ha hjob hst => absurd hst (hnone id a ha hjob) }

theorem not_terminal_of_dispatched {x : AttemptState} (h : x = .dispatching ∨ x = .running) :
    x.isTerminal = false := by
  rcases h with rfl | rfl <;> rfl

/-- An undispatched attempt ends with the abort. -/
theorem abortUndispatched_aborts (h : Consistent s) (hl : Lived ∅ s) (q : AbortRequest)
    (at_ : Timestamp) (hr : s.jobs.get? job = some r) (hst : r.state = .attempting id) :
    Aborts s job ((start (s.abortFlagged job q)).terminateAttempt id .aborted
      Duration.zero at_ true).events ((start (s.abortFlagged job q)).terminateAttempt id
        .aborted Duration.zero at_ true).st := by
  obtain ⟨hl1, -⟩ := abortFlagged_told hl q hr (by simp [hst])
  obtain ⟨a, ha, rfl, hlive⟩ := h.jobs.attempting hr hst
  have hS1 := (abortFlagged_consistent h a.attempt.job q).sound ∅ []
  obtain ⟨hS2, hset, -⟩ := hS1.terminateAttempt .aborted Duration.zero at_ true ha hlive
    (fun _ => rfl)
  obtain ⟨-, -, j, -, -, hjobs⟩ := Sound.terminateAttempt_told .aborted Duration.zero at_ true hS1
    hl1 ha hlive
  refine .unasked hr q (terminateAttempt_progressed _ _ _ _ _ _).signalled
    (fun i => hset.advances.attempts.none_iff) fun i b hb hjob hst' => ?_
  -- the job is over, so it has no live attempt
  obtain ⟨rec_, hrec, hattempting, -⟩ := hS2.jobs.current hb (not_terminal_of_dispatched hst')
  rw [hjobs, hjob, get?_insert_self] at hrec
  cases hrec
  exact j.resolve_state .aborted at_ i hattempting

/-- A dispatched attempt is asked to stop. -/
theorem abortDispatched_aborts (h : Consistent s) (q : AbortRequest) (hr : s.jobs.get? job = some r)
    (ha : s.attempts.get? id = some a) (hlive : a.attempt.state.isTerminal = false)
    (hjob : a.attempt.job = job) :
    Aborts s job [.stopRequested a.attempt.node a.attempt.allocation a.attempt.job]
      (s.abortFlagged job q) := by
  obtain ⟨hflags, hflag⟩ := abortOf_abortFlagged hr q
  refine ⟨fun _ => .rfl, fun _ => rfl, hflags, hflag, by simp, fun n al j hmem => ?_,
    fun i b hb hbjob hbst => ?_⟩
  · cases mem_singleton.mp hmem
    exact ⟨id, a, ha, hjob, rfl, hlive⟩
  · have hb' : s.attempts.get? i = some b := hb
    have hsame : i = id := h.linked.one_live hb' ha (not_terminal_of_dispatched hbst) hlive
      (hbjob.trans hjob.symm)
    rw [hsame, ha] at hb'
    cases hb'
    exact ⟨_, _, mem_singleton.mpr rfl⟩

/-- What an accepted abort does. -/
def Asks (s : StateMachine) (job : JobId) (out : Reply) : Prop :=
  ∀ x, out.2 = .ok x → Aborts s job x.events out.1

theorem Step.asks {c : AbortJob} (hstep : Step s (.abortJob c) out) (h : Consistent s)
    (hl : Lived ∅ s) : Asks s c.job out := by
  cases hstep with
  | reject => rintro x ⟨⟩
  | noop hc => cases hc
  | setting hkind => cases hkind
  | abortIdle hab hidle =>
    rintro x ⟨⟩
    refine .unasked hab.job _ (jobTerminalTransition_progressed _ _ _ _).signalled
      (fun i => by rw [jobTerminalTransition_st]; exact .rfl)
      fun i b hb hjob hbst => ?_
    -- a job that is not attempting has no live attempt
    rw [jobTerminalTransition_st] at hb
    obtain ⟨rec_, hrec, hattempting, -⟩ := h.jobs.current hb (not_terminal_of_dispatched hbst)
    rw [hjob, hab.job] at hrec
    cases hrec
    exact hidle i hattempting
  | abortUndispatched hab hst =>
    rintro x ⟨⟩
    exact abortUndispatched_aborts h hl _ _ hab.job hst
  | abortDispatched hab hst ha hout =>
    rintro x ⟨⟩
    obtain ⟨a, ha', hjob, hlive⟩ := h.jobs.attempting hab.job hst
    rw [ha] at ha'
    cases ha'
    exact abortDispatched_aborts h _ hab.job ha hlive hjob
  | @abortEnding _ _ id hab hst hend =>
    rintro x ⟨⟩
    refine .unasked hab.job _ (.refl _) (fun _ => .rfl) fun i b hb hbjob hbst => ?_
    obtain ⟨a, ha, hjob, hlive⟩ := h.jobs.attempting hab.job hst
    have hb' : s.attempts.get? i = some b := hb
    have hsame : i = id := h.linked.one_live hb' ha (not_terminal_of_dispatched hbst) hlive
      (hbjob.trans hjob.symm)
    rcases hend b (hsame ▸ hb') with e | e <;>
      rcases hbst with e' | e' <;> simp [e', AttemptState.isTerminal] at e

/-! ### Evictions -/

theorem evictJobs_mute (l : List JobId) (h : ∀ e ∈ fx.events, e.Mute) :
    ∀ e ∈ (l.foldl evictJob fx).events, e.Mute := by
  refine foldlRecOn (motive := fun fx => ∀ e ∈ fx.events, e.Mute) l evictJob h
    fun fx h job _ e he => ?_
  unfold evictJob at he
  split at he
  · exact h e he
  · rcases mem_append.mp he with he | he
    · exact h e he
    · cases mem_singleton.mp he
      trivial

end StateMachine

/-! ## Every command -/

/-- What one command of a run signals. -/
inductive StepSignals (s : StateMachine) (c : Command) : Prop where
  | heeded : Signals s (s.eventsOf c) (s.apply c).1 → StepSignals s c
  | swept : (∀ e ∈ s.eventsOf c, e.Mute) →
      (∀ j, (s.apply c).1.jobs.get? j = s.jobs.get? j ∨ (s.apply c).1.jobs.get? j = none) →
      (∀ id, (s.apply c).1.attempts.get? id = s.attempts.get? id ∨
        (s.apply c).1.attempts.get? id = none) → StepSignals s c
  | aborts {b : AbortJob} : c = .abortJob b →
      Aborts s b.job (s.eventsOf c) (s.apply c).1 → StepSignals s c

theorem Reachable.signals (h : Reachable s) (c : Command) : StepSignals s c := by
  have hC := h.consistent
  cases hres : (s.apply c).2 with
  | error e =>
    have hevs : s.eventsOf c = [] := by simp [eventsOf, hres]
    obtain ⟨hj, ha⟩ := rejected_same hres
    refine .heeded ?_
    rw [hevs]
    exact .mute (by simp) (fun id => by rw [owedTo, ha, owedTo])
      fun j => by rw [abortOf, hj, abortOf]
  | ok x =>
    have hevs : s.eventsOf c = x.events := by simp [eventsOf, hres]
    have hres' : (s.dispatch c).2 = .ok x := hres
    by_cases habort : ∃ b, c = .abortJob b
    · obtain ⟨b, rfl⟩ := habort
      have ha := (s.dispatch_step (.abortJob b)).asks hC h.lived x hres'
      refine .aborts rfl ?_
      rw [hevs]
      exact ⟨ha.present, ha.owed, ha.flags, ha.flagged, ha.reasons, ha.stops, ha.asked⟩
    · by_cases hevict : ∃ b, c = .evictTerminalJobs b
      · obtain ⟨b, rfl⟩ := hevict
        have hstep := s.dispatch_step (.evictTerminalJobs b)
        have hjobs : (s.apply (.evictTerminalJobs b)).1.jobs =
            (s.dispatch (.evictTerminalJobs b)).1.jobs := rfl
        have hattempts : (s.apply (.evictTerminalJobs b)).1.attempts =
            (s.dispatch (.evictTerminalJobs b)).1.attempts := rfl
        revert hjobs hattempts
        generalize s.dispatch (.evictTerminalJobs b) = out at hstep hres'
        intro hjobs hattempts
        cases hstep with
        | reject => cases hres'
        | noop hc => cases hc
        | setting hkind => cases hkind
        | evictJobs hterm =>
          cases hres'
          have hsweeps := evictJobs_sweeps hterm
          refine .swept ?_ (fun j => ?_) fun id => ?_
          · rw [hevs]
            exact evictJobs_mute b.jobs (by simp [start])
          · rw [hjobs]
            exact (hsweeps.jobs j).imp_right fun hnone => hnone.1
          · rw [hattempts]
            exact hsweeps.attempts id
      · have hs := (s.dispatch_step c).heeded hC (fun b hb => habort ⟨b, hb⟩)
          (fun b hb => hevict ⟨b, hb⟩) x hres'
        refine .heeded ?_
        rw [hevs]
        exact ⟨hs.owed, hs.flags, hs.stops, hs.reasons⟩

end Coppice.State
