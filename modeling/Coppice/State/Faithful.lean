/-
  Coppice.State.Faithful

  The events of an accepted command are a faithful trace: they lead along legal
  edges from the states before it to those after it, and an allocation is reported
  funded exactly when it becomes funded.
-/

import Coppice.State.History

namespace Coppice.State

open Lib Coppice.Core StateMachine AttemptState

/-! ## Stamps along runs -/

variable {s : StateMachine}

theorem Lived.version (h : Lived ∅ s) (v : UInt64) : Lived ∅ { s with version := v } :=
  ⟨h.jobs, h.attempts, h.aborts⟩

theorem StateMachine.default_lived : Lived ∅ default := by
  refine ⟨?_, ?_, ?_⟩ <;> simp [default]

theorem Reachable.lived (h : Reachable s) : Lived ∅ s := by
  have hboth : Consistent s ∧ Lived ∅ s := by
    refine Reach.invariant (fun s => Consistent s ∧ Lived ∅ s)
      ⟨default_consistent, default_lived⟩ ?_ h
    intro s c hs _
    exact ⟨(apply_consistent hs.1 c).1, ((s.dispatch_step c).chronicled hs.1 hs.2).lived.version _⟩
  exact hboth.2

theorem Reachable.apply (h : Reachable s) (c : Command) : Reachable (s.apply c).1 :=
  Reach.step (a := c) h trivial

/-- The version counter is no part of a job's history. -/
theorem JobHistory.version (h : JobHistory s r steps r') (v : UInt64) :
    JobHistory { s with version := v } r steps r' := by
  cases h with
  | told h =>
    cases h with
    | absent => exact .told .absent
    | goes h => exact .told (.goes ⟨h.trail, h.ages, h.ended, h.retries, h.unqueued⟩)
  | submitted h he => exact .submitted h he
  | evicted h => exact .evicted h

/-- An accepted command's events tell its history. -/
theorem Reachable.history (h : Reachable s) {c : Command} {x : Applied} (hx : (s.apply c).2 = .ok x)
    : History s x.events (s.apply c).1 := by
  obtain ⟨hj, ha, hf⟩ := ((s.dispatch_step c).chronicled h.consistent h.lived).history x hx
  refine ⟨fun j => (hj j).version _, ?_, hf.ready, hf.absent⟩
  cases ha with
  | told ha => exact .told ha
  | swept hnil ha => exact .swept hnil ha

/-! ## Faithful traces -/

/-- The state of a job before the command; a job yet to come is `Submitted`. -/
def StateMachine.jobBefore (s : StateMachine) (job : JobId) : JobState :=
  match s.jobs.get? job with
  | none => .submitted
  | some r => r.state

/-- The states lead on from `x` to `y`, each along a legal edge. -/
def AttemptChain (x : AttemptState) (states : List AttemptState) (y : AttemptState) : Prop :=
  ∃ steps, states = steps.map Prod.snd ∧ Trail (fun x y => x.mayTransitionTo y = true) x steps y

/-- The allocation was accruing before the command, if it was there, and after it has
    its funds, or was released again once its attempt had become ready. -/
structure BecomesFunded (s : StateMachine) (evs : List Event) (al : AllocationId)
    (r' : AllocationRecord) : Prop where
  before : ∀ r, s.allocations.get? al = some r → r.allocation.state = .accruing
  after : r'.allocation.state = .funded ∨ r'.allocation.state = .active ∨
    r'.allocation.state = .released ∧ .ready ∈ attemptSteps r'.allocation.attempt evs

/-- The events `evs` are a faithful trace of what happened between two states. -/
structure Faithful (s : StateMachine) (evs : List Event) (s' : StateMachine) : Prop where
  job : ∀ {j r'}, s'.jobs.get? j = some r' →
    Trail (fun x y => x.mayTransitionTo y = true) (s.jobBefore j) (jobSteps j evs) r'.state
  jobGone : ∀ {j}, s'.jobs.get? j = none → jobSteps j evs = []
  jobDiffers : ∀ {j r'}, s'.jobs.get? j = some r' →
    (∀ r, s.jobs.get? j = some r → r.state ≠ r'.state) → jobSteps j evs ≠ []
  attempt : ∀ {id a a'}, s.attempts.get? id = some a → s'.attempts.get? id = some a' →
    AttemptChain a.attempt.state (attemptSteps id evs) a'.attempt.state
  attemptPlaced : ∀ {id a'}, s.attempts.get? id = none → s'.attempts.get? id = some a' →
    ∃ x states, (x = .accruing ∨ x = .ready) ∧ attemptSteps id evs = x :: states ∧
      AttemptChain x states a'.attempt.state
  attemptGone : ∀ {id}, s'.attempts.get? id = none → attemptSteps id evs = []
  attemptDiffers : ∀ {id a'}, s'.attempts.get? id = some a' →
    (∀ a, s.attempts.get? id = some a → a.attempt.state ≠ a'.attempt.state) →
    attemptSteps id evs ≠ []
  funded : ∀ {al r'}, s'.allocations.get? al = some r' →
    fundings al evs ≤ 1 ∧ (0 < fundings al evs ↔ BecomesFunded s evs al r')
  fundedGone : ∀ {al}, s'.allocations.get? al = none → fundings al evs = 0

/-- Ready is entered from Accruing only. -/
theorem AttemptState.ready_from {x : AttemptState} (h : x.mayTransitionTo .ready = true) :
    x = .accruing := by
  cases x <;> simp_all [mayTransitionTo, isTerminal]

/-- Accruing is not entered from another state. -/
theorem AttemptState.accruing_from (x : AttemptState) : ¬(x.mayTransitionTo .accruing = true) := by
  cases x <;> simp [mayTransitionTo, isTerminal]

namespace AttemptChain

variable {x y : AttemptState} {states : List AttemptState}

theorem count_ready_le (h : AttemptChain x states y) : states.count .ready ≤ 1 := by
  obtain ⟨steps, rfl, ht⟩ := h
  exact ht.count_le_one (fun _ => ready_from) accruing_from

theorem start_of_ready (h : AttemptChain x states y) (hr : .ready ∈ states) : x = .accruing := by
  obtain ⟨steps, rfl, ht⟩ := h
  exact ht.start_of_mem (fun _ => ready_from) accruing_from hr

/-- A chain from Accruing that has moved on and not ended passed Ready. -/
theorem passes_ready (h : AttemptChain .accruing states y) (hne : y ≠ .accruing)
    (hlive : y.isTerminal = false) : .ready ∈ states := by
  obtain ⟨steps, rfl, ht⟩ := h
  cases ht with
  | nil _ => exact absurd rfl hne
  | @cons _ m _ rest hr hrest =>
    cases m with
    | ready => simp
    | terminal o =>
      obtain ⟨-, rfl⟩ := hrest.stuck (terminal_stuck o)
      cases hlive
    | _ => cases hr

/-- A chain into an accruing state has not moved. -/
theorem of_accruing (h : AttemptChain x states .accruing) : states = [] ∧ x = .accruing := by
  obtain ⟨steps, rfl, ht⟩ := h
  obtain ⟨rfl, hx⟩ := ht.unentered accruing_from
  exact ⟨rfl, hx⟩

end AttemptChain

variable {a a' : AttemptRecord} {states : List AttemptState}

theorem AttemptLife.chain (h : AttemptLife a states a') :
    AttemptChain a.attempt.state states a'.attempt.state :=
  h.trail

/-- With its attempt's chain, what an allocation's state says of Ready. -/
theorem becomesFunded_after (h : AttemptChain x states y) (hstep : InStep y st)
    (hx : x = .accruing) :
    .ready ∈ states ↔ st = .funded ∨ st = .active ∨ st = .released ∧ .ready ∈ states := by
  subst hx
  have hst := hstep.eq_allocationStateOf
  subst hst
  cases y with
  | accruing => simp [allocationStateOf, h.of_accruing.1]
  | ready => simp [allocationStateOf, h.passes_ready (by simp) rfl]
  | dispatching => simp [allocationStateOf, h.passes_ready (by simp) rfl]
  | running => simp [allocationStateOf, h.passes_ready (by simp) rfl]
  | finalizing => simp [allocationStateOf, h.passes_ready (by simp) rfl]
  | terminal o => simp [allocationStateOf]

/-! ## Funding -/

variable {evs : List Event} {r' : AllocationRecord}

/-- An allocation whose attempt lives on through the command. -/
theorem becomesFunded_goes {id : AttemptId} (hC : Consistent s) (ha : s.attempts.get? id = some a)
    (hown : r'.allocation.attempt = id) (hlife : AttemptLife a (attemptSteps id evs) a')
    (hstep : InStep a'.attempt.state r'.allocation.state) :
    .ready ∈ attemptSteps id evs ↔ BecomesFunded s evs a.attempt.allocation r' := by
  obtain ⟨r, hr, ht⟩ := hC.linked.allocation_of ha
  have hacc := (ht.step (by simp)).accruing_iff
  constructor
  · intro hmem
    have hst := hlife.chain.start_of_ready hmem
    refine ⟨fun q hq => ?_, ?_⟩
    · rw [hr] at hq
      cases hq
      exact hacc.mp hst
    · rw [hown]
      exact (becomesFunded_after hlife.chain hstep hst).mp hmem
  · rintro ⟨hbefore, hafter⟩
    rw [hown] at hafter
    exact (becomesFunded_after hlife.chain hstep (hacc.mpr (hbefore r hr))).mpr hafter

/-- An allocation placed by the command. -/
theorem becomesFunded_placed {id : AttemptId} {al : AllocationId}
    (hal : s.allocations.get? al = none) (hown : r'.allocation.attempt = id)
    (hst : a.attempt.state = .accruing ∨ a.attempt.state = .ready)
    (hsteps : attemptSteps id evs = a.attempt.state :: states) (hlife : AttemptLife a states a')
    (hstep : InStep a'.attempt.state r'.allocation.state) :
    .ready ∈ attemptSteps id evs ↔ BecomesFunded s evs al r' := by
  have hbefore : ∀ r, s.allocations.get? al = some r → r.allocation.state = .accruing := by
    simp [hal]
  have hafter : .ready ∈ attemptSteps id evs ↔ r'.allocation.state = .funded ∨
      r'.allocation.state = .active ∨
      r'.allocation.state = .released ∧ .ready ∈ attemptSteps id evs := by
    rcases hst with e | e
    · have hmem : .ready ∈ attemptSteps id evs ↔ .ready ∈ states := by
        rw [hsteps, e]
        simp
      rw [hmem]
      exact becomesFunded_after hlife.chain hstep e
    · have hmem : .ready ∈ attemptSteps id evs := by
        rw [hsteps, e]
        simp
      have hne : a'.attempt.state ≠ .accruing := by
        intro hacc
        have hchain := hlife.chain
        rw [hacc] at hchain
        have hacc0 := hchain.of_accruing.2
        rw [e] at hacc0
        cases hacc0
      cases hr' : r'.allocation.state with
      | accruing => exact absurd (hstep.accruing_iff.mpr hr') hne
      | _ => simp [hmem]
  refine ⟨fun hmem => ⟨hbefore, ?_⟩, fun h => hafter.mpr ?_⟩
  · rw [hown]
    exact hafter.mp hmem
  · have := h.after
    rwa [hown] at this

/-- An allocation that is reported funded becomes funded, and the other way round. -/
theorem History.funded (h : History s evs s') (hC : Consistent s) (hC' : Consistent s')
    {al : AllocationId} (hr' : s'.allocations.get? al = some r') :
    fundings al evs ≤ 1 ∧ (0 < fundings al evs ↔ BecomesFunded s evs al r') := by
  obtain ⟨a', ha', hal', ht'⟩ := hC'.linked.tied hr'
  have hstep := ht'.step (by simp)
  rw [h.funds.ready al r' hr', List.count_pos_iff]
  cases h.attempts with
  | told htold =>
    have hid := htold r'.allocation.attempt
    rw [ha'] at hid
    cases ha : s.attempts.get? r'.allocation.attempt with
    | some a =>
      rw [ha] at hid
      cases hid with
      | goes hlife =>
        have hsame : a.attempt.allocation = al := by
          rw [← hlife.ages.same.allocation, hal']
        rw [← hsame]
        exact ⟨hlife.chain.count_ready_le, becomesFunded_goes hC ha rfl hlife hstep⟩
    | none =>
      -- an allocation of that name before would have an attempt, and it would be this one
      have hnone : s.allocations.get? al = none := by
        by_contra hne
        obtain ⟨r, hr⟩ := Option.ne_none_iff_exists'.mp hne
        obtain ⟨b, hb, hbal, -⟩ := hC.linked.tied hr
        have hb' := htold r.allocation.attempt
        rw [hb] at hb'
        generalize attemptSteps r.allocation.attempt evs = states at hb'
        generalize hget : s'.attempts.get? r.allocation.attempt = b' at hb'
        cases hb' with
        | goes hlife =>
          have := hC'.linked.attempt_unique hget ha'
            (by rw [hlife.ages.same.allocation, hbal, hal'])
          rw [this, ha] at hb
          cases hb
      rw [ha] at hid
      generalize hsteps : attemptSteps r'.allocation.attempt evs = all at hid
      cases hid with
      | @placed _ states _ hst hlife =>
        have hiff := becomesFunded_placed hnone rfl hst hsteps hlife hstep
        rw [hsteps] at hiff
        refine ⟨?_, hiff⟩
        have hle := hlife.chain.count_ready_le
        rcases hst with e | e
        · rw [e, List.count_cons_of_ne (by simp)]
          exact hle
        · have hnot : .ready ∉ states := fun hmem => by
            have := hlife.chain.start_of_ready hmem
            rw [e] at this
            cases this
          rw [e, List.count_cons_self, List.count_eq_zero_of_not_mem hnot]
  | swept hnil hsame =>
    rw [hnil]
    refine ⟨by simp, fun hmem => by simp at hmem, fun hb => ?_⟩
    have ha := OrdMap.get?_of_gone (hsame _) ha'
    obtain ⟨r, hr, ht⟩ := hC.linked.allocation_of ha
    rw [hal'] at hr
    have hacc := hstep.accruing_iff.mp ((ht.step (by simp)).accruing_iff.mpr (hb.before r hr))
    have hafter := hb.after
    rw [hacc, hnil] at hafter
    simp at hafter

/-! ## The trace of a command -/

theorem History.faithful (h : History s evs s') (hC : Consistent s) (hC' : Consistent s') :
    Faithful s evs s' where
  job := by
    intro j r' hr'
    have hj := h.jobs j
    rw [hr'] at hj
    unfold jobBefore
    generalize s.jobs.get? j = r at hj
    generalize jobSteps j evs = steps at hj
    cases hj with
    | told hj =>
      cases hj with
      | goes hlife => exact hlife.trail
    | submitted hst =>
      rw [hst]
      exact .cons rfl (.single rfl)
  jobGone := by
    intro j hr'
    have hj := h.jobs j
    rw [hr'] at hj
    generalize s.jobs.get? j = r at hj
    generalize jobSteps j evs = steps at hj
    cases hj with
    | told hj =>
      cases hj
      rfl
    | evicted _ => rfl
  jobDiffers := by
    intro j r' hr' hne
    have hj := h.jobs j
    rw [hr'] at hj
    generalize hr : s.jobs.get? j = r at hj
    generalize jobSteps j evs = steps at hj
    cases hj with
    | told hj =>
      cases hj with
      | goes hlife => exact hlife.trail.ne_nil (hne _ hr)
    | submitted _ => simp
  attempt := by
    intro id a a' ha ha'
    cases h.attempts with
    | told htold =>
      have hid := htold id
      rw [ha, ha'] at hid
      cases hid with
      | goes hlife => exact hlife.chain
    | swept hnil hsame =>
      cases ha.symm.trans (OrdMap.get?_of_gone (hsame id) ha')
      rw [hnil]
      exact ⟨[], rfl, .nil _⟩
  attemptPlaced := by
    intro id a' ha ha'
    cases h.attempts with
    | told htold =>
      have hid := htold id
      rw [ha, ha'] at hid
      generalize attemptSteps id evs = all at hid
      cases hid with
      | placed hst hlife => exact ⟨_, _, hst, rfl, hlife.chain⟩
    | swept hnil hsame =>
      cases ha.symm.trans (OrdMap.get?_of_gone (hsame id) ha')
  attemptGone := by
    intro id ha'
    cases h.attempts with
    | told htold =>
      have hid := htold id
      rw [ha'] at hid
      generalize s.attempts.get? id = a at hid
      generalize attemptSteps id evs = all at hid
      cases hid
      rfl
    | swept hnil _ => exact hnil id
  attemptDiffers := by
    intro id a' ha' hne
    cases h.attempts with
    | told htold =>
      have hid := htold id
      rw [ha'] at hid
      generalize ha : s.attempts.get? id = a at hid
      generalize attemptSteps id evs = all at hid
      cases hid with
      | goes hlife =>
        obtain ⟨steps, rfl, ht⟩ := hlife.chain
        simpa using ht.ne_nil (hne _ ha)
      | placed _ _ => simp
    | swept hnil hsame =>
      exact absurd rfl (hne a' (OrdMap.get?_of_gone (hsame id) ha'))
  funded := h.funded hC hC'
  fundedGone := h.funds.absent _

/-- The events of an accepted command are a faithful trace of what it did. -/
theorem reachable_apply_faithful {s : StateMachine} (h : Reachable s) {c : Command} {x : Applied}
    (hx : (s.apply c).2 = .ok x) : Faithful s x.events (s.apply c).1 :=
  (h.history hx).faithful h.consistent (h.apply c).consistent

/-- Revoke the accruing attempt of the third job and seat the job anew. -/
def Sample.reseat : Command := commit [3] [⟨3, 4, 3, [⟨4, 1, cpu 2⟩], []⟩]

open Sample

/-- A batch that takes a job from one attempt through the queue to the next. -/
theorem reachable_apply_faithful_reseat :
    ∃ x, ((run busy).apply reseat).2 = .ok x ∧
      jobSteps 3 x.events = [(.attempting 3, .queued), (.queued, .attempting 4)] ∧
      fundings 4 x.events = 1 ∧
      Faithful (run busy) x.events
        ((run busy).apply reseat).1 := by
  have heval : ((run busy).apply reseat).2.toOption.map
      (fun x => (jobSteps 3 x.events, fundings 4 x.events)) =
        some ([(.attempting 3, .queued), (.queued, .attempting 4)], 1) := by decide +kernel
  obtain ⟨x, hx, hsteps⟩ := Option.map_eq_some_iff.mp heval
  have hok : ((run busy).apply reseat).2 = .ok x := by
    cases hres : ((run busy).apply reseat).2 with
    | error r => simp [hres, Except.toOption] at hx
    | ok y =>
      rw [hres] at hx
      cases hx
      rfl
  simp only [Prod.mk.injEq] at hsteps
  exact ⟨x, hok, hsteps.1, hsteps.2, reachable_apply_faithful (reachable_run _) hok⟩

end Coppice.State
