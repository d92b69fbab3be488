/-
  Coppice.Coordinator.Resync

  The rescan of the dispatch loop (`coppice-coordinator/src/tasks/dispatch.rs`).  In
  every run in which no id comes back after it was evicted, what it derives from the
  state is exactly what was asked of an agent and not yet answered.
-/

import Coppice.Coordinator.Ingestion
import Coppice.State.Heeded

namespace Coppice.Coordinator

open Lib Coppice.Core State StateMachine OrdMap List AttemptState

/-! ## The rescan -/

/-- The stops a rescan routes. -/
def resyncStops (s : StateMachine) : List (NodeId × AllocationId) :=
  (s.attempts.values.filter (attemptHasPendingAbort s)).map
    fun record => (record.attempt.node, record.attempt.allocation)

/-- The preemptions a rescan routes. -/
def resyncPreempts (s : StateMachine) : List (NodeId × AllocationId × AgentCommand) :=
  s.attempts.values.filterMap fun record =>
    (pendingPreemptCommand s record).map fun command =>
      (record.attempt.node, record.attempt.allocation, command)

/-! ## Runs and what they emit -/

/-- The state after a run from the default state. -/
def stateAfter (cs : List Command) : StateMachine :=
  cs.foldl (fun s c => (s.apply c).1) StateMachine.default

def emittedFrom (s : StateMachine) : List Command → List Event
  | [] => []
  | c :: rest => s.eventsOf c ++ emittedFrom (s.apply c).1 rest

/-- The events of a run, in order. -/
def emitted (cs : List Command) : List Event := emittedFrom StateMachine.default cs

/-- An `AbortJob` of the run asked for the allocation to be stopped. -/
def StopAsked (cs : List Command) (al : AllocationId) : Prop :=
  ∃ pre b n j, pre ++ [.abortJob b] <+: cs ∧
    Event.stopRequested n al j ∈ (stateAfter pre).eventsOf (.abortJob b)

/-- A preemption of the attempt was requested for this reason, and no notice was reported
    since. -/
def RequestedSince (evs : List Event) (id : AttemptId) (reason : PreemptReason) : Prop :=
  ∃ before al j n notice since,
    evs = before ++ .preemptRequested id al j n reason notice :: since ∧
      ∀ job node, Event.attemptNotified id job node ∉ since

/-- A preemption of the attempt was requested, and no notice of it was reported since. -/
def PreemptAsked (cs : List Command) (id : AttemptId) : Prop :=
  ∃ reason, RequestedSince (emitted cs) id reason

/-- No id of an attempt or an allocation comes back after it was evicted. -/
structure NeverReused (cs : List Command) : Prop where
  attempts : ∀ p q r id, p <+: q → q <+: r → r <+: cs → (stateAfter p).attempts.get? id ≠ none →
    (stateAfter q).attempts.get? id = none → (stateAfter r).attempts.get? id = none
  allocations : ∀ p q r al, p <+: q → q <+: r → r <+: cs →
    (stateAfter p).allocations.get? al ≠ none → (stateAfter q).allocations.get? al = none →
    (stateAfter r).allocations.get? al = none

section Runs

variable {cs : List Command} {c : Command} {id : AttemptId} {al : AllocationId} {evs : List Event}
  {reason : PreemptReason} {a a' : AttemptRecord} {s : StateMachine}

theorem reachable_stateAfter (cs : List Command) : Reachable (stateAfter cs) := reachable_run cs

theorem stateAfter_snoc (cs : List Command) (c : Command) :
    stateAfter (cs ++ [c]) = ((stateAfter cs).apply c).1 := by
  rw [stateAfter, foldl_append]
  rfl

theorem emitted_snoc (cs : List Command) (c : Command) :
    emitted (cs ++ [c]) = emitted cs ++ (stateAfter cs).eventsOf c := by
  have hfrom : ∀ s : StateMachine, emittedFrom s (cs ++ [c]) =
      emittedFrom s cs ++ (cs.foldl (fun s c => (s.apply c).1) s).eventsOf c := by
    induction cs with
    | nil =>
      intro s
      simp [emittedFrom]
    | cons d rest ih =>
      intro s
      simp [emittedFrom, ih]
  exact hfrom _

theorem NeverReused.init (h : NeverReused (cs ++ [c])) : NeverReused cs where
  attempts p q r id hpq hqr hr := h.attempts p q r id hpq hqr (hr.trans (prefix_append cs [c]))
  allocations p q r al hpq hqr hr :=
    h.allocations p q r al hpq hqr (hr.trans (prefix_append cs [c]))

theorem stopAsked_snoc : StopAsked (cs ++ [c]) al ↔ StopAsked cs al ∨
    ∃ b n j, c = .abortJob b ∧
      Event.stopRequested n al j ∈ (stateAfter cs).eventsOf (.abortJob b) := by
  constructor
  · rintro ⟨pre, b, n, j, hpre, hmem⟩
    rcases prefix_concat_iff.mp hpre with heq | hpre
    · obtain ⟨rfl, hc⟩ := append_inj' heq rfl
      exact .inr ⟨b, n, j, (singleton_inj.mp hc).symm, hmem⟩
    · exact .inl ⟨pre, b, n, j, hpre, hmem⟩
  · rintro (⟨pre, b, n, j, hpre, hmem⟩ | ⟨b, n, j, rfl, hmem⟩)
    · exact ⟨pre, b, n, j, hpre.trans (prefix_append cs [c]), hmem⟩
    · exact ⟨cs, b, n, j, prefix_refl _, hmem⟩

/-- What is owed after the events is a preemption that no notice has followed. -/
theorem owing_eq_some (h : owing id evs none = some reason) : RequestedSince evs id reason := by
  induction evs using List.reverseRecOn with
  | nil => cases h
  | append_singleton rest e ih =>
    -- an event that changes nothing comes after the request
    have hkeep : owing id rest none = some reason →
        (∀ job node, Event.attemptNotified id job node ≠ e) →
        RequestedSince (rest ++ [e]) id reason := by
      intro hrest hne
      obtain ⟨before, al, j, n, notice, since, rfl, hsince⟩ := ih hrest
      refine ⟨before, al, j, n, notice, since ++ [e], by simp, fun job node hmem => ?_⟩
      rcases mem_append.mp hmem with hmem | hmem
      · exact hsince job node hmem
      · exact hne job node (mem_singleton.mp hmem)
    rw [owing_append] at h
    cases e with
    | preemptRequested i al j n why notice =>
      have hone : (if i = id then some why else owing id rest none) = some reason := h
      split_ifs at hone with hi
      · cases hone
        cases hi
        exact ⟨rest, al, j, n, notice, [], rfl, by simp⟩
      · exact hkeep hone (by simp)
    | attemptNotified i job node =>
      have hone : (if i = id then none else owing id rest none) = some reason := h
      split_ifs at hone with hi
      exact hkeep hone fun job' node' heq => hi (by cases heq; rfl)
    | _ => exact hkeep h (by simp)

theorem owing_since {o : Option PreemptReason} (ho : o ≠ none)
    (h : ∀ job node, Event.attemptNotified id job node ∉ evs) : owing id evs o ≠ none := by
  induction evs generalizing o with
  | nil => exact ho
  | cons e rest ih =>
    have hrest : ∀ job node, Event.attemptNotified id job node ∉ rest :=
      fun job node hmem => h job node (mem_cons_of_mem _ hmem)
    refine ih (o := e.owing id o) ?_ hrest
    cases e with
    | preemptRequested i al j n why notice =>
      show (if i = id then some why else o) ≠ none
      split_ifs
      · simp
      · exact ho
    | attemptNotified i job node =>
      show (if i = id then none else o) ≠ none
      have hi : i ≠ id := by
        rintro rfl
        exact h job node mem_cons_self
      rw [if_neg hi]
      exact ho
    | _ => exact ho

theorem preemptAsked_iff : PreemptAsked cs id ↔ owing id (emitted cs) none ≠ none := by
  constructor
  · rintro ⟨reason, before, al, j, n, notice, since, hevs, hsince⟩
    rw [hevs, owing_append]
    refine owing_since (o := Event.owing id _ (.preemptRequested id al j n reason notice)) ?_ hsince
    show (if id = id then some reason else _) ≠ none
    simp
  · intro h
    obtain ⟨reason, hreason⟩ := Option.ne_none_iff_exists'.mp h
    exact ⟨reason, owing_eq_some hreason⟩

/-! ## The invariant of a run -/

/-- The attempt is placed and its container, if any, has not exited. -/
def Underway (x : AttemptState) : Prop := x ≠ .finalizing ∧ x.isTerminal = false

theorem underway_of_dispatched {x : AttemptState} (h : x = .dispatching ∨ x = .running) :
    Underway x := by
  rcases h with rfl | rfl <;> exact ⟨by simp, rfl⟩

/-- An attempt that is underway was so before. -/
theorem underway_before (h : AttemptLife a states a') (hu : Underway a'.attempt.state) :
    Underway a.attempt.state := by
  obtain ⟨steps, -, htrail⟩ := h.trail
  have hterminal : a.attempt.state.isTerminal = false := by
    cases hst : a.attempt.state with
    | terminal o =>
      obtain ⟨-, hsame⟩ := h.terminal hst
      rw [hsame] at hu
      exact absurd hu.2 (by simp [isTerminal])
    | _ => rfl
  refine ⟨fun hfin => ?_, hterminal⟩
  rw [hfin] at htrail
  generalize a'.attempt.state = y at htrail hu
  cases htrail with
  | nil _ => exact hu.1 rfl
  | @cons _ m _ rest hr hrest =>
    -- from finalizing an attempt only ends
    cases m with
    | terminal o =>
      obtain ⟨-, rfl⟩ := hrest.stuck (terminal_stuck o)
      exact absurd hu.2 (by simp [isTerminal])
    | _ => simp [mayTransitionTo, isTerminal] at hr

/-- The attempt was there, and has been evicted. -/
def Gone (cs : List Command) (id : AttemptId) : Prop :=
  (∃ pre, pre <+: cs ∧ (stateAfter pre).attempts.get? id ≠ none) ∧
    (stateAfter cs).attempts.get? id = none

/-- What the state remembers is what the run has asked for and nobody has answered. -/
structure Remembers (cs : List Command) : Prop where
  owed : ∀ id, (stateAfter cs).owedTo id = owing id (emitted cs) none ∨ Gone cs id
  reasons : ∀ i al j n reason notice, Event.preemptRequested i al j n reason notice ∈ emitted cs →
    Scheduled reason
  placed : ∀ al, StopAsked cs al → ∃ pre, pre <+: cs ∧ (stateAfter pre).allocations.get? al ≠ none
  flags : ∀ id a, (stateAfter cs).attempts.get? id = some a → Underway a.attempt.state →
    ((stateAfter cs).abortOf a.attempt.job ≠ none ↔ StopAsked cs a.attempt.allocation)

theorem remembers_nil : Remembers [] where
  owed _ := .inl rfl
  reasons i al j n reason notice hmem := by cases hmem
  placed al := by
    rintro ⟨pre, b, n, j, hpre, -⟩
    exact absurd (prefix_nil.mp hpre) (by simp)
  flags id a ha := by cases ha

section

variable (h : Remembers cs)

include h

/-- What is owed after one more command whose events say what it signals. -/
theorem Remembers.owed_snoc (hfresh : NeverReused (cs ++ [c]))
    (howed : (stateAfter (cs ++ [c])).owedTo id =
      owing id ((stateAfter cs).eventsOf c) ((stateAfter cs).owedTo id)) :
    (stateAfter (cs ++ [c])).owedTo id = owing id (emitted (cs ++ [c])) none ∨
      Gone (cs ++ [c]) id := by
  rcases h.owed id with heq | hgone
  · left
    rw [emitted_snoc, owing_append, ← heq, howed]
  · obtain ⟨⟨pre, hpre, hthere⟩, hnone⟩ := hgone
    exact .inr ⟨⟨pre, hpre.trans (prefix_append ..), hthere⟩,
      hfresh.attempts pre cs _ id hpre (prefix_append ..) prefix_rfl hthere hnone⟩

/-- A command that asks nobody to stop and moves no flag. -/
theorem Remembers.flags_snoc (hfresh : NeverReused (cs ++ [c]))
    (hstops : ∀ n al j, Event.stopRequested n al j ∉ (stateAfter cs).eventsOf c)
    (ha' : (stateAfter (cs ++ [c])).attempts.get? id = some a')
    (hflags : (stateAfter (cs ++ [c])).abortOf a'.attempt.job =
      (stateAfter cs).abortOf a'.attempt.job) (hu : Underway a'.attempt.state) :
    (stateAfter (cs ++ [c])).abortOf a'.attempt.job ≠ none ↔
      StopAsked (cs ++ [c]) a'.attempt.allocation := by
  have hreach := reachable_stateAfter cs
  have hasked : StopAsked (cs ++ [c]) a'.attempt.allocation ↔
      StopAsked cs a'.attempt.allocation := by
    rw [stopAsked_snoc]
    refine or_iff_left ?_
    rintro ⟨b, n, j, rfl, hmem⟩
    exact hstops n _ j hmem
  rw [hasked, hflags]
  have hstep : ((stateAfter cs).apply c).1.attempts.get? id = some a' := by
    rw [← stateAfter_snoc]
    exact ha'
  cases ha : (stateAfter cs).attempts.get? id with
  | some a =>
    obtain ⟨states, hlife⟩ := hreach.attemptLife ha hstep
    rw [hlife.ages.same.job, hlife.ages.same.allocation]
    exact h.flags id a ha (underway_before hlife hu)
  | none =>
    refine iff_of_false (not_not.mpr ?_) fun hold => ?_
    · unfold abortOf
      cases hr : (stateAfter cs).jobs.get? a'.attempt.job with
      | none => rfl
      | some r => exact hreach.unaborted_of_placed ha hstep hu.2 hr
    · -- an allocation asked about earlier would have come back
      obtain ⟨pre, hpre, hthere⟩ := h.placed _ hold
      have hnew := hreach.allocation_of_placed ha hstep
      have hgone := hfresh.allocations pre cs _ _ hpre (prefix_append ..) prefix_rfl hthere hnew
      obtain ⟨r, hr, -⟩ := (reachable_stateAfter (cs ++ [c])).consistent.linked.allocation_of ha'
      rw [hgone] at hr
      cases hr

/-- An abort: its job's flag is set, and a dispatched attempt of it is asked to stop. -/
theorem Remembers.flags_abort {b : AbortJob}
    (hA : StateMachine.Aborts (stateAfter cs) b.job ((stateAfter cs).eventsOf (.abortJob b))
      (stateAfter (cs ++ [.abortJob b])))
    (ha' : (stateAfter (cs ++ [.abortJob b])).attempts.get? id = some a')
    (hu : Underway a'.attempt.state) :
    (stateAfter (cs ++ [.abortJob b])).abortOf a'.attempt.job ≠ none ↔
      StopAsked (cs ++ [.abortJob b]) a'.attempt.allocation := by
  have hreach := reachable_stateAfter cs
  have hreach' := reachable_stateAfter (cs ++ [.abortJob b])
  have hthere : (stateAfter cs).attempts.get? id ≠ none := by
    intro hnone
    rw [(hA.present id).mpr hnone] at ha'
    cases ha'
  obtain ⟨a, ha⟩ := Option.ne_none_iff_exists'.mp hthere
  obtain ⟨states, hlife⟩ := hreach.attemptLife (c := .abortJob b) ha
    (by rw [← stateAfter_snoc]; exact ha')
  by_cases hjob : a'.attempt.job = b.job
  · obtain ⟨q, hq⟩ := hA.flagged
    rw [hjob, hq]
    refine iff_of_true (by simp) (stopAsked_snoc.mpr (.inr ?_))
    -- the attempt of a flagged job has been dispatched
    obtain ⟨r, hr, hst, -⟩ := hreach'.consistent.jobs.current ha' hu.2
    have hflag : r.spec.abortRequested.isSome = true := by
      have hof : (stateAfter (cs ++ [.abortJob b])).abortOf b.job = r.spec.abortRequested := by
        rw [abortOf, ← hjob, hr]
        rfl
      rw [← hof, hq]
      rfl
    obtain ⟨hacc, hready⟩ := hreach'.lived.aborts (Set.notMem_empty _) hr hflag hst ha'
    have hdispatched : a'.attempt.state = .dispatching ∨ a'.attempt.state = .running := by
      obtain ⟨hfin, hterm⟩ := hu
      cases hx : a'.attempt.state with
      | dispatching => exact .inl rfl
      | running => exact .inr rfl
      | accruing => exact absurd hx hacc
      | ready => exact absurd hx hready
      | finalizing => exact absurd hx hfin
      | terminal o => simp [hx, isTerminal] at hterm
    obtain ⟨n, j, hmem⟩ := hA.asked id a' ha' hjob hdispatched
    exact ⟨b, n, j, rfl, hmem⟩
  · rw [hA.flags _ hjob, hlife.ages.same.job, hlife.ages.same.allocation,
      h.flags id a ha (underway_before hlife hu), stopAsked_snoc]
    refine (or_iff_left ?_).symm
    rintro ⟨b', n, j, heq, hmem⟩
    cases heq
    -- whoever was asked is on another allocation
    obtain ⟨i, a1, ha1, hjob1, hal1, -⟩ := hA.stops n _ j hmem
    have hL := hreach.consistent.linked
    obtain ⟨r, hr, ht⟩ := hL.allocation_of ha
    obtain ⟨r1, hr1, ht1⟩ := hL.allocation_of ha1
    rw [hal1, hr] at hr1
    cases hr1
    have hid : i = id := ht1.attempt.symm.trans ht.attempt
    rw [hid, ha] at ha1
    cases ha1
    exact hjob (hlife.ages.same.job.trans hjob1)

theorem Remembers.snoc (hfresh : NeverReused (cs ++ [c])) : Remembers (cs ++ [c]) := by
  have hreach := reachable_stateAfter cs
  have hasked al (hstop : StopAsked (cs ++ [c]) al)
      (hthere : ∀ n j, Event.stopRequested n al j ∈ (stateAfter cs).eventsOf c →
        (stateAfter cs).allocations.get? al ≠ none)
      : ∃ pre, pre <+: cs ++ [c] ∧ (stateAfter pre).allocations.get? al ≠ none := by
    rcases stopAsked_snoc.mp hstop with hold | ⟨b, n, j, rfl, hmem⟩
    · obtain ⟨pre, hpre, hsome⟩ := h.placed al hold
      exact ⟨pre, hpre.trans (prefix_append cs [c]), hsome⟩
    · exact ⟨cs, prefix_append _ _, hthere n j hmem⟩
  have hreasons : (∀ i al j n reason notice, Event.preemptRequested i al j n reason notice ∈
      (stateAfter cs).eventsOf c → Scheduled reason) →
      ∀ i al j n reason notice, Event.preemptRequested i al j n reason notice ∈
        emitted (cs ++ [c]) → Scheduled reason := by
    intro hnew i al j n reason notice hmem
    rw [emitted_snoc] at hmem
    exact (mem_append.mp hmem).elim (h.reasons i al j n reason notice)
      (hnew i al j n reason notice)
  have hnext := stateAfter_snoc cs c
  cases hreach.signals c with
  | heeded hs =>
    rw [← hnext] at hs
    exact ⟨fun id => h.owed_snoc hfresh (hs.owed id), hreasons hs.reasons,
      fun al hal => hasked al hal fun n j hmem => absurd hmem (hs.stops n al j),
      fun id a' ha' hu => h.flags_snoc hfresh hs.stops ha' (hs.flags _) hu⟩
  | aborts hc hA =>
    subst hc
    rw [← hnext] at hA
    refine ⟨fun id => h.owed_snoc hfresh (hA.owed id), hreasons hA.reasons,
      fun al hal => hasked al hal fun n j hmem => ?_,
      fun id a' ha' hu => h.flags_abort hA ha' hu⟩
    obtain ⟨i, a, ha, -, rfl, -⟩ := hA.stops n al j hmem
    obtain ⟨r, hr, -⟩ := hreach.consistent.linked.allocation_of ha
    rw [hr]
    simp
  | swept hmute hjobs hattempts =>
    rw [← hnext] at hjobs hattempts
    refine ⟨fun id => ?_, hreasons fun i al j n reason notice hmem => (hmute _ hmem).elim,
      fun al hal => hasked al hal fun n j hmem => (hmute _ hmem).elim, fun id a' ha' hu => ?_⟩
    · by_cases hevicted : (stateAfter (cs ++ [c])).attempts.get? id = none ∧
          (stateAfter cs).attempts.get? id ≠ none
      · exact .inr ⟨⟨cs, prefix_append cs [c], hevicted.2⟩, hevicted.1⟩
      · refine h.owed_snoc hfresh ?_
        rw [owing_mute hmute]
        unfold owedTo
        rcases hattempts id with heq | hnone
        · rw [heq]
        · have hold : (stateAfter cs).attempts.get? id = none := by
            by_contra hne
            exact hevicted ⟨hnone, hne⟩
          rw [hnone, hold]
    · refine h.flags_snoc hfresh (fun n al j hmem => hmute _ hmem) ha' ?_ hu
      obtain ⟨r, hr, -⟩ := (reachable_stateAfter (cs ++ [c])).consistent.jobs.current ha' hu.2
      unfold abortOf
      rcases hjobs a'.attempt.job with heq | hnone
      · rw [heq]
      · rw [hnone] at hr
        cases hr

end

/-- In every run without reuse of ids. -/
theorem remembers_of_neverReused (h : NeverReused cs) : Remembers cs := by
  induction cs using List.reverseRecOn with
  | nil => exact remembers_nil
  | append_singleton rest c ih => exact (ih h.init).snoc h

/-! ## The rules of the rescan -/

/-- The job of a live attempt is attempting it. -/
theorem currentAttempt_of_live (h : Consistent s) (ha : s.attempts.get? id = some a)
    (hlive : a.attempt.state.isTerminal = false) :
    ∃ r, s.jobs.get? a.attempt.job = some r ∧ r.currentAttempt = some a.attempt.id := by
  obtain ⟨r, hr, hattempting, -⟩ := h.jobs.current ha hlive
  refine ⟨r, hr, ?_⟩
  rw [JobRecord.currentAttempt, hattempting, h.linked.attempt_id ha]
  rfl

/-- The abort rule reads: dispatched, and its job's flag is set. -/
theorem attemptHasPendingAbort_iff (h : Consistent s) (ha : s.attempts.get? id = some a) :
    attemptHasPendingAbort s a = true ↔
      (a.attempt.state = .dispatching ∨ a.attempt.state = .running) ∧
        s.abortOf a.attempt.job ≠ none := by
  unfold attemptHasPendingAbort abortOf
  rw [Bool.and_eq_true, Bool.or_eq_true, decide_eq_true_eq, decide_eq_true_eq]
  refine and_congr_right fun hst => ?_
  obtain ⟨r, hr, hcurrent⟩ := currentAttempt_of_live h ha (underway_of_dispatched hst).2
  rw [hr]
  simp [hcurrent, Option.isSome_iff_ne_none]

/-- The preemption rule reads: running, and an unacknowledged preemption for another job. -/
theorem attemptHasPendingPreempt_iff (h : Consistent s) (ha : s.attempts.get? id = some a) :
    attemptHasPendingPreempt s a = true ↔
      a.attempt.state = .running ∧ ∃ reason, a.owed = some reason ∧
        (preemptReasonForJob reason).isSome = true := by
  unfold attemptHasPendingPreempt
  rw [Bool.and_eq_true, Bool.and_eq_true, decide_eq_true_eq, and_assoc]
  refine and_congr_right fun hst => ?_
  obtain ⟨r, hr, hcurrent⟩ := currentAttempt_of_live h ha (by rw [hst]; rfl)
  rw [hr]
  cases hp : a.preemption with
  | none => simp [AttemptRecord.owed, hp]
  | some p =>
    cases hack : p.acknowledged with
    | none => simp [AttemptRecord.owed, hp, hack, hcurrent]
    | some ack => simp [AttemptRecord.owed, hp, hack]

theorem forJob_of_scheduled (h : Scheduled reason) :
    (preemptReasonForJob reason).isSome = true := by
  obtain ⟨job, rfl | rfl⟩ := h <;> rfl

/-- A pending preemption has its command. -/
theorem pendingPreemptCommand_isSome (h : Consistent s) (ha : s.attempts.get? id = some a) :
    (pendingPreemptCommand s a).isSome = attemptHasPendingPreempt s a := by
  unfold pendingPreemptCommand
  cases hpending : attemptHasPendingPreempt s a with
  | false => rfl
  | true =>
    obtain ⟨hst, reason, howed, -⟩ := (attemptHasPendingPreempt_iff h ha).mp hpending
    obtain ⟨r, hr, -⟩ := h.jobs.current ha (by rw [hst]; rfl)
    obtain ⟨p, hp, -⟩ := Option.bind_eq_some_iff.mp howed
    simp [hp, hr]

theorem Remembers.abort_iff (h : Remembers cs) (ha : (stateAfter cs).attempts.get? id = some a) :
    attemptHasPendingAbort (stateAfter cs) a = true ↔ StopAsked cs a.attempt.allocation ∧
      (a.attempt.state = .dispatching ∨ a.attempt.state = .running) := by
  rw [attemptHasPendingAbort_iff (reachable_stateAfter cs).consistent ha, and_comm]
  exact and_congr_left fun hst => h.flags id a ha (underway_of_dispatched hst)

theorem Remembers.preempt_iff (h : Remembers cs) (ha : (stateAfter cs).attempts.get? id = some a) :
    attemptHasPendingPreempt (stateAfter cs) a = true ↔
      PreemptAsked cs id ∧ a.attempt.state = .running := by
  have howed : a.owed = owing id (emitted cs) none := by
    rcases h.owed id with heq | ⟨-, hnone⟩
    · rw [← heq, owedTo, ha]
      rfl
    · rw [hnone] at ha
      cases ha
  rw [attemptHasPendingPreempt_iff (reachable_stateAfter cs).consistent ha, and_comm,
    preemptAsked_iff, ← howed, Option.ne_none_iff_exists']
  refine and_congr_left fun _ => ⟨?_, ?_⟩
  · rintro ⟨reason, hr, -⟩
    exact ⟨reason, hr⟩
  · rintro ⟨reason, hr⟩
    obtain ⟨before, al, j, n, notice, since, hevs, -⟩ := owing_eq_some (howed.symm.trans hr)
    have hmem : Event.preemptRequested id al j n reason notice ∈ emitted cs := by
      rw [hevs]
      simp
    exact ⟨reason, hr, forJob_of_scheduled (h.reasons _ _ _ _ _ _ hmem)⟩

/-- In every run that reuses no evicted id, what the state has pending is what was asked and not
    answered, and a rescan routes that and nothing else. -/
theorem resync_complete (hfresh : NeverReused cs) :
    (∀ id a, (stateAfter cs).attempts.get? id = some a →
      (attemptHasPendingAbort (stateAfter cs) a = true ↔ StopAsked cs a.attempt.allocation ∧
        (a.attempt.state = .dispatching ∨ a.attempt.state = .running)) ∧
      (attemptHasPendingPreempt (stateAfter cs) a = true ↔
        PreemptAsked cs id ∧ a.attempt.state = .running)) ∧
    (∀ node al, (node, al) ∈ resyncStops (stateAfter cs) ↔
      ∃ id a, (stateAfter cs).attempts.get? id = some a ∧ a.attempt.node = node ∧
        a.attempt.allocation = al ∧ StopAsked cs al ∧
        (a.attempt.state = .dispatching ∨ a.attempt.state = .running)) ∧
    ∀ node al, (∃ command, (node, al, command) ∈ resyncPreempts (stateAfter cs)) ↔
      ∃ id a, (stateAfter cs).attempts.get? id = some a ∧ a.attempt.node = node ∧
        a.attempt.allocation = al ∧ PreemptAsked cs id ∧ a.attempt.state = .running := by
  have h := remembers_of_neverReused hfresh
  have hC := (reachable_stateAfter cs).consistent
  refine ⟨fun id a ha => ⟨h.abort_iff ha, h.preempt_iff ha⟩, fun node al => ?_, fun node al => ?_⟩
  · unfold resyncStops
    simp only [mem_map, mem_filter, mem_values, Prod.mk.injEq]
    constructor
    · rintro ⟨a, ⟨⟨id, ha⟩, hpending⟩, rfl, rfl⟩
      obtain ⟨hasked, hst⟩ := (h.abort_iff ha).mp hpending
      exact ⟨id, a, ha, rfl, rfl, hasked, hst⟩
    · rintro ⟨id, a, ha, rfl, rfl, hasked, hst⟩
      exact ⟨a, ⟨⟨id, ha⟩, (h.abort_iff ha).mpr ⟨hasked, hst⟩⟩, rfl, rfl⟩
  · unfold resyncPreempts
    simp only [mem_filterMap, mem_values, Option.map_eq_some_iff, Prod.mk.injEq]
    constructor
    · rintro ⟨command, a, ⟨id, ha⟩, _, hcommand, rfl, rfl, rfl⟩
      have hpending := pendingPreemptCommand_isSome hC ha
      rw [hcommand] at hpending
      obtain ⟨hasked, hst⟩ := (h.preempt_iff ha).mp hpending.symm
      exact ⟨id, a, ha, rfl, rfl, hasked, hst⟩
    · rintro ⟨id, a, ha, rfl, rfl, hasked, hst⟩
      have hpending := pendingPreemptCommand_isSome hC ha
      rw [(h.preempt_iff ha).mpr ⟨hasked, hst⟩] at hpending
      obtain ⟨command, hcommand⟩ := Option.isSome_iff_exists.mp hpending
      exact ⟨command, a, ⟨id, ha⟩, command, hcommand, rfl, rfl, rfl⟩

end Runs

/-! ## A run -/

/-- No command of the run removes an attempt or an allocation. -/
def grows (s : StateMachine) : List Command → Bool
  | [] => true
  | c :: rest =>
    s.attempts.keys.all (fun id => (s.apply c).1.attempts.contains id) &&
      s.allocations.keys.all (fun al => (s.apply c).1.allocations.contains al) &&
      grows (s.apply c).1 rest

variable {s : StateMachine} {l : List Command}

theorem grows_append {l' : List Command} (h : grows s (l ++ l') = true) :
    grows s l = true ∧ grows (l.foldl (fun s c => (s.apply c).1) s) l' = true := by
  induction l generalizing s with
  | nil => exact ⟨rfl, h⟩
  | cons c rest ih =>
    simp only [cons_append, grows, Bool.and_eq_true] at h ⊢
    obtain ⟨hnow, hrest⟩ := h
    exact ⟨⟨hnow, (ih hrest).1⟩, (ih hrest).2⟩

theorem grows_keeps (h : grows s l = true) :
    (∀ id, s.attempts.get? id ≠ none →
      (l.foldl (fun s c => (s.apply c).1) s).attempts.get? id ≠ none) ∧
    ∀ al, s.allocations.get? al ≠ none →
      (l.foldl (fun s c => (s.apply c).1) s).allocations.get? al ≠ none := by
  induction l generalizing s with
  | nil => exact ⟨fun _ hthere => hthere, fun _ hthere => hthere⟩
  | cons c rest ih =>
    simp only [grows, Bool.and_eq_true, all_eq_true] at h
    obtain ⟨⟨hattempts, hallocs⟩, hrest⟩ := h
    refine ⟨fun id hthere => (ih hrest).1 id ?_, fun al hthere => (ih hrest).2 al ?_⟩
    · have hkey := hattempts id (OrdMap.mem_keys.mpr (Option.ne_none_iff_exists'.mp hthere))
      exact Option.ne_none_iff_exists'.mpr (contains_iff.mp hkey)
    · have hkey := hallocs al (OrdMap.mem_keys.mpr (Option.ne_none_iff_exists'.mp hthere))
      exact Option.ne_none_iff_exists'.mpr (contains_iff.mp hkey)

/-- Without evictions no id is reused. -/
theorem neverReused_of_grows {cs : List Command} (h : grows default cs = true) :
    NeverReused cs := by
  have hkeep : ∀ p q, p <+: q → q <+: cs →
      (∀ id, (stateAfter p).attempts.get? id ≠ none → (stateAfter q).attempts.get? id ≠ none) ∧
      ∀ al, (stateAfter p).allocations.get? al ≠ none →
        (stateAfter q).allocations.get? al ≠ none := by
    rintro p _ ⟨t, rfl⟩ ⟨u, rfl⟩
    rw [append_assoc] at h
    have hrest := (grows_append (grows_append h).2).1
    have hsplit : stateAfter (p ++ t) = t.foldl (fun s c => (s.apply c).1) (stateAfter p) := by
      rw [stateAfter, foldl_append]
      rfl
    rw [hsplit]
    exact grows_keeps hrest
  exact ⟨fun p q r id hpq hqr hr hthere hgone =>
      absurd hgone ((hkeep p q hpq (hqr.trans hr)).1 id hthere),
    fun p q r al hpq hqr hr hthere hgone =>
      absurd hgone ((hkeep p q hpq (hqr.trans hr)).2 al hthere)⟩

namespace Sample

open State.Sample

/-- Two jobs run; a third, of higher priority, preempts the first, and the second is aborted. -/
def contended : List Command :=
  [configure, register 10, submitJob { job 1 (cpu 4) with preemption := ⟨true, none, .sigusr1⟩ },
    submit 2 4, submitJob { job 3 (cpu 4) with priority := 1 }, commit [] [place 1 4, place 2 4],
    send 1, start 1, send 2, start 2, commit [] [⟨3, 3, 3, [⟨3, 1, cpu 4⟩], [⟨1, .priority⟩]⟩],
    .abortJob ⟨2, none, none, epoch⟩]

end Sample

open Sample

/-- The stop of the aborted job and the preemption of the victim are both owed. -/
theorem resync_complete_contended :
    resyncStops (stateAfter contended) = [(1, 2)] ∧
      StopAsked contended 2 ∧ PreemptAsked contended 1 := by
  have hfresh : NeverReused contended := neverReused_of_grows (by decide +kernel)
  obtain ⟨hall, hstops, -⟩ := resync_complete hfresh
  have hrouted : resyncStops (stateAfter contended) = [(1, 2)] := by decide +kernel
  have hpending : ((stateAfter contended).attempts.get? 1).map
      (attemptHasPendingPreempt (stateAfter contended)) = some true := by decide +kernel
  obtain ⟨a, ha, hpre⟩ := Option.map_eq_some_iff.mp hpending
  refine ⟨hrouted, ?_, ((hall 1 a ha).2.mp hpre).1⟩
  have hmem : ((1, 2) : NodeId × AllocationId) ∈ resyncStops (stateAfter contended) := by
    rw [hrouted]
    simp
  obtain ⟨-, -, -, -, -, hasked, -⟩ := (hstops 1 2).mp hmem
  exact hasked

end Coppice.Coordinator
