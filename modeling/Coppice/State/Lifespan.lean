/-
  Coppice.State.Lifespan

  The life of a job and of an attempt over whole runs: what is written once
  stays as written until the record is evicted, an aborted job never returns
  to the queue, and the retry budget counts the charged requeues.
-/

import Coppice.State.Faithful

namespace Coppice.State

open Lib Coppice.Core StateMachine Option

/-! ## One command -/

/-- The events of a command; a rejected command has none. -/
def StateMachine.eventsOf (s : StateMachine) (c : Command) : List Event :=
  match (s.apply c).2 with
  | .ok x => x.events
  | .error _ => []

variable {s s' : StateMachine} {evs : List Event}

/-- A rejected command leaves jobs and attempts alone. -/
theorem StateMachine.rejected_same {c : Command} {e : RejectionReason}
    (he : (s.apply c).2 = .error e) :
    (s.apply c).1.jobs = s.jobs ∧ (s.apply c).1.attempts = s.attempts := by
  have hs : (s.dispatch c).1 = s := (s.dispatch_atomic c).rejected e he
  constructor
  · show (s.dispatch c).1.jobs = s.jobs
    rw [hs]
  · show (s.dispatch c).1.attempts = s.attempts
    rw [hs]

namespace Reachable

variable {c : Command} {r : JobRecord} {id : AttemptId} {a a' : AttemptRecord}

/-- The life of a job through a command that does not evict it. -/
theorem jobLife (h : Reachable s) {j : JobId} {r' : JobRecord} (hr : s.jobs.get? j = some r)
    (hr' : (s.apply c).1.jobs.get? j = some r') :
    JobLife (s.apply c).1 r (jobSteps j (s.eventsOf c)) r' := by
  unfold eventsOf
  cases hres : (s.apply c).2 with
  | error e =>
    rw [(rejected_same hres).1, hr] at hr'
    cases hr'
    exact .refl _ r
  | ok x =>
    have hj := (h.history hres).jobs j
    rw [hr, hr'] at hj
    generalize jobSteps j x.events = steps at hj
    cases hj with
    | told hj =>
      cases hj with
      | goes hlife => exact hlife

section

variable (h : Reachable s) (ha : s.attempts.get? id = some a)
  (ha' : (s.apply c).1.attempts.get? id = some a')

include h ha ha'

/-- The life of an attempt through a command that does not evict it. -/
theorem attemptLife : ∃ states, AttemptLife a states a' := by
  cases hres : (s.apply c).2 with
  | error e =>
    rw [(rejected_same hres).2, ha] at ha'
    cases ha'
    exact ⟨[], .refl a⟩
  | ok x =>
    cases (h.history hres).attempts with
    | told htold =>
      have hid := htold id
      rw [ha, ha'] at hid
      cases hid with
      | goes hlife => exact ⟨_, hlife⟩
    | swept _ hsame =>
      cases ha.symm.trans (OrdMap.get?_of_gone (hsame id) ha')
      exact ⟨[], .refl a⟩

theorem attemptAges : a.Ages a' := (h.attemptLife ha ha').choose_spec.ages

end

section

variable (h : Reachable s) (hnone : s.attempts.get? id = none)
  (ha' : (s.apply c).1.attempts.get? id = some a')

include h hnone ha'

/-- A command that places an attempt evicts none. -/
theorem stays_of_placed {i : AttemptId} {b : AttemptRecord} (hb : s.attempts.get? i = some b) :
    ∃ b', (s.apply c).1.attempts.get? i = some b' ∧ b.Ages b' := by
  cases hres : (s.apply c).2 with
  | error e =>
    rw [(rejected_same hres).2, hnone] at ha'
    cases ha'
  | ok x =>
    cases (h.history hres).attempts with
    | told htold =>
      have hi := htold i
      rw [hb] at hi
      generalize attemptSteps i x.events = states at hi
      generalize (s.apply c).1.attempts.get? i = b' at hi
      cases hi with
      | goes hlife => exact ⟨_, rfl, hlife.ages⟩
    | swept _ hsame =>
      cases hnone.symm.trans (OrdMap.get?_of_gone (hsame id) ha')

/-- The allocation of a placed attempt is new. -/
theorem allocation_of_placed : s.allocations.get? a'.attempt.allocation = none := by
  by_contra hsome
  obtain ⟨r, hr⟩ := ne_none_iff_exists'.mp hsome
  obtain ⟨b, hb, hal⟩ := h.consistent.linked.attempt_of hr
  obtain ⟨b', hb', hages⟩ := h.stays_of_placed hnone ha' hb
  -- two attempts on one allocation are the same
  have hL := (h.apply c).consistent.linked
  obtain ⟨r1, hr1, ht1⟩ := hL.allocation_of ha'
  obtain ⟨r2, hr2, ht2⟩ := hL.allocation_of hb'
  rw [hages.same.allocation, hal, hr1] at hr2
  cases hr2
  have hid : r.allocation.attempt = id := ht2.attempt.symm.trans ht1.attempt
  rw [hid, hnone] at hb
  cases hb

/-- No abort is pending on the job of a placed attempt. -/
theorem unaborted_of_placed (hlive : a'.attempt.state.isTerminal = false)
    (hr : s.jobs.get? a'.attempt.job = some r) : r.spec.abortRequested = none := by
  obtain ⟨r', hr', hst', -⟩ := (h.apply c).consistent.jobs.current ha' hlive
  have hlife := h.jobLife hr hr'
  have htrail := hlife.trail
  rw [hst'] at htrail
  have hne : r.state ≠ .attempting id := by
    intro e
    obtain ⟨a, ha, -⟩ := h.consistent.jobs.attempting hr e
    rw [hnone] at ha
    cases ha
  have hedge (x : JobState) (hx : x.mayTransitionTo (.attempting id) = true) : x = .queued := by
    cases x <;> first | rfl | cases hx
  by_contra hflag
  have hsome : r.spec.abortRequested.isSome = true := isSome_iff_ne_none.mpr hflag
  -- the job came from the queue, where no abort is ever pending
  rcases htrail.through hedge hne with e | ⟨v, hv⟩
  · exact (h.lived.jobs hr).abort hsome e
  · exact hlife.unqueued hsome v hv

end

end Reachable

/-! ## Runs -/

/-- `s'` is reached from `s` by commands none of which evicts the job. -/
def JobStays (job : JobId) (s s' : StateMachine) : Prop :=
  Reach s (fun s c => (s.apply c).1) (fun s c => ((s.apply c).1.jobs.get? job).isSome = true) s'

/-- `s'` is reached from `s` by commands none of which evicts the attempt. -/
def AttemptStays (id : AttemptId) (s s' : StateMachine) : Prop :=
  Reach s (fun s c => (s.apply c).1) (fun s c => ((s.apply c).1.attempts.get? id).isSome = true) s'

theorem JobStays.ages {r r' : JobRecord} (h : Reachable s) (hrun : JobStays job s s')
    (hr : s.jobs.get? job = some r) (hr' : s'.jobs.get? job = some r') :
    Reachable s' ∧ r.Ages r' := by
  have hboth : Reachable s' ∧ ∃ x, s'.jobs.get? job = some x ∧ r.Ages x := by
    refine Reach.invariant (fun t => Reachable t ∧ ∃ x, t.jobs.get? job = some x ∧ r.Ages x)
      ⟨h, r, hr, .refl r⟩ ?_ hrun
    rintro t c ⟨ht, x, hx, hages⟩ hstays
    obtain ⟨y, hy⟩ := isSome_iff_exists.mp hstays
    exact ⟨ht.apply c, y, hy, hages.trans (ht.jobLife hx hy).ages⟩
  obtain ⟨ht, x, hx, hages⟩ := hboth
  rw [hr'] at hx
  cases hx
  exact ⟨ht, hages⟩

variable {id : AttemptId} {a a' : AttemptRecord}

/-- What every command keeps of an attempt's record holds for as long as it is there. -/
theorem AttemptStays.keeps {P : AttemptRecord → Prop} (h : Reachable s)
    (hrun : AttemptStays id s s') (ha : s.attempts.get? id = some a) (hP : P a)
    (hstep : ∀ {t : StateMachine} {c x y}, Reachable t → t.attempts.get? id = some x → P x →
      (t.apply c).1.attempts.get? id = some y → P y) (ha' : s'.attempts.get? id = some a') :
    P a' := by
  have hboth : Reachable s' ∧ ∃ x, s'.attempts.get? id = some x ∧ P x := by
    refine Reach.invariant (fun t => Reachable t ∧ ∃ x, t.attempts.get? id = some x ∧ P x)
      ⟨h, a, ha, hP⟩ ?_ hrun
    rintro t c ⟨ht, x, hx, hPx⟩ hstays
    obtain ⟨y, hy⟩ := isSome_iff_exists.mp hstays
    exact ⟨ht.apply c, y, hy, hstep ht hx hPx hy⟩
  obtain ⟨-, x, hx, hPx⟩ := hboth
  rw [ha'] at hx
  cases hx
  exact hPx

theorem AttemptStays.ages (h : Reachable s) (hrun : AttemptStays id s s')
    (ha : s.attempts.get? id = some a) (ha' : s'.attempts.get? id = some a') : a.Ages a' :=
  hrun.keeps h ha (.refl a) (fun ht hx hages hy => hages.trans (ht.attemptAges hx hy)) ha'

/-! ## The life cycle -/

/-- What holds of the jobs and attempts of a state, and of every run from it. -/
structure Lifecycle (s : StateMachine) : Prop where
  terminalAt : ∀ {j r}, s.jobs.get? j = some r →
    (r.terminalAt.isSome = true ↔ r.state.isTerminal = true)
  frozen : ∀ {j r s' r'}, s.jobs.get? j = some r → r.state.isTerminal = true → JobStays j s s' →
    s'.jobs.get? j = some r' → r'.state = r.state ∧ r'.terminalAt = r.terminalAt ∧
      r'.attempts = r.attempts ∧ r'.retriesUsed = r.retriesUsed
  abort : ∀ {j r q s' r'}, s.jobs.get? j = some r → r.spec.abortRequested = some q →
    JobStays j s s' → s'.jobs.get? j = some r' →
    r'.spec.abortRequested = some q ∧ r'.state ≠ .queued
  /-- nor does an aborted job pass through the queue within a command -/
  abortPasses : ∀ {j r q c r'}, s.jobs.get? j = some r → r.spec.abortRequested = some q →
    (s.apply c).1.jobs.get? j = some r' → ∀ x, (x, .queued) ∉ jobSteps j (s.eventsOf c)
  retriesBound : ∀ {j r}, s.jobs.get? j = some r → r.retriesUsed ≤ r.spec.retry.maxRetries
  /-- the budget used grows by the number of requeues after a charged outcome -/
  retries : ∀ {j r c r'}, s.jobs.get? j = some r → (s.apply c).1.jobs.get? j = some r' →
    r'.retriesUsed = r.retriesUsed +
      (jobSteps j (s.eventsOf c)).countP ((s.apply c).1.chargedStep r.spec.retry)
  /-- a job leaves an attempt only when the attempt has ended with an outcome -/
  outcome : ∀ {j r c r' id x}, s.jobs.get? j = some r → (s.apply c).1.jobs.get? j = some r' →
    (.attempting id, x) ∈ jobSteps j (s.eventsOf c) →
    ∃ a o, (s.apply c).1.attempts.get? id = some a ∧ a.attempt.state = .terminal o
  ended : ∀ {id a}, s.attempts.get? id = some a →
    (a.endedAt.isSome = true ↔ a.attempt.state.isTerminal = true) ∧
      (a.settlement.isSome = true ↔ a.attempt.state.isTerminal = true)
  started : ∀ {id a}, s.attempts.get? id = some a →
    a.attempt.state = .running ∨ a.attempt.state = .finalizing → a.startedAt.isSome = true
  writtenOnce : ∀ {id a s' a'}, s.attempts.get? id = some a → AttemptStays id s s' →
    s'.attempts.get? id = some a' → (∀ t, a.startedAt = some t → a'.startedAt = some t) ∧
      (∀ t, a.endedAt = some t → a'.endedAt = some t) ∧
      (∀ x, a.settlement = some x → a'.settlement = some x)

theorem reachable_lifecycle {s : StateMachine} (h : Reachable s) : Lifecycle s where
  terminalAt := by
    intro j r hr
    rw [(h.lived.jobs hr).terminalAt]
  frozen := by
    intro j r s' r' hr hterm hrun hr'
    exact (hrun.ages h hr hr').2.frozen hterm
  abort := by
    intro j r q s' r' hr hq hrun hr'
    obtain ⟨h', hages⟩ := hrun.ages h hr hr'
    have hq' := hages.abort q hq
    exact ⟨hq', (h'.lived.jobs hr').abort (by rw [hq']; rfl)⟩
  abortPasses := by
    intro j r q c r' hr hq hr'
    exact (h.jobLife hr hr').unqueued (by rw [hq]; rfl)
  retriesBound := fun hr => (h.lived.jobs hr).retries
  retries := fun hr hr' => (h.jobLife hr hr').retries
  outcome := fun hr hr' hmem => (h.jobLife hr hr').ended _ _ hmem
  ended := by
    intro id a ha
    have hs := h.lived.attempts ha
    exact ⟨by rw [hs.ended], by rw [hs.settled]⟩
  started := fun ha => (h.lived.attempts ha).started
  writtenOnce := by
    intro id a s' a' ha hrun ha'
    have hages := hrun.ages h ha ha'
    exact ⟨hages.started, hages.ended, hages.settled⟩

open Sample

/-- A state with a finished, a ready and an accruing attempt. -/
theorem reachable_lifecycle_busy :
    ((run busy).jobs.get? 1).map (fun r => r.state) = some .succeeded ∧ Lifecycle (run busy) :=
  ⟨by decide +kernel, reachable_lifecycle (reachable_run busy)⟩

/-- A revocation is a platform outcome, and requeues the job without a charge. -/
theorem revoked_requeues_free :
    ∃ s c, Reachable s ∧ ∃ j r r' id a o, s.jobs.get? j = some r ∧
      (s.apply c).1.jobs.get? j = some r' ∧
      (.attempting id, .queued) ∈ jobSteps j (s.eventsOf c) ∧
      (s.apply c).1.attempts.get? id = some a ∧ a.attempt.state = .terminal o ∧
      o.class_ = .platform ∧ r'.retriesUsed ≠ r.retriesUsed + 1 := by
  -- the accruing attempt of the third job is revoked
  let s := run busy
  let c := commit [3] []
  have hbefore : (s.jobs.get? 3).map (fun r => r.retriesUsed) = some 0 := by decide +kernel
  have hafter : ((s.apply c).1.jobs.get? 3).map (fun r => r.retriesUsed) = some 0 := by
    decide +kernel
  have hatt : ((s.apply c).1.attempts.get? 3).map (fun a => a.attempt.state) =
      some (.terminal .revoked) := by decide +kernel
  have hsteps : (.attempting 3, .queued) ∈ jobSteps 3 (s.eventsOf c) := by decide +kernel
  obtain ⟨r, hr, hr₀⟩ := map_eq_some_iff.mp hbefore
  obtain ⟨r', hr', hr₁⟩ := map_eq_some_iff.mp hafter
  obtain ⟨a, ha, hst⟩ := map_eq_some_iff.mp hatt
  exact ⟨s, c, reachable_run _, 3, r, r', 3, a, .revoked, hr, hr', hsteps, ha, hst, rfl, by omega⟩

/-! ## Following the events -/

/-- The state and all events so far, after one more command. -/
def follow (x : StateMachine × List Event) (c : Command) : StateMachine × List Event :=
  ((x.1.apply c).1, x.2 ++ x.1.eventsOf c)

/-- What was last reported of a job or attempt is the state it is in; of a job that is gone, a
    terminal one. -/
structure Mirrored (s : StateMachine) (evs : List Event) : Prop where
  job : ∀ j, ((jobSteps j evs).map Prod.snd).getLast? = (s.jobs.get? j).map JobRecord.state ∨
    s.jobs.get? j = none ∧ ((jobSteps j evs).map Prod.snd).getLast?.all JobState.isTerminal = true
  attempt : ∀ id a, s.attempts.get? id = some a →
    (attemptSteps id evs).getLast? = some a.attempt.state

theorem Mirrored.apply (h : Mirrored s evs) (hs : Reachable s) (c : Command) :
    Mirrored (s.apply c).1 (evs ++ s.eventsOf c) := by
  obtain ⟨hjob, hatt⟩ := h
  unfold eventsOf
  cases hres : (s.apply c).2 with
  | error e =>
    obtain ⟨hj, ha⟩ := rejected_same hres
    simp only [List.append_nil]
    exact ⟨hj ▸ hjob, ha ▸ hatt⟩
  | ok x =>
    have hist := hs.history hres
    have hF := hist.faithful hs.consistent (hs.apply c).consistent
    refine ⟨fun j => ?_, fun id a' ha' => ?_⟩
    · have hold := hjob j
      have hnew := hist.jobs j
      rw [jobSteps_append, List.map_append, List.getLast?_append]
      generalize s.jobs.get? j = r at hold hnew
      generalize (s.apply c).1.jobs.get? j = r' at hnew ⊢
      generalize jobSteps j x.events = steps at hnew
      cases hnew with
      | told htold =>
        cases htold with
        | absent => simpa using hold
        | goes hlife => exact .inl (by grind [hlife.trail.getLast?_or])
      | submitted hst => exact .inl (by simp [hst])
      | evicted hterm => exact .inr (by grind)
    · rw [attemptSteps_append, List.getLast?_append]
      cases ha : s.attempts.get? id with
      | none =>
        obtain ⟨y, states, -, hsteps, steps, rfl, ht⟩ := hF.attemptPlaced ha ha'
        grind [ht.getLast?_or]
      | some a =>
        obtain ⟨steps, hsteps, ht⟩ := hF.attempt ha ha'
        rw [hsteps, hatt id a ha, ht.getLast?_or]

/-- A consumer of the events that keeps the last state it was told of each job and attempt knows
    the state each one is in, after any run. -/
theorem stream_mirrors (cmds : List Command) :
    Mirrored (cmds.foldl follow (default, [])).1 (cmds.foldl follow (default, [])).2 := by
  have hstart : Reachable default ∧ Mirrored default [] :=
    ⟨.init, fun _ => .inl rfl, fun _ _ ha => by cases ha⟩
  exact (Reach.invariant (fun x : StateMachine × List Event => Reachable x.1 ∧ Mirrored x.1 x.2)
    hstart (fun _ c hx _ => ⟨hx.1.apply c, hx.2.apply hx.1 c⟩)
    (Reach.foldl cmds _ .init fun _ _ _ => trivial)).2

end Coppice.State
