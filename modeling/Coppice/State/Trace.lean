/-
  Coppice.State.Trace

  What a command reports and what it does, per job and per attempt.  `Traced s evs
  s'` says that the events lead, along legal edges, from the states in `s` to those
  in `s'`, and that nothing written once is written again; it composes.
-/

import Coppice.State.Frame
import Coppice.State.Batch
import Coppice.Lib.Trail

namespace Coppice.State

open Lib Coppice.Core Effects List AttemptState AttemptRecord

/-! ## The events of one job, attempt or allocation -/

/-- The state changes reported for a job, in order. -/
def jobSteps (job : JobId) (evs : List Event) : List (JobState × JobState) :=
  evs.filterMap fun
    | .jobStateChanged j x y => if j = job then some (x, y) else none
    | _ => none

/-- The states reported for an attempt, in order. -/
def attemptSteps (id : AttemptId) (evs : List Event) : List AttemptState :=
  evs.filterMap fun
    | .attemptStateChanged i _ _ x => if i = id then some x else none
    | _ => none

/-- How often an allocation is reported funded. -/
def fundings (al : AllocationId) (evs : List Event) : Nat :=
  evs.countP fun
    | .allocationFunded i _ _ => i = al
    | _ => false

@[simp] theorem jobSteps_nil (job : JobId) : jobSteps job [] = [] := rfl

@[simp] theorem attemptSteps_nil (id : AttemptId) : attemptSteps id [] = [] := rfl

@[simp] theorem fundings_nil (al : AllocationId) : fundings al [] = 0 := rfl

@[simp] theorem jobSteps_append (job : JobId) (evs evs' : List Event) :
    jobSteps job (evs ++ evs') = jobSteps job evs ++ jobSteps job evs' :=
  filterMap_append

@[simp] theorem attemptSteps_append (id : AttemptId) (evs evs' : List Event) :
    attemptSteps id (evs ++ evs') = attemptSteps id evs ++ attemptSteps id evs' :=
  filterMap_append

@[simp] theorem fundings_append (al : AllocationId) (evs evs' : List Event) :
    fundings al (evs ++ evs') = fundings al evs + fundings al evs' :=
  countP_append

@[simp] theorem jobSteps_changed (job j : JobId) (x y : JobState) :
    jobSteps job [.jobStateChanged j x y] = if j = job then [(x, y)] else [] := by
  unfold jobSteps
  split_ifs with h <;> simp [h]

@[simp] theorem attemptSteps_changed (id i : AttemptId) (job : JobId) (node : NodeId)
    (x : AttemptState) :
    attemptSteps id [.attemptStateChanged i job node x] = if i = id then [x] else [] := by
  unfold attemptSteps
  split_ifs with h <;> simp [h]

/-- The event is about none of the three. -/
def Event.Silent : Event → Prop
  | .jobStateChanged .. | .attemptStateChanged .. | .allocationFunded .. => False
  | _ => True

variable {evs : List Event} {r : JobRecord} {a a' : AttemptRecord} {x : List AttemptState}
  {o : AttemptOutcome} {s s' : StateMachine} {fx : Effects} {id : AttemptId}

theorem jobSteps_silent (h : ∀ e ∈ evs, e.Silent) (job : JobId) : jobSteps job evs = [] := by
  refine filterMap_eq_nil_iff.mpr fun e he => ?_
  have := h e he
  cases e <;> first | exact False.elim this | rfl

theorem attemptSteps_silent (h : ∀ e ∈ evs, e.Silent) (id : AttemptId) :
    attemptSteps id evs = [] := by
  refine filterMap_eq_nil_iff.mpr fun e he => ?_
  have := h e he
  cases e <;> first | exact False.elim this | rfl

theorem fundings_silent (h : ∀ e ∈ evs, e.Silent) (al : AllocationId) : fundings al evs = 0 := by
  refine countP_eq_zero.mpr fun e he => ?_
  have := h e he
  cases e <;> first | exact False.elim this | simp

/-! ## One record -/

/-- Fields of a job that are written once, or never again after its end. -/
structure JobRecord.Ages (r r' : JobRecord) : Prop where
  frozen : r.state.isTerminal = true → r'.state = r.state ∧ r'.terminalAt = r.terminalAt ∧
    r'.attempts = r.attempts ∧ r'.retriesUsed = r.retriesUsed
  abort : ∀ q, r.spec.abortRequested = some q → r'.spec.abortRequested = some q
  /-- of the spec only the metadata and the abort flag are ever written -/
  spec : r'.spec = { r.spec with
    metadata := r'.spec.metadata, abortRequested := r'.spec.abortRequested }

theorem JobRecord.Ages.retry (h : r.Ages r') : r'.spec.retry = r.spec.retry := by
  rw [h.spec]

/-- Fields of an attempt that are written once. -/
structure AttemptRecord.Ages (a a' : AttemptRecord) : Prop where
  same : Linked.SameAttempt a a'
  started : ∀ t, a.startedAt = some t → a'.startedAt = some t
  ended : ∀ t, a.endedAt = some t → a'.endedAt = some t
  settled : ∀ x, a.settlement = some x → a'.settlement = some x

theorem JobRecord.Ages.refl (r : JobRecord) : r.Ages r :=
  ⟨fun _ => ⟨rfl, rfl, rfl, rfl⟩, fun _ h => h, rfl⟩

theorem JobRecord.Ages.trans (h : r.Ages r') (h' : r'.Ages r'') : r.Ages r'' := by
  refine ⟨fun ht => ?_, fun q hq => h'.abort q (h.abort q hq), by rw [h'.spec, h.spec]⟩
  obtain ⟨h1, h2, h3, h4⟩ := h.frozen ht
  obtain ⟨h1', h2', h3', h4'⟩ := h'.frozen (by rw [h1]; exact ht)
  exact ⟨h1'.trans h1, h2'.trans h2, h3'.trans h3, h4'.trans h4⟩

theorem AttemptRecord.Ages.refl (a : AttemptRecord) : a.Ages a :=
  ⟨.refl a, fun _ h => h, fun _ h => h, fun _ h => h⟩

theorem AttemptRecord.Ages.trans (h : a.Ages a') (h' : a'.Ages a'') : a.Ages a'' :=
  ⟨h.same.trans h'.same, fun t ht => h'.started t (h.started t ht),
    fun t ht => h'.ended t (h.ended t ht), fun x hx => h'.settled x (h.settled x hx)⟩

/-- The outcome is charged to the retry budget of a job that it requeues. -/
def AttemptOutcome.consumesRetry (retry : RetryPolicy) : AttemptOutcome → Bool
  | .revoked | .preempted _ => false
  | o => o.class_ = .platform || o.class_ = .userError && retry.retryUserErrors

/-- The step requeues a job after an attempt whose outcome is charged. -/
def StateMachine.chargedStep (s : StateMachine) (retry : RetryPolicy) : JobState × JobState → Bool
  | (.attempting id, .queued) =>
    match s.attempts.get? id with
    | none => false
    | some a =>
      match a.attempt.state with
      | .terminal o => AttemptOutcome.consumesRetry retry o
      | _ => false
  | _ => false

/-- The life of a job between two states of the machine, the later one `s'`. -/
structure JobLife (s' : StateMachine) (r : JobRecord) (steps : List (JobState × JobState))
    (r' : JobRecord) : Prop where
  trail : Trail (fun x y => x.mayTransitionTo y = true) r.state steps r'.state
  ages : r.Ages r'
  /-- a job leaves an attempt by way of the attempt's end -/
  ended : ∀ id x, (.attempting id, x) ∈ steps →
    ∃ a o, s'.attempts.get? id = some a ∧ a.attempt.state = .terminal o
  retries : r'.retriesUsed = r.retriesUsed + steps.countP (s'.chargedStep r.spec.retry)
  unqueued : r.spec.abortRequested.isSome = true → ∀ x, (x, .queued) ∉ steps

/-- The life of an attempt; its events name the states it enters. -/
structure AttemptLife (a : AttemptRecord) (states : List AttemptState) (a' : AttemptRecord) :
    Prop where
  trail : ∃ steps, states = steps.map Prod.snd ∧
    Trail (fun x y => x.mayTransitionTo y = true) a.attempt.state steps a'.attempt.state
  ages : a.Ages a'

inductive JobTold (s' : StateMachine) :
    Option JobRecord → List (JobState × JobState) → Option JobRecord → Prop where
  | absent : JobTold s' none [] none
  | goes {r steps r'} : JobLife s' r steps r' → JobTold s' (some r) steps (some r')

inductive AttemptTold : Option AttemptRecord → List AttemptState → Option AttemptRecord → Prop where
  | absent : AttemptTold none [] none
  | goes {a states a'} : AttemptLife a states a' → AttemptTold (some a) states (some a')
  | placed {a states a'} : a.attempt.state = .accruing ∨ a.attempt.state = .ready →
      AttemptLife a states a' → AttemptTold none (a.attempt.state :: states) (some a')

theorem AttemptLife.refl (a : AttemptRecord) : AttemptLife a [] a := ⟨⟨[], rfl, .nil _⟩, .refl a⟩

theorem AttemptLife.trans (h : AttemptLife a x a') (h' : AttemptLife a' x' a'') :
    AttemptLife a (x ++ x') a'' := by
  obtain ⟨⟨steps, rfl, ht⟩, ha⟩ := h
  obtain ⟨⟨steps', rfl, ht'⟩, ha'⟩ := h'
  exact ⟨⟨steps ++ steps', by simp, ht.append ht'⟩, ha.trans ha'⟩

theorem AttemptState.terminal_stuck (o : AttemptOutcome) (x : AttemptState) :
    ¬(AttemptState.mayTransitionTo (.terminal o) x = true) := by
  simp [mayTransitionTo, isTerminal]

/-- What has ended stays as it ended. -/
theorem AttemptLife.terminal (h : AttemptLife a x a') (ho : a.attempt.state = .terminal o) :
    x = [] ∧ a'.attempt.state = .terminal o := by
  obtain ⟨⟨steps, rfl, ht⟩, -⟩ := h
  rw [ho] at ht
  obtain ⟨rfl, h⟩ := ht.stuck (AttemptState.terminal_stuck o)
  exact ⟨rfl, h⟩

theorem AttemptTold.trans {a a' : Option AttemptRecord} (h : AttemptTold a x a')
    (h' : AttemptTold a' x' a'') : AttemptTold a (x ++ x') a'' := by
  cases h with
  | absent => exact h'
  | goes h =>
    cases h' with
    | goes h' => exact .goes (h.trans h')
  | placed hst h =>
    cases h' with
    | goes h' => exact .placed hst (h.trans h')

/-! ## The whole state -/

/-- The events tell what happened to the jobs and attempts between two states. -/
structure Traced (s : StateMachine) (evs : List Event) (s' : StateMachine) : Prop where
  jobs : ∀ j, JobTold s' (s.jobs.get? j) (jobSteps j evs) (s'.jobs.get? j)
  attempts : ∀ id, AttemptTold (s.attempts.get? id) (attemptSteps id evs) (s'.attempts.get? id)

theorem StateMachine.chargedStep_congr
    (h : ∀ id, AttemptTold (s.attempts.get? id) (attemptSteps id evs) (s'.attempts.get? id))
    {step : JobState × JobState} (hend : ∀ id x, step = (.attempting id, x) →
      ∃ a o, s.attempts.get? id = some a ∧ a.attempt.state = .terminal o) (retry : RetryPolicy) :
    s'.chargedStep retry step = s.chargedStep retry step := by
  obtain ⟨x, y⟩ := step
  cases x with
  | attempting id =>
    obtain ⟨a, o, ha, ho⟩ := hend id y rfl
    have hid := h id
    rw [ha] at hid
    generalize attemptSteps id evs = states at hid
    generalize ha' : s'.attempts.get? id = a' at hid
    cases hid with
    | goes hlife =>
      obtain ⟨-, ho'⟩ := hlife.terminal ho
      cases y <;> simp [chargedStep, ha, ha', ho, ho']
  | _ => rfl

theorem JobLife.trans {x : List (JobState × JobState)} (h : JobLife s1 r x r1)
    (h' : JobLife s2 r1 y r2)
    (hatt : ∀ id, AttemptTold (s1.attempts.get? id) (attemptSteps id evs) (s2.attempts.get? id)) :
    JobLife s2 r (x ++ y) r2 := by
  refine ⟨h.trail.append h'.trail, h.ages.trans h'.ages, ?_, ?_, ?_⟩
  · intro id z hz
    rcases mem_append.mp hz with hz | hz
    · obtain ⟨a, o, ha, ho⟩ := h.ended id z hz
      have hid := hatt id
      rw [ha] at hid
      generalize attemptSteps id evs = states at hid
      generalize ha' : s2.attempts.get? id = a' at hid
      cases hid with
      | goes hlife => exact ⟨_, o, rfl, (hlife.terminal ho).2⟩
    · exact h'.ended id z hz
  · have hcount : x.countP (s2.chargedStep r.spec.retry) =
        x.countP (s1.chargedStep r.spec.retry) := by
      refine countP_congr fun step hstep => ?_
      rw [StateMachine.chargedStep_congr hatt fun id z e => h.ended id z (e ▸ hstep)]
    have h1 := h.retries
    have h2 := h'.retries
    rw [h.ages.retry] at h2
    rw [countP_append, hcount]
    omega
  · intro habort z hz
    obtain ⟨q, hq⟩ := Option.isSome_iff_exists.mp habort
    rcases mem_append.mp hz with hz | hz
    · exact h.unqueued habort z hz
    · exact h'.unqueued (by rw [h.ages.abort q hq]; rfl) z hz

namespace Traced

variable {s'' : StateMachine} {evs' : List Event}

theorem trans (h : Traced s evs s') (h' : Traced s' evs' s'') : Traced s (evs ++ evs') s'' := by
  refine ⟨fun j => ?_, fun id => ?_⟩
  · rw [jobSteps_append]
    have h1 := h.jobs j
    have h2 := h'.jobs j
    generalize s.jobs.get? j = r at h1
    generalize s'.jobs.get? j = r' at h1 h2
    generalize s''.jobs.get? j = r'' at h2
    generalize jobSteps j evs = x at h1
    generalize jobSteps j evs' = y at h2
    cases h1 with
    | absent =>
      cases h2 with
      | absent => exact .absent
    | goes h1 =>
      cases h2 with
      | goes h2 => exact .goes (h1.trans h2 h'.attempts)
  · rw [attemptSteps_append]
    exact (h.attempts id).trans (h'.attempts id)

end Traced

theorem JobLife.refl (s' : StateMachine) (r : JobRecord) : JobLife s' r [] r :=
  ⟨.nil _, .refl r, by simp, by simp, by simp⟩

theorem JobTold.refl (s' : StateMachine) (r : Option JobRecord) : JobTold s' r [] r := by
  cases r with
  | none => exact .absent
  | some r => exact .goes (.refl s' r)

theorem AttemptTold.refl (a : Option AttemptRecord) : AttemptTold a [] a := by
  cases a with
  | none => exact .absent
  | some a => exact .goes (.refl a)

namespace Traced

/-- Neither jobs nor attempts change, and nothing is reported of them. -/
theorem of_eq (hj : s'.jobs = s.jobs) (ha : s'.attempts = s.attempts)
    (hsteps : ∀ j, jobSteps j evs = []) (hstates : ∀ id, attemptSteps id evs = []) :
    Traced s evs s' := by
  refine ⟨fun j => ?_, fun id => ?_⟩
  · rw [hj, hsteps]
    exact .refl s' _
  · rw [ha, hstates]
    exact .refl _

theorem refl (s : StateMachine) : Traced s [] s := of_eq rfl rfl (fun _ => rfl) fun _ => rfl

/-- One attempt moves. -/
theorem of_attempt {id : AttemptId} (ha : s.attempts.get? id = some a)
    (hlife : AttemptLife a states a') (hj : s'.jobs = s.jobs)
    (hatt : s'.attempts = s.attempts.insert id a') (hsteps : ∀ j, jobSteps j evs = [])
    (hstates : ∀ i, attemptSteps i evs = if id = i then states else []) : Traced s evs s' := by
  refine ⟨fun j => ?_, fun i => ?_⟩
  · rw [hj, hsteps]
    exact .refl s' _
  · rw [hatt, hstates, OrdMap.get?_insert]
    split_ifs with hi
    · rw [← hi, ha]
      exact .goes hlife
    · exact .refl _

/-- One job moves. -/
theorem of_job {job : JobId} (hr : s.jobs.get? job = some r) (hlife : JobLife s' r steps r')
    (hatt : s'.attempts = s.attempts) (hj : s'.jobs = s.jobs.insert job r')
    (hsteps : ∀ j, jobSteps j evs = if job = j then steps else [])
    (hstates : ∀ i, attemptSteps i evs = []) : Traced s evs s' := by
  refine ⟨fun j => ?_, fun i => ?_⟩
  · rw [hj, hsteps, OrdMap.get?_insert]
    split_ifs with h
    · rw [← h, hr]
      exact .goes hlife
    · exact .refl s' _
  · rw [hatt, hstates]
    exact .refl _

end Traced

/-! ## The pledge pass -/

namespace Effects

/-- One funding is reported when the allocation is complete. -/
theorem pledgeOne_events (node : NodeId) (seq : Nat) (id : AllocationId) (fx : Effects)
    (free : Resources) :
    ∃ job, (pledgeOne node seq id fx free).1.events = fx.events ++
      if (pledgeOne node seq id fx free).2.2 then [.allocationFunded id job node] else [] := by
  unfold pledgeOne
  split
  · exact ⟨0, by simp⟩
  · rename_i r _
    refine ⟨r.allocation.job, ?_⟩
    by_cases hz : (free.componentMin
        (r.allocation.requested.saturatingSub r.allocation.funded)).isZero = true
    · simp only [if_pos hz]
      simp
    · simp only [if_neg hz]
      by_cases hfull : r.allocation.funded.saturatingAdd (free.componentMin
          (r.allocation.requested.saturatingSub r.allocation.funded)) = r.allocation.requested
      · simp only [if_pos hfull]
        rfl
      · simp only [if_neg hfull]
        simp [memoAdd, modifyAllocation]

/-- The loop reports the allocations it completes, and nothing else. -/
theorem pledgeLoop_events (node : NodeId) (l : List (Nat × AllocationId)) (fx : Effects)
    (free : Resources) :
    ∃ evs, (pledgeLoop node l fx free).1.events = fx.events ++ evs ∧
      (∀ j, jobSteps j evs = []) ∧ (∀ i, attemptSteps i evs = []) ∧
      ∀ al, fundings al evs = (pledgeLoop node l fx free).2.count al := by
  induction l generalizing fx free with
  | nil => exact ⟨[], by simp [pledgeLoop], by simp, by simp, by simp [pledgeLoop]⟩
  | cons e rest ih =>
    obtain ⟨seq, id⟩ := e
    obtain ⟨job, hone⟩ := pledgeOne_events node seq id fx free
    simp only [pledgeLoop]
    split_ifs
    · exact ⟨[], by simp, by simp, by simp, by simp⟩
    · generalize pledgeOne node seq id fx free = out at hone
      obtain ⟨fx1, free1, full⟩ := out
      obtain ⟨evs, hevs, hj, hi, hal⟩ := ih fx1 free1
      cases full with
      | false =>
        have hone' : fx1.events = fx.events := by simpa using hone
        exact ⟨evs, by rw [← hone']; exact hevs, hj, hi, hal⟩
      | true =>
        have hone' : fx1.events = fx.events ++ [.allocationFunded id job node] := hone
        refine ⟨.allocationFunded id job node :: evs, ?_, hj, hi, fun al => ?_⟩
        · rw [hone', append_assoc] at hevs
          exact hevs
        · rw [count_cons, ← hal al]
          simp only [fundings, countP_cons]
          simp

end Effects

/-- Readying the newly funded: each of their attempts is reported ready once. -/
theorem readyAll_events {fresh : List AllocationId} (h : Linked fx.st fresh) (hnd : fresh.Nodup)
    (hex : ∀ al ∈ fresh, ∃ r, fx.st.allocations.get? al = some r) :
    ∃ evs, (fx.readyAll fresh).events = fx.events ++ evs ∧ (∀ j, jobSteps j evs = []) ∧
      (∀ al, fundings al evs = 0) ∧
      (∀ id, fx.st.attempts.get? id = none →
        attemptSteps id evs = [] ∧ (fx.readyAll fresh).st.attempts.get? id = none) ∧
      ∀ id a, fx.st.attempts.get? id = some a →
        attemptSteps id evs = (if a.attempt.allocation ∈ fresh then [.ready] else []) ∧
        (fx.readyAll fresh).st.attempts.get? id =
          some (if a.attempt.allocation ∈ fresh then a.readied else a) := by
  induction fresh generalizing fx with
  | nil => exact ⟨[], by simp [readyAll], by simp, by simp,
      fun id hid => ⟨rfl, hid⟩, fun id a ha => ⟨by simp, by simpa [readyAll] using ha⟩⟩
  | cons al rest ih =>
    obtain ⟨hnot, hnd'⟩ := nodup_cons.mp hnd
    obtain ⟨id0, a0, fx1, ha0, haal, -, hstep, hL, -, hst, hev⟩ :=
      readyAll_cons h hnot (hex al (by simp))
    have hall : fx1.st.allocations = fx.st.allocations := by rw [hst]
    obtain ⟨evs, hevs, hj, hf, hnone, hsome⟩ :=
      ih hL hnd' fun x hx => hall ▸ hex x (mem_cons_of_mem _ hx)
    have hget id : fx1.st.attempts.get? id =
        if id0 = id then some a0.readied else fx.st.attempts.get? id := by
      rw [hst, OrdMap.get?_insert]
    rw [hstep]
    refine ⟨.attemptStateChanged id0 a0.attempt.job a0.attempt.node .ready :: evs,
      by rw [hevs, hev]; simp, hj, hf, fun id hid => ?_, fun id a ha => ?_⟩
    · have hne : id0 ≠ id := fun e => by simp [← e, ha0] at hid
      obtain ⟨h1, h2⟩ := hnone id (by rw [hget, if_neg hne, hid])
      exact ⟨by simpa [attemptSteps, hne] using h1, h2⟩
    · by_cases hid : id0 = id
      · -- the attempt readied here; its allocation is not readied again
        subst hid
        rw [ha0] at ha
        cases ha
        obtain ⟨h1, h2⟩ := hsome _ a0.readied (by rw [hget, if_pos rfl])
        have hal : a0.readied.attempt.allocation = al := haal
        rw [hal, if_neg hnot] at h1 h2
        rw [haal]
        exact ⟨by simpa [attemptSteps] using h1, by simpa using h2⟩
      · have hne : a.attempt.allocation ≠ al := fun e =>
          hid (h.attempt_unique ha0 ha (haal.trans e.symm))
        obtain ⟨h1, h2⟩ := hsome id a (by rw [hget, if_neg hid, ha])
        have hmem : a.attempt.allocation ∈ al :: rest ↔ a.attempt.allocation ∈ rest := by
          simp [hne]
        simp only [hmem]
        exact ⟨by simpa [attemptSteps, hid] using h1, h2⟩

/-- An allocation is reported funded as often as its attempt is reported ready. -/
structure FundsTold (evs : List Event) (s' : StateMachine) : Prop where
  ready : ∀ al r, s'.allocations.get? al = some r →
    fundings al evs = (attemptSteps r.allocation.attempt evs).count .ready
  absent : ∀ al, s'.allocations.get? al = none → fundings al evs = 0

theorem AttemptRecord.Ages.readied (a : AttemptRecord) : a.Ages a.readied :=
  ⟨⟨rfl, rfl, rfl, rfl, rfl⟩, fun _ h => h, fun _ h => h, fun _ h => h⟩

theorem AttemptLife.readied (h : a.attempt.state = .accruing) :
    AttemptLife a [.ready] a.readied := by
  refine ⟨⟨[(.accruing, .ready)], rfl, ?_⟩, .readied a⟩
  rw [h]
  exact .single rfl

/-- A pledge pass reports what it funds and readies. -/
theorem pledgeNode_told (node : NodeId) (h : Books fx) :
    ∃ evs, (fx.pledgeNode node).events = fx.events ++ evs ∧ (∀ j, jobSteps j evs = []) ∧
      Traced fx.st evs (fx.pledgeNode node).st ∧ FundsTold evs (fx.pledgeNode node).st := by
  rcases pledgeNode_cases node h.linked h.fit h.memo with
    ⟨-, heq⟩ | ⟨fx', fresh, hloop, hD, hex, heq⟩
  · rw [heq]
    exact ⟨[], by simp, by simp, .refl _, by simp, by simp⟩
  · obtain ⟨evs1, hevs1, hj1, hi1, hf1⟩ := pledgeLoop_events node (fx.st.nodeQueue node) fx
      (fx.st.freeCapacity node fx.used)
    rw [heq]
    simp only [hloop] at hevs1 hf1
    obtain ⟨evs2, hevs2, hj2, hf2, hnone, hsome⟩ :=
      readyAll_events (append_nil fresh ▸ hD.linked) hD.fresh_nodup hex
    obtain ⟨-, -, hp, hall⟩ := readyAll_spec (append_nil fresh ▸ hD.linked) hD.fresh_nodup hex
    have hcount : ∀ al, fresh.count al = if al ∈ fresh then 1 else 0 :=
      fun al => hD.fresh_nodup.count
    refine ⟨evs1 ++ evs2, by rw [hevs2, hevs1, append_assoc], fun j => ?_, ⟨fun j => ?_,
      fun id => ?_⟩, fun al r hr => ?_, fun al hal => ?_⟩
    · rw [jobSteps_append, hj1, hj2, nil_append]
    · rw [jobSteps_append, hj1, hj2, hp.jobs, hD.pledged.jobs]
      exact .refl _ _
    · rw [attemptSteps_append, hi1, nil_append, ← hD.attempts]
      cases ha : fx'.st.attempts.get? id with
      | none =>
        obtain ⟨h1, h2⟩ := hnone id ha
        rw [h1, h2]
        exact .absent
      | some a =>
        obtain ⟨h1, h2⟩ := hsome id a ha
        rw [h1, h2]
        split_ifs with hmem
        · obtain ⟨r, -, ht⟩ := hD.linked.allocation_of ha
          exact .goes (.readied (ht.funding (by simp [hmem])).1)
        · exact .refl _
    · rw [hall] at hr
      obtain ⟨a, ha, hal, -⟩ := hD.linked.tied hr
      obtain ⟨h1, -⟩ := hsome _ a ha
      rw [fundings_append, hf1, hf2, attemptSteps_append, hi1, nil_append, h1, hal, hcount]
      split_ifs <;> simp
    · rw [hall] at hal
      have hnot : al ∉ fresh := fun hm => by
        obtain ⟨r, hr⟩ := hex al hm
        simp [hr] at hal
      rw [fundings_append, hf1, hf2, hcount, if_neg hnot]

/-! ## Effects that tell what they do -/

/-- What `fx'` reports after `fx` is the trace of what it did. -/
def Told (fx fx' : Effects) : Prop :=
  ∃ evs, fx'.events = fx.events ++ evs ∧ Traced fx.st evs fx'.st ∧ FundsTold evs fx'.st

/-- An attempt that was there still is, with its allocation. -/
theorem Traced.attempt_some (h : Traced s evs s') (ha : s.attempts.get? id = some a) :
    ∃ a', s'.attempts.get? id = some a' ∧ AttemptLife a (attemptSteps id evs) a' := by
  have hid := h.attempts id
  rw [ha] at hid
  generalize attemptSteps id evs = states at hid
  generalize s'.attempts.get? id = a' at hid
  cases hid with
  | goes hlife => exact ⟨_, rfl, hlife⟩

theorem Traced.attempt_none (h : Traced s evs s') (ha : s'.attempts.get? id = none) :
    attemptSteps id evs = [] := by
  have hid := h.attempts id
  rw [ha] at hid
  generalize s.attempts.get? id = a at hid
  generalize attemptSteps id evs = states at hid
  cases hid
  rfl

theorem FundsTold.nil (s : StateMachine) : FundsTold [] s := ⟨by simp, by simp⟩

/-- Reports of linked states go together. -/
theorem FundsTold.append (h : FundsTold evs s') (h' : FundsTold evs' s'') (ht : Traced s evs s')
    (ht' : Traced s' evs' s'') (hL : Linked s' []) (hL' : Linked s'' []) :
    FundsTold (evs ++ evs') s'' := by
  refine ⟨fun al r'' hr'' => ?_, fun al hal => ?_⟩
  · obtain ⟨a'', ha'', hal'', -⟩ := hL'.tied hr''
    rw [fundings_append, attemptSteps_append, count_append, ← h'.ready al r'' hr'']
    congr 1
    cases hr' : s'.allocations.get? al with
    | some r' =>
      -- the attempt of the allocation is the same before and after
      obtain ⟨a', ha', hal', -⟩ := hL.tied hr'
      obtain ⟨b, hb, hlife⟩ := ht'.attempt_some ha'
      have hsame : r'.allocation.attempt = r''.allocation.attempt :=
        hL'.attempt_unique hb ha'' (by rw [hlife.ages.same.allocation, hal', hal''])
      rw [h.ready al r' hr', hsame]
    | none =>
      cases ha' : s'.attempts.get? r''.allocation.attempt with
      | none => rw [h.absent al hr', ht.attempt_none ha', count_nil]
      | some a' =>
        obtain ⟨r', hr1, -⟩ := hL.allocation_of ha'
        obtain ⟨b, hb, hlife⟩ := ht'.attempt_some ha'
        rw [ha''] at hb
        cases hb
        rw [← hlife.ages.same.allocation, hal'', hr'] at hr1
        cases hr1
  · rw [fundings_append, h'.absent al hal, Nat.add_zero]
    cases hr' : s'.allocations.get? al with
    | none => exact h.absent al hr'
    | some r' =>
      obtain ⟨a', ha', hal', -⟩ := hL.tied hr'
      obtain ⟨b, hb, hlife⟩ := ht'.attempt_some ha'
      obtain ⟨q, hq, -⟩ := hL'.allocation_of hb
      rw [hlife.ages.same.allocation, hal', hal] at hq
      cases hq

theorem Told.refl (fx : Effects) : Told fx fx := ⟨[], by simp, .refl _, .nil _⟩

theorem Told.trans (h : Told fx fx') (h' : Told fx' fx'') (hL : Linked fx'.st [])
    (hL' : Linked fx''.st []) : Told fx fx'' := by
  obtain ⟨evs, he, ht, hf⟩ := h
  obtain ⟨evs', he', ht', hf'⟩ := h'
  exact ⟨evs ++ evs', by rw [he', he, append_assoc], ht.trans ht', hf.append hf' ht ht' hL hL'⟩

/-! ## Stamps -/

/-- A job's stamps agree with its state. -/
structure JobRecord.Stamped (r : JobRecord) : Prop where
  terminalAt : r.terminalAt.isSome = r.state.isTerminal
  abort : r.spec.abortRequested.isSome = true → r.state ≠ .queued
  retries : r.retriesUsed ≤ r.spec.retry.maxRetries

/-- An attempt's stamps agree with its state. -/
structure AttemptRecord.Stamped (a : AttemptRecord) : Prop where
  ended : a.endedAt.isSome = a.attempt.state.isTerminal
  settled : a.settlement.isSome = a.attempt.state.isTerminal
  started : a.attempt.state = .running ∨ a.attempt.state = .finalizing → a.startedAt.isSome = true

/-- All stamps agree and, outside `skip`, an abort is pending only on a
    dispatched attempt. -/
structure Lived (skip : Set JobId) (s : StateMachine) : Prop where
  jobs : ∀ {j r}, s.jobs.get? j = some r → r.Stamped
  attempts : ∀ {id a}, s.attempts.get? id = some a → a.Stamped
  aborts : ∀ {j r id a}, j ∉ skip → s.jobs.get? j = some r →
    r.spec.abortRequested.isSome = true → r.state = .attempting id →
    s.attempts.get? id = some a → a.attempt.state ≠ .accruing ∧ a.attempt.state ≠ .ready

theorem Lived.mono {skip' : Set JobId} (h : Lived skip s) (hsub : skip ⊆ skip') : Lived skip' s :=
  ⟨h.jobs, h.attempts, fun hj => h.aborts fun hm => hj (hsub hm)⟩

theorem AttemptRecord.Stamped.readied (h : a.Stamped) (hacc : a.attempt.state = .accruing) :
    a.readied.Stamped := by
  have h1 := h.ended
  have h2 := h.settled
  rw [hacc] at h1 h2
  exact ⟨h1, h2, by simp [AttemptRecord.readied]⟩

/-- The end of an attempt and its settlement are stamped together. -/
theorem AttemptRecord.Stamped.ends (h : a.Stamped) (hlive : a.attempt.state.isTerminal = false)
    (o : AttemptOutcome) (at_ : Timestamp) (x : Settlement) :
    ((a.endWith o at_).settleWith x).Stamped := by
  have h1 : a.endedAt = none := by simpa [hlive] using h.ended
  have h2 : a.settlement = none := by simpa [hlive] using h.settled
  have h3 : (a.endWith o at_).settlement = none := h2
  rw [settleWith, h3]
  refine ⟨?_, rfl, ?_⟩
  · simp [endWith, h1, isTerminal]
  · simp [endWith]

theorem AttemptLife.ends (hlive : a.attempt.state.isTerminal = false) (o : AttemptOutcome)
    (at_ : Timestamp) : AttemptLife a [.terminal o] (a.endWith o at_) := by
  refine ⟨⟨[(a.attempt.state, .terminal o)], rfl, .single ?_⟩, a.endWith_same o at_, fun _ h => h,
    fun t ht => ?_, fun _ h => h⟩
  · unfold mayTransitionTo
    rw [if_neg (by simp [hlive])]
    rfl
  · simp [endWith, ht]

theorem AttemptLife.settles (a : AttemptRecord) (x : Settlement) :
    AttemptLife a [] (a.settleWith x) := by
  obtain ⟨hatt, hgroup⟩ := a.settleWith_attempt x
  refine ⟨⟨[], rfl, by rw [hatt]; exact .nil _⟩, ⟨by rw [hatt], by rw [hatt], by rw [hatt],
    by rw [hatt], hgroup⟩, fun t ht => ?_, fun t ht => ?_, fun y hy => ?_⟩
  · unfold settleWith
    split_ifs <;> exact ht
  · unfold settleWith
    split_ifs <;> exact ht
  · unfold settleWith
    rw [if_neg (by simp [hy])]
    exact hy

/-- A job is requeued only while no abort is pending and, where the outcome is
    charged, only while the budget lasts. -/
theorem Effects.resolution_requeue {b : Bool} (h : resolution r o = .requeue b) :
    r.spec.abortRequested = none ∧ b = AttemptOutcome.consumesRetry r.spec.retry o ∧
      (b = true → r.retriesUsed < r.spec.retry.maxRetries) := by
  unfold resolution at h
  simp only at h
  split at h
  · cases h
  · split_ifs at h with habort
    cases h
    exact ⟨by simpa using habort, rfl, by simp⟩
  · split_ifs at h with habort
    cases h
    exact ⟨by simpa using habort, rfl, by simp⟩
  · split_ifs at h with hsucc helig
    cases h
    simp only [Bool.and_eq_true, Bool.not_eq_true', Option.isSome_eq_false_iff,
      Option.isNone_iff_eq_none, decide_eq_true_eq] at helig
    refine ⟨helig.1.2, ?_, fun _ => helig.2⟩
    have hcharged : AttemptOutcome.consumesRetry r.spec.retry o =
        (o.class_ = .platform || o.class_ = .userError && r.spec.retry.retryUserErrors) := by
      unfold AttemptOutcome.consumesRetry
      split <;> simp_all
    cases hclass : o.class_ <;> simp_all

theorem JobRecord.stampTerminal_spec (at_ : Timestamp) (r : JobRecord) :
    (r.stampTerminal at_).spec = r.spec ∧ (r.stampTerminal at_).retriesUsed = r.retriesUsed ∧
      (r.stampTerminal at_).terminalAt.isSome = true := by
  unfold stampTerminal
  split_ifs with h
  · exact ⟨rfl, rfl, rfl⟩
  · refine ⟨rfl, rfl, ?_⟩
    simpa [Option.isSome_iff_ne_none] using h

/-- A job resolved after an attempt: it ends, or it is queued again. -/
theorem JobRecord.resolve_cases (o : AttemptOutcome) (at_ : Timestamp)
    (hst : r.state = .attempting id) :
    (∃ to_, to_.isTerminal = true ∧ r.resolve o at_ = { r.stampTerminal at_ with state := to_ }) ∨
      r.spec.abortRequested = none ∧ ∃ b, b = AttemptOutcome.consumesRetry r.spec.retry o ∧
        (b = true → r.retriesUsed < r.spec.retry.maxRetries) ∧
        r.resolve o at_ = { r with
          retriesUsed := if b then r.retriesUsed + 1 else r.retriesUsed, state := .queued } := by
  unfold resolve
  rw [if_neg (by simp [hst, JobState.isTerminal])]
  cases hres : resolution r o with
  | terminal to_ => exact .inl ⟨to_, resolution_terminal hres, rfl⟩
  | requeue b =>
    obtain ⟨habort, hb, hlt⟩ := resolution_requeue hres
    exact .inr ⟨habort, b, hb, hlt, rfl⟩

theorem JobRecord.Stamped.resolve (h : r.Stamped) (o : AttemptOutcome) (at_ : Timestamp)
    (hst : r.state = .attempting id) : (r.resolve o at_).Stamped := by
  rcases r.resolve_cases o at_ hst with ⟨to_, hto, heq⟩ | ⟨habort, b, -, hlt, heq⟩
  · obtain ⟨hspec, hret, hat⟩ := r.stampTerminal_spec at_
    rw [heq]
    refine ⟨by rw [hat]; exact hto.symm, fun _ e => ?_, by rw [hret, hspec]; exact h.retries⟩
    have e' : to_ = .queued := e
    rw [e'] at hto
    cases hto
  · rw [heq]
    refine ⟨?_, by simp [habort], ?_⟩
    · have := h.terminalAt
      rw [hst] at this
      exact this
    · have := h.retries
      cases b with
      | false => exact this
      | true => exact hlt rfl

theorem JobState.attempting_ends {x : JobState} (h : x.isTerminal = true ∨ x = .queued) :
    JobState.mayTransitionTo (.attempting id) x = true := by
  cases x <;> simp_all [JobState.mayTransitionTo, JobState.isTerminal]

/-- The life of a job through the end of its attempt. -/
theorem JobLife.resolves (at_ : Timestamp) (hst : r.state = .attempting id)
    (ha : s'.attempts.get? id = some a) (ho : a.attempt.state = .terminal o) :
    (r.resolve o at_).state ≠ r.state ∧
      JobLife s' r [(r.state, (r.resolve o at_).state)] (r.resolve o at_) := by
  have hlive : r.state.isTerminal = false := by rw [hst]; rfl
  have hended : ∀ i (x y : JobState), (JobState.attempting i, x) ∈ [(r.state, y)] →
      ∃ a o, s'.attempts.get? i = some a ∧ a.attempt.state = .terminal o := by
    intro i x y hmem
    rw [hst, mem_singleton, Prod.mk.injEq, JobState.attempting.injEq] at hmem
    rw [hmem.1]
    exact ⟨a, o, ha, ho⟩
  refine ⟨fun e => r.resolve_state o at_ id (e.trans hst), ?_⟩
  rcases r.resolve_cases o at_ hst with ⟨to_, hto, heq⟩ | ⟨habort, b, hb, hlt, heq⟩
  · obtain ⟨hspec, hret, -⟩ := r.stampTerminal_spec at_
    have hne : to_ ≠ .queued := fun e => by rw [e] at hto; cases hto
    rw [heq]
    refine ⟨.single ?_, ⟨by simp [hlive], fun q hq => by rw [hspec]; exact hq,
      by rw [hspec]⟩, fun i x => hended i x _, ?_, ?_⟩
    · rw [hst]
      exact JobState.attempting_ends (.inl hto)
    · have hzero : s'.chargedStep r.spec.retry (r.state, to_) = false := by
        rw [hst]
        cases to_ <;> first | rfl | exact absurd rfl hne
      simp only [countP_cons, hzero, hret]
      simp
    · intro _ x hx
      rw [mem_singleton, Prod.mk.injEq] at hx
      exact hne hx.2.symm
  · rw [heq]
    refine ⟨.single ?_, ⟨by simp [hlive], fun q hq => hq, rfl⟩, fun i x => hended i x _, ?_,
      by simp [habort]⟩
    · rw [hst]
      exact JobState.attempting_ends (.inr rfl)
    · have hcharged : s'.chargedStep r.spec.retry (r.state, .queued) = b := by
        rw [hst, hb]
        simp [StateMachine.chargedStep, ha, ho]
      simp only [countP_cons, hcharged]
      cases b <;> simp

end Coppice.State
