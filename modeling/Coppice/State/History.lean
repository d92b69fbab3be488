/-
  Coppice.State.History

  The history of a command: what each kind of command does to the life of
  every job and attempt, and that its events tell it.  No lineage holds an
  attempt twice.
-/

import Coppice.State.Chronicle

namespace Coppice.State

open Lib Coppice.Core OrdMap Effects List Duration

/-! ## Histories -/

/-- A job through one command: it lives on, is submitted, or is evicted. -/
inductive JobHistory (s' : StateMachine) :
    Option JobRecord → List (JobState × JobState) → Option JobRecord → Prop where
  | told {r steps r'} : JobTold s' r steps r' → JobHistory s' r steps r'
  | submitted {r} : r.state = .queued → s'.quotaEntities.contains r.spec.quotaEntity = true →
      JobHistory s' none [(.submitted, .accepted), (.accepted, .queued)] (some r)
  | evicted {r} : r.state.isTerminal = true → JobHistory s' (some r) [] none

/-- The attempts through one command: they live on or are placed, unless it is an
    eviction. -/
inductive AttemptsHistory (s : StateMachine) (evs : List Event) (s' : StateMachine) : Prop where
  | told : (∀ id, AttemptTold (s.attempts.get? id) (attemptSteps id evs) (s'.attempts.get? id)) →
      AttemptsHistory s evs s'
  | swept : (∀ id, attemptSteps id evs = []) →
      (∀ id, s'.attempts.get? id = s.attempts.get? id ∨ s'.attempts.get? id = none) →
      AttemptsHistory s evs s'

/-- The events of a command tell what it did. -/
structure History (s : StateMachine) (evs : List Event) (s' : StateMachine) : Prop where
  jobs : ∀ j, JobHistory s' (s.jobs.get? j) (jobSteps j evs) (s'.jobs.get? j)
  attempts : AttemptsHistory s evs s'
  funds : FundsTold evs s'

/-- What every command's own function keeps and tells. -/
structure Chronicled (s : StateMachine) (out : Reply) : Prop where
  lived : Lived ∅ out.1
  history : ∀ x, out.2 = .ok x → History s x.events out.1

variable {s s' : StateMachine} {r r' : JobRecord} {fx : Effects} {skip : Set NodeId}
  {revoked : List AllocationId}

theorem Traced.history (h : Traced s evs s') (hf : FundsTold evs s') : History s evs s' :=
  ⟨fun j => .told (h.jobs j), .told h.attempts, hf⟩

namespace Chronicled

theorem reject (hl : Lived ∅ s) (r : RejectionReason) : Chronicled s (s, .error r) :=
  ⟨hl, fun _ e => by cases e⟩

variable {evs : List Event}

theorem accept (hl : Lived ∅ s') (h : History s evs s') : Chronicled s (s', .ok ⟨evs⟩) :=
  ⟨hl, fun _ e => by cases e; exact h⟩

/-- Jobs stay, attempts are at most annotated, and no state is reported. -/
theorem annotate (hl : Lived ∅ s) (hjobs : s'.jobs = s.jobs)
    (hatt : OrdMap.Rel AttemptRecord.Noted s.attempts s'.attempts) (hevs : ∀ e ∈ evs, e.Silent) :
    Chronicled s (s', .ok ⟨evs⟩) :=
  accept (hl.annotate hjobs hatt) ((Traced.annotate hjobs hatt hevs).history (.silent hevs s'))

theorem finish {fx : Effects} (hl : Lived ∅ fx.st) (h : Told (start s) fx) :
    Chronicled s fx.finish := by
  obtain ⟨evs, hevs, ht, hf⟩ := h
  have hevs' : fx.events = evs := by simpa [start] using hevs
  refine accept hl ?_
  rw [hevs']
  exact ht.history hf

end Chronicled

/-! ## Steps and folds -/

theorem Lived.pledged (h : Lived skip s) (hp : Pledged s s') : Lived skip s' := by
  refine ⟨fun hr => h.jobs (hp.jobs ▸ hr), fun {id a'} ha' => ?_,
    fun {j r id a'} hj hr habort hst ha' => ?_⟩
  · rcases hp.attempts id with e | ⟨a, ha, hacc, ha''⟩
    · exact h.attempts (e ▸ ha')
    · rw [ha''] at ha'
      cases ha'
      exact (h.attempts ha).readied hacc
  · rcases hp.attempts id with e | ⟨a, ha, hacc, -⟩
    · exact h.aborts hj (hp.jobs ▸ hr) habort hst (e ▸ ha')
    · exact absurd hacc (h.aborts hj (hp.jobs ▸ hr) habort hst ha).1

/-- An edit of a job that leaves its state, stamps and budget alone. -/
theorem JobLife.edits (s' : StateMachine) (hst : r'.state = r.state)
    (hterm : r'.terminalAt = r.terminalAt) (hatt : r'.attempts = r.attempts)
    (hret : r'.retriesUsed = r.retriesUsed)
    (habort : ∀ q, r.spec.abortRequested = some q → r'.spec.abortRequested = some q)
    (hspec : r'.spec = { r.spec with
      metadata := r'.spec.metadata, abortRequested := r'.spec.abortRequested }) :
    JobLife s' r [] r' :=
  ⟨by rw [hst]; exact .nil _, ⟨fun _ => ⟨hst, hterm, hatt, hret⟩, habort, hspec⟩, by simp,
    by simp [hret], by simp⟩

theorem JobLife.requestsAbort (s' : StateMachine) (q : AbortRequest) (r : JobRecord) :
    JobLife s' r [] (r.requestAbort q) := by
  obtain ⟨hst, hterm, hatt, hret, hspec, habort, -⟩ := r.requestAbort_spec q
  exact .edits s' hst hterm hatt hret habort (by rw [hspec])

/-- A job without a live attempt is aborted on the spot. -/
theorem JobLife.aborts (s' : StateMachine) (q : AbortRequest) (at_ : Timestamp)
    (hst : r.state.mayTransitionTo .aborted = true) (hidle : ∀ id, r.state ≠ .attempting id) :
    JobLife s' r [(r.state, .aborted)]
      { (r.requestAbort q).stampTerminal at_ with state := .aborted } := by
  obtain ⟨-, -, -, hret, hflag, habort, -⟩ := r.requestAbort_spec q
  obtain ⟨hspec, hret', -⟩ := (r.requestAbort q).stampTerminal_spec at_
  refine ⟨.single hst, ⟨fun ht => ?_, fun q' hq => ?_, ?_⟩, fun id x hx => ?_, ?_, by simp⟩
  · clear hflag hspec
    cases hs : r.state <;> simp_all [JobState.mayTransitionTo, JobState.isTerminal]
  · rw [hspec]
    exact habort q' hq
  · rw [hspec, hflag]
  · rw [mem_singleton, Prod.mk.injEq] at hx
    exact absurd hx.1.symm (hidle id)
  · have hzero : s'.chargedStep r.spec.retry (r.state, .aborted) = false := by
      cases r.state <;> rfl
    rw [hret', hret, countP_cons, hzero]
    simp

/-- Ending an attempt that may be gone or over already. -/
theorem Sound.terminateAny_told (id : AttemptId) (outcome : AttemptOutcome) (rt : Duration)
    (at_ : Timestamp) (pledge : Bool) (h : Sound skip fx) (hl : Lived ∅ fx.st) :
    Lived ∅ (fx.terminateAttempt id outcome rt at_ pledge).st ∧
      Told fx (fx.terminateAttempt id outcome rt at_ pledge) := by
  rcases fx.terminateAttempt_idle_or_live id outcome rt at_ pledge with ⟨-, heq⟩ | ⟨a, ha, hlive⟩
  · rw [heq]
    exact ⟨hl, .refl fx⟩
  · obtain ⟨hl', ht, -⟩ := h.terminateAttempt_told outcome rt at_ pledge
      (hl.mono (Set.empty_subset _)) ha hlive
    exact ⟨hl', ht⟩

/-- A fold of steps that keep the invariant and tell what they do. -/
theorem Told.foldl {α : Type} {f : Effects → α → Effects}
    (hf : ∀ fx x, Sound skip fx → Lived ∅ fx.st →
      Sound skip (f fx x) ∧ Lived ∅ (f fx x).st ∧ Told fx (f fx x)) (l : List α) (fx : Effects)
    (h : Sound skip fx) (hl : Lived ∅ fx.st) :
    Sound skip (l.foldl f fx) ∧ Lived ∅ (l.foldl f fx).st ∧ Told fx (l.foldl f fx) := by
  induction l generalizing fx with
  | nil => exact ⟨h, hl, .refl fx⟩
  | cons x rest ih =>
    obtain ⟨h1, hl1, ht1⟩ := hf fx x h hl
    obtain ⟨h2, hl2, ht2⟩ := ih (f fx x) h1 hl1
    exact ⟨h2, hl2, ht1.trans ht2 h1.books.linked h2.books.linked⟩

namespace StateMachine

/-! ## Agent reports -/

theorem adoptOne_told (at_ : Timestamp) (fx : Effects) (id : AttemptId) (h : Sound ∅ fx)
    (hl : Lived ∅ fx.st) :
    Sound ∅ (adoptOne at_ fx id) ∧ Lived ∅ (adoptOne at_ fx id).st ∧
      Told fx (adoptOne at_ fx id) := by
  refine ⟨(adoptOne_sound at_ fx id h).1, ?_⟩
  unfold adoptOne
  split
  · exact ⟨hl, .refl fx⟩
  · rename_i a ha
    split_ifs with hst
    · exact hl.markAttemptRunning at_ ha hst
    · exact ⟨hl, .refl fx⟩

theorem loseOne_told (at_ : Timestamp) (fx : Effects) (l : LostAttempt) (h : Sound ∅ fx)
    (hl : Lived ∅ fx.st) :
    Sound ∅ (loseOne at_ fx l) ∧ Lived ∅ (loseOne at_ fx l).st ∧ Told fx (loseOne at_ fx l) := by
  refine ⟨(loseOne_sound at_ fx l h).1, ?_⟩
  unfold loseOne
  split
  · exact ⟨hl, .refl fx⟩
  · split_ifs
    · exact ⟨hl, .refl fx⟩
    · exact h.terminateAny_told l.attempt l.outcome l.actualRuntime at_ true hl

/-! ## Nodes -/

theorem registerNode_chronicled (h : Consistent s) (hl : Lived ∅ s) (c : RegisterNode) :
    Chronicled s ((s.registering c).pledgeNode c.node).finish := by
  have hB := registering_books h c
  have hl1 : Lived ∅ (s.registering c).st := hl.annotate rfl (.refl .refl _)
  obtain ⟨-, -, hp, -⟩ := pledgeNode_spec c.node hB.linked hB.fit hB.memo
  obtain ⟨evs, hevs, -, ht, hf⟩ := pledgeNode_told c.node hB
  have hsil : ∀ e ∈ (s.registering c).events, e.Silent := by
    simp [registering, start, emit, Event.Silent]
  have ht0 : Traced s (s.registering c).events (s.registering c).st :=
    .annotate rfl (.refl .refl _) hsil
  have hout : ((s.registering c).pledgeNode c.node).finish =
      (((s.registering c).pledgeNode c.node).st,
      .ok ⟨(s.registering c).events ++ evs⟩) := by
    rw [← hevs]
    rfl
  rw [hout]
  refine .accept (hl1.pledged hp) ((ht0.trans ht).history ⟨fun al r hr => ?_, fun al hal => ?_⟩)
  · exact hf.ready al r hr
  · exact hf.absent al hal

/-- The attempts of a lost node end in turn. -/
theorem loseNodeAttempts_told (at_ : Timestamp) (node : NodeId) (l : List (Nat × AttemptId))
    (fx : Effects) (h : Sound {node} fx) (hl : Lived ∅ fx.st)
    (hon : ∀ v ∈ l, ∀ a, fx.st.attempts.get? v.2 = some a → a.attempt.node = node) :
    Lived ∅ (l.foldl (loseNodeAttempt at_) fx).st ∧ Told fx (l.foldl (loseNodeAttempt at_) fx) ∧
      Linked (l.foldl (loseNodeAttempt at_) fx).st [] := by
  induction l generalizing fx with
  | nil => exact ⟨hl, .refl fx, h.books.linked⟩
  | cons v rest ih =>
    obtain ⟨h1, -, -, hon1⟩ := loseNodeAttempt_sound at_ h hon
    obtain ⟨hl1, ht1⟩ := h.terminateAny_told v.2 .nodeLost _ at_ false hl
    obtain ⟨hl2, ht2, hL2⟩ := ih _ h1 hl1 hon1
    exact ⟨hl2, ht1.trans ht2 h1.books.linked hL2, hL2⟩

theorem declareNodeLost_chronicled (h : Consistent s) (hl : Lived ∅ s) {c : DeclareNodeLost}
    {n : NodeRecord} (hn : s.nodes.get? c.node = some n) : Chronicled s (s.losses c n).finish := by
  obtain ⟨-, h1, hon⟩ := losing_spec h hn
  have hsil : ∀ e ∈ (s.losing c n).events, e.Silent := by
    simp [losing, start, emit, Event.Silent]
  have hl1 : Lived ∅ (s.losing c n).st := hl.annotate rfl (.refl .refl _)
  obtain ⟨hl2, ht, hL2⟩ := loseNodeAttempts_told c.declaredAt c.node
    ((s.losing c n).st.lostVictims c.node) (s.losing c n) (h1.sound {c.node} _) hl1 hon
  have ht0 : Told (start s) (s.losing c n) :=
    ⟨_, rfl, .annotate rfl (.refl .refl _) hsil, .silent hsil _⟩
  exact .finish hl2 (ht0.trans ht h1.linked hL2)

/-! ## Jobs -/

/-- A new job is queued, with nothing stamped. -/
theorem submitted_chronicled (hl : Lived ∅ s) {c : SubmitJob} {rec : JobRecord}
    (hnone : s.jobs.get? c.job.id = none) (hnew : rec.Submitted c)
    (hentity : s.quotaEntities.contains c.job.quotaEntity = true) :
    Chronicled s ({ s with jobs := s.jobs.insert c.job.id rec },
      .ok ⟨submitEvents c.job.id⟩) := by
  have hst := hnew.state
  have hentity' : s.quotaEntities.contains rec.spec.quotaEntity = true := by
    rw [hnew.entity, hentity]
  refine .accept ⟨fun {j r} hr => ?_, hl.attempts, fun {j r id a} hj hr hab hrst ha => ?_⟩
    ⟨fun j => ?_, .told fun id => .refl _, ⟨fun _ _ _ => rfl, fun _ _ => rfl⟩⟩
  · rw [get?_insert] at hr
    split_ifs at hr
    · cases hr
      exact ⟨by rw [hnew.terminalAt, hst]; rfl, by simp [hnew.clear],
        by rw [hnew.retries]; exact Nat.zero_le _⟩
    · exact hl.jobs hr
  · rw [get?_insert] at hr
    split_ifs at hr
    · cases hr
      rw [hst] at hrst
      cases hrst
    · exact hl.aborts hj hr hab hrst ha
  · rw [get?_insert]
    split_ifs with e
    · rw [← e, hnone]
      have hsteps : jobSteps c.job.id (submitEvents c.job.id) =
          [(.submitted, .accepted), (.accepted, .queued)] := by simp [submitEvents, jobSteps]
      rw [hsteps]
      exact .submitted hst hentity'
    · have hsteps : jobSteps j (submitEvents c.job.id) = [] := by
        simp [submitEvents, jobSteps, e]
      rw [hsteps]
      exact .told (.refl _ _)

theorem abortFlagged_consistent (h : Consistent s) (job : JobId) (q : AbortRequest) :
    Consistent (s.abortFlagged job q) := by
  refine (Quiet.kept (.modifyJob s job _ fun j _ => ?_) h).consistent
  obtain ⟨hst, -, hatt, -⟩ := j.requestAbort_spec q
  exact ⟨fun id => by rw [hst], hatt⟩

variable {job : JobId} {id : AttemptId} {a : AttemptRecord}

/-- Flagging a job that is not queued, which may leave it with an undispatched
    attempt. -/
theorem abortFlagged_told (hl : Lived ∅ s) (q : AbortRequest) (hr : s.jobs.get? job = some r)
    (hst : r.state ≠ .queued) :
    Lived {job} (s.abortFlagged job q) ∧ Told (start s) (start (s.abortFlagged job q)) := by
  obtain ⟨hst', hterm, -, hret, hretry, -, -⟩ := r.requestAbort_spec q
  have hjobs : (s.abortFlagged job q).jobs = s.jobs.insert job (r.requestAbort q) :=
    modify_of_some _ hr
  refine ⟨⟨fun {j r'} hr' => ?_, hl.attempts, fun {j r' id a} hj hr' hab hrst ha => ?_⟩,
    [], rfl, .of_job hr (.requestsAbort _ q r) rfl hjobs (fun j => by simp) (fun _ => rfl), .nil _⟩
  · rw [hjobs, get?_insert] at hr'
    split_ifs at hr'
    · cases hr'
      have hs := hl.jobs hr
      exact ⟨by rw [hterm, hst', hs.terminalAt], fun _ => by rw [hst']; exact hst,
        by rw [hret, hretry]; exact hs.retries⟩
    · exact hl.jobs hr'
  · rw [hjobs, get?_insert] at hr'
    split_ifs at hr' with e
    · exact absurd e.symm hj
    · exact hl.aborts (Set.notMem_empty j) hr' hab hrst ha

/-- Flagging a job whose attempt has been dispatched. -/
theorem abortFlagged_lived (hl : Lived ∅ s) (q : AbortRequest) (hr : s.jobs.get? job = some r)
    (hst : r.state = .attempting id) (ha : s.attempts.get? id = some a)
    (hpast : a.attempt.state ≠ .accruing ∧ a.attempt.state ≠ .ready) :
    Lived ∅ (s.abortFlagged job q) := by
  obtain ⟨hl1, -⟩ := abortFlagged_told hl q hr (by simp [hst])
  refine ⟨hl1.jobs, hl1.attempts, fun {j x i b} _ hx hab hxst hb => ?_⟩
  by_cases hj : j = job
  · have hflag : (s.abortFlagged job q).jobs.get? job = some (r.requestAbort q) := by
      simp [abortFlagged, hr]
    rw [hj, hflag] at hx
    cases hx
    rw [(r.requestAbort_spec q).1, hst, JobState.attempting.injEq] at hxst
    have hb' : s.attempts.get? i = some b := hb
    rw [← hxst, ha] at hb'
    cases hb'
    exact hpast
  · exact hl1.aborts (by simpa using hj) hx hab hxst hb

theorem abortIdle_st (q : AbortRequest) (at_ : Timestamp) (hr : s.jobs.get? job = some r) :
    ((start (s.abortFlagged job q)).jobTerminalTransition job .aborted at_).st =
      { s with
        jobs := s.jobs.insert job
          { (r.requestAbort q).stampTerminal at_ with state := .aborted } } := by
  rw [jobTerminalTransition_st]
  simp only [start, abortFlagged]
  rw [modify_modify, modify_of_some _ hr]
  rfl

/-- Without a live attempt an aborted job is over at once. -/
theorem abortIdle_chronicled (hl : Lived ∅ s) (q : AbortRequest) (at_ : Timestamp)
    (hr : s.jobs.get? job = some r) (hedge : r.state.mayTransitionTo .aborted = true)
    (hidle : ∀ id, r.state ≠ .attempting id) :
    Chronicled s ((start (s.abortFlagged job q)).jobTerminalTransition job .aborted
      at_).finish := by
  obtain ⟨hst', -, -, hret0, hretry0, -, -⟩ := r.requestAbort_spec q
  obtain ⟨hspec, hret, hat⟩ := (r.requestAbort q).stampTerminal_spec at_
  let r' : JobRecord := { (r.requestAbort q).stampTerminal at_ with state := .aborted }
  have hst : ((start (s.abortFlagged job q)).jobTerminalTransition job .aborted at_).st =
      { s with jobs := s.jobs.insert job r' } := abortIdle_st q at_ hr
  have hsame : ((r.requestAbort q).stampTerminal at_).state = r.state := by
    rw [← hst']
    unfold JobRecord.stampTerminal
    split_ifs <;> rfl
  have hne : r.state ≠ .aborted := by
    intro e
    rw [e] at hedge
    cases hedge
  have hev : ((start (s.abortFlagged job q)).jobTerminalTransition job .aborted
      at_).events = [.jobStateChanged job r.state .aborted] := by
    have hstamp : ((start (s.abortFlagged job q)).modifyJob job fun r =>
        if r.terminalAt.isNone then { r with terminalAt := some at_ } else r).st.jobs.get? job =
          some ((r.requestAbort q).stampTerminal at_) := by
      simp only [modifyJob, start, abortFlagged, get?_modify_self, hr]
      rfl
    unfold jobTerminalTransition jobTransition
    simp only [hstamp, hsame, if_pos hne]
    rfl
  refine .finish ⟨fun {j x} hx => ?_, ?_, fun {j x id a} hj hx hab hxst ha => ?_⟩
    ⟨_, hev, .of_job hr (.aborts _ q at_ hedge hidle) ?_ ?_
      (fun j => jobSteps_changed j _ _ _) (fun _ => rfl), fun _ _ _ => rfl, fun _ _ => rfl⟩
  · rw [hst, get?_insert] at hx
    split_ifs at hx
    · cases hx
      refine ⟨hat, by simp [r'], ?_⟩
      rw [hret, hspec, hret0, hretry0]
      exact (hl.jobs hr).retries
    · exact hl.jobs hx
  · rw [hst]
    exact hl.attempts
  · rw [hst, get?_insert] at hx
    rw [hst] at ha
    split_ifs at hx
    · cases hx
      cases hxst
    · exact hl.aborts hj hx hab hxst ha
  · rw [hst]
    rfl
  · rw [hst]
    rfl

section

variable (h : Consistent s) (hl : Lived ∅ s) (q : AbortRequest)

include h hl

/-- An undispatched attempt ends with the abort. -/
theorem abortUndispatched_chronicled (at_ : Timestamp) (hr : s.jobs.get? job = some r)
    (hst : r.state = .attempting id) :
    Chronicled s ((start (s.abortFlagged job q)).terminateAttempt id .aborted
      Duration.zero at_ true).finish := by
  obtain ⟨hl1, ht1⟩ := abortFlagged_told hl q hr (by simp [hst])
  obtain ⟨a, ha, rfl, hlive⟩ := h.jobs.attempting hr hst
  have hC1 := abortFlagged_consistent h a.attempt.job q
  have hS1 := hC1.sound ∅ []
  obtain ⟨hl2, ht2, -⟩ := Sound.terminateAttempt_told .aborted zero at_ true hS1 hl1 ha
    hlive
  obtain ⟨hS2, -, -⟩ := hS1.terminateAttempt .aborted zero at_ true ha hlive
    (fun _ => rfl)
  exact .finish hl2 (ht1.trans ht2 hC1.linked hS2.books.linked)

theorem abortDispatched_chronicled (hr : s.jobs.get? job = some r) (hst : r.state = .attempting id)
    (ha : s.attempts.get? id = some a)
    (hout : a.attempt.state = .dispatching ∨ a.attempt.state = .running) :
    Chronicled s ((start (s.abortFlagged job q)).emit
      (.stopRequested a.attempt.node a.attempt.allocation a.attempt.job)).finish := by
  obtain ⟨-, ht1⟩ := abortFlagged_told hl q hr (by simp [hst])
  have hL := (abortFlagged_consistent h job q).linked
  have hkeep := abortFlagged_lived hl q hr hst ha (by rcases hout with e | e <;> simp [e])
  have hsil : ∀ e ∈ [Event.stopRequested a.attempt.node a.attempt.allocation a.attempt.job],
      e.Silent := by simp [Event.Silent]
  exact .finish hkeep (ht1.trans ⟨_, rfl, .annotate rfl (.refl .refl _) hsil, .silent hsil _⟩ hL hL)

theorem abortEnding_chronicled (hr : s.jobs.get? job = some r) (hst : r.state = .attempting id)
    (hend : ∀ a, s.attempts.get? id = some a →
      a.attempt.state = .finalizing ∨ a.attempt.state.isTerminal = true) :
    Chronicled s (start (s.abortFlagged job q)).finish := by
  obtain ⟨-, ht1⟩ := abortFlagged_told hl q hr (by simp [hst])
  obtain ⟨a, ha, -, -⟩ := h.jobs.attempting hr hst
  refine .finish (abortFlagged_lived hl q hr hst ha ⟨fun e => ?_, fun e => ?_⟩) ht1 <;>
    simpa [e, AttemptState.isTerminal] using hend a ha

end

theorem updateJobMetadata_chronicled (hl : Lived ∅ s) (hr : s.jobs.get? job = some r)
    (next : TextMap) : Chronicled s ({ s with jobs := s.jobs.modify job fun x =>
      { x with spec := { x.spec with metadata := next } } },
      .ok ⟨[.jobMetadataUpdated job r.spec.metadata]⟩) := by
  let r' : JobRecord := { r with spec := { r.spec with
    metadata := next } }
  have hlife : ∀ s', JobLife s' r [] r' := fun s' =>
    .edits s' rfl rfl rfl rfl (fun _ h => h) rfl
  rw [modify_of_some _ hr]
  refine .accept ⟨fun {j x} hx => ?_, hl.attempts, fun {j x id a} hj hx hab hxst ha => ?_⟩
    (Traced.history (.of_job hr (hlife _) rfl rfl (fun j => by simp [jobSteps])
      (fun _ => rfl)) ⟨fun _ _ _ => rfl, fun _ _ => rfl⟩)
  · rw [get?_insert] at hx
    split_ifs at hx
    · cases hx
      have hs := hl.jobs hr
      exact ⟨hs.terminalAt, hs.abort, hs.retries⟩
    · exact hl.jobs hx
  · rw [get?_insert] at hx
    split_ifs at hx with e
    · cases hx
      exact hl.aborts (Set.notMem_empty _) hr hab hxst ha
    · exact hl.aborts hj hx hab hxst ha

end StateMachine

/-! ## Batches -/

/-- A job after revocations: as it was, or back in the queue. -/
structure JobRecord.Requeued (r r' : JobRecord) : Prop where
  spec : r'.spec = r.spec
  state : r'.state = r.state ∨ r'.state = .queued

theorem JobRecord.Requeued.refl (r : JobRecord) : r.Requeued r := ⟨rfl, .inl rfl⟩

theorem JobRecord.Requeued.trans (h : r.Requeued r') (h' : r'.Requeued r'') : r.Requeued r'' := by
  refine ⟨h'.spec.trans h.spec, ?_⟩
  rcases h'.state with e | e
  · rw [e]
    exact h.state
  · exact .inr e

/-- No abort is pending on the job of the allocation. -/
def Unaborted (s : StateMachine) (id : AllocationId) : Prop :=
  ∀ r j, s.allocations.get? id = some r → s.jobs.get? r.allocation.job = some j →
    j.spec.abortRequested = none

/-- A revoked attempt sends its job back to the queue. -/
theorem JobRecord.resolve_revoked (at_ : Timestamp) (hlive : r.state.isTerminal = false)
    (hab : r.spec.abortRequested = none) : r.Requeued (r.resolve .revoked at_) := by
  have hres : resolution r .revoked = .requeue false := by
    simp [resolution, hab]
  unfold JobRecord.resolve
  rw [hlive, hres]
  exact ⟨rfl, .inr rfl⟩

theorem Sound.revokeOne_told (at_ : Timestamp) (id : AllocationId) (h : Sound ∅ fx)
    (hl : Lived ∅ fx.st) (hun : Unaborted fx.st id) :
    Lived ∅ (Effects.revokeOne at_ fx id).st ∧ Told fx (Effects.revokeOne at_ fx id) ∧
      OrdMap.Rel JobRecord.Requeued fx.st.jobs (Effects.revokeOne at_ fx id).st.jobs := by
  unfold Effects.revokeOne
  cases hr : fx.st.allocations.get? id with
  | none => exact ⟨hl, .refl fx, .refl .refl _⟩
  | some r =>
    simp only
    rcases fx.terminateAttempt_idle_or_live r.allocation.attempt .revoked zero at_ true
      with ⟨-, heq⟩ | ⟨a, ha, hlive⟩
    · rw [heq]
      exact ⟨hl, .refl fx, .refl .refl _⟩
    · obtain ⟨hl', htold, j, hj, hjst, hjobs⟩ := h.terminateAttempt_told .revoked
        zero at_ true (hl.mono (Set.empty_subset _)) ha hlive
      obtain ⟨b, hb, -, ht⟩ := h.books.linked.tied hr
      rw [ha] at hb
      cases hb
      refine ⟨hl', htold, ?_⟩
      rw [hjobs]
      refine .of_insert .refl hj (JobRecord.resolve_revoked at_ (by rw [hjst]; rfl) ?_)
      exact hun r j hr (by rw [ht.job, hj])

/-- The revocations of a batch put their jobs back in the queue. -/
theorem Sound.revokeAll_told (at_ : Timestamp) (ids : List AllocationId) (h : Sound ∅ fx)
    (hl : Lived ∅ fx.st) (hun : ∀ id ∈ ids, Unaborted fx.st id) :
    Lived ∅ (ids.foldl (Effects.revokeOne at_) fx).st ∧
      Told fx (ids.foldl (Effects.revokeOne at_) fx) ∧
      OrdMap.Rel JobRecord.Requeued fx.st.jobs (ids.foldl (Effects.revokeOne at_) fx).st.jobs := by
  induction ids generalizing fx with
  | nil => exact ⟨hl, .refl fx, .refl .refl _⟩
  | cons x rest ih =>
    obtain ⟨hl1, ht1, hj1⟩ := h.revokeOne_told at_ x hl (hun x (by simp))
    obtain ⟨h1, hset1, -⟩ := h.revokeOne at_ x
    have hun1 : ∀ id ∈ rest, Unaborted (Effects.revokeOne at_ fx x).st id := by
      intro id hid r j hr hj
      obtain ⟨r0, hr0, hadv⟩ := hset1.advances.allocations.back hr
      obtain ⟨j0, hj0, hre⟩ := hj1.back hj
      rw [hre.spec]
      exact hun id (by simp [hid]) r0 j0 hr0 (by rw [← hadv.same.job, hj0])
    obtain ⟨hl2, ht2, hj2⟩ := ih h1 hl1 hun1
    obtain ⟨h2, -, -⟩ := h1.revokeAll at_ rest
    exact ⟨hl2, ht1.trans ht2 h1.books.linked h2.books.linked, hj1.trans (·.trans ·) hj2⟩

/-- An abort is never pending on an accruing attempt, so never on one a batch revokes. -/
theorem Lived.unaborted (hl : Lived ∅ s) (h : Consistent s) {id : AllocationId}
    {r : AllocationRecord} (hr : s.allocations.get? id = some r)
    (hacc : r.allocation.state = .accruing) : Unaborted s id := by
  intro r' j hr' hj
  rw [hr] at hr'
  cases hr'
  obtain ⟨a, ha, -, ht⟩ := h.linked.tied hr
  have hast : a.attempt.state = .accruing := (ht.step (by simp)).accruing_iff.mpr hacc
  obtain ⟨j', hj', hjst, -⟩ := h.jobs.current ha (by rw [hast]; rfl)
  rw [← ht.job, hj] at hj'
  cases hj'
  by_contra hne
  exact (hl.aborts (Set.notMem_empty _) hj (Option.isSome_iff_ne_none.mpr hne) hjst ha).1 hast

/-- After the revocations the job of every accepted placement is in the queue. -/
theorem Screened.queued (h : Screened s revoked p spec) {j' : JobRecord}
    (hre : OrdMap.Rel JobRecord.Requeued s.jobs s'.jobs) (hj' : s'.jobs.get? p.job = some j')
    (hidle : ∀ x, j'.state ≠ .attempting x) : j'.state = .queued := by
  obtain ⟨j, hj, hst⟩ := h.job
  obtain ⟨j0, hj0, hr⟩ := hre.back hj'
  rw [hj] at hj0
  cases hj0
  rcases hr.state with e | e
  · rcases hst with hq | hre
    · rw [e, hq]
    · -- a reseat is attempting, and has been revoked
      exfalso
      cases hs : j.state with
      | attempting x => exact hidle x (by rw [e, hs])
      | _ => simp [StateMachine.isReseat, hs, JobState.attempt] at hre
  · exact e

theorem SeatTrail.told {fx0 : Effects} (hre : OrdMap.Rel JobRecord.Requeued s.jobs fx0.st.jobs)
    (h : SeatTrail s revoked fx0 at_ fx ps cutoffs groups fx') (hl : Lived ∅ fx.st) :
    Lived ∅ fx'.st ∧ Told fx fx' := by
  induction h with
  | nil => exact ⟨hl, .refl _⟩
  | @cons _ _ _ _ _ _ cutoff _ group _ hS hsc hf hj hrest ih =>
    have hq := hsc.queued hre hj hf.idle
    obtain ⟨hS1, -, -⟩ := hS.seat at_ cutoff group hf
    obtain ⟨hl1, ht1⟩ := hS.seat_told at_ cutoff group hl hf hq
    obtain ⟨hl2, ht2⟩ := ih hl1
    exact ⟨hl2, ht1.trans ht2 hS1.books.linked hrest.sound.1.books.linked⟩

namespace StateMachine

theorem commitPlacements_chronicled (h : Consistent s) (hl : Lived ∅ s) {c : CommitPlacements}
    (hitems : (s.screen c).items = []) : Chronicled s (s.committing c).finish := by
  have hok : BatchOk s c := batchOk_of_items (isEmpty_iff.mpr hitems)
  have hstart := Consistent.batchStart h
  have hun : ∀ id ∈ c.revocations, Unaborted s id := by
    intro id hid
    obtain ⟨r, hr, hacc⟩ := hok.accruing id hid
    exact hl.unaborted h hr hacc
  obtain ⟨hS0, -, -⟩ := hstart.revokeAll c.proposedAt c.revocations
  obtain ⟨hl0, ht0, hre⟩ := hstart.revokeAll_told c.proposedAt c.revocations hl hun
  have htrail := hok.trail h
  obtain ⟨hS, -, -⟩ := htrail.sound
  obtain ⟨hl1, ht1⟩ := htrail.told hre hl0
  obtain ⟨evs, hevs, ht, hf⟩ := ht0.trans ht1 hS0.books.linked hS.books.linked
  refine ⟨hl1, fun x hx => ?_⟩
  cases hx
  have hevs' : (s.committing c).events = evs := by
    exact hevs
  rw [hevs']
  exact ht.history hf

/-! ## Eviction -/

/-- Part way through an eviction: jobs and attempts are the old ones or gone, and no
    state has been reported. -/
structure Sweeps (s : StateMachine) (fx : Effects) : Prop where
  jobs : ∀ j, fx.st.jobs.get? j = s.jobs.get? j ∨
    fx.st.jobs.get? j = none ∧ ∀ r, s.jobs.get? j = some r → r.state.isTerminal = true
  attempts : ∀ id, fx.st.attempts.get? id = s.attempts.get? id ∨ fx.st.attempts.get? id = none
  silent : ∀ e ∈ fx.events, e.Silent

theorem Sweeps.evictJob (h : Sweeps s fx) {job : JobId}
    (hterm : ∀ r, s.jobs.get? job = some r → r.state.isTerminal = true) :
    Sweeps s (evictJob fx job) := by
  have hatt id := ((evictJob_evicted fx job).attempts id).elim (fun e => e ▸ h.attempts id) .inr
  unfold StateMachine.evictJob at hatt ⊢
  split at hatt
  · exact h
  · refine ⟨fun j => ?_, hatt, fun e he => ?_⟩
    · rw [emit_st, (evictAttempts_evicted _ _).2, get?_erase]
      split_ifs with hj
      · exact .inr ⟨rfl, hj ▸ hterm⟩
      · exact h.jobs j
    · rcases mem_append.mp he with he | he
      · exact h.silent e he
      · cases mem_singleton.mp he
        trivial

/-- An accepted eviction forgets terminal jobs. -/
theorem evictJobs_sweeps {jobs : List JobId}
    (hterm : ∀ j ∈ jobs, ∀ r, s.jobs.get? j = some r → r.state.isTerminal = true) :
    Sweeps s (jobs.foldl StateMachine.evictJob (start s)) :=
  foldlRecOn jobs _ ⟨fun _ => .inl rfl, fun _ => .inl rfl, by simp [start]⟩
    fun _ h j hj => h.evictJob (hterm j hj)

theorem Sweeps.chronicled (h : Sweeps s fx) (hl : Lived ∅ s) : Chronicled s fx.finish := by
  have getJob {j r} : fx.st.jobs.get? j = some r → s.jobs.get? j = some r :=
    get?_of_gone ((h.jobs j).imp_right And.left)
  have getAtt {id a} : fx.st.attempts.get? id = some a → s.attempts.get? id = some a :=
    get?_of_gone (h.attempts id)
  refine .accept ⟨fun hr => hl.jobs (getJob hr), fun ha => hl.attempts (getAtt ha),
    fun hj hr hab hst ha => hl.aborts hj (getJob hr) hab hst (getAtt ha)⟩
    ⟨fun j => ?_, .swept (attemptSteps_silent h.silent) h.attempts, .silent h.silent _⟩
  · rw [jobSteps_silent h.silent]
    rcases h.jobs j with e | ⟨e, hterm⟩
    · rw [e]
      exact .told (.refl _ _)
    · rw [e]
      cases hr : s.jobs.get? j with
      | none => exact .told .absent
      | some r => exact .evicted (hterm r hr)

/-! ## Commands about nodes, quotas, policy and identities -/

/-- The command is about something else: jobs and attempts stay, and the events
    report nothing of them. -/
structure Aside (s : StateMachine) (out : Reply) : Prop where
  jobs : out.1.jobs = s.jobs
  attempts : OrdMap.Rel AttemptRecord.Noted s.attempts out.1.attempts
  silent : ∀ x, out.2 = .ok x → ∀ e ∈ x.events, e.Silent

theorem Aside.chronicled (h : Aside s out) (hl : Lived ∅ s) : Chronicled s out :=
  ⟨hl.annotate h.jobs h.attempts, fun x hx =>
    (Traced.annotate h.jobs h.attempts (h.silent x hx)).history (.silent (h.silent x hx) _)⟩

variable {c : Command} {out : Reply}

theorem Bystands.aside (h : Bystands c s out) : Aside s out := by
  refine ⟨h.jobs, .of_eq .refl h.attempts, fun x hx e he => ?_⟩
  have hsetting := h.events x hx e he
  cases e <;> first | exact False.elim hsetting | trivial

theorem renewOne_jobs (at_ : Timestamp) (s : StateMachine) (r : IntervalRenewal) :
    (renewOne at_ s r).jobs = s.jobs := by
  have hwalk (s : StateMachine) e charge : (s.chargeAncestors e charge at_).jobs = s.jobs := by
    obtain ⟨q, hq⟩ := chargeAncestors_st s e charge at_
    rw [hq]
  unfold renewOne
  split
  · rfl
  · split_ifs
    · rfl
    · split
      · simp only
        split_ifs
        · rfl
        · rfl
        · split
          · rfl
          · exact hwalk _ _ _
      · rfl

theorem renewAll_aside (at_ : Timestamp) (l : List IntervalRenewal) :
    Aside s (l.foldl (renewOne at_) s).done := by
  exact ⟨foldl_keeps (renewOne_jobs at_) l s, (s.renewAll_quiet at_ l).attempts, fun x hx => by
    cases hx; simp⟩

/-! ## Every command -/

theorem Step.chronicled (hstep : Step s c out) (h : Consistent s) (hl : Lived ∅ s) :
    Chronicled s out := by
  have hl0 : Lived ∅ (start s).st := hl
  cases hstep with
  | reject c r => exact .reject hl r
  | noop | setDrain | setDraining => exact .annotate hl rfl (.refl .refl _) (by simp)
  | submit hnew hr hentity => exact submitted_chronicled hl hnew hr hentity
  | abortIdle hab hidle => exact abortIdle_chronicled hl _ _ hab.job (hab.edge hidle) hidle
  | abortUndispatched hab hst => exact abortUndispatched_chronicled h hl _ _ hab.job hst
  | abortDispatched hab hst ha hout => exact abortDispatched_chronicled h hl _ hab.job hst ha hout
  | abortEnding hab hst hend => exact abortEnding_chronicled h hl _ hab.job hst hend
  | metadata hr => exact updateJobMetadata_chronicled hl hr _
  | commit hitems => exact commitPlacements_chronicled h hl hitems
  | dispatchAttempt ha hst =>
    obtain ⟨hl', ht⟩ := hl0.attemptTransition .dispatching ha (.inl ⟨hst, rfl⟩)
    exact .finish hl' ht
  | @started c _ ha hst =>
    obtain ⟨hl', ht⟩ := hl0.markAttemptRunning c.observedAt ha hst
    exact .finish hl' ht
  | exited ha hst =>
    obtain ⟨hl', ht⟩ := hl0.attemptTransition .finalizing ha (.inr ⟨hst, rfl⟩)
    exact .finish hl' ht
  | @outcome c =>
    obtain ⟨hl', ht⟩ := (h.sound ∅ []).terminateAny_told c.attempt c.outcome c.actualRuntime
      c.observedAt true hl
    exact .finish hl' ht
  | notified =>
    refine .annotate hl rfl (.of_modify .refl _ fun _ _ => ⟨rfl, rfl, rfl, rfl, rfl⟩) ?_
    simp [start, emit, modifyAttempt, Event.Silent]
  | @reconcile c =>
    obtain ⟨h1, hl1, ht1⟩ := Told.foldl (adoptOne_told c.observedAt) c.adopted _ (h.sound ∅ []) hl
    obtain ⟨h2, hl2, ht2⟩ := Told.foldl (loseOne_told c.observedAt) c.lost _ h1 hl1
    exact .finish hl2 (ht1.trans ht2 h1.books.linked h2.books.linked)
  | register c => exact registerNode_chronicled h hl c
  | lost hn => exact declareNodeLost_chronicled h hl hn
  | evictJobs hterm => exact (evictJobs_sweeps hterm).chronicled hl
  | renew => exact (renewAll_aside _ _).chronicled hl
  | evictNodes => exact (evictNodes_bystands _).aside.chronicled hl
  | setting _ hset hevs => exact (Bystands.of_setting hset hevs).aside.chronicled hl

end StateMachine

/-! ## Lineages -/

/-- No lineage holds an attempt twice. -/
def Distinct (jobs : OrdMap JobId JobRecord) : Prop :=
  ∀ j r, jobs.get? j = some r → r.attempts.Nodup

def SameLineage (r r' : JobRecord) : Prop := r'.attempts = r.attempts

theorem SameLineage.refl (r : JobRecord) : SameLineage r r := rfl

variable {jobs jobs' : OrdMap JobId JobRecord}

theorem Distinct.rel (h : Distinct jobs) (hrel : Rel SameLineage jobs jobs') : Distinct jobs' := by
  intro j r' hr'
  obtain ⟨r, hr, heq⟩ := hrel.back hr'
  exact heq ▸ h j r hr

theorem Distinct.moved (h : Distinct s.jobs) (hm : Moved s s') : Distinct s'.jobs :=
  h.rel (hm.jobs.mono fun hj => by rw [hj]; rfl)

theorem Distinct.insert (h : Distinct jobs) {job : JobId} {r : JobRecord} (hr : r.attempts.Nodup) :
    Distinct (jobs.insert job r) := by
  intro j x hx
  rw [get?_insert] at hx
  split_ifs at hx
  · cases hx
    exact hr
  · exact h j x hx

/-- A seat adds an attempt that no lineage holds. -/
theorem SeatTrail.distinct (h : SeatTrail s revoked fx0 at_ fx ps cutoffs groups fx')
    (hd : Distinct fx.st.jobs) : Distinct fx'.st.jobs := by
  induction h with
  | nil => exact hd
  | @cons fx _ p spec j _ cutoff _ group _ hS _ hf _ _ ih =>
    refine ih ?_
    obtain ⟨fx1, a, q, heq, -, -, -, -, hst, -, -⟩ :=
      seatPlacement_eq fx at_ cutoff group hf.one hf.job
    have hfresh : p.attempt ∉ j.attempts := fun hmem => by
      obtain ⟨b, hb, -⟩ := hS.jobs.lineage_job hf.job hmem
      rw [hf.attempt] at hb
      cases hb
    rw [heq, (recordVictims_quiet group fx1 at_ spec.node).2.2.2, hst]
    exact hd.insert ((hd _ _ hf.job).append (List.nodup_singleton _) (by simpa using hfresh))

theorem StateMachine.Step.distinct (hstep : Step s c out) (hC : Consistent s) (h : Distinct s.jobs)
    : Distinct out.1.jobs := by
  have hflag : ∀ c, Distinct (s.aborting c).st.jobs := fun c =>
    h.rel (.of_modify .refl _ fun r _ => (r.requestAbort_spec _).2.2.1)
  by_cases hm : c.moves = true
  · exact h.moved (hstep.moved hm)
  cases hstep with
  | reject | noop | setDrain | setDraining | notified => exact h
  | submit _ hr => exact h.insert (by rw [hr.attempts]; exact .nil)
  | abortIdle => exact (hflag _).moved (jobTerminalTransition_progressed _ _ _ _).moved
  | abortUndispatched => exact (hflag _).moved (terminateAttempt_progressed _ _ _ _ _ _).moved
  | abortDispatched | abortEnding => exact hflag _
  | metadata => exact h.rel (.of_modify .refl _ fun r _ => .refl r)
  | @commit c hitems =>
    have hok : BatchOk s c := batchOk_of_items (List.isEmpty_iff.mpr hitems)
    exact (hok.trail hC).distinct (h.moved (revocations_progressed s c).moved)
  | register c =>
    exact Distinct.moved (s := (s.registering c).st) h (pledgeNode_progressed _ _).moved
  | @lost c n =>
    exact Distinct.moved (s := (s.losing c n).st) h
      (Progressed.foldl (s.losing c n) (loseNodeAttempt_progressed c.declaredAt) _).moved
  | evictJobs hterm =>
    exact fun j r hr =>
      h j r (OrdMap.get?_of_gone (((evictJobs_sweeps hterm).jobs j).imp_right And.left) hr)
  | renew => exact h.rel (.of_eq .refl (renewAll_aside _ _).jobs)
  | evictNodes => exact h.rel (.of_eq .refl (evictNodes_bystands _).jobs)
  | setting _ hset => exact h.rel (.of_eq .refl hset.work.jobs)
  | _ => exact absurd rfl hm

theorem Reachable.distinct (h : Reachable s) : Distinct s.jobs := by
  have hboth : Consistent s ∧ Distinct s.jobs := by
    refine Reach.invariant (fun s => Consistent s ∧ Distinct s.jobs)
      ⟨StateMachine.default_consistent, fun _ _ hr => by cases hr⟩ (fun s c hs _ => ?_) h
    exact ⟨(StateMachine.apply_consistent hs.1 c).1, (s.dispatch_step c).distinct hs.1 hs.2⟩
  exact hboth.2

end Coppice.State
