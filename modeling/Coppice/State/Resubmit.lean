/-
  Coppice.State.Resubmit

  Resubmission of a job id that is still held.  The record keeps everything the
  client sent except the metadata, so a retry is recognised exactly while the
  metadata still is what was submitted.
-/

import Coppice.State.Lifespan

namespace Coppice.State

open Lib Coppice.Core StateMachine Option

/-! ## What the client sent -/

/-- The part of a job the client supplies: apply owns the abort flag and stamps
    the owner. -/
def Job.client (job : Job) : Job := { job with abortRequested := none, submittedBy := none }

/-- The job with an unset notice read as the given one. -/
def Job.given (job : Job) (notice : Option Duration) : Job :=
  if job.preemption.notice.isNone then StateMachine.Job.withNotice job notice else job

/-- What the record `r` of the job should hold of what was sent: an unset notice
    was resolved, and the metadata may have been rewritten since. -/
def Job.asStored (job : Job) (r : JobRecord) : Job :=
  { Job.client (Job.given job r.spec.preemption.notice) with metadata := r.spec.metadata }

/-- The re-checks a submission passes whether or not its id is taken. -/
def Job.WellFormed (job : Job) : Prop :=
  job.abortRequested = none ∧ Metadata.validate job.metadata = .ok () ∧
    Env.validate job.env = .ok ()

instance (job : Job) : Decidable (Job.WellFormed job) := by
  unfold Job.WellFormed
  infer_instance

theorem sameSubmission_iff (a b : Job) :
    sameSubmission a b = true ↔ Job.client a = Job.client b := by
  simp only [sameSubmission, Job.client, Bool.and_eq_true, decide_eq_true_eq,
    Job.mk.injEq, true_and, and_assoc]
  tauto

/-- A notice that was set resolves to itself. -/
theorem given_resolveNotice (job : Job) (floor : Duration) :
    Job.given job (some (resolveNotice job.preemption.notice floor)) =
      StateMachine.Job.withNotice job (some (resolveNotice job.preemption.notice floor)) := by
  cases hset : job.preemption.notice with
  | none => simp only [Job.given, hset, isNone_none, if_true]
  | some n =>
    have hsame : StateMachine.Job.withNotice job job.preemption.notice = job := rfl
    simp only [Job.given, hset, isNone_some, Bool.false_eq_true, if_false]
    exact (hset ▸ hsame).symm

theorem asStored_eq_iff (job : Job) (r : JobRecord) :
    Job.asStored job r = Job.client (Job.given job r.spec.preemption.notice) ↔
      r.spec.metadata = job.metadata := by
  have hmeta : (Job.given job r.spec.preemption.notice).metadata = job.metadata := by
    unfold Job.given
    split_ifs <;> rfl
  constructor
  · intro heq
    exact (congrArg Job.metadata heq).trans hmeta
  · intro heq
    unfold Job.asStored
    rw [heq, ← hmeta]
    rfl

namespace StateMachine

variable {s : StateMachine} {c : SubmitJob} {r : JobRecord} {x : Applied}

theorem authorize_error {actor : Option Actor} {verb : Verb} {e : RejectionReason}
    (h : s.authorize actor verb = .error e) : ∃ denial, e = .permissionDenied denial := by
  unfold authorize at h
  split at h
  · cases h
  · split at h <;> cases h
    exact ⟨_, rfl⟩

theorem submitJob_taken (h : Job.WellFormed c.job) (hget : s.jobs.get? c.job.id = some r) :
    s.submitJob c = s.resubmitJob c r := by
  obtain ⟨hflag, hmeta, henv⟩ := h
  simp [submitJob, hflag, hmeta, henv, hget]

theorem submitJob_fresh (h : Job.WellFormed c.job) (hget : s.jobs.get? c.job.id = none) :
    s.submitJob c = s.submitNewJob c := by
  obtain ⟨hflag, hmeta, henv⟩ := h
  simp [submitJob, hflag, hmeta, henv, hget]

theorem submitJob_malformed (h : ¬ Job.WellFormed c.job) :
    ∃ e, s.submitJob c = s.reject e ∧ ∀ id, e ≠ .submitSpecMismatch id := by
  unfold submitJob
  split_ifs with hflag
  · exact ⟨_, rfl, nofun⟩
  cases hmeta : Metadata.validate c.job.metadata with
  | error e => exact ⟨_, rfl, nofun⟩
  | ok =>
    cases henv : Env.validate c.job.env with
    | error e => exact ⟨_, rfl, nofun⟩
    | ok => exact absurd ⟨not_isSome_iff_eq_none.mp hflag, hmeta, henv⟩ h

theorem resubmitJob_differs
    (h : Job.client r.spec ≠ Job.client (Job.given c.job r.spec.preemption.notice)) :
    s.resubmitJob c r = s.reject (.submitSpecMismatch c.job.id) :=
  if_neg fun hsame => h ((sameSubmission_iff _ _).mp hsame)

theorem resubmitJob_authorized
    (h : Job.client r.spec = Job.client (Job.given c.job r.spec.preemption.notice))
    (hauth : s.authorize c.actor (.submit c.job.quotaEntity) = .ok ()) :
    s.resubmitJob c r = s.done := by
  refine (if_pos ((sameSubmission_iff _ _).mpr h)).trans ?_
  rw [hauth]

/-- A retry is recognised, and its authority is checked anew. -/
theorem resubmitJob_same
    (h : Job.client r.spec = Job.client (Job.given c.job r.spec.preemption.notice)) :
    s.resubmitJob c r = s.done ∨
      ∃ denial, s.resubmitJob c r = s.reject (.permissionDenied denial) := by
  cases hauth : s.authorize c.actor (.submit c.job.quotaEntity) with
  | ok => exact .inl (resubmitJob_authorized h hauth)
  | error e =>
    obtain ⟨denial, rfl⟩ := authorize_error hauth
    refine .inr ⟨denial, (if_pos ((sameSubmission_iff _ _).mpr h)).trans ?_⟩
    rw [hauth]

/-- A new job's record carries what was sent. -/
theorem submitNewJob_accepted (h : (s.submitNewJob c).2 = .ok x) :
    ∃ r, (s.submitNewJob c).1.jobs.get? c.job.id = some r ∧
      Job.client r.spec = Job.client (Job.given c.job r.spec.preemption.notice) := by
  simp only [submitNewJob] at h ⊢
  split at h
  · cases h
  split_ifs at h with hentity
  · cases h
  split at h
  · cases h
  rw [if_neg hentity]
  refine ⟨_, OrdMap.get?_insert_self _ _ _, ?_⟩
  have hgiven := given_resolveNotice c.job s.policy.preemptionNoticeFloor
  have hsent := (congrArg Job.client hgiven).symm
  cases c.actor with
  | none => exact hsent
  | some actor => exact hsent

/-- What an accepted submission leaves: a record that carries what was sent. -/
theorem submitJob_accepted (h : (s.submitJob c).2 = .ok x) :
    Job.WellFormed c.job ∧ ∃ r, (s.submitJob c).1.jobs.get? c.job.id = some r ∧
      Job.client r.spec = Job.client (Job.given c.job r.spec.preemption.notice) := by
  by_cases hwf : Job.WellFormed c.job
  · refine ⟨hwf, ?_⟩
    cases hget : s.jobs.get? c.job.id with
    | none =>
      rw [submitJob_fresh hwf hget] at h ⊢
      exact submitNewJob_accepted h
    | some r =>
      rw [submitJob_taken hwf hget] at h ⊢
      by_cases hsame : Job.client r.spec = Job.client (Job.given c.job r.spec.preemption.notice)
      · rcases resubmitJob_same (s := s) hsame with heq | ⟨denial, heq⟩
        all_goals
          rw [heq]
          exact ⟨r, hget, hsame⟩
      · rw [resubmitJob_differs hsame] at h
        cases h
  · obtain ⟨e, he, -⟩ := submitJob_malformed (s := s) hwf
    rw [he] at h
    cases h

end StateMachine

/-! ## Resubmission -/

/-- The record of a job that was submitted and not evicted since still carries
    what was sent, up to the metadata. -/
theorem JobStays.client {s : StateMachine} {c : SubmitJob} {x : Applied} (h0 : Reachable s0)
    (hc : (s0.apply (.submitJob c)).2 = .ok x)
    (hrun : JobStays c.job.id (s0.apply (.submitJob c)).1 s) :
    ∃ r, s.jobs.get? c.job.id = some r ∧ Job.client r.spec = Job.asStored c.job r := by
  obtain ⟨-, r0, hr0, hsent⟩ := submitJob_accepted hc
  have hstays : (s.jobs.get? c.job.id).isSome = true := by
    refine Reach.invariant (fun t => (t.jobs.get? c.job.id).isSome = true) ?_ ?_ hrun
    · exact isSome_iff_exists.mpr ⟨r0, hr0⟩
    · exact fun t c' _ hkept => hkept
  obtain ⟨r, hr⟩ := isSome_iff_exists.mp hstays
  obtain ⟨-, hages⟩ := hrun.ages (h0.apply _) hr0 hr
  have hclient : Job.client r.spec = { Job.client r0.spec with metadata := r.spec.metadata } := by
    rw [hages.spec]
    rfl
  have hnotice : r.spec.preemption.notice = r0.spec.preemption.notice := by rw [hages.spec]
  refine ⟨r, hr, ?_⟩
  unfold Job.asStored
  rw [hclient, hsent, hnotice]

/-- A job that was submitted and not evicted since: the same submission, retried
    by an actor who may still submit, is an accepted no-op exactly while the
    stored metadata is the submitted metadata, and a submission that reuses the
    id is refused as a mismatch exactly when it is well formed and differs from
    the original with the metadata as stored now. -/
theorem resubmission_recognised {s₀ s : StateMachine} {c : SubmitJob} {x : Applied}
    (h₀ : Reachable s₀) (hc : (s₀.apply (.submitJob c)).2 = .ok x)
    (hrun : JobStays c.job.id (s₀.apply (.submitJob c)).1 s) :
    ∃ r, s.jobs.get? c.job.id = some r ∧
      (∀ m t, s.authorize c.actor (.submit c.job.quotaEntity) = .ok () →
        (s.apply (.submitJob ⟨c.job, m, c.actor, t⟩) =
          ({ s with version := s.version + 1 }, .ok ⟨[]⟩) ↔ r.spec.metadata = c.job.metadata)) ∧
      ∀ c' : SubmitJob, c'.job.id = c.job.id →
        ((s.apply (.submitJob c')).2 = .error (.submitSpecMismatch c.job.id) ↔
          Job.WellFormed c'.job ∧
            Job.client (Job.given c'.job r.spec.preemption.notice) ≠ Job.asStored c.job r) := by
  obtain ⟨hwf, -⟩ := submitJob_accepted hc
  obtain ⟨r, hr, hclient⟩ := hrun.client h₀ hc
  refine ⟨r, hr, fun m t hauth => ⟨?_, ?_⟩, fun c' hid => ⟨?_, ?_⟩⟩
  · intro hnoop
    by_contra hmeta
    have hne : Job.client r.spec ≠ Job.client (Job.given c.job r.spec.preemption.notice) := by
      rw [hclient]
      exact mt (asStored_eq_iff _ _).mp hmeta
    have hres : (s.submitJob ⟨c.job, m, c.actor, t⟩).2 = .ok ⟨[]⟩ := congrArg Prod.snd hnoop
    have hcmd : s.submitJob ⟨c.job, m, c.actor, t⟩ = s.reject (.submitSpecMismatch c.job.id) :=
      (submitJob_taken (c := ⟨c.job, m, c.actor, t⟩) hwf hr).trans
        (resubmitJob_differs hne)
    rw [hcmd] at hres
    cases hres
  · intro hmeta
    have hsame : Job.client r.spec = Job.client (Job.given c.job r.spec.preemption.notice) :=
      hclient.trans ((asStored_eq_iff _ _).mpr hmeta)
    have hdone : s.submitJob ⟨c.job, m, c.actor, t⟩ = s.done :=
      (submitJob_taken (c := ⟨c.job, m, c.actor, t⟩) hwf hr).trans
        (resubmitJob_authorized hsame hauth)
    simp only [apply, dispatch, hdone]
    rfl
  · intro hmismatch
    have hres : (s.submitJob c').2 = .error (.submitSpecMismatch c.job.id) := hmismatch
    by_cases hwf' : Job.WellFormed c'.job
    · refine ⟨hwf', fun hsame => ?_⟩
      rw [submitJob_taken hwf' (hid ▸ hr)] at hres
      rcases resubmitJob_same (s := s) (hclient.trans hsame.symm) with
        heq | ⟨denial, heq⟩
      all_goals
        rw [heq] at hres
        cases hres
    · obtain ⟨e, he, hother⟩ := submitJob_malformed (s := s) hwf'
      rw [he] at hres
      cases hres
      exact absurd rfl (hother _)
  · rintro ⟨hwf', hne⟩
    have hdiffers : Job.client r.spec ≠ Job.client (Job.given c'.job r.spec.preemption.notice) := by
      rw [hclient]
      exact hne.symm
    show (s.submitJob c').2 = _
    rw [submitJob_taken hwf' (hid ▸ hr), resubmitJob_differs hdiffers, hid]
    rfl

open Sample

/-- A job nobody annotated, once it is placed. -/
theorem resubmission_recognised_plain :
    let s := run [configure, submit 1 1, register 10, commit [] [place 1 1]]
    s.apply (submit 1 1) = ({ s with version := 5 }, .ok ⟨[]⟩) := by
  intro s
  obtain ⟨r, hr, hretry, -⟩ := resubmission_recognised
    (c := ⟨job 1 (cpu 1), PriorityMultiplier.one, none, epoch⟩) (reachable_run [configure]) rfl
    (Along.reach .init (l := [register 10, commit [] [place 1 1]]) (by decide +kernel))
  have hmeta : r.spec.metadata = .empty := by
    have hfound : (s.jobs.get? 1).map (fun r => r.spec.metadata) = some .empty := rfl
    have hmap := congrArg (Option.map fun r : JobRecord => r.spec.metadata) hr
    exact Option.some.inj (hmap.symm.trans hfound)
  exact (hretry PriorityMultiplier.one epoch rfl).mpr hmeta

/-- The metadata of job 1 is rewritten after its submission. -/
def Sample.annotated : List Command :=
  [configure, submit 1 1,
    .updateJobMetadata ⟨1, .replace (OrdMap.empty.insert "team" "a"), none, epoch⟩]

/-- The retry of an annotated job's submission is refused, and the submission
    that sends the annotation is taken for the retry. -/
theorem annotated_retry_refused :
    ((run annotated).apply (submit 1 1)).2 = .error (.submitSpecMismatch 1) ∧
      ((run annotated).apply (.submitJob
        ⟨{ job 1 (cpu 1) with metadata := OrdMap.empty.insert "team" "a" },
          PriorityMultiplier.one, none, epoch⟩)).2 = .ok ⟨[]⟩ :=
  ⟨rfl, rfl⟩

end Coppice.State
