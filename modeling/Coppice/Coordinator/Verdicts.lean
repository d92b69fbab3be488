/-
  Coppice.Coordinator.Verdicts

  What a job selector sees of a command.  The keys of its jobs are the same before
  and after it, but for an update of metadata and an eviction, whose events carry
  what they replace or remove.
-/

import Coppice.Coordinator.EventRing
import Coppice.State.Ledger
import Coppice.State.Resubmit

namespace Coppice.Coordinator

open Lib Coppice.Core State Consensus StateMachine Effects List OrdMap

/-! ## The keys of a batch -/

/-- The keys of each job that events name, once each. -/
def resolveScopes (s : StateMachine) (events : List Event) : List (JobId × JobScope) :=
  (events.filterMap Event.job).eraseDups.filterMap fun job =>
    (s.jobScope job).map fun scope => (job, scope)

/-- The batch the apply loop emits for an accepted command. -/
def batchOf (index : Nat) (s : StateMachine) (c : Command) (x : Applied) : EventBatch :=
  ⟨index, c.stampedAt, x.events, resolveScopes (s.apply c).1 x.events⟩

variable {s s' : StateMachine} {e : Event} {fx fx' : Effects} {evs : List Event}

/-- A job of the batch stands in it with the keys it has after the command. -/
theorem scope_batchOf {index : Nat} {c : Command} {x : Applied} {job : JobId} (he : e ∈ x.events)
    (hjob : e.job = some job) : scope (batchOf index s c x) job = (s.apply c).1.jobScope job := by
  have hmem : ∀ k scope, (k, scope) ∈ (batchOf index s c x).scopes ↔
      k ∈ x.events.filterMap Event.job ∧ (s.apply c).1.jobScope k = some scope := by
    simp [batchOf, resolveScopes]
  have hnamed : job ∈ x.events.filterMap Event.job := mem_filterMap.mpr ⟨e, he, hjob⟩
  unfold scope
  cases hfind : (batchOf index s c x).scopes.find? fun y => y.1 = job with
  | some y =>
    have hkey : y.1 = job := by simpa using find?_some hfind
    rw [← hkey, ((hmem _ _).mp (mem_of_find?_eq_some hfind)).2]
    rfl
  | none =>
    cases hscope : (s.apply c).1.jobScope job with
    | none => rfl
    | some scope =>
      simpa using find?_eq_none.mp hfind _ ((hmem _ _).mpr ⟨hnamed, hscope⟩)

/-! ## The keys before -/

/-- The event carries no keys of its own. -/
def Event.Plain : Event → Prop
  | .jobEvicted .. | .jobMetadataUpdated .. => False
  | _ => True

/-- What a selector reads of a job. -/
def SameScope (r r' : JobRecord) : Prop :=
  r'.spec.quotaEntity = r.spec.quotaEntity ∧ r'.spec.submittedBy = r.spec.submittedBy ∧
    r'.spec.metadata = r.spec.metadata

theorem jobScope_congr (hparent : ∀ e, s'.parentOf e = s.parentOf e)
    (hjobs : Rel SameScope s.jobs s'.jobs) (job : JobId) : s'.jobScope job = s.jobScope job := by
  unfold jobScope
  rcases hjobs job with ⟨hn, hn'⟩ | ⟨r, r', hr, hr', he, hb, hm⟩
  · rw [hn, hn']
    rfl
  · rw [hr, hr', Option.map_some, Option.map_some, he, hb, hm, entityChain_congr hparent]

/-- No job has changed what a selector reads of it, and no event says so. -/
structure Scoped (s : StateMachine) (fx : Effects) : Prop where
  scope : ∀ job, fx.st.jobScope job = s.jobScope job
  plain : ∀ e ∈ fx.events, Event.Plain e

theorem parentOf_framed (h : Framed s s') (e : QuotaEntityId) : s'.parentOf e = s.parentOf e := by
  unfold parentOf
  rcases h.entities e with ⟨hn, hn'⟩ | ⟨q, q', hq, hq', hb⟩
  · rw [hn, hn']
  · rw [hq, hq', Option.bind_some, Option.bind_some, hb.parent]

theorem Scoped.step (h : Scoped s fx) (hf : Framed fx.st fx'.st)
    (hjobs : Rel SameScope fx.st.jobs fx'.st.jobs) (hevs : fx'.events = fx.events ++ evs)
    (hplain : ∀ e ∈ evs, Event.Plain e) : Scoped s fx' :=
  ⟨fun job => (jobScope_congr (parentOf_framed hf) hjobs job).trans (h.scope job),
    hevs ▸ forall_mem_append.mpr ⟨h.plain, hplain⟩⟩

theorem Scoped.progressed (h : Scoped s fx) (hp : Progressed fx fx') : Scoped s fx' := by
  obtain ⟨evs, hevs, hall⟩ := hp.events
  refine h.step hp.moved.framed (hp.moved.jobs.mono fun hm => ?_) hevs fun e he => ?_
  · rw [hm]
    exact ⟨rfl, rfl, rfl⟩
  · have := hall e he
    cases e <;> first | exact this.elim | trivial

theorem SameScope.refl (r : JobRecord) : SameScope r r := ⟨rfl, rfl, rfl⟩

theorem Scoped.emit (h : Scoped s fx) (he : Event.Plain e) : Scoped s (fx.emit e) :=
  h.step (.refl _) (.refl .refl _) rfl (by simpa using he)

/-- Only other records than the jobs are written. -/
theorem Scoped.aside (h : Scoped s fx) (hf : Framed fx.st fx'.st) (hjobs : fx'.st.jobs = fx.st.jobs)
    (hevs : fx'.events = fx.events) : Scoped s fx' :=
  h.step hf (.of_eq .refl hjobs) (hevs.trans (append_nil _).symm) (by simp)

/-- Seating a placement rewrites the job's state and attempts. -/
theorem Scoped.seat (h : Scoped s fx) (at_ : Timestamp) (p : Placement) (cutoff : Option Timestamp)
    (group : List Victim) : Scoped s (fx.seatPlacement at_ p cutoff group) := by
  have hvictims : ∀ (node : NodeId) (group : List Victim) (fx : Effects),
      Scoped s fx → Scoped s (group.foldl (fun fx v => fx.recordVictim at_ node v) fx) := by
    refine fun node group fx h => foldlRecOn group _ h fun fx h v _ => ?_
    unfold recordVictim
    split
    · exact h
    · refine Scoped.emit (h.aside ?_ ?_ ?_) ?_
      all_goals first | exact .same rfl rfl | rfl | trivial
  unfold seatPlacement
  split
  · rename_i spec j _ _
    refine hvictims spec.node group _ (Scoped.aside ?_ (walkAncestors_framed _ _ _ _) ?_ rfl)
    · refine Scoped.progressed ?_ (jobTransition_progressed _ _ _)
      have hrecords r a e (he : Event.Plain e) : Scoped s (((fx.seatRecords spec r a).memoAdd
          spec.node r.allocation.funded).emit e) := by
        refine Scoped.emit ?_ he
        exact h.aside (.same rfl rfl) rfl rfl
      refine Scoped.step ?_ (.same rfl rfl) (.of_modify .refl _ fun _ _ => ⟨rfl, rfl, rfl⟩)
        (append_nil _).symm (by simp)
      split_ifs
      · refine Scoped.emit (hrecords _ _ _ ?_) ?_ <;> trivial
      · refine hrecords _ _ _ ?_
        trivial
    · obtain ⟨q, hq⟩ := chargeAncestors_st _ j.spec.quotaEntity _ at_
      rw [hq]
  · exact h

theorem Scoped.seatAll (at_ : Timestamp) (ps : List Placement) (cutoffs : List (Option Timestamp))
    (groups : List (List Victim)) (h : Scoped s fx) :
    Scoped s (seatAll at_ ps cutoffs groups fx) := by
  induction ps generalizing cutoffs groups fx with
  | nil => exact h
  | cons p ps ih =>
    cases cutoffs with
    | nil => exact h
    | cons cutoff cutoffs =>
      cases groups with
      | nil => exact h
      | cons group groups => exact ih cutoffs groups (h.seat at_ p cutoff group)

/-! ## Evictions -/

/-- Jobs have gone, each with an event that carries its keys. -/
structure Evicting (s : StateMachine) (fx : Effects) : Prop where
  parents : ∀ e, fx.st.parentOf e = s.parentOf e
  jobs : ∀ job, fx.st.jobs.get? job = none ∨ fx.st.jobs.get? job = s.jobs.get? job
  events : ∀ e ∈ fx.events, ∃ job scope, e = .jobEvicted job scope ∧ s.jobScope job = some scope

theorem Evicting.evictJob (h : Evicting s fx) (job : JobId) :
    Evicting s (StateMachine.evictJob fx job) := by
  have hparents : ∀ e, (StateMachine.evictJob fx job).st.parentOf e = s.parentOf e := fun e =>
    (parentOf_framed (StateMachine.evictJob_evicted fx job).framed e).trans (h.parents e)
  unfold StateMachine.evictJob at hparents ⊢
  split
  · exact h
  · rename_i r hr
    simp only [hr] at hparents ⊢
    have hjobs : ∀ k, ((r.attempts.foldl StateMachine.evictAttempt
        { fx.st with jobs := fx.st.jobs.erase job }).jobs.get? k) =
          if job = k then none else fx.st.jobs.get? k := fun k => by
      rw [(StateMachine.evictAttempts_evicted _ _).2, get?_erase]
    refine ⟨hparents, fun k => ?_, fun e he => ?_⟩
    · by_cases hk : job = k
      · exact .inl ((hjobs k).trans (if_pos hk))
      · exact (h.jobs k).imp ((hjobs k).trans (if_neg hk)).trans ((hjobs k).trans (if_neg hk)).trans
    · rcases mem_append.mp he with he | he
      · exact h.events e he
      · refine ⟨job, _, mem_singleton.mp he, ?_⟩
        unfold StateMachine.jobScope
        rw [get?_of_gone (h.jobs job).symm hr, Option.map_some,
          ← StateMachine.entityChain_congr hparents]
        rfl

/-! ## Both sides of a command -/

/-- What the events carry of a job, with its keys after the command, are its keys on both
    sides. -/
def Sided (s : StateMachine) (out : Reply) : Prop :=
  ∀ x, out.2 = .ok x → ∀ e ∈ x.events, ∀ job, e.job = some job → ∀ scope,
    (out.1.jobScope job = some scope ∨
      ∃ e ∈ x.events, carried (out.1.jobScope job) job e = some scope) ↔
    (s.jobScope job = some scope ∨ out.1.jobScope job = some scope)

/-- No event carries keys, and a job has the ones it had, if it had any. -/
theorem sided_of_plain (hplain : ∀ e ∈ evs, Event.Plain e)
    (hbefore : ∀ e ∈ evs, ∀ job, e.job = some job →
      s.jobScope job = none ∨ s.jobScope job = s'.jobScope job) : Sided s (s', .ok ⟨evs⟩) := by
  rintro x ⟨⟩ e he job hjob scope
  have hnone : ¬∃ e ∈ evs, carried (s'.jobScope job) job e = some scope := by
    rintro ⟨e, he, hcarried⟩
    have := hplain e he
    cases e <;> first | exact this.elim | cases hcarried
  rw [or_iff_left hnone]
  rcases hbefore e he job hjob with h | h <;> simp [h]

/-- Every event carries the keys its job had. -/
theorem sided_of_carried (h : ∀ e ∈ evs, ∃ job, e.job = some job ∧
      carried (s'.jobScope job) job e = s.jobScope job) : Sided s (s', .ok ⟨evs⟩) := by
  rintro x ⟨⟩ e he job hjob scope
  have hown : ∀ e ∈ evs, e.job = some job → carried (s'.jobScope job) job e = s.jobScope job := by
    intro e he hjob
    obtain ⟨k, hk, hcarried⟩ := h e he
    rwa [Option.some.inj (hk.symm.trans hjob)] at hcarried
  constructor
  · rintro (hafter | ⟨e, he, hcarried⟩)
    · exact .inr hafter
    · have hjob : e.job = some job := by
        unfold carried at hcarried
        split at hcarried
        · split_ifs at hcarried with hk
          exact congrArg some hk
        · split_ifs at hcarried with hk
          exact congrArg some hk
        · cases hcarried
      exact .inl ((hown e he hjob).symm.trans hcarried)
  · rintro (hbefore | hafter)
    · exact .inr ⟨e, he, (hown e he hjob).trans hbefore⟩
    · exact .inl hafter

theorem Scoped.sided (h : Scoped s fx) : Sided s fx.finish :=
  sided_of_plain h.plain fun _ _ job _ => .inr (h.scope job).symm

theorem sided_of_step (h : StateMachine.Step s c out) : Sided s out := by
  have hstart : Scoped s (start s) := ⟨fun _ => rfl, by simp [start]⟩
  have hflag b : Scoped s (s.aborting b) := by
    refine hstart.step (.same rfl rfl) (.of_modify .refl _ fun r _ => ?_)
      (append_nil _).symm (by simp)
    obtain ⟨-, -, -, -, hspec, -⟩ := r.requestAbort_spec ⟨b.reason, b.requestedAt⟩
    unfold SameScope
    rw [hspec]
    exact ⟨rfl, rfl, rfl⟩
  cases h with
  | reject => rintro x ⟨⟩
  | noop | setDrain | setDraining | evictNodes | renew => rintro x ⟨⟩ e ⟨⟩
  | @submit b r hnew =>
    refine sided_of_plain (by simp [submitEvents, Event.Plain]) fun e he job hjob => .inl ?_
    have hmine : job = b.job.id := by
      simp only [submitEvents, mem_cons, not_mem_nil, or_false] at he
      rcases he with rfl | rfl | rfl <;> exact (Option.some.inj hjob).symm
    rw [hmine, jobScope, hnew]
    rfl
  | @metadata b r hr =>
    refine sided_of_carried fun e he => ?_
    cases mem_singleton.mp he
    refine ⟨b.job, rfl, ?_⟩
    -- the update replaced the metadata and nothing else
    have hchain : entityChain { s with
        jobs := s.jobs.modify b.job fun x => { x with spec := { x.spec with
          metadata := StateMachine.JobMetadataUpdate.apply b.update r.spec.metadata } } }
        r.spec.quotaEntity = s.entityChain r.spec.quotaEntity :=
      entityChain_congr (by exact fun _ => rfl) _
    simp [carried, jobScope, hr, hchain]
  | @evictJobs b =>
    have hevict : Evicting s (b.jobs.foldl evictJob (start s)) := foldlRecOn b.jobs _
      ⟨fun _ => rfl, fun _ => .inr rfl, by simp [start]⟩ fun _ h job _ => h.evictJob job
    refine sided_of_carried fun e he => ?_
    obtain ⟨job, scope, rfl, hbefore⟩ := hevict.events e he
    exact ⟨job, rfl, by rw [hbefore, carried, if_pos rfl]⟩
  | abortIdle => exact ((hflag _).progressed (jobTerminalTransition_progressed _ _ _ _)).sided
  | abortUndispatched =>
    exact ((hflag _).progressed (terminateAttempt_progressed _ _ _ _ _ _)).sided
  | abortDispatched => exact ((hflag _).emit (by trivial)).sided
  | abortEnding => exact (hflag _).sided
  | @commit c =>
    have hrevoked := Scoped.progressed (s := s) ⟨fun _ => rfl, by simp⟩
      (revocations_progressed s c)
    exact (hrevoked.seatAll c.proposedAt _ _ _).sided
  | dispatchAttempt | exited =>
    exact (hstart.progressed (attemptTransition_progressed _ _ _)).sided
  | started => exact (hstart.progressed (markAttemptRunning_progressed _ _ _)).sided
  | outcome => exact (hstart.progressed (terminateAttempt_progressed _ _ _ _ _ _)).sided
  | notified =>
    refine Scoped.sided (Scoped.emit (hstart.aside ?_ ?_ ?_) ?_)
    all_goals first | exact .same rfl rfl | rfl | trivial
  | @reconcile c => exact (hstart.progressed (reconcile_progressed s c)).sided
  | register c =>
    have hnode : Scoped s (s.registering c) :=
      ⟨jobScope_congr (fun _ => rfl) (.of_eq .refl rfl), by
        simp [registering, start, emit, Event.Plain]⟩
    exact (hnode.progressed (pledgeNode_progressed _ _)).sided
  | @lost c n =>
    have hnode : Scoped s (s.losing c n) :=
      ⟨jobScope_congr (fun _ => rfl) (.of_eq .refl rfl), by
        simp [losing, start, emit, Event.Plain]⟩
    exact (hnode.progressed
      (.foldl _ (loseNodeAttempt_progressed c.declaredAt) _)).sided
  | setting _ _ hevs =>
    rintro x ⟨⟩ e he job hjob
    have := hevs e he
    cases e <;> first | exact this.elim | cases hjob

open Sample

/-- The annotation of job 1 is replaced. -/
def Sample.relabel : Command :=
  .updateJobMetadata ⟨1, .replace (empty.insert "team" "b"), none, epoch⟩

/-- A selector admits an event about a job if and only if it matches the job as it was before
    the command, or as it is after it. -/
theorem selector_sees_both (s : StateMachine) (c : Command) {x : Applied}
    (hok : (s.apply c).2 = .ok x) (index : Nat) (selector : JobSelector) (he : e ∈ x.events)
    {job : JobId} (hjob : e.job = some job) :
    eventMatches (.jobs selector) (batchOf index s c x) e = true ↔
      (∃ scope, s.jobScope job = some scope ∧ selector job scope = true) ∨
        ∃ scope, (s.apply c).1.jobScope job = some scope ∧ selector job scope = true := by
  have hversion : (s.apply c).1.jobScope job = (s.dispatch c).1.jobScope job := by
    refine jobScope_congr (fun _ => ?_) (.of_eq .refl ?_) job <;> rfl
  have hsides := sided_of_step (s.dispatch_step c) x hok e he job hjob
  rw [← hversion] at hsides
  simp only [eventMatches, hjob, jobAdmitted, scope_batchOf he hjob, Bool.or_eq_true,
    Option.any_eq_true, any_eq_true]
  constructor
  · rintro (⟨scope, hscope, hsel⟩ | ⟨e, he, scope, hscope, hsel⟩)
    · exact .inr ⟨scope, hscope, hsel⟩
    · exact ((hsides scope).mp (.inr ⟨e, he, hscope⟩)).imp (⟨scope, ·, hsel⟩) (⟨scope, ·, hsel⟩)
  · rintro (⟨scope, hscope, hsel⟩ | ⟨scope, hscope, hsel⟩)
    · exact ((hsides scope).mpr (.inl hscope)).imp (⟨scope, ·, hsel⟩)
        fun ⟨e, he, hcarried⟩ => ⟨e, he, scope, hcarried, hsel⟩
    · exact .inl ⟨scope, hscope, hsel⟩

/-- A new annotation replaces one that a selector asks for: the update still reaches it. -/
theorem selector_sees_both_annotated :
    ((run annotated).apply relabel).2 = .ok ⟨[.jobMetadataUpdated 1 (empty.insert "team" "a")]⟩ ∧
      eventMatches (.jobs fun _ scope => scope.metadata.get? "team" = some "a")
        (batchOf 4 (run annotated) relabel
          ⟨[.jobMetadataUpdated 1 (empty.insert "team" "a")]⟩)
        (.jobMetadataUpdated 1 (empty.insert "team" "a")) = true :=
  ⟨rfl, (selector_sees_both _ _ rfl 4 _ (mem_singleton_self _) rfl).mpr (.inl ⟨_, rfl, rfl⟩)⟩

end Coppice.Coordinator
