/-
  Coppice.State.Frame

  What a command leaves alone: the effect helpers write work and the usage of quota
  entities only, and a rejected command writes nothing.
-/

import Coppice.State.Lifecycle

namespace Coppice.State

open Lib Coppice.Core Effects OrdMap

/-! ## The fields the effect helpers write -/

/-- Of a quota entity only the usage differs. -/
structure QuotaEntity.Billed (q q' : QuotaEntity) : Prop where
  rest : q' = { q with usage := q'.usage }

theorem QuotaEntity.Billed.refl (q : QuotaEntity) : q.Billed q := ⟨rfl⟩

variable {q : QuotaEntity}

theorem QuotaEntity.Billed.trans (h : q.Billed q') (h' : q'.Billed q'') : q.Billed q'' :=
  ⟨by rw [h'.rest, h.rest]⟩

theorem QuotaEntity.Billed.parent (h : q.Billed q') : q'.parent = q.parent := by rw [h.rest]

/-- Only the fields of the work in progress differ, and of the quota tree the usage. -/
structure Framed (s s' : StateMachine) : Prop where
  rest : s' = { s with
    jobs := s'.jobs, attempts := s'.attempts, allocations := s'.allocations
    quotaEntities := s'.quotaEntities, accrualQueue := s'.accrualQueue
    nextAllocationSeq := s'.nextAllocationSeq }
  entities : Rel QuotaEntity.Billed s.quotaEntities s'.quotaEntities

namespace Framed

variable {s s' s'' : StateMachine}

theorem refl (s : StateMachine) : Framed s s := ⟨rfl, .refl .refl _⟩

theorem trans (h : Framed s s') (h' : Framed s' s'') : Framed s s'' :=
  ⟨by rw [h'.rest, h.rest], h.entities.trans .trans h'.entities⟩

/-- A step that does not touch the quota tree. -/
theorem same (h : s' = { s with
      jobs := s'.jobs, attempts := s'.attempts, allocations := s'.allocations
      quotaEntities := s'.quotaEntities, accrualQueue := s'.accrualQueue
      nextAllocationSeq := s'.nextAllocationSeq }) (hq : s'.quotaEntities = s.quotaEntities) :
    Framed s s' :=
  ⟨h, .of_eq .refl hq⟩

section

variable (h : Framed s s')

include h

theorem version : s'.version = s.version := by rw [h.rest]

theorem nodes : s'.nodes = s.nodes := by rw [h.rest]

theorem policy : s'.policy = s.policy := by rw [h.rest]

theorem bindings : s'.bindings = s.bindings := by rw [h.rest]

theorem clusterVersion : s'.clusterVersion = s.clusterVersion := by rw [h.rest]

end

/-- A fold of framed steps. -/
theorem foldl {α : Type} {f : Effects → α → Effects} (hf : ∀ fx x, Framed fx.st (f fx x).st)
    (l : List α) (fx : Effects) : Framed fx.st (l.foldl f fx).st :=
  foldl_trans (R := fun fx fx' => Framed fx.st fx'.st) (fun _ => .refl _) .trans hf l fx

end Framed

/-- An attempt moves: its state, stamps and settlement may differ. -/
def AttemptRecord.Moves (a a' : AttemptRecord) : Prop :=
  a' = { a with
    attempt := { a.attempt with state := a'.attempt.state }
    startedAt := a'.startedAt, endedAt := a'.endedAt, settlement := a'.settlement }

/-- An allocation moves: its state and what it holds may differ. -/
def AllocationRecord.Moves (r r' : AllocationRecord) : Prop :=
  r' = { r with
    allocation := { r.allocation with
      state := r'.allocation.state, funded := r'.allocation.funded } }

/-- A job moves: its state, stamp and retries may differ. -/
def JobRecord.Moves (j j' : JobRecord) : Prop :=
  j' = { j with state := j'.state, terminalAt := j'.terminalAt, retriesUsed := j'.retriesUsed }

theorem AttemptRecord.Moves.refl (a : AttemptRecord) : a.Moves a := rfl

theorem AllocationRecord.Moves.refl (r : AllocationRecord) : r.Moves r := rfl

theorem JobRecord.Moves.refl (j : JobRecord) : j.Moves j := rfl

theorem AttemptRecord.Moves.trans {a : AttemptRecord} (h : a.Moves b) (h' : b.Moves c) :
    a.Moves c := by
  unfold Moves at *
  rw [h', h]

theorem AllocationRecord.Moves.trans {a : AllocationRecord} (h : a.Moves b) (h' : b.Moves c) :
    a.Moves c := by
  unfold Moves at *
  rw [h', h]

theorem JobRecord.Moves.trans {a : JobRecord} (h : a.Moves b) (h' : b.Moves c) : a.Moves c := by
  unfold Moves at *
  rw [h', h]

/-- The work in progress moves, and nothing comes or goes. -/
structure Moved (s s' : StateMachine) : Prop where
  framed : Framed s s'
  attempts : Rel AttemptRecord.Moves s.attempts s'.attempts
  allocations : Rel AllocationRecord.Moves s.allocations s'.allocations
  jobs : Rel JobRecord.Moves s.jobs s'.jobs

namespace Moved

variable {s s' s'' : StateMachine}

theorem trans (h : Moved s s') (h' : Moved s' s'') : Moved s s'' :=
  ⟨h.framed.trans h'.framed, h.attempts.trans .trans h'.attempts,
    h.allocations.trans .trans h'.allocations, h.jobs.trans .trans h'.jobs⟩

/-- A step that leaves the three maps alone. -/
theorem of_framed (h : Framed s s') (ha : s'.attempts = s.attempts)
    (hr : s'.allocations = s.allocations) (hj : s'.jobs = s.jobs) : Moved s s' :=
  ⟨h, .of_eq .refl ha, .of_eq .refl hr, .of_eq .refl hj⟩

theorem refl (s : StateMachine) : Moved s s := .of_framed (.refl s) rfl rfl rfl

end Moved

/-- The event reports a move. -/
def Event.Progress : Event → Prop
  | .jobStateChanged .. | .attemptStateChanged .. | .allocationFunded .. => True
  | _ => False

/-- The effects move the work and report moves only. -/
structure Progressed (fx fx' : Effects) : Prop where
  moved : Moved fx.st fx'.st
  events : ∃ evs, fx'.events = fx.events ++ evs ∧ ∀ e ∈ evs, e.Progress

namespace Progressed

theorem trans (h : Progressed fx fx') (h' : Progressed fx' fx'') : Progressed fx fx'' := by
  obtain ⟨evs, he, hp⟩ := h.events
  obtain ⟨evs', he', hp'⟩ := h'.events
  exact ⟨h.moved.trans h'.moved, evs ++ evs', by rw [he', he, List.append_assoc],
    List.forall_mem_append.mpr ⟨hp, hp'⟩⟩

/-- Nothing is reported. -/
theorem silent {fx fx' : Effects} (h : Moved fx.st fx'.st) (he : fx'.events = fx.events) :
    Progressed fx fx' :=
  ⟨h, [], by rw [he, List.append_nil], by simp⟩

variable (fx : Effects)

theorem refl : Progressed fx fx := .silent (.refl _) rfl

theorem foldl {α : Type} {f : Effects → α → Effects} (hf : ∀ fx x, Progressed fx (f fx x))
    (l : List α) : Progressed fx (l.foldl f fx) :=
  foldl_trans refl trans hf l fx

theorem emit {e : Event} (he : e.Progress) : Progressed fx (fx.emit e) :=
  ⟨.refl _, [e], rfl, by simpa using he⟩

theorem modifyAttempt (id : AttemptId) (f : AttemptRecord → AttemptRecord)
    (hf : ∀ a : AttemptRecord, a.Moves (f a)) : Progressed fx (fx.modifyAttempt id f) :=
  .silent ⟨.same rfl rfl, .of_modify .refl f fun a _ => hf a, .of_eq .refl rfl, .of_eq .refl rfl⟩
    rfl

theorem modifyAllocation (id : AllocationId) (f : AllocationRecord → AllocationRecord)
    (hf : ∀ r : AllocationRecord, r.Moves (f r)) : Progressed fx (fx.modifyAllocation id f) :=
  .silent ⟨.same rfl rfl, .of_eq .refl rfl, .of_modify .refl f fun r _ => hf r, .of_eq .refl rfl⟩
    rfl

theorem modifyJob (id : JobId) (f : JobRecord → JobRecord) (hf : ∀ j : JobRecord, j.Moves (f j)) :
    Progressed fx (fx.modifyJob id f) :=
  .silent ⟨.same rfl rfl, .of_eq .refl rfl, .of_eq .refl rfl, .of_modify .refl f fun j _ => hf j⟩
    rfl

end Progressed

namespace Effects

variable (fx : Effects)

theorem attemptTransition_progressed (id : AttemptId) (to_ : AttemptState) :
    Progressed fx (fx.attemptTransition id to_) := by
  unfold attemptTransition
  split
  · exact .refl fx
  · split_ifs
    · exact (Progressed.modifyAttempt fx id _ fun _ => by rfl).trans (.emit _ trivial)
    · exact .refl fx

theorem jobTransition_progressed (job : JobId) (to_ : JobState) :
    Progressed fx (fx.jobTransition job to_) := by
  unfold jobTransition
  split
  · exact .refl fx
  · split_ifs
    · exact (Progressed.modifyJob fx job _ fun _ => by rfl).trans (.emit _ trivial)
    · exact .refl fx

theorem jobTerminalTransition_progressed (job : JobId) (to_ : JobState) (at_ : Timestamp) :
    Progressed fx (fx.jobTerminalTransition job to_ at_) := by
  refine (Progressed.modifyJob fx job _ fun j => ?_).trans (jobTransition_progressed _ job to_)
  split_ifs <;> rfl

theorem resolveJob_progressed (job : JobId) (outcome : AttemptOutcome) (at_ : Timestamp) :
    Progressed fx (fx.resolveJob job outcome at_) := by
  unfold resolveJob
  repeat' split
  · exact .refl fx
  · exact .refl fx
  · exact fx.jobTerminalTransition_progressed job _ at_
  · exact (Progressed.modifyJob fx job _ fun _ => by rfl).trans (jobTransition_progressed _ job _)
  · exact fx.jobTransition_progressed job _

theorem markAttemptRunning_progressed (id : AttemptId) (at_ : Timestamp) :
    Progressed fx (fx.markAttemptRunning id at_) := by
  unfold markAttemptRunning
  split
  · exact .refl fx
  · refine ((Progressed.modifyAttempt fx id _ fun a => ?_).trans
      (attemptTransition_progressed _ id .running)).trans (.modifyAllocation _ _ _ fun r => ?_)
    · split_ifs <;> rfl
    · split_ifs <;> rfl

theorem checkReadyBarrier_progressed (id : AttemptId) :
    Progressed fx (fx.checkReadyBarrier id) := by
  unfold checkReadyBarrier
  split
  · exact .refl fx
  · simp only
    split_ifs
    · refine Progressed.foldl fx (fun fx x => ?_) _
      split
      · exact .refl fx
      · split_ifs
        · exact fx.attemptTransition_progressed x .ready
        · exact .refl fx
    · exact .refl fx

theorem pledgeOne_progressed (node : NodeId) (seq : Nat) (id : AllocationId) (free : Resources) :
    Progressed fx (pledgeOne node seq id fx free).1 := by
  unfold pledgeOne
  split
  · exact .refl fx
  · simp only
    split_ifs
    · exact .refl fx
    · -- the funded allocation leaves the queue and is reported
      refine ⟨Moved.trans (Progressed.modifyAllocation fx id _ fun _ => ?_).moved
        (.of_framed (.same rfl rfl) rfl rfl rfl), [_], rfl, by simp [Event.Progress]⟩
      rfl
    · refine (Progressed.modifyAllocation fx id _ fun _ => ?_).trans (.silent (.refl _) rfl)
      rfl

theorem pledgeLoop_progressed (node : NodeId) (l : List (Nat × AllocationId)) (free : Resources) :
    Progressed fx (pledgeLoop node l fx free).1 := by
  induction l generalizing fx free with
  | nil => exact .refl fx
  | cons e rest ih =>
    obtain ⟨seq, id⟩ := e
    have hone := fx.pledgeOne_progressed node seq id free
    simp only [pledgeLoop]
    split_ifs
    · exact .refl fx
    · generalize pledgeOne node seq id fx free = out at hone
      obtain ⟨fx1, free1, full⟩ := out
      cases full <;> exact hone.trans (ih fx1 free1)

theorem pledgeNode_progressed (node : NodeId) : Progressed fx (fx.pledgeNode node) := by
  unfold pledgeNode
  simp only
  split_ifs
  · exact .refl fx
  · refine (fx.pledgeLoop_progressed node _ _).trans (.foldl _ (fun fx x => ?_) _)
    split
    · exact .refl fx
    · exact fx.checkReadyBarrier_progressed _

theorem releaseAllocation_progressed (al : AllocationId) (pledge : Bool) :
    Progressed fx (fx.releaseAllocation al pledge) := by
  unfold releaseAllocation
  split
  · exact .refl fx
  · rename_i r _
    have hfree : Progressed fx (((fx.modifyAllocation al AllocationRecord.freed).dequeue
        r.allocation.node r.seq).memoSub r.allocation.node r.allocation.funded) :=
      (Progressed.modifyAllocation fx al AllocationRecord.freed fun _ => rfl).trans
        (.silent (.of_framed (.same rfl rfl) rfl rfl rfl) rfl)
    split_ifs
    · exact .refl fx
    · exact hfree.trans (pledgeNode_progressed _ _)
    · exact hfree

end Effects

theorem walkAncestors_framed (f : UsageState → UsageState) (fuel : Nat) (e : Option QuotaEntityId)
    (s : StateMachine) : Framed s (StateMachine.walkAncestors f fuel e s) := by
  induction fuel generalizing e s with
  | zero => exact .refl s
  | succ fuel ih =>
    cases e with
    | none => exact .refl s
    | some id =>
      unfold StateMachine.walkAncestors
      cases hq : s.quotaEntities.get? id with
      | none => exact .refl s
      | some q =>
        refine Framed.trans ⟨rfl, ?_⟩ (ih _ _)
        exact .of_insert .refl hq ⟨rfl⟩

theorem settleAncestors_moved (s : StateMachine) (entity : QuotaEntityId) (x : TrueUp)
    (at_ : Timestamp) : Moved s (s.settleAncestors entity x at_) := by
  obtain ⟨q, hq⟩ := settleAncestors_st s entity x at_
  refine .of_framed (walkAncestors_framed _ _ _ _) ?_ ?_ ?_ <;> rw [hq]

namespace Effects

variable (fx : Effects)

theorem terminateAttempt_progressed (id : AttemptId) (outcome : AttemptOutcome) (rt : Duration)
    (at_ : Timestamp) (pledge : Bool) :
    Progressed fx (fx.terminateAttempt id outcome rt at_ pledge) := by
  unfold terminateAttempt
  split
  · exact .refl fx
  · rename_i a _
    split_ifs
    · exact .refl fx
    · refine Progressed.trans ?_ (resolveJob_progressed _ _ _ _)
      -- the end of the attempt and the release, then the settlement
      have hended := (fx.attemptTransition_progressed id (.terminal outcome)).trans
        (.modifyAttempt _ id (fun a =>
          if a.endedAt.isNone then { a with endedAt := some at_ } else a) fun a => by
            split_ifs <;> rfl)
      have hfreed := hended.trans (releaseAllocation_progressed _ a.attempt.allocation pledge)
      have hsettle : ∀ (fx : Effects) x, Progressed fx (fx.modifyAttempt id fun a =>
          if a.settlement.isNone then { a with settlement := some x } else a) := by
        intro fx x
        refine .modifyAttempt fx id _ fun a => ?_
        split_ifs <;> rfl
      split
      · exact hfreed.trans (hsettle _ _)
      · exact (hfreed.trans (hsettle _ _)).trans (.silent (settleAncestors_moved _ _ _ _) rfl)

theorem revokeOne_progressed (at_ : Timestamp) (id : AllocationId) :
    Progressed fx (revokeOne at_ fx id) := by
  unfold revokeOne
  split
  · exact .refl fx
  · exact fx.terminateAttempt_progressed _ _ _ _ _

theorem recordVictim_framed (at_ : Timestamp) (node : NodeId) (v : Victim) :
    Framed fx.st (fx.recordVictim at_ node v).st := by
  unfold recordVictim
  split <;> exact .same rfl rfl

theorem seatPlacement_framed (at_ : Timestamp) (p : Placement) (cutoff : Option Timestamp)
    (group : List Victim) : Framed fx.st (fx.seatPlacement at_ p cutoff group).st := by
  unfold seatPlacement
  split
  · rename_i spec j _ _
    refine Framed.trans ?_ (Framed.foldl (fun fx v => fx.recordVictim_framed at_ spec.node v) _ _)
    refine Framed.trans ?_ (walkAncestors_framed _ _ _ _)
    refine Framed.trans ?_ (jobTransition_progressed _ _ _).moved.framed
    split_ifs <;> exact .same rfl rfl
  · exact .refl _

theorem seatAll_framed (at_ : Timestamp) (ps : List Placement) (cutoffs : List (Option Timestamp))
    (groups : List (List Victim)) : Framed fx.st (seatAll at_ ps cutoffs groups fx).st := by
  induction ps generalizing fx cutoffs groups with
  | nil => exact .refl _
  | cons p ps ih =>
    cases cutoffs with
    | nil => exact .refl _
    | cons cutoff cutoffs =>
      cases groups with
      | nil => exact .refl _
      | cons group groups =>
        exact (fx.seatPlacement_framed at_ p cutoff group).trans
          (ih (fx.seatPlacement at_ p cutoff group) cutoffs groups)

end Effects

namespace StateMachine

section

variable (at_ : Timestamp) (fx : Effects)

theorem adoptOne_progressed (id : AttemptId) : Progressed fx (adoptOne at_ fx id) := by
  unfold adoptOne
  split
  · exact .refl fx
  · split_ifs
    · exact fx.markAttemptRunning_progressed _ _
    · exact .refl fx

theorem loseOne_progressed (l : LostAttempt) : Progressed fx (loseOne at_ fx l) := by
  unfold loseOne
  split
  · exact .refl fx
  · split_ifs
    · exact .refl fx
    · exact fx.terminateAttempt_progressed _ _ _ _ _

theorem loseNodeAttempt_progressed (v : AllocationId × AttemptId) :
    Progressed fx (loseNodeAttempt at_ fx v) :=
  fx.terminateAttempt_progressed v.2 _ _ _ _

end

theorem revocations_progressed (s : StateMachine) (c : CommitPlacements) :
    Progressed ⟨s, [], some s.usedCapacityMemo⟩
      (c.revocations.foldl (revokeOne c.proposedAt) ⟨s, [], some s.usedCapacityMemo⟩) :=
  .foldl _ (fun fx id => fx.revokeOne_progressed c.proposedAt id) _

theorem reconcile_progressed (s : StateMachine) (c : ReconcileNode) :
    Progressed (start s) (s.reconciling c) :=
  (Progressed.foldl _ (adoptOne_progressed c.observedAt) c.adopted).trans
    (.foldl _ (loseOne_progressed c.observedAt) c.lost)

theorem renewOne_framed (s : StateMachine) (at_ : Timestamp) (r : IntervalRenewal) :
    Framed s (renewOne at_ s r) := by
  unfold renewOne
  simp only
  repeat' split
  case h_2 =>
    refine Framed.trans ?_ (walkAncestors_framed _ _ _ _)
    exact .same rfl rfl
  all_goals exact .same rfl rfl

theorem renewAll_framed (at_ : Timestamp) (l : List IntervalRenewal) (s : StateMachine) :
    Framed s (l.foldl (renewOne at_) s) :=
  foldl_trans .refl .trans (fun s r => s.renewOne_framed at_ r) l s

/-- Records have gone, and everything else is as it was. -/
structure Evicted (s s' : StateMachine) : Prop where
  rest : s' = { s with
    jobs := s'.jobs, attempts := s'.attempts, allocations := s'.allocations
    accrualQueue := s'.accrualQueue }
  attempts : ∀ id, s'.attempts.get? id = s.attempts.get? id ∨ s'.attempts.get? id = none
  allocations : ∀ al, s'.allocations.get? al = s.allocations.get? al ∨
    s'.allocations.get? al = none

namespace Evicted

theorem refl (s : StateMachine) : Evicted s s := ⟨rfl, fun _ => .inl rfl, fun _ => .inl rfl⟩

theorem trans (h : Evicted s s') (h' : Evicted s' s'') : Evicted s s'' :=
  ⟨by rw [h'.rest, h.rest], fun id => (h'.attempts id).elim (fun e => e ▸ h.attempts id) .inr,
    fun al => (h'.allocations al).elim (fun e => e ▸ h.allocations al) .inr⟩

theorem framed (h : Evicted s s') : Framed s s' := .same (by rw [h.rest]) (by rw [h.rest])

end Evicted

theorem evictAttempts_evicted (l : List AttemptId) (s : StateMachine) :
    Evicted s (l.foldl evictAttempt s) ∧ (l.foldl evictAttempt s).jobs = s.jobs := by
  refine foldl_trans (R := fun s s' => Evicted s s' ∧ s'.jobs = s.jobs) (fun s => ⟨.refl s, rfl⟩)
    (fun h h' => ⟨h.1.trans h'.1, h'.2.trans h.2⟩) (fun s id => ?_) l s
  have herase {V : Type} (m : OrdMap Nat V) (k x : Nat) :
      (m.erase k).get? x = m.get? x ∨ (m.erase k).get? x = none := by
    rw [get?_erase]
    split_ifs
    · exact .inr rfl
    · exact .inl rfl
  unfold evictAttempt
  split
  · exact ⟨.refl s, rfl⟩
  · simp only
    split
    · exact ⟨⟨rfl, herase _ _, fun _ => .inl rfl⟩, rfl⟩
    · exact ⟨⟨rfl, herase _ _, herase _ _⟩, rfl⟩

theorem evictJob_evicted (fx : Effects) (job : JobId) : Evicted fx.st (evictJob fx job).st := by
  unfold evictJob
  split
  · exact .refl _
  · rename_i r _
    have hjob : Evicted fx.st { fx.st with jobs := fx.st.jobs.erase job } :=
      ⟨rfl, fun _ => .inl rfl, fun _ => .inl rfl⟩
    exact hjob.trans (evictAttempts_evicted r.attempts _).1

theorem evictJobs_evicted (l : List JobId) (fx : Effects) :
    Evicted fx.st (l.foldl evictJob fx).st :=
  foldl_trans (R := fun fx fx' => Evicted fx.st fx'.st) (fun _ => .refl _) .trans evictJob_evicted
    l fx

/-- The commands that move work write no node, no policy and no identity. -/
theorem Step.framed (h : Step s c out) (hk : c.kind = .work) : Framed s out.1 := by
  have hflag : ∀ c, Framed s (s.aborting c).st := fun _ => .same rfl rfl
  cases h with
  | reject | noop | submit | abortDispatched | abortEnding | metadata | notified =>
    exact .same rfl rfl
  | abortIdle => exact (hflag _).trans (jobTerminalTransition_progressed _ _ _ _).moved.framed
  | abortUndispatched =>
    exact (hflag _).trans (terminateAttempt_progressed _ _ _ _ _ _).moved.framed
  | @commit c =>
    exact (revocations_progressed s c).moved.framed.trans (seatAll_framed _ _ _ _ _)
  | dispatchAttempt | exited =>
    exact ((start s).attemptTransition_progressed _ _).moved.framed
  | started => exact ((start s).markAttemptRunning_progressed _ _).moved.framed
  | outcome => exact ((start s).terminateAttempt_progressed _ _ _ _ _).moved.framed
  | @reconcile c =>
    exact (reconcile_progressed s c).moved.framed
  | @evictJobs c => exact (evictJobs_evicted c.jobs (start s)).framed
  | @renew c => exact renewAll_framed c.proposedAt c.renewals s
  | setting hkind =>
    rw [hkind] at hk
    cases hk
  | _ => cases hk

theorem registering_framed (s : StateMachine) (c : RegisterNode) :
    Framed (s.registering c).st ((s.registering c).pledgeNode c.node).st :=
  ((s.registering c).pledgeNode_progressed c.node).moved.framed

theorem losing_framed (s : StateMachine) (c : DeclareNodeLost) (n : NodeRecord) :
    Framed (s.losing c n).st (s.losses c n).st :=
  (Progressed.foldl (s.losing c n) (loseNodeAttempt_progressed c.declaredAt) _).moved.framed

end StateMachine

/-! ## Rejections -/

/-- The quota tree grows at most: entities stay where they are, and a new one is put
    under an entity that is there. -/
structure Grown (s s' : StateMachine) : Prop where
  kept : ∀ e q, s.quotaEntities.get? e = some q →
    ∃ q', s'.quotaEntities.get? e = some q' ∧ q'.parent = q.parent
  planted : ∀ e q' p, s'.quotaEntities.get? e = some q' → s.quotaEntities.get? e = none →
    q'.parent = some p → s.quotaEntities.contains p = true

variable {s s' : StateMachine}

theorem Grown.of_billed (h : Rel QuotaEntity.Billed s.quotaEntities s'.quotaEntities) :
    Grown s s' := by
  refine ⟨fun e q hq => ?_, fun e q' p hq' hnone => ?_⟩
  · obtain ⟨q', hq', hb⟩ := h.some hq
    exact ⟨q', hq', hb.parent⟩
  · rw [← h.none_iff, hq'] at hnone
    cases hnone

theorem Grown.of_eq (h : s'.quotaEntities = s.quotaEntities) : Grown s s' :=
  .of_billed (.of_eq .refl h)

/-- What every command's own function guarantees: a rejection leaves the state
    it was given, the version is left to `apply`, and the quota tree grows at most. -/
structure Atomic (s : StateMachine) (out : Reply) : Prop where
  rejected : ∀ r, out.2 = .error r → out.1 = s
  version : out.1.version = s.version
  grown : Grown s out.1

namespace Atomic

theorem reject (s : StateMachine) (r : RejectionReason) : Atomic s (s, .error r) :=
  ⟨fun _ _ => rfl, rfl, .of_eq rfl⟩

theorem grow {x : Applied} (h : s'.version = s.version) (hg : Grown s s') : Atomic s (s', .ok x) :=
  ⟨fun _ e => (by cases e), h, hg⟩

end Atomic

/-- What all commands but one guarantee: of the quota tree only usage changes. -/
structure Tended (s : StateMachine) (out : Reply) : Prop where
  rejected : ∀ r, out.2 = .error r → out.1 = s
  version : out.1.version = s.version
  entities : Rel QuotaEntity.Billed s.quotaEntities out.1.quotaEntities

namespace Tended

theorem atomic (h : Tended s out) : Atomic s out := ⟨h.rejected, h.version, .of_billed h.entities⟩

theorem reject (s : StateMachine) (r : RejectionReason) : Tended s (s, .error r) :=
  ⟨fun _ _ => rfl, rfl, .of_eq .refl rfl⟩

variable {x : Applied}

theorem bill (h : s'.version = s.version)
    (hq : Rel QuotaEntity.Billed s.quotaEntities s'.quotaEntities) : Tended s (s', .ok x) :=
  ⟨fun _ e => (by cases e), h, hq⟩

theorem accept (h : s'.version = s.version) (hq : s'.quotaEntities = s.quotaEntities) :
    Tended s (s', .ok x) :=
  bill h (.of_eq .refl hq)

end Tended

namespace StateMachine

variable (s : StateMachine)

/-- An entity that is there keeps its place; a new one goes under its parent. -/
theorem configureQuotaEntity_atomic (c : ConfigureQuotaEntity) :
    Atomic s (s.configureQuotaEntity c) := by
  unfold configureQuotaEntity
  cases hq : s.quotaEntities.get? c.entity with
  | some existing =>
    simp only
    unfold reconfigureQuotaEntity
    split
    · exact .reject s _
    · split_ifs with hname
      · exact .reject s _
      · rw [not_or, not_not, not_not] at hname
        refine .grow rfl ⟨fun e q he => ?_, fun e q' p he hnone _ => ?_⟩
        · simp only [get?_insert]
          split_ifs with h
          · rw [← h, hq] at he
            cases he
            exact ⟨_, rfl, rfl⟩
          · exact ⟨q, he, rfl⟩
        · simp only [get?_insert] at he
          split_ifs at he with h
          · rw [← h, hq] at hnone
            cases hnone
          · rw [he] at hnone
            cases hnone
  | none =>
    simp only
    unfold createQuotaEntity
    split
    · exact .reject s _
    · split
      · exact .reject s _
      · rename_i hparent
        split
        · exact .reject s _
        · split
          · exact .reject s _
          · refine .grow rfl ⟨fun e q he => ?_, fun e q' p he hnone hp => ?_⟩
            · simp only [get?_insert]
              split_ifs with h
              · rw [← h, hq] at he
                cases he
              · exact ⟨q, he, rfl⟩
            · simp only [get?_insert] at he
              split_ifs at he with h
              · cases he
                have hp' : c.parent = some p := hp
                unfold checkParent at hparent
                simp only [hp'] at hparent
                split_ifs at hparent with hmem
                simpa using hmem
              · rw [he] at hnone
                cases hnone

theorem Step.rejected {s : StateMachine} (h : Step s c out) (r : RejectionReason)
    (he : out.2 = .error r) : out.1 = s := by
  cases h with
  | reject => rfl
  | _ => cases he

theorem Step.tended {s : StateMachine} (h : Step s c out) (hc : ∀ x, c ≠ .configureQuotaEntity x) :
    Tended s out := by
  by_cases hk : c.kind = .work
  · exact ⟨h.rejected, (h.framed hk).version, (h.framed hk).entities⟩
  · cases h with
    | reject c r => exact .reject s r
    | noop | setDrain | setDraining => exact .accept rfl rfl
    | register c => exact .bill (s.registering_framed c).version (s.registering_framed c).entities
    | @lost c n => exact .bill (s.losing_framed c n).version (s.losing_framed c n).entities
    | @evictNodes c =>
      obtain ⟨_, _, heq⟩ := evictNodes_st c.nodes s
      rw [heq]
      exact .accept rfl rfl
    | setting _ hset => exact .accept hset.version (hset.entities hc)
    | _ => exact absurd rfl hk

theorem dispatch_atomic (c : Command) : Atomic s (s.dispatch c) := by
  by_cases h : ∃ x, c = .configureQuotaEntity x
  · obtain ⟨x, rfl⟩ := h
    exact s.configureQuotaEntity_atomic x
  · exact ((s.dispatch_step c).tended fun x hx => h ⟨x, hx⟩).atomic

/-- Every command advances the version by one, and a rejected command does
    nothing else. -/
theorem apply_atomic (s : StateMachine) (c : Command) :
    (s.apply c).1.version = s.version + 1 ∧
      ∀ r, (s.apply c).2 = .error r → (s.apply c).1 = { s with version := s.version + 1 } := by
  have h := s.dispatch_atomic c
  refine ⟨?_, fun r hr => ?_⟩
  · show (s.dispatch c).1.version + 1 = s.version + 1
    rw [h.version]
  · have hs : (s.dispatch c).1 = s := h.rejected r hr
    show { (s.dispatch c).1 with version := (s.dispatch c).1.version + 1 } = _
    rw [hs]

open Sample in
/-- A batch whose revocation and first placement stand is refused at its second
    placement, whose job has a live attempt. -/
theorem apply_atomic_refused :
    ((run (busy ++ [submit 4 1])).apply (commit [3] [place 4 1, place 2 8])).2 =
        .error (.invalidBatch [(2, .jobNotQueued 2)]) ∧
      ((run (busy ++ [submit 4 1])).apply (commit [3] [place 4 1, place 2 8])).1 =
        { run (busy ++ [submit 4 1]) with version := 13 } := by
  have hrefused : ((run (busy ++ [submit 4 1])).apply (commit [3] [place 4 1, place 2 8])).2 =
      .error (.invalidBatch [(2, .jobNotQueued 2)]) := rfl
  have hversion : (run (busy ++ [submit 4 1])).version + 1 = 13 := by decide +kernel
  exact ⟨hrefused, hversion ▸ (apply_atomic _ _).2 _ hrefused⟩

end StateMachine

end Coppice.State
