/-
  Coppice.State.Writes

  Which fields a command writes: the commands that move work leave the nodes and
  every setting alone, those of administration leave the work alone, and three node
  commands touch both.
-/

import Coppice.State.Frame

namespace Coppice.State

open Lib Coppice.Core Effects OrdMap

theorem SameKeys.of_framed (h : Framed s s') : SameKeys s s' :=
  ⟨by rw [h.rest], by rw [h.rest], by rw [h.rest], by rw [h.rest], by rw [h.rest]⟩

namespace StateMachine

variable {s : StateMachine} {c : Command} {out : Reply}

/-! ## Commands that move work -/

/-- A dispatch and what agents report move the work in progress. -/
theorem Step.moved (h : Step s c out) (hm : c.moves = true) : Moved s out.1 := by
  cases h with
  | reject | noop => exact .refl s
  | dispatchAttempt | exited => exact ((start s).attemptTransition_progressed _ _).moved
  | started => exact ((start s).markAttemptRunning_progressed _ _).moved
  | outcome => exact ((start s).terminateAttempt_progressed _ _ _ _ _).moved
  | @reconcile c => exact (reconcile_progressed s c).moved
  | setting hkind =>
    cases c with
    | dispatchAttempt | recordAttemptStarted | recordAttemptExited | recordAttemptOutcome
    | reconcileNode => cases hkind
    | _ => cases hm
  | _ => cases hm

/-! ## Commands of administration and identity -/

/-- The command is about something else than jobs, attempts and their holds: none of them
    changes and no event speaks of one. -/
structure Bystands (c : Command) (s : StateMachine) (out : Reply) : Prop where
  jobs : out.1.jobs = s.jobs
  attempts : out.1.attempts = s.attempts
  allocations : out.1.allocations = s.allocations
  entities : (∀ x, c ≠ .configureQuotaEntity x) → out.1.quotaEntities = s.quotaEntities
  decay : (∀ x, c ≠ .updatePolicy x) → out.1.policy.decay = s.policy.decay
  events : ∀ x, out.2 = .ok x → ∀ e ∈ x.events, e.OfSetting

theorem Bystands.done {s' : StateMachine} (h : s' = { s' with
      jobs := s.jobs, attempts := s.attempts, allocations := s.allocations
      quotaEntities := s.quotaEntities, policy := s.policy }) : Bystands c s s'.done :=
  ⟨by rw [h]; rfl, by rw [h]; rfl, by rw [h]; rfl, fun _ => by rw [h]; rfl,
    fun _ => by rw [h]; rfl, fun x hx => by cases hx; simp⟩

theorem Bystands.of_setting {evs : List Event} (h : Setting c s s') (hevs : ∀ e ∈ evs, e.OfSetting)
    : Bystands c s (s', .ok ⟨evs⟩) :=
  ⟨h.work.jobs, h.work.attempts, h.work.allocations, h.entities, h.decay, fun x hx => by
    cases hx; exact hevs⟩

theorem evictNodes_bystands (c : EvictNodes) :
    Bystands (.evictNodes c) s (c.nodes.foldl evictNode s).done := by
  obtain ⟨_, _, h⟩ := evictNodes_st c.nodes s
  rw [h]
  exact .done rfl

/-- Only the node and drain commands write the nodes. -/
theorem Step.nodes (h : Step s c out) (hc : c.writesNodes = false) : out.1.nodes = s.nodes := by
  by_cases hk : c.kind = .work
  · exact (h.framed hk).nodes
  · cases h with
    | reject | noop => rfl
    | setting _ hset => exact hset.nodes
    | register | lost | setDrain | setDraining | evictNodes => cases hc
    | _ => exact absurd rfl hk

/-- Only the commands about keys write the records of keys. -/
theorem Step.sameKeys (h : Step s c out) (hc : c.writesKeys = false) : SameKeys s out.1 := by
  by_cases hk : c.kind = .work
  · exact .of_framed (h.framed hk)
  · cases h with
    | reject | noop | setDrain | setDraining => exact ⟨rfl, rfl, rfl, rfl, rfl⟩
    | register c =>
      have hnode : SameKeys s (s.registering c).st := ⟨rfl, rfl, rfl, rfl, rfl⟩
      exact hnode.trans (.of_framed (s.registering_framed c))
    | @lost c n =>
      have hnode : SameKeys s (s.losing c n).st := ⟨rfl, rfl, rfl, rfl, rfl⟩
      exact hnode.trans (.of_framed (s.losing_framed c n))
    | @evictNodes c =>
      obtain ⟨_, _, heq⟩ := evictNodes_st c.nodes s
      rw [heq]
      exact ⟨rfl, rfl, rfl, rfl, rfl⟩
    | setting _ hset => exact hset.keys hc
    | _ => exact absurd rfl hk

/-! ## Node commands -/

variable (s)

theorem registerNode_nodes (c : RegisterNode) : (s.registerNode c).1.nodes =
    s.nodes.insert c.node (registeredRecord c (s.nodes.get? c.node)) :=
  (s.registering_framed c).nodes

theorem declareNodeLost_nodes (c : DeclareNodeLost) {n : NodeRecord}
    (hn : s.nodes.get? c.node = some n) : (s.declareNodeLost c).1.nodes =
      s.nodes.insert c.node { n with
        epoch := n.epoch + 1
        node := { n.node with drain := some (n.node.drain.getD ⟨c.declaredAt, none⟩) } } := by
  simp only [declareNodeLost, hn]
  exact (s.losing_framed c n).nodes

/-- An eviction only takes nodes away. -/
theorem evictNodes_nodes (c : EvictNodes) {n : NodeId} {r : NodeRecord}
    (h : (s.evictNodes c).1.nodes.get? n = some r) : s.nodes.get? n = some r := by
  have hone (s : StateMachine) x (hr : (s.evictNode x).nodes.get? n = some r) : s.nodes.get? n =
      some r := by
    unfold evictNode at hr
    split at hr
    · exact hr
    · exact (of_get?_erase hr).2
  have hfold : ∀ (l : List NodeId) (s : StateMachine),
      (l.foldl evictNode s).nodes.get? n = some r → s.nodes.get? n = some r := by
    intro l
    induction l with
    | nil => exact fun _ hr => hr
    | cons x rest ih => exact fun s hr => hone s x (ih _ hr)
  unfold evictNodes at h
  simp only at h
  split_ifs at h
  · exact h
  · split at h
    · exact h
    · exact hfold c.nodes s h

end StateMachine

/-! ## Records -/

/-- Every attempt and every hold was there before, and has moved at most. -/
structure Carried (s s' : StateMachine) : Prop where
  attempts : ∀ {id a'}, s'.attempts.get? id = some a' →
    ∃ a, s.attempts.get? id = some a ∧ a.Moves a'
  allocations : ∀ {al r'}, s'.allocations.get? al = some r' →
    ∃ r, s.allocations.get? al = some r ∧ r.Moves r'

namespace Carried

variable {s s' s'' : StateMachine}

theorem trans (h : Carried s s') (h' : Carried s' s'') : Carried s s'' := by
  constructor
  · intro id a'' ha''
    obtain ⟨a', ha', hmove'⟩ := h'.attempts ha''
    obtain ⟨a, ha, hmove⟩ := h.attempts ha'
    exact ⟨a, ha, hmove.trans hmove'⟩
  · intro al r'' hr''
    obtain ⟨r', hr', hmove'⟩ := h'.allocations hr''
    obtain ⟨r, hr, hmove⟩ := h.allocations hr'
    exact ⟨r, hr, hmove.trans hmove'⟩

theorem of_moved (h : Moved s s') : Carried s s' := ⟨h.attempts.back, h.allocations.back⟩

theorem of_eq (ha : s'.attempts = s.attempts) (hr : s'.allocations = s.allocations) :
    Carried s s' :=
  ⟨(Rel.of_eq .refl ha).back, (Rel.of_eq .refl hr).back⟩

end Carried

/-- The commands that write more of an attempt than its progress. -/
def Command.rewrites : Command → Bool
  | .commitPlacements _ | .recordAttemptNotified _ | .renewIntervalCharges _ => true
  | _ => false

namespace StateMachine

variable (s : StateMachine)

theorem Evicted.carried {s s' : StateMachine} (h : Evicted s s') : Carried s s' :=
  ⟨fun ha' => ⟨_, get?_of_gone (h.attempts _) ha', .refl _⟩,
    fun hr' => ⟨_, get?_of_gone (h.allocations _) hr', .refl _⟩⟩

/-- Whatever else a command does, it makes no attempt and no hold, and keeps all but
    the progress of those that are there. -/
theorem Step.carried {s : StateMachine} (h : Step s c out) (hc : c.rewrites = false) :
    Carried s out.1 := by
  have hflag : ∀ c, Carried s (s.aborting c).st := fun _ => .of_eq rfl rfl
  by_cases hm : c.moves = true
  · exact .of_moved (h.moved hm)
  · cases h with
    | reject | noop | submit | abortDispatched | abortEnding | metadata | setDrain
    | setDraining => exact .of_eq rfl rfl
    | abortIdle =>
      exact (hflag _).trans (.of_moved (jobTerminalTransition_progressed _ _ _ _).moved)
    | abortUndispatched =>
      exact (hflag _).trans (.of_moved (terminateAttempt_progressed _ _ _ _ _ _).moved)
    | register c =>
      have hstart : Carried s (s.registering c).st := .of_eq rfl rfl
      exact hstart.trans (.of_moved ((s.registering c).pledgeNode_progressed c.node).moved)
    | @lost c n =>
      have hstart : Carried s (s.losing c n).st := .of_eq rfl rfl
      exact hstart.trans (.of_moved (Progressed.foldl (s.losing c n)
        (loseNodeAttempt_progressed c.declaredAt) _).moved)
    | @evictJobs c => exact (evictJobs_evicted c.jobs (start s)).carried
    | @evictNodes c =>
      exact .of_eq (evictNodes_bystands c).attempts (evictNodes_bystands c).allocations
    | setting _ hset => exact .of_eq hset.work.attempts hset.work.allocations
    | commit | notified | renew => cases hc
    | _ => exact absurd rfl hm

end StateMachine

end Coppice.State
