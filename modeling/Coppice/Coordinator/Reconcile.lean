/-
  Coppice.Coordinator.Reconcile

  What a fresh observed set comes to.  Its commands were derived from one view and
  are applied one after the other; all are accepted, and afterwards the node's work
  is what the agent observed.
-/

import Coppice.Coordinator.Isolation
import Mathlib.Data.List.Pairwise

namespace Coppice.Coordinator

open Lib Coppice.Core State Protocol StateMachine List OrdMap

/-! ## The commands of a fresh set -/

section

variable {s : StateMachine} {node : NodeId} {epoch : Nat} {now : Timestamp} {a : AttemptRecord}
  {id : AttemptId} {set : ObservedSet}

theorem liveIntent_of_live (h : Consistent s) (ha : s.attempts.get? id = some a)
    (hlive : a.attempt.state.isTerminal = false) : liveIntent s a.attempt.allocation = some a := by
  obtain ⟨r, hr, hrl, hties⟩ := h.linked.allocation_of_live ha hlive
  have hid : r.allocation.attempt = id := hties.attempt
  simp [liveIntent, hr, Option.filter, hrl, hid, ha, hlive]

/-- The work of a node that an observed set leaves out. -/
def unmentioned (s : StateMachine) (node : NodeId) (set : ObservedSet) (now : Timestamp) :
    List LostAttempt :=
  (s.attempts.entries.filter fun e =>
    e.2.attempt.node = node &&
      (e.2.attempt.state = .dispatching || e.2.attempt.state = .running ||
        e.2.attempt.state = .finalizing) &&
      !((set.allocations.filter fun o => o.allocation.isSome).filterMap
        ObservedAllocation.attempt).contains e.1 &&
      !(set.allocations.filterMap ObservedAllocation.allocation).contains
        e.2.attempt.allocation).map (lostAttempt now)

theorem mem_unmentioned {l : LostAttempt} (hl : l ∈ unmentioned s node set now) :
    l.outcome ≠ .revoked ∧
      ∃ a, s.attempts.get? l.attempt = some a ∧ a.attempt.node = node ∧
        l.attempt ∉ (set.allocations.filter fun o => o.allocation.isSome).filterMap
          ObservedAllocation.attempt ∧
        a.attempt.allocation ∉
          set.allocations.filterMap ObservedAllocation.allocation := by
  obtain ⟨⟨id, a⟩, he, rfl⟩ := mem_map.mp hl
  rw [mem_filter] at he
  obtain ⟨hmem, hcond⟩ := he
  simp only [Bool.and_eq_true, decide_eq_true_eq, Bool.not_eq_true', contains_eq_mem,
    decide_eq_false_iff_not] at hcond
  obtain ⟨⟨⟨hnode, -⟩, hatt⟩, hal⟩ := hcond
  exact ⟨fun h => (nomatch h), a, mem_entries.mp hmem, hnode, hatt, hal⟩

theorem mem_unmentioned_of (ha : s.attempts.get? id = some a) (hnode : a.attempt.node = node)
    (hst : a.attempt.state = .dispatching ∨ a.attempt.state = .running ∨
      a.attempt.state = .finalizing)
    (hatt : id ∉ (set.allocations.filter fun o => o.allocation.isSome).filterMap
      ObservedAllocation.attempt) (hal : a.attempt.allocation ∉
      set.allocations.filterMap ObservedAllocation.allocation) :
    lostAttempt now (id, a) ∈ unmentioned s node set now := by
  refine mem_map_of_mem (mem_filter.mpr ⟨mem_entries.mpr ha, ?_⟩)
  simp only [Bool.and_eq_true, decide_eq_true_eq, Bool.not_eq_true', contains_eq_mem,
    decide_eq_false_iff_not, hnode, Bool.or_eq_true, or_assoc]
  exact ⟨⟨⟨trivial, hst⟩, hatt⟩, hal⟩

/-- The attempts a fresh observed set adopts. -/
def adoptedBy (s : StateMachine) (set : ObservedSet) (now : Timestamp) : List AttemptId :=
  set.allocations.flatMap fun obs => (observedVerdict s false now obs).adopted

theorem observedSetDiff_eq (s : StateMachine) (node : NodeId) (epoch : Nat) (set : ObservedSet)
    (now : Timestamp) : (observedSetDiff s node epoch set now false).commands =
      outcomeCommands s set now ++
        reconcile node epoch (adoptedBy s set now) (unmentioned s node set now) now ++
        noticeCommands s set now := by
  unfold observedSetDiff
  simp only [flatMap_map, Bool.false_eq_true, if_false]
  rfl

theorem mem_adoptedBy :
    id ∈ adoptedBy s set now ↔ ∃ obs ∈ set.allocations, ∃ a,
      obs.allocation.bind (liveIntent s) = some a ∧ obs.running = true ∧
        a.attempt.state = .dispatching ∧ id = a.attempt.id := by
  have hone (obs : ObservedAllocation) : id ∈ (observedVerdict s false now obs).adopted ↔ ∃ a,
      obs.allocation.bind (liveIntent s) = some a ∧ obs.running = true ∧ a.attempt.state =
      .dispatching ∧ id = a.attempt.id := by
    unfold observedVerdict
    cases hal : obs.allocation with
    | none => simp
    | some al =>
      cases hlive : liveIntent s al with
      | none => simp [hlive]
      | some a =>
        cases hrun : obs.running with
        | false => cases hout : obs.outcome <;> simp [hlive]
        | true => by_cases hst : a.attempt.state = .dispatching <;> simp [hlive, hst]
  simp [adoptedBy, hone]

/-- Whether or not there is anything to propose, the attempts are those of a reconciliation. -/
theorem reconcile_attempts (adopted : List AttemptId) (lost : List LostAttempt) :
    ((reconcile node epoch adopted lost now).foldl (fun s c => (s.apply c).1) s).attempts =
      (s.reconcileNode ⟨node, epoch, adopted, lost, now⟩).1.attempts := by
  unfold reconcile
  split_ifs with hany
  · rfl
  · simp only [Bool.or_eq_true, Bool.not_eq_true', isEmpty_eq_false_iff, not_or, not_not]
      at hany
    obtain ⟨rfl, rfl⟩ := hany
    unfold reconcileNode
    split
    · rfl
    · split_ifs <;> rfl

end

/-! ## Acceptance -/

/-- Every command of the list is accepted in its turn. -/
def Accepted : StateMachine → List Command → Prop
  | _, [] => True
  | s, c :: rest => (s.apply c).2.isOk = true ∧ Accepted (s.apply c).1 rest

variable {s : StateMachine}

theorem accepted_append {l' : List Command} (h : Accepted s l)
    (h' : Accepted (l.foldl (fun s c => (s.apply c).1) s) l') : Accepted s (l ++ l') := by
  induction l generalizing s with
  | nil => exact h'
  | cons c rest ih => exact ⟨h.1, ih h.2 h'⟩

/-- Outcomes of different live attempts are accepted one after the other. -/
theorem outcomes_accepted (l : List RecordAttemptOutcome) (h : Reachable s)
    (hdistinct : l.Pairwise fun c c' => c.attempt ≠ c'.attempt)
    (hlive : ∀ c ∈ l, ∃ a, s.attempts.get? c.attempt = some a ∧
      a.attempt.state.isTerminal = false ∧ a.Accepts c.outcome) :
    Accepted s (l.map Command.recordAttemptOutcome) := by
  induction l generalizing s with
  | nil => trivial
  | cons c rest ih =>
    obtain ⟨hne, hrest⟩ := pairwise_cons.mp hdistinct
    obtain ⟨a, ha, hl, hacc⟩ := hlive c (by simp)
    refine ⟨?_, ih (.step h trivial) hrest fun d hd => ?_⟩
    · show (s.recordAttemptOutcome c).2.isOk = true
      unfold recordAttemptOutcome
      rw [ha]
      simp only
      split_ifs with hterm hrev
      · rw [hl] at hterm
        cases hterm
      · obtain ⟨hcut, hstart⟩ := hacc hrev.1
        simp [hcut, hstart] at hrev
      · rfl
    · -- the attempts still to come are at most ready by now
      obtain ⟨b, hb, hlb, haccb⟩ := hlive d (mem_cons_of_mem _ hd)
      obtain ⟨b', hb', hready⟩ := recordAttemptOutcome_others h.consistent c (hne d hd).symm hb
      refine ⟨b', hb', ?_, haccb.readied hready⟩
      cases hready with
      | same => exact hlb
      | ready _ => rfl

/-- Notices write no more than the record of a termination. -/
theorem notices_quiet (l : List RecordAttemptNotified) (s : StateMachine) :
    Quiet s ((l.map Command.recordAttemptNotified).foldl (fun s c => (s.apply c).1) s) := by
  rw [foldl_map]
  exact .foldl (fun s c => (s.recordAttemptNotified_quiet c).trans (version_quiet _ _)) l s

theorem notices_accepted (l : List RecordAttemptNotified)
    (hrun : ∀ c ∈ l, ∃ a, s.attempts.get? c.attempt = some a ∧ a.attempt.state = .running) :
    Accepted s (l.map Command.recordAttemptNotified) := by
  induction l generalizing s with
  | nil => trivial
  | cons c rest ih =>
    obtain ⟨a, ha, hst⟩ := hrun c (by simp)
    refine ⟨?_, ih fun d hd => ?_⟩
    · show (s.recordAttemptNotified c).2.isOk = true
      unfold recordAttemptNotified
      simp only [ha, hst, ne_eq, not_true_eq_false, if_false]
      split <;> rfl
    · obtain ⟨b, hb, hstb⟩ := hrun d (mem_cons_of_mem _ hd)
      obtain ⟨b', hb', hnoted⟩ := (s.recordAttemptNotified_quiet c).attempts.some hb
      exact ⟨b', hb', by rw [hnoted.attempt]; exact hstb⟩

/-! ## A fresh set -/

/-- A set that lists allocations of the node, none twice, each with its own attempt. -/
def FromNode (s : StateMachine) (node : NodeId) (set : ObservedSet) : Prop :=
  (set.allocations.filterMap ObservedAllocation.allocation).Nodup ∧
    ∀ obs ∈ set.allocations, ∀ al ∈ obs.allocation, ∀ r ∈ s.allocations.get? al,
      r.allocation.node = node ∧ obs.attempt = some r.allocation.attempt

instance (s : StateMachine) (node : NodeId) (set : ObservedSet) :
    Decidable (FromNode s node set) := by
  unfold FromNode
  infer_instance

section

variable {node : NodeId} {set : ObservedSet} {now : Timestamp}

section

variable (hset : FromNode s node set)

include hset

theorem FromNode.live_node (h : Consistent s) {obs : ObservedAllocation}
    (hobs : obs ∈ set.allocations) {a : AttemptRecord}
    (ha : obs.allocation.bind (liveIntent s) = some a) : a.attempt.node = node := by
  obtain ⟨hget, -, hal⟩ := entry_spec h ha
  obtain ⟨r, hr, hties⟩ := h.linked.allocation_of hget
  exact hties.node.symm.trans (hset.2 obs hobs _ hal r hr).1

/-- Two entries for one live attempt are the same entry. -/
theorem FromNode.pairwise (h : Consistent s) :
    set.allocations.Pairwise fun o o' => ∀ a a', o.allocation.bind (liveIntent s) = some a →
      o'.allocation.bind (liveIntent s) = some a' → a.attempt.id ≠ a'.attempt.id := by
  refine (pairwise_filterMap.mp hset.1).imp fun {o o'} hne a a' ha ha' hid => ?_
  obtain ⟨hget, -, hal⟩ := entry_spec h ha
  obtain ⟨hget', -, hal'⟩ := entry_spec h ha'
  rw [hid, hget'] at hget
  cases hget
  exact hne _ hal _ hal' rfl

/-- An allocation has one entry. -/
theorem FromNode.entry_eq {o o' : ObservedAllocation} (ho : o ∈ set.allocations)
    (ho' : o' ∈ set.allocations) {al : AllocationId} (hal : o.allocation = some al)
    (hal' : o'.allocation = some al) : o = o' := by
  by_contra hne
  have : Std.Symm fun o o' : ObservedAllocation =>
      ∀ x, o.allocation = some x → ∀ y, o'.allocation = some y → x ≠ y :=
    ⟨fun _ _ hR x hx y hy => (hR y hy x hx).symm⟩
  exact (pairwise_filterMap.mp hset.1).forall ho ho' hne al hal al hal' rfl

/-- The outcomes are for different attempts. -/
theorem FromNode.outcomes_distinct (h : Consistent s) {l : List RecordAttemptOutcome}
    (hl : outcomeCommands s set now = l.map Command.recordAttemptOutcome) :
    l.Pairwise fun c c' => c.attempt ≠ c'.attempt := by
  have hpair : (outcomeCommands s set now).Pairwise fun x y => ∀ c c',
      x = .recordAttemptOutcome c → y = .recordAttemptOutcome c' → c.attempt ≠ c'.attempt := by
    refine pairwise_flatMap.mpr ⟨fun obs _ => ?_, (hset.pairwise h).imp ?_⟩
    · unfold observedVerdict
      repeat' split
      all_goals simp
    · intro o o' hne x hx y hy c c' hc hc'
      obtain ⟨a, ha, -, -, rfl⟩ := mem_verdict_commands.mp hx
      obtain ⟨a', ha', -, -, rfl⟩ := mem_verdict_commands.mp hy
      cases hc
      cases hc'
      exact hne a a' ha ha'
  rw [hl] at hpair
  exact (pairwise_map.mp hpair).imp fun hne => hne _ _ rfl rfl

end

end

/-- A live attempt holds the allocation. -/
def HeldLive (s : StateMachine) (al : AllocationId) : Prop :=
  ∃ id a, s.attempts.get? id = some a ∧ a.attempt.allocation = al ∧
    a.attempt.state.isTerminal = false

/-- The agent of the attempt that holds the allocation must be told to stop it. -/
def AbortPending (s : StateMachine) (al : AllocationId) : Prop :=
  ∃ id a, s.attempts.get? id = some a ∧ a.attempt.allocation = al ∧
    attemptHasPendingAbort s a = true

/-- An entry of the set is about the attempt. -/
def Mentioned (set : ObservedSet) (id : AttemptId) (a : AttemptRecord) : Prop :=
  ∃ obs ∈ set.allocations, ∃ al, obs.allocation = some al ∧
    (al = a.attempt.allocation ∨ obs.attempt = some id)

section

variable {node : NodeId} {n : NodeRecord} {set : ObservedSet} {now : Timestamp} {al : AllocationId}
  {l : LostAttempt}

theorem heldLive_iff (h : Consistent s) : HeldLive s al ↔ liveIntent s al ≠ none := by
  constructor
  · rintro ⟨id, a, ha, rfl, hlive⟩
    rw [liveIntent_of_live h ha hlive]
    exact Option.some_ne_none a
  · intro hne
    obtain ⟨a, ha⟩ := Option.ne_none_iff_exists'.mp hne
    obtain ⟨hget, hlive, hal⟩ := liveIntent_spec h ha
    exact ⟨_, a, hget, hal, hlive⟩

theorem abortPending_iff (h : Consistent s) :
    AbortPending s al ↔ ∃ a, liveIntent s al = some a ∧ attemptHasPendingAbort s a = true := by
  constructor
  · rintro ⟨id, a, ha, rfl, hpend⟩
    have hlive : a.attempt.state.isTerminal = false := by
      simp only [attemptHasPendingAbort, Bool.and_eq_true, Bool.or_eq_true,
        decide_eq_true_eq] at hpend
      rcases hpend.1 with hst | hst <;> rw [hst] <;> rfl
    exact ⟨a, liveIntent_of_live h ha hlive, hpend⟩
  · rintro ⟨a, ha, hpend⟩
    obtain ⟨hget, -, hal⟩ := liveIntent_spec h ha
    exact ⟨_, a, hget, hal, hpend⟩

variable {epoch : Nat}

/-- What is stopped: orphans that run, and what is to be aborted and has not ended. -/
theorem mem_stops (h : Consistent s) :
    al ∈ (observedSetDiff s node epoch set now false).stops ↔
      ∃ obs ∈ set.allocations, obs.allocation = some al ∧
        (obs.running = true ∧ ¬HeldLive s al ∨
          (obs.running = true ∨ obs.outcome = none) ∧ AbortPending s al) := by
  have hone (obs : ObservedAllocation) : al ∈ (observedVerdict s false now obs).stops ↔
      obs.allocation = some al ∧ (obs.running = true ∧ ¬HeldLive s al ∨ (obs.running = true ∨
      obs.outcome = none) ∧ AbortPending s al) := by
    rw [heldLive_iff h, abortPending_iff h]
    unfold observedVerdict
    cases hal : obs.allocation with
    | none => simp
    | some x =>
      by_cases hx : x = al
      · subst hx
        cases hlive : liveIntent s x with
        | none => cases hrun : obs.running <;> simp [hlive]
        | some a =>
          cases hrun : obs.running <;> cases hout : obs.outcome <;>
            cases hpend : attemptHasPendingAbort s a <;> simp [hlive, hpend]
      · cases hlive : liveIntent s x with
        | none => cases hrun : obs.running <;> simp [hlive, hx, Ne.symm hx]
        | some a =>
          cases hrun : obs.running <;> cases hout : obs.outcome <;>
            cases hpend : attemptHasPendingAbort s a <;> simp [hlive, hpend, hx, Ne.symm hx]
  simp [observedSetDiff, flatMap_map, hone]

/-! ### The three stages -/

/-- The state once the outcomes of the set are recorded. -/
def afterOutcomes (s : StateMachine) (set : ObservedSet) (now : Timestamp) : StateMachine :=
  (outcomeCommands s set now).foldl (fun s c => (s.apply c).1) s

/-- The state once the node is reconciled, too. -/
def afterReconcile (s : StateMachine) (node : NodeId) (epoch : Nat) (set : ObservedSet)
    (now : Timestamp) : StateMachine :=
  (reconcile node epoch (adoptedBy s set now) (unmentioned s node set now) now).foldl
    (fun s c => (s.apply c).1) (afterOutcomes s set now)

theorem afterOutcomes_reachable (h : Reachable s) : Reachable (afterOutcomes s set now) :=
  h.foldl_apply _

theorem afterOutcomes_advances (h : Reachable s) : Advances s (afterOutcomes s set now) := by
  obtain ⟨l, hl, -⟩ := outcomeCommands_spec s set now
  unfold afterOutcomes
  rw [hl]
  exact outcomes_advance l h

variable {obs : ObservedAllocation} {id : AttemptId} {a : AttemptRecord}

/-- The outcomes leave work alone that no entry says has ended. -/
theorem afterOutcomes_leave (h : Reachable s) (ha : s.attempts.get? id = some a)
    (hst : a.attempt.state ≠ .accruing)
    (hopen : ∀ obs ∈ set.allocations, obs.allocation = some a.attempt.allocation →
      obs.running = true ∨ obs.outcome = none) :
    (afterOutcomes s set now).attempts.get? id = some a := by
  obtain ⟨l, hl, hspec⟩ := outcomeCommands_spec s set now
  unfold afterOutcomes
  rw [hl]
  refine outcomes_spare l h ha hst fun c hc hid => ?_
  obtain ⟨obs, hobs, b, hb, hrun, hout, hcid, -⟩ := hspec c hc
  obtain ⟨hget, -, hal⟩ := entry_spec h.consistent hb
  rw [← hcid, hid, ha] at hget
  cases hget
  rcases hopen obs hobs hal with hyes | hnone
  · rw [hrun] at hyes
    cases hyes
  · rw [hnone] at hout
    cases hout

/-- Work that its entry says still runs is untouched by the outcomes. -/
theorem afterOutcomes_running (h : Reachable s) (hset : FromNode s node set)
    (hobs : obs ∈ set.allocations) (ha : obs.allocation.bind (liveIntent s) = some a)
    (hrun : obs.running = true) (hst : a.attempt.state ≠ .accruing) :
    (afterOutcomes s set now).attempts.get? a.attempt.id = some a := by
  obtain ⟨hget, -, hal⟩ := entry_spec h.consistent ha
  exact afterOutcomes_leave h hget hst fun o ho hoal =>
    .inl (hset.entry_eq ho hobs hoal hal ▸ hrun)

/-- What is adopted is still dispatching when the node is reconciled. -/
theorem adoptedBy_fit (h : Reachable s) (hset : FromNode s node set)
    (hid : id ∈ adoptedBy s set now) :
    ∃ a, (afterOutcomes s set now).attempts.get? id = some a ∧ a.attempt.node = node ∧
      a.attempt.state = .dispatching := by
  obtain ⟨obs, hobs, a, ha, hrun, hst, rfl⟩ := mem_adoptedBy.mp hid
  refine ⟨a, afterOutcomes_running h hset hobs ha hrun ?_, hset.live_node h.consistent hobs ha, hst⟩
  rw [hst]
  decide

theorem unmentioned_fit (h : Reachable s) (hl : l ∈ unmentioned s node set now) :
    l.outcome ≠ .revoked ∧
      ∃ a, (afterOutcomes s set now).attempts.get? l.attempt = some a ∧ a.attempt.node = node := by
  obtain ⟨hout, a, ha, hnode, -⟩ := mem_unmentioned hl
  obtain ⟨a', ha', hsame⟩ := (afterOutcomes_advances h).attempts.some ha
  exact ⟨hout, a', ha', hsame.same.node.trans hnode⟩

theorem unmentioned_apart (h : Consistent s) (hobs : obs ∈ set.allocations)
    (ha : obs.allocation.bind (liveIntent s) = some a) (hl : l ∈ unmentioned s node set now) :
    l.attempt ≠ a.attempt.id := by
  intro hid
  obtain ⟨hget, -, hal⟩ := entry_spec h ha
  obtain ⟨-, b, hb, -, -, hno⟩ := mem_unmentioned hl
  rw [hid, hget] at hb
  cases hb
  exact hno (mem_filterMap.mpr ⟨obs, hobs, hal⟩)

section

variable (h : Reachable s)

include h

/-- The reconciliation finds its attempts on the node. -/
theorem afterOutcomes_reconciled (hn : s.nodes.get? node = some n) (hset : FromNode s node set) :
    (afterOutcomes s set now).reconcileNode
        ⟨node, n.epoch, adoptedBy s set now, unmentioned s node set now, now⟩ =
      ((unmentioned s node set now).foldl (loseOne now) ((adoptedBy s set now).foldl
        (adoptOne now) (Effects.start (afterOutcomes s set now)))).finish :=
  reconcileNode_accepted _ ((congrArg (get? · node) (afterOutcomes_advances h).nodes).trans hn) rfl
    (fun _ hid => (adoptedBy_fit h hset hid).imp fun _ hx => ⟨hx.1, hx.2.1⟩)
    fun _ hl => unmentioned_fit h hl

theorem reconcile_accepted (hn : s.nodes.get? node = some n) (hset : FromNode s node set) :
    Accepted (afterOutcomes s set now)
      (reconcile node n.epoch (adoptedBy s set now) (unmentioned s node set now) now) := by
  unfold reconcile
  split_ifs
  · refine ⟨?_, trivial⟩
    show (reconcileNode _ _).2.isOk = true
    rw [afterOutcomes_reconciled h hn hset]
    rfl
  · trivial

/-- What is over stays over. -/
theorem afterReconcile_over (ha : s.attempts.get? id = some a)
    (hterm : a.attempt.state.isTerminal = true) :
    ∃ a', (afterReconcile s node epoch set now).attempts.get? id = some a' ∧
      a'.attempt.state.isTerminal = true := by
  have hout : Advances s (afterOutcomes s set now) := afterOutcomes_advances h
  obtain ⟨b, hb, hadv⟩ := hout.attempts.some ha
  have hcons : Consistent (afterOutcomes s set now) := (afterOutcomes_reachable h).consistent
  obtain ⟨a', ha', hadv'⟩ := (reconcileNode_advances hcons
    ⟨node, epoch, adoptedBy s set now, unmentioned s node set now, now⟩).some hb
  unfold afterReconcile
  rw [reconcile_attempts]
  exact ⟨a', ha', hadv'.terminal (hadv.terminal hterm)⟩

/-- What the set leaves out has ended once the node is reconciled. -/
theorem afterReconcile_ends (hn : s.nodes.get? node = some n) (hset : FromNode s node set)
    (hl : l ∈ unmentioned s node set now) :
    ∃ a', (afterReconcile s node n.epoch set now).attempts.get? l.attempt = some a' ∧
      a'.attempt.state.isTerminal = true := by
  unfold afterReconcile
  rw [reconcile_attempts]
  obtain ⟨-, a, ha, -⟩ := unmentioned_fit h hl
  exact reconcileNode_loses (afterOutcomes_reachable h).consistent _
    (afterOutcomes_reconciled h hn hset) hl ha

/-- What is observed running runs once the node is reconciled. -/
theorem afterReconcile_runs (hn : s.nodes.get? node = some n) (hset : FromNode s node set)
    (hobs : obs ∈ set.allocations) (ha : obs.allocation.bind (liveIntent s) = some a)
    (hrun : obs.running = true)
    (hst : a.attempt.state = .dispatching ∨ a.attempt.state = .running) :
    ∃ a', (afterReconcile s node n.epoch set now).attempts.get? a.attempt.id = some a' ∧
      a'.attempt.state = .running := by
  have hacc : a.attempt.state ≠ .accruing := by
    rcases hst with hst | hst <;> rw [hst] <;> decide
  have hget : (Effects.start (afterOutcomes s set now)).st.attempts.get? a.attempt.id = some a :=
    afterOutcomes_running h hset hobs ha hrun hacc
  have happart : ∀ l ∈ unmentioned s node set now, l.attempt ≠ a.attempt.id :=
    fun l hl => unmentioned_apart h.consistent hobs ha hl
  have hcons : Consistent (afterOutcomes s set now) := (afterOutcomes_reachable h).consistent
  unfold afterReconcile
  rw [reconcile_attempts]
  rcases hst with hst | hst
  · rw [afterOutcomes_reconciled h hn hset]
    obtain ⟨a', ha', hrun'⟩ := adoptions_run now (adoptedBy s set now) hget hst
      (mem_adoptedBy.mpr ⟨obs, hobs, a, ha, hrun, hst, rfl⟩)
    obtain ⟨hS, -⟩ := Sound.foldl (adoptOne_sound now) (adoptedBy s set now) _
      (hcons.sound ∅ [])
    exact ⟨a', losses_spare now _ hS ha' (by rw [hrun']; decide) happart, hrun'⟩
  · refine ⟨a, reconcileNode_spares hcons _ hget hacc (.inl ?_) happart, hst⟩
    rw [hst]
    decide

/-- All three stages are accepted. -/
theorem observedSetDiff_accepted (hn : s.nodes.get? node = some n) (hset : FromNode s node set) :
    Accepted s (observedSetDiff s node n.epoch set now false).commands := by
  rw [observedSetDiff_eq]
  refine accepted_append (accepted_append ?_ (reconcile_accepted h hn hset)) ?_
  · obtain ⟨l, hl, hspec⟩ := outcomeCommands_spec s set now
    rw [hl]
    refine outcomes_accepted l h (hset.outcomes_distinct h.consistent hl) fun c hc => ?_
    obtain ⟨obs, -, a, ha, -, -, hid, hacc⟩ := hspec c hc
    obtain ⟨hget, hlive, -⟩ := entry_spec h.consistent ha
    exact ⟨a, hid ▸ hget, hlive, hacc⟩
  · obtain ⟨l, hl, hspec⟩ := noticeCommands_spec h.consistent set now
    rw [hl, foldl_append]
    refine notices_accepted l fun c hc => ?_
    obtain ⟨obs, hobs, a, ha, hget, hrun, hst⟩ := hspec c hc
    have hid : a.attempt.id = c.attempt := h.consistent.linked.attempt_id hget
    exact hid ▸ afterReconcile_runs h hn hset hobs ha hrun hst

end

/-- The notices end the diff and change no attempt's state. -/
theorem observedSetDiff_after (h : Consistent s) {P : AttemptState → Prop}
    (hafter : ∃ a, (afterReconcile s node epoch set now).attempts.get? id = some a ∧
      P a.attempt.state) :
    ∃ a, ((observedSetDiff s node epoch set now false).commands.foldl
      (fun s c => (s.apply c).1) s).attempts.get? id = some a ∧ P a.attempt.state := by
  obtain ⟨l, hl, -⟩ := noticeCommands_spec h set now
  obtain ⟨a, ha, hP⟩ := hafter
  rw [observedSetDiff_eq, foldl_append, foldl_append, hl]
  obtain ⟨a', ha', hnoted⟩ :=
    (notices_quiet l (afterReconcile s node epoch set now)).attempts.some ha
  exact ⟨a', ha', by rw [hnoted.attempt]; exact hP⟩

end

/-- A fresh observed set, ingested: every command is accepted, work that the set leaves out
    has ended, what it observes to run runs, what it observes to be over is over, and the
    agent is told to stop what must not run. -/
theorem observedSet_reconciles {s : StateMachine} (h : Reachable s) {node : NodeId} {n : NodeRecord}
    (hn : s.nodes.get? node = some n) {set : ObservedSet} (hset : FromNode s node set)
    (now : Timestamp) :
    let report : InboundReport := ⟨node, n.epoch, some (.observedSet set)⟩
    Accepted s (normalize s report now).commands ∧
    (∀ id a, s.attempts.get? id = some a → a.attempt.node = node →
      a.attempt.state = .dispatching ∨ a.attempt.state = .running ∨ a.attempt.state = .finalizing →
      Mentioned set id a ∨ ∃ a', (ingest s report now).attempts.get? id = some a' ∧
        a'.attempt.state.isTerminal = true) ∧
    (∀ obs ∈ set.allocations, ∀ id a, s.attempts.get? id = some a →
      obs.allocation = some a.attempt.allocation → obs.running = true →
      a.attempt.state = .dispatching →
      ∃ a', (ingest s report now).attempts.get? id = some a' ∧ a'.attempt.state = .running) ∧
    (∀ obs ∈ set.allocations, ∀ id a, s.attempts.get? id = some a →
      obs.allocation = some a.attempt.allocation → obs.running = false →
      obs.outcome.isSome = true →
      ∃ a', (ingest s report now).attempts.get? id = some a' ∧ a'.attempt.state.isTerminal = true) ∧
    ∀ al, al ∈ (normalize s report now).stops ↔
      ∃ obs ∈ set.allocations, obs.allocation = some al ∧
        (obs.running = true ∧ ¬HeldLive s al ∨
          (obs.running = true ∨ obs.outcome = none) ∧ AbortPending s al) := by
  have hfresh : normalize s ⟨node, n.epoch, some (.observedSet set)⟩ now =
      observedSetDiff s node n.epoch set now false := by
    simp [normalize, hn]
  have hbound {obs : ObservedAllocation} {id : AttemptId} {a : AttemptRecord}
      (ha : s.attempts.get? id = some a) (hal : obs.allocation = some a.attempt.allocation)
      (hlive : a.attempt.state.isTerminal = false) : a.attempt.id = id ∧ obs.allocation.bind
      (liveIntent s) = some a := by
    refine ⟨h.consistent.linked.attempt_id ha, ?_⟩
    rw [hal]
    exact liveIntent_of_live h.consistent ha hlive
  intro report
  simp only [report, ingest, hfresh]
  refine ⟨observedSetDiff_accepted h hn hset, ?_, ?_, ?_, fun al => mem_stops h.consistent⟩
  · intro id a ha hnode hst
    by_cases hmen : Mentioned set id a
    · exact .inl hmen
    · refine .inr (observedSetDiff_after h.consistent (P := fun st => st.isTerminal = true) ?_)
      refine afterReconcile_ends h hn hset (mem_unmentioned_of ha hnode hst ?_ ?_)
      · intro hmem
        obtain ⟨obs, hobs, hatt⟩ := mem_filterMap.mp hmem
        obtain ⟨hobs, hsome⟩ := mem_filter.mp hobs
        obtain ⟨al, hal⟩ := Option.isSome_iff_exists.mp hsome
        exact hmen ⟨obs, hobs, al, hal, .inr hatt⟩
      · intro hmem
        obtain ⟨obs, hobs, hal⟩ := mem_filterMap.mp hmem
        exact hmen ⟨obs, hobs, _, hal, .inl rfl⟩
  · intro obs hobs id a ha hal hrun hst
    obtain ⟨rfl, hlook⟩ := hbound ha hal (by rw [hst]; rfl)
    exact observedSetDiff_after h.consistent (P := (· = .running))
      (afterReconcile_runs h hn hset hobs hlook hrun (.inl hst))
  · intro obs hobs id a ha hal hrun hout
    cases hlive : a.attempt.state.isTerminal with
    | false =>
      obtain ⟨rfl, hlook⟩ := hbound ha hal hlive
      exact observedSetDiff_ends h hobs hlook hrun hout
    | true =>
      exact observedSetDiff_after h.consistent (P := fun st => st.isTerminal = true)
        (afterReconcile_over h ha hlive)

open Sample

/-- Three jobs dispatched to the node, the first two to be aborted. -/
def threeSent : List Command :=
  [configure, register 10, submit 1 2, submit 2 2, submit 3 2,
    commit [] [place 1 2, place 2 2, place 3 2], send 1, send 2, send 3,
    .abortJob ⟨1, none, none, epoch⟩, .abortJob ⟨2, none, none, epoch⟩]

/-- The agent has seen the first exit, is still starting the second, and says of the third
    both that it runs and how it ended. -/
def threeSeen : ObservedSet :=
  ⟨[⟨some 1, some 1, false, some (some (.exited 0)), 0, none⟩,
    ⟨some 2, some 2, false, none, 0, none⟩,
    ⟨some 3, some 3, true, some (some (.exited 0)), 0, none⟩]⟩

theorem observedSet_reconciles_three :
    FromNode (run threeSent) 1 threeSeen ∧
      Accepted (run threeSent) (normalize (run threeSent)
        ⟨1, 1, some (.observedSet threeSeen)⟩ epoch).commands := by
  have hset : FromNode (run threeSent) 1 threeSeen := by decide +kernel
  have hnode : ((run threeSent).nodes.get? 1).map NodeRecord.epoch = some 1 := by
    decide +kernel
  obtain ⟨n, hn, hepoch⟩ := Option.map_eq_some_iff.mp hnode
  exact ⟨hset, hepoch ▸ (observedSet_reconciles (reachable_run threeSent) hn hset epoch).1⟩

/-- An abort is pending for the first two.  The one that is over is not stopped; the other is
    stopped without being observed to run.  The third was observed with an outcome and runs. -/
theorem observedSet_stops_unresolved :
    Reachable (run threeSent) ∧ FromNode (run threeSent) 1 threeSeen ∧
      ((run threeSent).nodes.get? 1).map NodeRecord.epoch = some 1 ∧
      ((run threeSent).attempts.entries.map fun e =>
        (e.2.attempt.allocation, e.2.attempt.state, attemptHasPendingAbort (run threeSent) e.2)) =
        [(1, .dispatching, true), (2, .dispatching, true), (3, .dispatching, false)] ∧
      (normalize (run threeSent) ⟨1, 1, some (.observedSet threeSeen)⟩
        epoch).stops = [2] ∧
      ((ingest (run threeSent) ⟨1, 1, some (.observedSet threeSeen)⟩
        epoch).attempts.get? 3).map (fun a => a.attempt.state) = some .running := by
  exact ⟨reachable_run threeSent, by decide +kernel, by decide +kernel, by decide +kernel,
    by decide +kernel, by decide +kernel⟩

end Coppice.Coordinator
