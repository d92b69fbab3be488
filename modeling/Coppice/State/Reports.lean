/-
  Coppice.State.Reports

  What the commands made from agents' reports do to one attempt: an outcome ends it,
  a reconciliation ends those it declares lost, a notice brings its deadline
  forward.
-/

import Coppice.State.Local

namespace Coppice.State

open Lib Coppice.Core OrdMap Effects List

/-- The attempt is as it was, or it was accruing and has become ready. -/
inductive AttemptRecord.Readied (a : AttemptRecord) : AttemptRecord → Prop where
  | same : a.Readied a
  | ready : a.attempt.state = .accruing → a.Readied a.readied

namespace AttemptRecord.Readied

variable {a a' a'' : AttemptRecord}

section

variable (h : a.Readied a')

include h

theorem job : a'.attempt.job = a.attempt.job := by cases h <;> rfl

theorem drainCutoff : a'.drainCutoff = a.drainCutoff := by cases h <;> rfl

theorem startedAt : a'.startedAt = a.startedAt := by cases h <;> rfl

theorem trans (h' : a'.Readied a'') : a.Readied a'' := by
  cases h with
  | same => exact h'
  | ready hacc =>
    cases h' with
    | same => exact .ready hacc
    | ready hready => cases hready

/-- Past the queue nothing is left to become ready. -/
theorem eq_of_not_accruing (hst : a.attempt.state ≠ .accruing) : a' = a := by
  cases h with
  | same => rfl
  | ready hacc => exact absurd hacc hst

end

end AttemptRecord.Readied

/-- An outcome that `record_attempt_outcome` takes for the attempt. -/
def AttemptRecord.Accepts (a : AttemptRecord) (outcome : AttemptOutcome) : Prop :=
  outcome = .revoked → a.drainCutoff.isSome = true ∧ a.startedAt = none

theorem AttemptRecord.Accepts.readied {a : AttemptRecord} (h : a.Accepts outcome)
    (hr : a.Readied a') : a'.Accepts outcome := by
  intro ho
  rw [hr.drainCutoff, hr.startedAt]
  exact h ho

/-- A termination of the attempt is acknowledged for `d` or earlier. -/
def AttemptRecord.DueBy (a : AttemptRecord) (d : Timestamp) : Prop :=
  ∃ p ack, a.preemption = some p ∧ p.acknowledged = some ack ∧ ack.deadline ≤ d

/-- What a notice leaves in the record: the reported deadline or an earlier one. -/
theorem StateMachine.notifiedPreemption_due (prior : Option Preemption)
    (c : RecordAttemptNotified) :
    (∀ next, notifiedPreemption prior c = some next →
      ∃ ack, next.acknowledged = some ack ∧
        ack.deadline ≤ c.observedAt.saturatingAdd (max c.remaining Duration.zero) ∧
        ∀ p k, prior = some p → p.acknowledged = some k → ack.deadline ≤ k.deadline) ∧
      (notifiedPreemption prior c = none → ∃ p ack, prior = some p ∧ p.acknowledged = some ack ∧
        ack.deadline ≤ c.observedAt.saturatingAdd (max c.remaining Duration.zero)) := by
  unfold notifiedPreemption
  cases prior with
  | none =>
    refine ⟨fun next h => ?_, fun h => by cases h⟩
    cases h
    exact ⟨_, rfl, le_refl _, fun p k hp => by cases hp⟩
  | some p =>
    cases hack : p.acknowledged with
    | none =>
      simp only [hack]
      refine ⟨fun next h => ?_, fun h => by cases h⟩
      cases h
      refine ⟨_, rfl, le_refl _, fun q k hq hk => ?_⟩
      cases hq
      rw [hack] at hk
      cases hk
    | some ack =>
      simp only [hack]
      split_ifs with hle
      · exact ⟨fun next h => (by cases h), fun _ => ⟨p, ack, rfl, hack, hle⟩⟩
      · refine ⟨fun next h => ?_, fun h => by cases h⟩
        cases h
        refine ⟨_, rfl, le_refl _, fun q k hq hk => ?_⟩
        cases hq
        rw [hack] at hk
        cases hk
        exact le_of_lt (not_le.mp hle)

namespace StateMachine

variable {s : StateMachine} {i id : AttemptId} {fx : Effects} {node : NodeId} {n : NodeRecord}

/-! ## Progress -/

variable {a : AttemptRecord}

theorem recordAttemptStarted_runs (c : RecordAttemptStarted)
    (ha : s.attempts.get? c.attempt = some a) (hst : a.attempt.state = .dispatching) :
    ∃ a', (s.recordAttemptStarted c).1.attempts.get? c.attempt = some a' ∧
      a'.attempt.state = .running := by
  unfold recordAttemptStarted
  simp only [ha, hst, ne_eq, not_true_eq_false, if_false]
  simp only [finish, markAttemptRunning, start, ha,
    modifyAllocation, attemptTransition_st, modifyAttempt,
    get?_modify_self, Option.map_some]
  exact ⟨_, rfl, rfl⟩

theorem recordAttemptExited_finalizes (c : RecordAttemptExited)
    (ha : s.attempts.get? c.attempt = some a) (hst : a.attempt.state = .running) :
    ∃ a', (s.recordAttemptExited c).1.attempts.get? c.attempt = some a' ∧
      a'.attempt.state = .finalizing := by
  unfold recordAttemptExited
  simp only [ha, hst, ne_eq, not_true_eq_false, if_false]
  simp only [finish, start, attemptTransition_st, get?_modify_self, ha, Option.map_some]
  exact ⟨_, rfl, rfl⟩

/-! ## Outcomes -/

section

variable (h : Consistent s) (c : RecordAttemptOutcome)

include h

/-- The attempts other than the one that ends. -/
theorem recordAttemptOutcome_others {b : AttemptRecord} (hi : i ≠ c.attempt)
    (hb : s.attempts.get? i = some b) :
    ∃ b', (s.recordAttemptOutcome c).1.attempts.get? i = some b' ∧ b.Readied b' := by
  unfold recordAttemptOutcome
  split
  · exact ⟨b, hb, .same⟩
  · rename_i a ha
    split_ifs with hterm hrev
    · exact ⟨b, hb, .same⟩
    · exact ⟨b, hb, .same⟩
    · rw [Bool.not_eq_true] at hterm
      obtain ⟨-, helse⟩ := (h.sound ∅ []).books.terminateAttempt_elsewhere c.outcome
        c.actualRuntime c.observedAt true ha hterm
      rcases helse i hi with hsame | ⟨x, hx, hacc, hx'⟩
      · exact ⟨b, hsame.trans hb, .same⟩
      · have hx0 : s.attempts.get? i = some x := hx
        rw [hb] at hx0
        cases hx0
        exact ⟨b.readied, hx', .ready hacc⟩

theorem recordAttemptOutcome_ends (ha : s.attempts.get? c.attempt = some a)
    (hacc : a.Accepts c.outcome) :
    ∃ a', (s.recordAttemptOutcome c).1.attempts.get? c.attempt = some a' ∧
      a'.attempt.state.isTerminal = true := by
  unfold recordAttemptOutcome
  simp only [ha]
  split_ifs with hterm hrev
  · exact ⟨a, ha, hterm⟩
  · obtain ⟨ho, hno⟩ := hrev
    obtain ⟨hcut, hstart⟩ := hacc ho
    simp [hcut, hstart] at hno
  · rw [Bool.not_eq_true] at hterm
    obtain ⟨-, -, a', ha', hend⟩ := (h.sound ∅ []).terminateAttempt c.outcome c.actualRuntime
      c.observedAt true ha hterm fun _ => rfl
    exact ⟨a', ha', by rw [hend]; rfl⟩

theorem recordAttemptOutcome_advances : Advances s (s.recordAttemptOutcome c).1 := by
  unfold recordAttemptOutcome
  split
  · exact .refl s
  · split_ifs
    · exact .refl s
    · exact .refl s
    · obtain ⟨-, hset, -⟩ := (h.sound ∅ []).terminateAny c.attempt c.outcome c.actualRuntime
        c.observedAt true fun _ _ _ => rfl
      exact hset.advances

end

/-- After a series of outcomes the attempt that one of them names is over. -/
theorem outcomes_end (l : List RecordAttemptOutcome) {s : StateMachine} (h : Reachable s)
    (ha : s.attempts.get? id = some a) (hend : a.attempt.state.isTerminal = true ∨
      (∃ c ∈ l, c.attempt = id) ∧ ∀ c ∈ l, c.attempt = id → a.Accepts c.outcome) :
    ∃ a', ((l.map Command.recordAttemptOutcome).foldl (fun s c => (s.apply c).1) s).attempts.get?
      id = some a' ∧ a'.attempt.state.isTerminal = true := by
  induction l generalizing s a with
  | nil =>
    rcases hend with hterm | ⟨⟨c, hc, -⟩, -⟩
    · exact ⟨a, ha, hterm⟩
    · cases hc
  | cons x rest ih =>
    have hstep : Reachable (s.apply (.recordAttemptOutcome x)).1 := .step h trivial
    rcases hend with hterm | ⟨⟨c, hc, hcid⟩, hacc⟩
    · obtain ⟨a', ha', hadv⟩ := (recordAttemptOutcome_advances h.consistent x).attempts.some ha
      exact ih hstep ha' (.inl (hadv.terminal hterm))
    · by_cases hx : x.attempt = id
      · subst hx
        obtain ⟨a', ha', hterm⟩ := recordAttemptOutcome_ends h.consistent x ha
          (hacc x (by simp) rfl)
        exact ih hstep ha' (.inl hterm)
      · obtain ⟨a', ha', hready⟩ := recordAttemptOutcome_others h.consistent x (Ne.symm hx) ha
        refine ih hstep ha' (.inr ⟨⟨c, ?_, hcid⟩, fun y hy hyid => ?_⟩)
        · rcases mem_cons.mp hc with rfl | hmem
          · exact absurd hcid hx
          · exact hmem
        · exact (hacc y (mem_cons_of_mem _ hy) hyid).readied hready

/-- Running work that no outcome names stays as it is. -/
theorem outcomes_spare (l : List RecordAttemptOutcome) {s : StateMachine} (h : Reachable s)
    (ha : s.attempts.get? id = some a) (hst : a.attempt.state ≠ .accruing)
    (hid : ∀ c ∈ l, c.attempt ≠ id) :
    ((l.map Command.recordAttemptOutcome).foldl (fun s c => (s.apply c).1) s).attempts.get? id =
      some a := by
  induction l generalizing s with
  | nil => exact ha
  | cons x rest ih =>
    obtain ⟨a', ha', hr⟩ := recordAttemptOutcome_others h.consistent x
      (hid x (by simp)).symm ha
    cases hr.eq_of_not_accruing hst
    exact ih (.step h trivial) ha' fun c hc => hid c (mem_cons_of_mem _ hc)

theorem outcomes_advance (l : List RecordAttemptOutcome) {s : StateMachine} (h : Reachable s) :
    Advances s ((l.map Command.recordAttemptOutcome).foldl (fun s c => (s.apply c).1) s) := by
  induction l generalizing s with
  | nil => exact .refl s
  | cons x rest ih =>
    have hx := recordAttemptOutcome_advances h.consistent x
    have hstep : Advances s (s.apply (.recordAttemptOutcome x)).1 :=
      ⟨hx.nodes, hx.nextAllocationSeq, hx.policy, hx.attempts, hx.allocations, hx.jobs⟩
    exact hstep.trans (ih (.step h trivial))

/-! ## Reconciliation -/

theorem reconcileNode_advances (h : Consistent s) (c : ReconcileNode) :
    OrdMap.Rel AttemptRecord.Advances s.attempts (s.reconcileNode c).1.attempts := by
  unfold reconcileNode
  split
  · exact .refl .refl _
  · simp only
    split_ifs
    · exact .refl .refl _
    · exact .refl .refl _
    · obtain ⟨h1, hs1⟩ := Sound.foldl (adoptOne_sound c.observedAt) c.adopted _ (h.sound ∅ [])
      obtain ⟨-, hs2⟩ := Sound.foldl (loseOne_sound c.observedAt) c.lost _ h1
      exact (hs1.trans hs2).advances.attempts

theorem loseOne_others (h : Sound ∅ fx) (at_ : Timestamp) (l : LostAttempt) {b : AttemptRecord}
    (hi : i ≠ l.attempt) (hb : fx.st.attempts.get? i = some b) :
    ∃ b', (loseOne at_ fx l).st.attempts.get? i = some b' ∧ b.Readied b' := by
  unfold loseOne
  split
  · exact ⟨b, hb, .same⟩
  · rename_i a ha
    split_ifs with hterm
    · exact ⟨b, hb, .same⟩
    · rw [Bool.not_eq_true] at hterm
      obtain ⟨-, helse⟩ := h.books.terminateAttempt_elsewhere l.outcome l.actualRuntime at_ true ha
        hterm
      rcases helse i hi with hsame | ⟨x, hx, hacc, hx'⟩
      · exact ⟨b, hsame.trans hb, .same⟩
      · rw [hb] at hx
        cases hx
        exact ⟨b.readied, hx', .ready hacc⟩

theorem loseOne_ends (h : Sound ∅ fx) (at_ : Timestamp) (l : LostAttempt)
    (ha : fx.st.attempts.get? l.attempt = some a) :
    ∃ a', (loseOne at_ fx l).st.attempts.get? l.attempt = some a' ∧
      a'.attempt.state.isTerminal = true := by
  unfold loseOne
  simp only [ha]
  split_ifs with hterm
  · exact ⟨a, ha, hterm⟩
  · rw [Bool.not_eq_true] at hterm
    obtain ⟨-, -, a', ha', hend⟩ := h.terminateAttempt l.outcome l.actualRuntime at_ true ha hterm
      fun _ => rfl
    exact ⟨a', ha', by rw [hend]; rfl⟩

section

variable (at_ : Timestamp) (ls : List LostAttempt) (h : Sound ∅ fx)
  (ha : fx.st.attempts.get? id = some a)

include h ha

/-- Work that runs is untouched by the loss of other work. -/
theorem losses_spare (hst : a.attempt.state ≠ .accruing) (hid : ∀ l ∈ ls, l.attempt ≠ id) :
    (ls.foldl (loseOne at_) fx).st.attempts.get? id = some a := by
  induction ls generalizing fx with
  | nil => exact ha
  | cons l rest ih =>
    obtain ⟨a', ha', hr⟩ := loseOne_others h at_ l (hid l (by simp)).symm ha
    cases hr.eq_of_not_accruing hst
    exact ih (loseOne_sound at_ fx l h).1 ha' fun x hx => hid x (mem_cons_of_mem _ hx)

theorem losses_end (hid : a.attempt.state.isTerminal = true ∨ ∃ l ∈ ls, l.attempt = id) :
    ∃ a', (ls.foldl (loseOne at_) fx).st.attempts.get? id = some a' ∧
      a'.attempt.state.isTerminal = true := by
  induction ls generalizing fx a with
  | nil =>
    rcases hid with hterm | ⟨l, hl, -⟩
    · exact ⟨a, ha, hterm⟩
    · cases hl
  | cons x rest ih =>
    obtain ⟨hS, hset⟩ := loseOne_sound at_ fx x h
    obtain ⟨a', ha', hadv⟩ := hset.advances.attempts.some ha
    by_cases hx : x.attempt = id
    · subst hx
      obtain ⟨b, hb, hterm⟩ := loseOne_ends h at_ x ha
      exact ih hS hb (.inl hterm)
    · refine ih hS ha' (hid.imp hadv.terminal ?_)
      rintro ⟨l, hl, hlid⟩
      rcases mem_cons.mp hl with rfl | hmem
      · exact absurd hlid hx
      · exact ⟨l, hmem, hlid⟩

end

section

variable (at_ : Timestamp) (ids : List AttemptId) (ha : fx.st.attempts.get? i = some a)

include ha

/-- An adoption touches only its own attempt, and only one that is dispatching. -/
theorem adoptions_spare (hi : a.attempt.state ≠ .dispatching ∨ i ∉ ids) :
    (ids.foldl (adoptOne at_) fx).st.attempts.get? i = some a := by
  induction ids generalizing fx with
  | nil => exact ha
  | cons id rest ih =>
    refine ih ?_ (hi.imp_right fun hmem h => hmem (mem_cons_of_mem _ h))
    unfold adoptOne
    split
    · exact ha
    · rename_i b hb
      split_ifs with hst
      · have hne : id ≠ i := by
          rintro rfl
          rw [ha] at hb
          cases hb
          exact hi.elim (absurd hst) (absurd (mem_cons_self ..))
        simp only [markAttemptRunning, hb, modifyAllocation, attemptTransition_st, modifyAttempt]
        rw [get?_modify_of_ne _ _ hne, get?_modify_of_ne _ _ hne, ha]
      · exact ha

/-- A dispatching attempt that is adopted runs. -/
theorem adoptions_run (hst : a.attempt.state = .dispatching) (hi : i ∈ ids) :
    ∃ a', (ids.foldl (adoptOne at_) fx).st.attempts.get? i = some a' ∧
      a'.attempt.state = .running := by
  induction ids generalizing fx with
  | nil => cases hi
  | cons id rest ih =>
    by_cases hid : id = i
    · subst hid
      have hone : ∃ a', (adoptOne at_ fx id).st.attempts.get? id = some a' ∧
          a'.attempt.state = .running := by
        simp only [adoptOne, ha, hst, if_true, markAttemptRunning,
          modifyAllocation, attemptTransition_st, modifyAttempt,
          get?_modify_self, Option.map_some]
        exact ⟨_, rfl, rfl⟩
      obtain ⟨a', ha', hrun⟩ := hone
      exact ⟨a', adoptions_spare at_ rest ha' (.inl (by rw [hrun]; simp)), hrun⟩
    · have hrest : i ∈ rest := (mem_cons.mp hi).resolve_left (Ne.symm hid)
      refine ih ?_ hrest
      exact adoptions_spare at_ [id] ha (.inr fun h => hid (mem_singleton.mp h).symm)

end

/-- A reconciliation leaves running work alone that it does not name. -/
theorem reconcileNode_spares (h : Consistent s) (c : ReconcileNode)
    (ha : s.attempts.get? id = some a) (hst : a.attempt.state ≠ .accruing)
    (hadopted : a.attempt.state ≠ .dispatching ∨ id ∉ c.adopted)
    (hid : ∀ l ∈ c.lost, l.attempt ≠ id) : (s.reconcileNode c).1.attempts.get? id = some a := by
  obtain ⟨h1, -⟩ := Sound.foldl (adoptOne_sound c.observedAt) c.adopted _ (h.sound ∅ [])
  unfold reconcileNode
  split
  · exact ha
  · simp only
    split_ifs
    · exact ha
    · exact ha
    · exact losses_spare c.observedAt c.lost h1
        (adoptions_spare c.observedAt c.adopted ha hadopted) hst hid

/-- The items of a reconciliation that the state machine has no objection to. -/
theorem reconcileLost_eq_nil (ls : List LostAttempt) (idx : Nat)
    (hls : ∀ l ∈ ls, l.outcome ≠ .revoked ∧
      ∃ a, s.attempts.get? l.attempt = some a ∧ a.attempt.node = node) :
    s.reconcileLost node idx ls = [] := by
  induction ls generalizing idx with
  | nil => rfl
  | cons l rest ih =>
    obtain ⟨hout, a, ha, hnode⟩ := hls l (by simp)
    have hrest := ih (idx + 1) fun x hx => hls x (mem_cons_of_mem _ hx)
    simp [reconcileLost, ha, hnode, hout, hrest]

theorem reconcileAdopted_eq_nil (ids : List AttemptId) (idx : Nat)
    (hids : ∀ id ∈ ids, ∃ a, s.attempts.get? id = some a ∧ a.attempt.node = node) :
    s.reconcileAdopted node idx ids = [] := by
  induction ids generalizing idx with
  | nil => rfl
  | cons id rest ih =>
    obtain ⟨a, ha, hnode⟩ := hids id (by simp)
    have hrest := ih (idx + 1) fun x hx => hids x (mem_cons_of_mem _ hx)
    simp [reconcileAdopted, ha, hnode, hrest]

/-- A current reconciliation of attempts on its node is accepted. -/
theorem reconcileNode_accepted (c : ReconcileNode) (hn : s.nodes.get? c.node = some n)
    (hepoch : n.epoch = c.nodeEpoch)
    (hids : ∀ id ∈ c.adopted, ∃ a, s.attempts.get? id = some a ∧ a.attempt.node = c.node)
    (hls : ∀ l ∈ c.lost, l.outcome ≠ .revoked ∧
      ∃ a, s.attempts.get? l.attempt = some a ∧ a.attempt.node = c.node) :
    s.reconcileNode c = (s.reconciling c).finish := by
  unfold reconcileNode
  simp [hn, hepoch, reconcileAdopted_eq_nil c.adopted 0 hids,
    reconcileLost_eq_nil c.lost c.adopted.length hls]

/-- A reconciliation that is accepted ends the work it calls lost. -/
theorem reconcileNode_loses (h : Consistent s) (c : ReconcileNode)
    (hok : s.reconcileNode c = (s.reconciling c).finish) {l : LostAttempt} (hl : l ∈ c.lost)
    (ha : s.attempts.get? l.attempt = some a) :
    ∃ a', (s.reconcileNode c).1.attempts.get? l.attempt = some a' ∧
      a'.attempt.state.isTerminal = true := by
  obtain ⟨h1, hset⟩ := Sound.foldl (adoptOne_sound c.observedAt) c.adopted _ (h.sound ∅ [])
  obtain ⟨a', ha', -⟩ := hset.advances.attempts.some ha
  rw [hok]
  exact losses_end c.observedAt c.lost h1 ha' (.inr ⟨l, hl, rfl⟩)

/-- Announcing a drain changes neither the attempts nor any epoch. -/
theorem setNodeDraining_attempts (c : SetNodeDraining) :
    (s.setNodeDraining c).1.attempts = s.attempts := by
  unfold setNodeDraining
  split <;> rfl

theorem setNodeDraining_epoch (c : SetNodeDraining) (hn : s.nodes.get? node = some n) :
    ∃ n', (s.setNodeDraining c).1.nodes.get? node = some n' ∧ n'.epoch = n.epoch := by
  unfold setNodeDraining
  split
  · exact ⟨n, hn, rfl⟩
  · simp only [done]
    rw [get?_modify]
    split_ifs with hnode
    · rw [hn]
      exact ⟨_, rfl, rfl⟩
    · exact ⟨n, hn, rfl⟩

/-! ## Notices -/

theorem recordAttemptNotified_advances (c : RecordAttemptNotified) :
    OrdMap.Rel AttemptRecord.Advances s.attempts (s.recordAttemptNotified c).1.attempts :=
  (s.recordAttemptNotified_quiet c).attempts.mono fun h =>
    ⟨⟨by rw [h.attempt], by rw [h.attempt], by rw [h.attempt], by rw [h.attempt], h.group⟩,
      fun ht => by rw [h.attempt]; exact ht⟩

theorem recordAttemptNotified_others (c : RecordAttemptNotified) (hi : i ≠ c.attempt) :
    (s.recordAttemptNotified c).1.attempts.get? i = s.attempts.get? i := by
  unfold recordAttemptNotified
  split
  · rfl
  · split_ifs
    · rfl
    · split
      · rfl
      · exact get?_modify_of_ne _ _ (Ne.symm hi)

/-- A recorded notice brings the acknowledged deadline forward, never back. -/
theorem recordAttemptNotified_due (c : RecordAttemptNotified)
    (ha : s.attempts.get? c.attempt = some a) (hst : a.attempt.state = .running) :
    ∃ a', (s.recordAttemptNotified c).1.attempts.get? c.attempt = some a' ∧
      a'.attempt.state = .running ∧
      a'.DueBy (c.observedAt.saturatingAdd (max c.remaining Duration.zero)) ∧
      ∀ d, a.DueBy d → a'.DueBy d := by
  obtain ⟨hsome, hnone⟩ := notifiedPreemption_due a.preemption c
  unfold recordAttemptNotified
  simp only [ha, hst, ne_eq, not_true_eq_false, if_false]
  cases hnext : notifiedPreemption a.preemption c with
  | none =>
    obtain ⟨p, ack, hp, hack, hle⟩ := hnone hnext
    exact ⟨a, ha, hst, ⟨p, ack, hp, hack, hle⟩, fun _ hd => hd⟩
  | some next =>
    obtain ⟨ack, hack, hle, hearly⟩ := hsome next hnext
    refine ⟨{ a with preemption := some next }, ?_, hst, ⟨next, ack, rfl, hack, hle⟩, ?_⟩
    · simp [finish, modifyAttempt, start, ha]
    · rintro d ⟨p, k, hp, hk, hkd⟩
      exact ⟨next, ack, rfl, hack, (hearly p k hp hk).trans hkd⟩

/-- After a series of notices a running attempt that one of them names is due by the
    deadline reported there. -/
theorem notices_due (l : List RecordAttemptNotified) {s : StateMachine} {d : Timestamp}
    (ha : s.attempts.get? id = some a) (hst : a.attempt.state = .running)
    (hdue : a.DueBy d ∨ ∃ c ∈ l, c.attempt = id ∧
      c.observedAt.saturatingAdd (max c.remaining Duration.zero) = d) :
    ∃ a', ((l.map Command.recordAttemptNotified).foldl (fun s c => (s.apply c).1) s).attempts.get?
      id = some a' ∧ a'.DueBy d := by
  induction l generalizing s a with
  | nil =>
    rcases hdue with hd | ⟨c, hc, -⟩
    · exact ⟨a, ha, hd⟩
    · cases hc
  | cons x rest ih =>
    by_cases hx : x.attempt = id
    · subst hx
      obtain ⟨a', ha', hst', hnew, hkeep⟩ := recordAttemptNotified_due x ha hst
      refine ih ha' hst' ?_
      rcases hdue with hd | ⟨c, hc, hid, rfl⟩
      · exact .inl (hkeep d hd)
      · rcases mem_cons.mp hc with rfl | hmem
        · exact .inl hnew
        · exact .inr ⟨c, hmem, hid, rfl⟩
    · have ha' := recordAttemptNotified_others x (s := s) (Ne.symm hx)
      refine ih (ha'.trans ha) hst ?_
      rcases hdue with hd | ⟨c, hc, hid, hcd⟩
      · exact .inl hd
      · rcases mem_cons.mp hc with rfl | hmem
        · exact absurd hid hx
        · exact .inr ⟨c, hmem, hid, hcd⟩

end StateMachine

end Coppice.State
