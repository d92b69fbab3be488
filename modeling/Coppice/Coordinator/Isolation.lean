/-
  Coppice.Coordinator.Isolation

  What the report of one node's agent can do to the work of another.  An attempt
  status and an entry of an observed set are looked up by id alone, so with the
  right ids they reach attempts of any node; the theorem says which do.
-/

import Coppice.Coordinator.Ingestion
import Coppice.State.Reports

namespace Coppice.Coordinator

open Lib Coppice.Core State StateMachine Option Normalized
open Protocol

/-! ## Commands that stay with a node -/

/-- Applied to `s`, the command reaches at most attempts and allocations of `node`. -/
def Harmless (node : NodeId) (s : StateMachine) : Command → Prop
  | .registerNode c => c.node = node
  | .setNodeDraining _ => True
  | .reconcileNode c => c.node = node
  | .recordAttemptStarted c => ∀ a, s.attempts.get? c.attempt = some a →
      a.attempt.node = node ∨ a.attempt.state ≠ .dispatching
  | .recordAttemptExited c => ∀ a, s.attempts.get? c.attempt = some a →
      a.attempt.node = node ∨ a.attempt.state ≠ .running
  | .recordAttemptNotified c => ∀ a, s.attempts.get? c.attempt = some a →
      a.attempt.node = node ∨ a.attempt.state ≠ .running
  | .recordAttemptOutcome c => ∀ a, s.attempts.get? c.attempt = some a → a.attempt.node = node
  | _ => False

variable {node : NodeId} {s s' : StateMachine} {c : Command} {a : AttemptRecord} {epoch : Nat}
  {now : Timestamp} {adopted : List AttemptId} {lost : List LostAttempt} {obs : ObservedAllocation}
  {set : ObservedSet} {status : AttemptStatus} {id : AttemptId} {notice : Notice}

theorem Harmless.of_step (hstep : s.Step c out) (h : Consistent s) (hc : Harmless node s c) :
    Local node s out.1 := by
  cases hstep with
  | reject | noop | setDraining => exact .of_eq rfl rfl
  | started ha hst =>
    exact (h.sound ∅ []).books.markAttemptRunning_local _
      (on_node_of_state ha hst hc)
  | exited ha hst =>
    exact (Effects.start s).attemptTransition_local .finalizing
      (on_node_of_state ha hst hc)
  | outcome => exact (h.sound ∅ []).books.terminateAttempt_local _ _ _ true hc
  | notified ha hst =>
    refine .modifyAttempt (on_node_of_state ha hst hc) (fun b => ?_) rfl rfl
    rfl
  | reconcile _ _ hitems =>
    rw [← show _ = node from hc]
    exact reconcileNode_local h hitems
  | register c =>
    rw [← show c.node = node from hc]
    have hstart : Local c.node s (s.registering c).st := .of_eq rfl rfl
    exact hstart.trans ((registering_books h c).pledgeNode_local c.node)
  | setting _ hset => exact .of_eq hset.work.attempts hset.work.allocations
  | _ => exact hc.elim

theorem Harmless.apply_local (h : Consistent s) (hc : Harmless node s c) :
    Local node s (s.apply c).1 := by
  have hdispatch := Harmless.of_step (s.dispatch_step c) h hc
  exact ⟨hdispatch.attempts, hdispatch.allocations⟩

/-- The condition reads attempts of other nodes only, and those are as before. -/
theorem Harmless.of_local (hl : Local node s s') (hc : Harmless node s c) : Harmless node s' c := by
  have hback {id : AttemptId} {P : AttemptRecord → Prop}
      (h : (∀ a, s.attempts.get? id = some a → a.attempt.node = node ∨ P a)) a
      (ha : s'.attempts.get? id = some a) : a.attempt.node = node ∨ P a := by
    rcases hl.attempt_back ha with ha0 | hn
    · exact h a ha0
    · exact .inl hn
  cases c with
  | registerNode c => exact hc
  | setNodeDraining c => exact hc
  | reconcileNode c => exact hc
  | recordAttemptStarted c => exact hback hc
  | recordAttemptExited c => exact hback hc
  | recordAttemptNotified c => exact hback hc
  | recordAttemptOutcome c => exact hl.on_node hc
  | _ => exact hc.elim

/-- A series of such commands. -/
theorem foldl_local (l : List Command) (h : Reachable s) (hl : ∀ c ∈ l, Harmless node s c) :
    Local node s (l.foldl (fun s c => (s.apply c).1) s) := by
  induction l generalizing s with
  | nil => exact .refl node s
  | cons c rest ih =>
    have hstep := (hl c (by simp)).apply_local h.consistent
    exact hstep.trans (ih (.step h trivial) fun x hx =>
      (hl x (List.mem_cons_of_mem _ hx)).of_local hstep)

/-! ## Reports that reach another node -/

/-- The state machine takes the reported phase for the attempt. -/
def StatusTakes (a : AttemptRecord) : AttemptState → Prop
  | .running => a.attempt.state = .dispatching
  | .finalizing => a.attempt.state = .running
  | .terminal outcome => a.attempt.state.isTerminal = false ∧
      (outcome = .revoked → agentMayReportRevoked a = true)
  | .accruing | .ready | .dispatching => False

/-- The entry carries an outcome for a live attempt, or a notice that brings the
    deadline of a running one forward. -/
def EntryTakes (a : AttemptRecord) (obs : ObservedAllocation) (now : Timestamp) : Prop :=
  obs.running = false ∧ obs.outcome.isSome = true ∨
    obs.running = true ∧ a.attempt.state = .running ∧
      ∃ notice, obs.notice.bind observedNotice = some notice ∧
        noticeChangesRecord a notice now = true

/-- The report, fresh for its own node, reports on an attempt of another node in a way
    that the state machine takes. -/
def Intrudes (s : StateMachine) (report : InboundReport) (now : Timestamp) : Prop :=
  (∃ record, s.nodes.get? report.node = some record ∧ report.report.nodeEpoch = record.epoch) ∧
    ∃ id a, s.attempts.get? id = some a ∧ a.attempt.node ≠ report.node ∧
      match report.report.body with
      | some (.attemptStatus status) =>
        status.attempt = some id ∧ ∃ o, status.observed = some o ∧ StatusTakes a o
      | some (.observedSet set) => ∃ obs ∈ set.allocations,
          obs.allocation.bind (liveIntent s) = some a ∧ EntryTakes a obs now
      | _ => False

/-- Attempts of other nodes keep their state, outcome, timestamps and preemption record,
    and allocations of other nodes are untouched. -/
structure Isolated (node : NodeId) (s s' : StateMachine) : Prop where
  attempts : ∀ {id a}, s.attempts.get? id = some a → a.attempt.node ≠ node →
    ∃ a', s'.attempts.get? id = some a' ∧ a'.attempt = a.attempt ∧ a'.startedAt = a.startedAt ∧
      a'.endedAt = a.endedAt ∧ a'.drainCutoff = a.drainCutoff ∧ a'.charge = a.charge ∧
      a'.preemption = a.preemption
  allocations : ∀ {al r}, s.allocations.get? al = some r → r.allocation.node ≠ node →
    s'.allocations.get? al = some r

theorem Isolated.of_local (h : Local node s s') : Isolated node s s' where
  attempts {_ a} ha hn := ⟨a, h.attempt_eq ha hn, rfl, rfl, rfl, rfl, rfl, rfl⟩
  allocations hr hn := h.allocation_eq hr hn

/-! ## What each report yields -/

/-- A live intent is a live attempt, found under its own id, that holds the allocation. -/
theorem liveIntent_spec (h : Consistent s) {al : AllocationId} (ha : liveIntent s al = some a) :
    s.attempts.get? a.attempt.id = some a ∧ a.attempt.state.isTerminal = false ∧
      a.attempt.allocation = al := by
  unfold liveIntent at ha
  rw [filter_eq_some_iff] at ha
  obtain ⟨hbind, hlive⟩ := ha
  obtain ⟨r, hr, hget⟩ := bind_eq_some_iff.mp hbind
  rw [filter_eq_some_iff] at hr
  obtain ⟨b, hb, hal⟩ := h.linked.attempt_of hr.1
  rw [hget] at hb
  cases hb
  have hid := h.linked.attempt_id hget
  exact ⟨by rw [hid]; exact hget, by simpa using hlive, hal⟩

/-- The live attempt that an entry is about. -/
theorem entry_spec {obs : ObservedAllocation} (h : Consistent s)
    (ha : obs.allocation.bind (liveIntent s) = some a) :
    s.attempts.get? a.attempt.id = some a ∧ a.attempt.state.isTerminal = false ∧
      obs.allocation = some a.attempt.allocation := by
  obtain ⟨al, hal, hlive⟩ := bind_eq_some_iff.mp ha
  obtain ⟨hget, hnot, rfl⟩ := liveIntent_spec h hlive
  exact ⟨hget, hnot, hal⟩

theorem mem_reconcile (hc : c ∈ reconcile node epoch adopted lost now) :
    c = .reconcileNode ⟨node, epoch, adopted, lost, now⟩ := by
  unfold reconcile at hc
  split_ifs at hc
  · exact List.mem_singleton.mp hc
  · cases hc

/-- An entry's outcome command. -/
theorem mem_verdict_commands :
    c ∈ (observedVerdict s false now obs).commands ↔
      ∃ a, obs.allocation.bind (liveIntent s) = some a ∧ obs.running = false ∧
        obs.outcome.isSome = true ∧
        c = .recordAttemptOutcome ⟨a.attempt.id, observedOutcome obs (agentMayReportRevoked a),
          reportedRuntime obs.runtimeUs, now⟩ := by
  unfold observedVerdict
  cases hal : obs.allocation with
  | none => simp
  | some al =>
    cases hlive : liveIntent s al with
    | none => simp [hlive]
    | some a =>
      cases hrun : obs.running <;> cases hout : obs.outcome <;> simp [hlive]

/-- An entry's notice command. -/
theorem mem_verdict_notices :
    c ∈ (observedVerdict s false now obs).notices ↔
      ∃ a, obs.allocation.bind (liveIntent s) = some a ∧ obs.running = true ∧
        ∃ notice, obs.notice.bind observedNotice = some notice ∧
          c = noticeCommand a.attempt.id notice now ∧
          (a.attempt.state = .dispatching ∨
            a.attempt.state = .running ∧ noticeChangesRecord a notice now = true) := by
  unfold observedVerdict
  cases hal : obs.allocation with
  | none => simp
  | some al =>
    cases hlive : liveIntent s al with
    | none => simp [hlive]
    | some a =>
      cases hrun : obs.running with
      | false => cases hout : obs.outcome <;> simp [hlive]
      | true =>
        cases hn : obs.notice.bind observedNotice with
        | none => simp [hlive, observedMark, hn]
        | some notice =>
          cases hst : a.attempt.state <;>
            simp [hlive, observedMark, hn, hst, and_comm]

/-! ## Reports that do not intrude -/

/-- The outcomes a fresh observed set records. -/
def outcomeCommands (s : StateMachine) (set : ObservedSet) (now : Timestamp) : List Command :=
  set.allocations.flatMap fun obs => (observedVerdict s false now obs).commands

/-- The notices a fresh observed set records. -/
def noticeCommands (s : StateMachine) (set : ObservedSet) (now : Timestamp) : List Command :=
  set.allocations.flatMap fun obs => (observedVerdict s false now obs).notices

/-- The commands of an observed set, in order. -/
theorem observedSetDiff_commands (s : StateMachine) (node : NodeId) (epoch : Nat)
    (set : ObservedSet) (now : Timestamp) :
    ∃ adopted lost, (observedSetDiff s node epoch set now false).commands =
      outcomeCommands s set now ++ reconcile node epoch adopted lost now ++
        noticeCommands s set now := by
  unfold observedSetDiff
  simp only [List.flatMap_map, Bool.false_eq_true, if_false]
  exact ⟨_, _, rfl⟩

/-- The outcomes of entries without one for another node. -/
theorem outcomes_harmless (h : Consistent s)
    (hno : ∀ obs ∈ set.allocations, ∀ a, obs.allocation.bind (liveIntent s) = some a →
      a.attempt.node ≠ node → ¬(obs.running = false ∧ obs.outcome.isSome = true)) :
    ∀ c ∈ outcomeCommands s set now, Harmless node s c := by
  intro c hc
  obtain ⟨obs, hobs, hmem⟩ := List.mem_flatMap.mp hc
  obtain ⟨a, ha, hrun, hout, rfl⟩ := mem_verdict_commands.mp hmem
  intro b hb
  rw [(entry_spec h ha).1] at hb
  cases hb
  by_contra hn
  exact hno obs hobs a ha hn ⟨hrun, hout⟩

theorem reconcile_harmless : ∀ c ∈ reconcile node epoch adopted lost now, Harmless node s c := by
  intro c hc
  rw [mem_reconcile hc]
  rfl

theorem fenced_cases (s : StateMachine) (node : NodeId) (epoch : Nat) (fresh : Normalized) :
    (fenced s node epoch fresh).commands = [] ∨
      (fenced s node epoch fresh).commands = fresh.commands ∧
        ∃ record, s.nodes.get? node = some record ∧ epoch = record.epoch := by
  unfold fenced
  cases hrec : s.nodes.get? node with
  | none => exact .inl rfl
  | some record =>
    simp only
    split_ifs with hepoch
    · exact .inl rfl
    · exact .inr ⟨rfl, record, rfl, not_not.mp hepoch⟩

theorem attemptStatusDiff_harmless
    (hno : ∀ id a o, status.attempt = some id → status.observed = some o →
      s.attempts.get? id = some a → a.attempt.node ≠ node → ¬StatusTakes a o) :
    ∀ c ∈ attemptStatusDiff s status now, Harmless node s c := by
  intro c hc
  unfold attemptStatusDiff at hc
  split at hc
  · rename_i id o hid hobs
    split at hc
    · cases hc
    · rename_i a ha
      have hone {P : AttemptRecord → Prop} (hP : (a.attempt.node ≠ node → P a)) b
          (hb : s.attempts.get? id = some b) : b.attempt.node = node ∨ P b := by
        rw [ha] at hb
        cases hb
        exact or_iff_not_imp_left.mpr hP
      split at hc
      · split_ifs at hc
        · rw [List.mem_singleton.mp hc]
          exact hone fun hn => hno id a _ hid hobs ha hn
        · cases hc
      · split_ifs at hc
        · rw [List.mem_singleton.mp hc]
          exact hone fun hn => hno id a _ hid hobs ha hn
        · cases hc
      · split_ifs at hc with hterm hrev
        · cases hc
        · cases hc
        · rw [List.mem_singleton.mp hc]
          intro b hb
          rw [ha] at hb
          cases hb
          by_contra hn
          refine hno id a _ hid hobs ha hn ⟨by simpa using hterm, fun ho => ?_⟩
          by_contra hmay
          exact hrev ⟨ho, by simpa using hmay⟩
      all_goals cases hc
  · cases hc

theorem noticeDiff_harmless : ∀ c ∈ noticeDiff s node id notice now, Harmless node s c := by
  intro c hc
  unfold noticeDiff at hc
  split at hc
  · cases hc
  · rename_i a ha
    split at hc
    · cases hc
    · rename_i hn
      have hone {P : AttemptRecord → Prop} b (hb : s.attempts.get? id = some b) : b.attempt.node =
          node ∨ P b := by
        rw [ha] at hb
        cases hb
        exact .inl (not_not.mp hn)
      split at hc
      · rcases List.mem_cons.mp hc with rfl | hc
        · exact hone
        · rw [List.mem_singleton.mp hc]
          exact hone
      · split_ifs at hc
        · cases hc
        · rw [List.mem_singleton.mp hc]
          exact hone
      · cases hc

theorem observedSetDiff_harmless (h : Consistent s)
    (hno : ∀ obs ∈ set.allocations, ∀ a, obs.allocation.bind (liveIntent s) = some a →
      a.attempt.node ≠ node → ¬EntryTakes a obs now) :
    ∀ c ∈ (observedSetDiff s node epoch set now false).commands, Harmless node s c := by
  obtain ⟨adopted, lost, heq⟩ := observedSetDiff_commands s node epoch set now
  intro c hc
  rw [heq, List.mem_append, List.mem_append] at hc
  rcases hc with (hout | hrec) | hnote
  · exact outcomes_harmless h (fun obs hobs a ha hn hend => hno obs hobs a ha hn (.inl hend)) c hout
  · exact reconcile_harmless c hrec
  · obtain ⟨obs, hobs, hmem⟩ := List.mem_flatMap.mp hnote
    obtain ⟨a, ha, hrun, notice, hn, rfl, hst⟩ := mem_verdict_notices.mp hmem
    intro b hb
    rw [(entry_spec h ha).1] at hb
    cases hb
    rw [or_iff_not_imp_left]
    intro hnode hrunning
    rcases hst with hdisp | ⟨-, hchange⟩
    · rw [hdisp] at hrunning
      cases hrunning
    · exact hno obs hobs a ha hnode (.inr ⟨hrun, hrunning, notice, hn, hchange⟩)

/-- Every command of a report that does not intrude stays with the reporting node. -/
theorem normalize_harmless (h : Consistent s) {report : InboundReport}
    (hno : ¬Intrudes s report now) :
    ∀ c ∈ (normalize s report now).commands, Harmless report.node s c := by
  obtain ⟨node, epoch, body⟩ := report
  unfold normalize
  simp only
  cases hbody : body with
  | none => simp [empty]
  | some body =>
    cases body with
    | register reg =>
      intro c hc
      unfold registerDiff at hc
      cases hcap : reg.capacity with
      | none => simp [hcap, empty] at hc
      | some capacity =>
        simp only [hcap, List.mem_singleton] at hc
        rw [hc]
        rfl
    | heartbeat hb =>
      rcases fenced_cases s node epoch (heartbeatDiff s node epoch hb now) with
        hnil | ⟨heq, -⟩
      · simp [hnil]
      · intro c hc
        rw [heq] at hc
        rcases List.mem_append.mp hc with hdrain | hrec
        · split at hdrain
          · cases hdrain
          · split_ifs at hdrain
            · rw [List.mem_singleton.mp hdrain]
              trivial
            · cases hdrain
        · exact reconcile_harmless c hrec
    | attemptStatus status =>
      rcases fenced_cases s node epoch
        { empty with commands := attemptStatusDiff s status now } with
        hnil | ⟨heq, hfresh⟩
      · simp [hnil]
      · rw [heq]
        refine attemptStatusDiff_harmless fun id a o hid ho ha hn htakes => hno ?_
        exact ⟨hfresh, id, a, ha, hn, hbody ▸ ⟨hid, o, ho, htakes⟩⟩
    | observedSet set =>
      cases hrec : s.nodes.get? node with
      | none => simp [empty]
      | some record =>
        simp only
        by_cases hepoch : epoch = record.epoch
        · rw [decide_eq_false (by simpa using hepoch)]
          refine observedSetDiff_harmless h fun obs hobs a ha hn htakes => hno ?_
          exact ⟨⟨record, hrec, hepoch⟩, a.attempt.id, a, (entry_spec h ha).1, hn,
            hbody ▸ ⟨obs, hobs, ha, htakes⟩⟩
        · rw [decide_eq_true (by simpa using hepoch)]
          simp [observedSetDiff]
    | attemptNotice notice =>
      rcases fenced_cases s node epoch _ with hnil | ⟨heq, -⟩
      · rw [hnil]
        simp
      · rw [heq]
        split
        · exact noticeDiff_harmless
        · simp [empty]

/-! ## Reports that intrude -/

/-- The attempt of an effective status changes. -/
theorem attemptStatusDiff_changes (h : Reachable s) {o : AttemptState}
    (hid : status.attempt = some id) (ho : status.observed = some o)
    (ha : s.attempts.get? id = some a) (htakes : StatusTakes a o) :
    ∃ a', ((attemptStatusDiff s status now).foldl (fun s c => (s.apply c).1) s).attempts.get? id =
      some a' ∧ a'.attempt.state ≠ a.attempt.state := by
  cases o with
  | running =>
    have hst : a.attempt.state = .dispatching := htakes
    have hcmds : attemptStatusDiff s status now = [.recordAttemptStarted ⟨id, now⟩] := by
      simp [attemptStatusDiff, hid, ho, ha, hst, phaseRank]
    obtain ⟨a', ha', hst'⟩ := recordAttemptStarted_runs ⟨id, now⟩ ha hst
    rw [hcmds]
    exact ⟨a', ha', by rw [hst', hst]; simp⟩
  | finalizing =>
    have hst : a.attempt.state = .running := htakes
    have hcmds : attemptStatusDiff s status now = [.recordAttemptExited ⟨id, now⟩] := by
      simp [attemptStatusDiff, hid, ho, ha, hst, phaseRank]
    obtain ⟨a', ha', hst'⟩ := recordAttemptExited_finalizes ⟨id, now⟩ ha hst
    rw [hcmds]
    exact ⟨a', ha', by rw [hst', hst]; simp⟩
  | terminal outcome =>
    obtain ⟨hlive, hrev⟩ := htakes
    have hcmds : attemptStatusDiff s status now =
        [.recordAttemptOutcome ⟨id, outcome, reportedRuntime status.runtimeUs, now⟩] := by
      simp only [attemptStatusDiff, hid, ho, ha, hlive]
      rw [if_neg (by simp), if_neg]
      rintro ⟨hout, hmay⟩
      simp [hrev hout] at hmay
    have hacc : a.Accepts outcome := by
      intro hout
      have hmay := hrev hout
      simp only [agentMayReportRevoked, Bool.and_eq_true] at hmay
      exact ⟨hmay.1.1, by simpa using hmay.1.2⟩
    obtain ⟨a', ha', hterm⟩ := recordAttemptOutcome_ends h.consistent
      ⟨id, outcome, reportedRuntime status.runtimeUs, now⟩ ha hacc
    rw [hcmds]
    refine ⟨a', ha', fun e => ?_⟩
    rw [e, hlive] at hterm
    cases hterm
  | accruing => exact htakes.elim
  | ready => exact htakes.elim
  | dispatching => exact htakes.elim

/-- Reconciliations and notices leave an attempt that is over as it is. -/
theorem foldl_over (l : List Command)
    (hl : ∀ c ∈ l, (∃ x, c = .reconcileNode x) ∨ ∃ x, c = .recordAttemptNotified x)
    (h : Reachable s) (ha : s.attempts.get? id = some a)
    (hterm : a.attempt.state.isTerminal = true) :
    ∃ a', (l.foldl (fun s c => (s.apply c).1) s).attempts.get? id = some a' ∧
      a'.attempt.state.isTerminal = true := by
  induction l generalizing s a with
  | nil => exact ⟨a, ha, hterm⟩
  | cons c rest ih =>
    have hadv : OrdMap.Rel AttemptRecord.Advances s.attempts (s.apply c).1.attempts := by
      rcases hl c (by simp) with ⟨x, rfl⟩ | ⟨x, rfl⟩
      · exact reconcileNode_advances h.consistent x
      · exact recordAttemptNotified_advances x
    obtain ⟨a', ha', hstep⟩ := hadv.some ha
    exact ih (fun x hx => hl x (List.mem_cons_of_mem _ hx)) (.step h trivial) ha'
      (hstep.terminal hterm)

theorem eq_map_of_forall {α β : Type} {f : α → β} {P : α → Prop} {l : List β}
    (h : ∀ c ∈ l, ∃ x, c = f x ∧ P x) : ∃ xs : List α, l = xs.map f ∧ ∀ x ∈ xs, P x := by
  induction l with
  | nil => exact ⟨[], rfl, by simp⟩
  | cons c rest ih =>
    obtain ⟨x, rfl, hx⟩ := h c (by simp)
    obtain ⟨xs, rfl, hxs⟩ := ih fun d hd => h d (List.mem_cons_of_mem _ hd)
    exact ⟨x :: xs, rfl, List.forall_mem_cons.mpr ⟨hx, hxs⟩⟩

theorem observedOutcome_accepted (obs : ObservedAllocation) :
    a.Accepts (observedOutcome obs (agentMayReportRevoked a)) := by
  intro hrev
  have hmay : agentMayReportRevoked a = true := by
    by_contra hno
    unfold observedOutcome at hrev
    cases hjoin : obs.outcome.join with
    | none => simp [hjoin] at hrev
    | some o =>
      by_cases ho : o = .revoked <;> simp [hjoin, hno, ho, Option.filter] at hrev
  simp only [agentMayReportRevoked, Bool.and_eq_true] at hmay
  exact ⟨hmay.1.1, by simpa using hmay.1.2⟩

/-- The outcomes of an observed set: each is for the live attempt of an entry, which can end
    that way. -/
theorem outcomeCommands_spec (s : StateMachine) (set : ObservedSet) (now : Timestamp) :
    ∃ l : List RecordAttemptOutcome,
      outcomeCommands s set now = l.map Command.recordAttemptOutcome ∧
      ∀ c ∈ l, ∃ obs ∈ set.allocations, ∃ a, obs.allocation.bind (liveIntent s) = some a ∧
        obs.running = false ∧ obs.outcome.isSome = true ∧ c.attempt = a.attempt.id ∧
        a.Accepts c.outcome := by
  refine eq_map_of_forall fun c hc => ?_
  obtain ⟨obs, hobs, hmem⟩ := List.mem_flatMap.mp hc
  obtain ⟨a, ha, hrun, hout, rfl⟩ := mem_verdict_commands.mp hmem
  exact ⟨_, rfl, obs, hobs, a, ha, hrun, hout, rfl, observedOutcome_accepted obs⟩

theorem noticeCommands_spec (h : Consistent s) (set : ObservedSet) (now : Timestamp) :
    ∃ l : List RecordAttemptNotified,
      noticeCommands s set now = l.map Command.recordAttemptNotified ∧
      ∀ c ∈ l, ∃ obs ∈ set.allocations, ∃ a, obs.allocation.bind (liveIntent s) = some a ∧
        s.attempts.get? c.attempt = some a ∧ obs.running = true ∧
        (a.attempt.state = .dispatching ∨ a.attempt.state = .running) := by
  refine eq_map_of_forall fun c hc => ?_
  obtain ⟨obs, hobs, hmem⟩ := List.mem_flatMap.mp hc
  obtain ⟨a, ha, hrun, notice, -, rfl, hst⟩ := mem_verdict_notices.mp hmem
  exact ⟨_, rfl, obs, hobs, a, ha, (entry_spec h ha).1, hrun, hst.imp_right And.left⟩

/-- An attempt for which an entry carries an outcome is over in the end. -/
theorem observedSetDiff_ends (h : Reachable s) (hobs : obs ∈ set.allocations)
    (ha : obs.allocation.bind (liveIntent s) = some a) (hrun : obs.running = false)
    (hout : obs.outcome.isSome = true) :
    ∃ a', ((observedSetDiff s node epoch set now false).commands.foldl
      (fun s c => (s.apply c).1) s).attempts.get? a.attempt.id = some a' ∧
        a'.attempt.state.isTerminal = true := by
  obtain ⟨adopted, lost, heq⟩ := observedSetDiff_commands s node epoch set now
  have hget := (entry_spec h.consistent ha).1
  obtain ⟨l, hl, hspec⟩ := outcomeCommands_spec s set now
  have hacc : ∀ c ∈ l, c.attempt = a.attempt.id → a.Accepts c.outcome := by
    intro c hc hid
    obtain ⟨o, -, b, hb, -, -, hid', hacc⟩ := hspec c hc
    have hget' := (entry_spec h.consistent hb).1
    rw [← hid', hid, hget] at hget'
    cases hget'
    exact hacc
  have hmine : ∃ c ∈ l, c.attempt = a.attempt.id := by
    have hmem : _ ∈ outcomeCommands s set now := List.mem_flatMap.mpr ⟨obs, hobs,
      mem_verdict_commands.mpr ⟨a, ha, hrun, hout, rfl⟩⟩
    rw [hl] at hmem
    obtain ⟨c, hc, hcmd⟩ := List.mem_map.mp hmem
    rw [Command.recordAttemptOutcome.injEq] at hcmd
    exact ⟨c, hc, by rw [hcmd]⟩
  obtain ⟨b, hb, hterm⟩ := outcomes_end l h hget (.inr ⟨hmine, hacc⟩)
  rw [heq, List.append_assoc, List.foldl_append, hl]
  refine foldl_over _ (fun c hc => ?_) (Reach.foldl _ _ h fun _ _ _ => trivial) hb hterm
  rcases List.mem_append.mp hc with hrec | hnote
  · exact .inl ⟨_, mem_reconcile hrec⟩
  · obtain ⟨o, -, hmem⟩ := List.mem_flatMap.mp hnote
    obtain ⟨b, -, -, notice, -, rfl, -⟩ := mem_verdict_notices.mp hmem
    exact .inr ⟨_, rfl⟩

/-- A notice that changes the record reports a deadline not acknowledged so far. -/
theorem not_dueBy_of_changes (h : noticeChangesRecord a notice now = true) :
    ¬a.DueBy (now.saturatingAdd notice.remaining) := by
  rintro ⟨p, ack, hp, hack, hle⟩
  simp only [noticeChangesRecord, hp, bind_some, hack, decide_eq_true_eq] at h
  exact absurd hle (not_le.mpr h)

theorem observedNotice_remaining {mark : ObservedNotice} (h : observedNotice mark = some notice) :
    max notice.remaining Duration.zero = notice.remaining := by
  obtain ⟨reason, -, rfl⟩ := map_eq_some_iff.mp h
  refine max_eq_left ?_
  show (0 : Int) ≤ (reportedRuntime mark.remainingUs).val
  simp only [reportedRuntime, Duration.ofMicros, I64.val_clamp, i64Min, i64Max]
  omega

/-- Where no entry carries an outcome for another node, a notice for one takes effect. -/
theorem observedSetDiff_notifies (h : Reachable s)
    (hno : ∀ obs ∈ set.allocations, ∀ a, obs.allocation.bind (liveIntent s) = some a →
      a.attempt.node ≠ node → ¬(obs.running = false ∧ obs.outcome.isSome = true))
    (hobs : obs ∈ set.allocations) (ha : obs.allocation.bind (liveIntent s) = some a)
    (hn : a.attempt.node ≠ node) (hrun : obs.running = true) (hst : a.attempt.state = .running)
    (hnotice : obs.notice.bind observedNotice = some notice)
    (hchange : noticeChangesRecord a notice now = true) :
    ∃ a', ((observedSetDiff s node epoch set now false).commands.foldl
      (fun s c => (s.apply c).1) s).attempts.get? a.attempt.id = some a' ∧
        a'.preemption ≠ a.preemption := by
  obtain ⟨adopted, lost, heq⟩ := observedSetDiff_commands s node epoch set now
  have hget := (entry_spec h.consistent ha).1
  -- up to the notices the attempt is as it was
  have hlocal := foldl_local (outcomeCommands s set now ++ reconcile node epoch adopted lost now) h
    fun c hc => (List.mem_append.mp hc).elim (outcomes_harmless h.consistent hno c)
      (reconcile_harmless c)
  have hkept := hlocal.attempt_eq hget hn
  obtain ⟨l, hl, -⟩ := noticeCommands_spec h.consistent set now
  have hmine : ∃ c ∈ l, c.attempt = a.attempt.id ∧
      c.observedAt.saturatingAdd (max c.remaining Duration.zero) =
        now.saturatingAdd notice.remaining := by
    have hv := mem_verdict_notices.mpr ⟨a, ha, hrun, notice, hnotice, rfl, .inr ⟨hst, hchange⟩⟩
    have hmem : _ ∈ noticeCommands s set now := List.mem_flatMap.mpr ⟨obs, hobs, hv⟩
    rw [hl] at hmem
    obtain ⟨c, hc, hcmd⟩ := List.mem_map.mp hmem
    obtain ⟨mark, -, hmark⟩ := bind_eq_some_iff.mp hnotice
    unfold noticeCommand at hcmd
    rw [Command.recordAttemptNotified.injEq] at hcmd
    refine ⟨c, hc, by rw [hcmd], ?_⟩
    rw [hcmd]
    exact congrArg now.saturatingAdd (observedNotice_remaining hmark)
  obtain ⟨a', ha', hdue⟩ := notices_due l hkept hst (.inr hmine)
  rw [heq, List.foldl_append, hl]
  refine ⟨a', ha', fun e => not_dueBy_of_changes hchange ?_⟩
  obtain ⟨p, ack, hp, hrest⟩ := hdue
  exact ⟨p, ack, e ▸ hp, hrest⟩

/-! ## Isolation -/

/-- A report is confined to its own node exactly when it does not intrude. -/
theorem ingest_isolated_iff {s : StateMachine} (h : Reachable s) (report : InboundReport)
    (now : Timestamp) : Isolated report.node s (ingest s report now) ↔ ¬Intrudes s report now := by
  constructor
  · rintro hiso ⟨⟨record, hrec, hepoch⟩, id, a, ha, hn, htakes⟩
    obtain ⟨node, epoch, body⟩ := report
    have hepoch' : epoch = record.epoch := hepoch
    have hrec' : s.nodes.get? node = some record := hrec
    cases body with
    | none => exact htakes
    | some body =>
      cases body with
      | attemptStatus status =>
        obtain ⟨hid, o, ho, hst⟩ := htakes
        have hrun : ingest s ⟨node, epoch, some (.attemptStatus status)⟩ now =
            (attemptStatusDiff s status now).foldl (fun s c => (s.apply c).1) s := by
          simp [ingest, normalize, fenced, hrec', hepoch']
        obtain ⟨a', ha', hne⟩ := attemptStatusDiff_changes h hid ho ha hst
        obtain ⟨b, hb, hsame, -⟩ := hiso.attempts ha hn
        rw [hrun, ha'] at hb
        cases hb
        exact hne (by rw [hsame])
      | observedSet set =>
        have hrun : ingest s ⟨node, epoch, some (.observedSet set)⟩ now =
            (observedSetDiff s node epoch set now false).commands.foldl
              (fun s c => (s.apply c).1) s := by
          simp [ingest, normalize, hrec', hepoch']
        rw [hrun] at hiso
        by_cases hout : ∃ obs ∈ set.allocations, ∃ a,
            obs.allocation.bind (liveIntent s) = some a ∧ a.attempt.node ≠ node ∧
              (obs.running = false ∧ obs.outcome.isSome = true)
        · obtain ⟨obs, hobs, x, hx, hxn, hstop, hsome⟩ := hout
          obtain ⟨hget, hnot, -⟩ := entry_spec h.consistent hx
          obtain ⟨x', hx', hterm⟩ := observedSetDiff_ends h hobs hx hstop hsome
          obtain ⟨b, hb, hsame, -⟩ := hiso.attempts hget hxn
          rw [hx'] at hb
          cases hb
          rw [hsame, hnot] at hterm
          cases hterm
        · push Not at hout
          obtain ⟨obs, hobs, hx, hentry⟩ := htakes
          rcases hentry with ⟨hstop, hsome⟩ | ⟨hrun', hst, notice, hnotice, hchange⟩
          · exact absurd hsome (hout obs hobs a hx hn hstop)
          · have hget := (entry_spec h.consistent hx).1
            obtain ⟨a', ha', hne⟩ := observedSetDiff_notifies h
              (fun o ho x hx hxn hend => hout o ho x hx hxn hend.1 hend.2) hobs hx hn hrun' hst
              hnotice hchange
            obtain ⟨b, hb, -, -, -, -, -, hsame⟩ := hiso.attempts hget hn
            rw [ha'] at hb
            cases hb
            exact hne hsame
      | register _ => exact htakes
      | heartbeat _ => exact htakes
      | attemptNotice _ => exact htakes
  · intro hno
    exact .of_local (foldl_local _ h (normalize_harmless h.consistent hno))

open Sample

/-- Two nodes, and a job running on the first. -/
def neighbours : List Command :=
  [configure, register 10,
    .registerNode ⟨2, cpu 10, .empty, Sample.epoch, none, none, none, false, false, none⟩,
    submit 1 8, commit [] [place 1 8], send 1, start 1]

/-- A node reports that the attempt has exited. -/
def exitFrom (node : NodeId) : InboundReport :=
  ⟨node, 1, some (.attemptStatus ⟨some 1, some (.terminal (.exited 1)), 0⟩)⟩

/-- The first node reports that its own attempt has exited. -/
theorem ingest_isolated_iff_neighbours :
    ((run neighbours).attempts.get? 1).map (fun a => (a.attempt.node, a.attempt.state)) =
        some (1, .running) ∧
      Isolated 1 (run neighbours) (ingest (run neighbours) (exitFrom 1) Sample.epoch) := by
  have hown : ((run neighbours).attempts.get? 1).map (fun a => (a.attempt.node, a.attempt.state)) =
      some (1, .running) := by decide +kernel
  refine ⟨hown, (ingest_isolated_iff (reachable_run neighbours) (exitFrom 1) _).mpr ?_⟩
  rintro ⟨-, id, a, ha, hnode, hid, -⟩
  cases hid
  obtain ⟨b, hb, hstate⟩ := map_eq_some_iff.mp hown
  cases ha.symm.trans hb
  exact hnode (congrArg Prod.fst hstate)

/-- The second node reports that the first one's attempt has exited, and it has. -/
theorem attemptStatus_ends_foreign :
    Reachable (run neighbours) ∧
      ((run neighbours).attempts.get? 1).map
        (fun a => (a.attempt.node, a.attempt.state)) = some (1, .running) ∧
      ((ingest (run neighbours) (exitFrom 2) Sample.epoch).attempts.get? 1).map
        (fun a => (a.attempt.node, a.attempt.state)) = some (1, .terminal (.exited 1)) ∧
      ¬Isolated 2 (run neighbours) (ingest (run neighbours) (exitFrom 2) Sample.epoch) := by
  have hbefore : ((run neighbours).attempts.get? 1).map
      (fun a => (a.attempt.node, a.attempt.state)) = some (1, .running) := by decide +kernel
  have hafter : ((ingest (run neighbours) (exitFrom 2) Sample.epoch).attempts.get? 1).map
      (fun a => (a.attempt.node, a.attempt.state)) = some (1, .terminal (.exited 1)) := by
    decide +kernel
  refine ⟨reachable_run neighbours, hbefore, hafter, fun hiso => ?_⟩
  obtain ⟨a, ha, hstate⟩ := map_eq_some_iff.mp hbefore
  rw [Prod.mk.injEq] at hstate
  obtain ⟨a', ha', hsame, -⟩ := hiso.attempts ha (by rw [hstate.1]; decide)
  rw [ha', map_some, Option.some.injEq, Prod.mk.injEq, hsame, hstate.2] at hafter
  exact absurd hafter.2 (by decide)

end Coppice.Coordinator
