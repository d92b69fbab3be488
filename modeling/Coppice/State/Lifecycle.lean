/-
  Coppice.State.Lifecycle

  Commands that move attempts, nodes and jobs: dispatch, start, exit,
  outcome, reconciliation, abort, node registration and loss, and the two
  evictions.
-/

import Coppice.State.Steps

namespace Coppice.State

open Lib Coppice.Core OrdMap Effects List AllocationRecord

/-! ## Steps of a live attempt -/

variable {skip : Set NodeId} {fx : Effects} {id : AttemptId} {a : AttemptRecord}

/-- A placed attempt moves on while its allocation stays fully funded. -/
theorem Sound.advance {fx' : Effects} {r : AllocationRecord} (a' : AttemptRecord)
    (r' : AllocationRecord) (h : Sound skip fx) (ha : fx.st.attempts.get? id = some a)
    (hr : fx.st.allocations.get? a.attempt.allocation = some r)
    (hlive : a.attempt.state.isTerminal = false) (hlive' : a'.attempt.state.isTerminal = false)
    (hsa : Linked.SameAttempt a a') (hsr : Linked.SameAllocation r r')
    (hfunded : r'.allocation.funded = r.allocation.funded)
    (hstate : r.allocation.state = .funded ∨ r.allocation.state = .active)
    (hstate' : r'.allocation.state = .funded ∨ r'.allocation.state = .active)
    (hstep : InStep a'.attempt.state r'.allocation.state) (hst : fx'.st = { fx.st with
      attempts := fx.st.attempts.insert id a'
      allocations := fx.st.allocations.insert a.attempt.allocation r' })
    (hused : fx'.used = fx.used) : Sound skip fx' ∧ Settles fx.st fx'.st := by
  have hatt j : fx'.st.attempts.get? j = if id = j then some a' else fx.st.attempts.get? j := by
    rw [hst, get?_insert]
  have hall j : fx'.st.allocations.get? j = if a.attempt.allocation = j then some r' else
      fx.st.allocations.get? j := by
    rw [hst, get?_insert]
  have hacc : r.allocation.state ≠ .accruing := by
    rcases hstate with e | e <;> rw [e] <;> simp
  have hacc' : r'.allocation.state ≠ .accruing := by
    rcases hstate' with e | e <;> rw [e] <;> simp
  have hfull : r.allocation.funded = r.allocation.requested := by
    rcases hstate with e | e
    · exact (h.books.linked.funding hr).funded e
    · exact (h.books.linked.funding hr).active e
  -- the same amount is held on the same node
  have hhold n d : holdOf n d r' = holdOf n d r := by
    have hl : r.isLive = true := by
      rcases hstate with e | e <;> simp [isLive, e]
    have hl' : r'.isLive = true := by
      rcases hstate' with e | e <;> simp [isLive, e]
    simp [holdOf, hsr.node, hl, hl', hfunded]
  have hheld n d : fx'.st.heldOn n d = fx.st.heldOn n d := by
    have := StateMachine.heldOn_update hr hall n d
    rw [hhold] at this
    omega
  have hnodes : fx'.st.nodes = fx.st.nodes := by rw [hst]
  have hbounded : HoldsBounded fx.st fx'.st := .of_le fun n d => le_of_eq (hheld n d)
  have hadv : Advances fx.st fx'.st := by
    refine ⟨hnodes, by rw [hst], by rw [hst], ?_, ?_, .of_eq .refl (by rw [hst])⟩
    · rw [hst]
      exact .of_insert .refl ha ⟨hsa, fun ht => by simp [hlive] at ht⟩
    · rw [hst]
      refine .of_insert .refl hr ⟨hsr, fun e => absurd e hacc', fun e => ?_⟩
      rcases hstate with e' | e' <;> simp [e] at e'
  refine ⟨⟨⟨?_, hbounded.holdsFit h.books.fit, ?_⟩, ?_, ?_⟩, hbounded, hadv⟩
  · refine h.books.linked.update a' r' ha hr hsa hsr hatt hall ?_ (by rw [hst]) hnodes
      (fun _ => hstep) (by simp) (by simp) (fun ht => by simp [hlive] at ht) ?_
      (fun e => absurd e hacc') ?_
    · -- the queue holds no key of a funded allocation
      intro k
      rw [hst, if_neg hacc', get?_erase]
      split_ifs with hk
      · rw [← hk]
        exact h.books.linked.queue_none hr hacc
      · rfl
    · have hfull' : r'.allocation.funded = r'.allocation.requested := by
        rw [hfunded, hfull, hsr.requested]
      exact ⟨fun d => by rw [hfull'], fun e => absurd e hacc', fun _ => hfull', fun _ => hfull'⟩
    · intro _
      rcases hstate with e | e <;> simp [isLive, e]
  · intro memo hm n d
    rw [hused] at hm
    rw [h.books.memo memo hm, hheld]
  · refine h.jobs.annotate (.of_eq (fun _ => ⟨fun _ => .rfl, rfl⟩) (by rw [hst])) ?_
    rw [hst]
    exact .of_insert (R := fun (b b' : AttemptRecord) => b'.attempt.job = b.attempt.job ∧
      b'.attempt.state.isTerminal = b.attempt.state.isTerminal) (fun _ => ⟨rfl, rfl⟩) ha
      ⟨hsa.job, by rw [hlive, hlive']⟩
  · intro n hn al q hq hqacc hqn d
    rw [StateMachine.capacityOf_congr hnodes, hheld]
    rw [hall] at hq
    split_ifs at hq with e
    · cases hq
      exact absurd hqacc hacc'
    · exact h.conserved n hn al q hq hqacc hqn d

/-- A transition between two states that go with the same allocation state. -/
theorem Sound.attemptTransition (to_ : AttemptState) (h : Sound skip fx)
    (ha : fx.st.attempts.get? id = some a) (hstate : a.attempt.state = .ready ∧ to_ = .dispatching ∨
      a.attempt.state = .running ∧ to_ = .finalizing) :
    Sound skip (fx.attemptTransition id to_) ∧ Settles fx.st (fx.attemptTransition id to_).st := by
  obtain ⟨r, hr, ht⟩ := h.books.linked.allocation_of ha
  have hstep := ht.step (by simp)
  refine h.advance { a with attempt := { a.attempt with state := to_ } } r ha hr ?_ ?_
    ⟨rfl, rfl, rfl, rfl, rfl⟩ (.refl r) rfl ?_ ?_ ?_ ?_ (fx.attemptTransition_used id to_)
  case refine_6 => rw [fx.attemptTransition_st, modify_of_some _ ha, insert_eq_self hr]
  all_goals
    rcases hstate with ⟨e, rfl⟩ | ⟨e, rfl⟩ <;> rw [e] at hstep <;>
      cases hs : r.allocation.state <;> simp_all [InStep, AttemptState.isTerminal]

/-- A dispatched attempt starts running and its allocation becomes active. -/
theorem Sound.markAttemptRunning (at_ : Timestamp) (h : Sound skip fx)
    (ha : fx.st.attempts.get? id = some a) (hstate : a.attempt.state = .dispatching) :
    Sound skip (fx.markAttemptRunning id at_) ∧
      Settles fx.st (fx.markAttemptRunning id at_).st := by
  obtain ⟨r, hr, ht⟩ := h.books.linked.allocation_of ha
  have hrs : r.allocation.state = .funded := by
    have hstep := ht.step (by simp)
    cases hs : r.allocation.state <;> simp_all [InStep]
  let started : AttemptRecord := if a.startedAt.isNone then { a with startedAt := some at_ } else a
  have hstarted : started.attempt = a.attempt ∧ started.group = a.group := by
    simp only [started]
    split_ifs <;> exact ⟨rfl, rfl⟩
  refine h.advance { started with attempt := { started.attempt with state := .running } }
    { r with allocation := { r.allocation with state := .active } } ha hr
    (by rw [hstate]; rfl) rfl ?_ ⟨rfl, rfl, rfl, rfl, rfl, rfl⟩ rfl (.inl hrs) (.inr rfl)
    trivial ?_ ?_
  · exact ⟨by simp [hstarted], by simp [hstarted], by simp [hstarted], by simp [hstarted],
      hstarted.2⟩
  · unfold Effects.markAttemptRunning
    simp only [ha, modifyAllocation, attemptTransition_st, modifyAttempt, modify_modify]
    rw [modify_of_some _ ha, modify_of_some _ hr, if_pos hrs]
    rfl
  · unfold Effects.markAttemptRunning
    simp [ha]

/-- Ending an attempt that may be gone or over already. -/
theorem Sound.terminateAny (id : AttemptId) (outcome : AttemptOutcome) (rt : Duration)
    (at_ : Timestamp) (pledge : Bool) (h : Sound skip fx)
    (hpledge : ∀ a, fx.st.attempts.get? id = some a → a.attempt.node ∉ skip → pledge = true) :
    Sound skip (fx.terminateAttempt id outcome rt at_ pledge) ∧
      Settles fx.st (fx.terminateAttempt id outcome rt at_ pledge).st ∧
      ∀ a', (fx.terminateAttempt id outcome rt at_ pledge).st.attempts.get? id = some a' →
        a'.attempt.state.isTerminal = true := by
  rcases fx.terminateAttempt_idle_or_live id outcome rt at_ pledge with
    ⟨hover, heq⟩ | ⟨a, ha, hlive⟩
  · rw [heq]
    exact ⟨h, .refl _, hover⟩
  · obtain ⟨hS, hset, a', ha', hst'⟩ :=
      h.terminateAttempt outcome rt at_ pledge ha hlive (hpledge a ha)
    refine ⟨hS, hset, fun b hb => ?_⟩
    rw [ha'] at hb
    cases hb
    rw [hst']
    rfl

/-- A fold of steps that each keep the invariant. -/
theorem Sound.foldl {α : Type} {f : Effects → α → Effects}
    (hf : ∀ fx x, Sound skip fx → Sound skip (f fx x) ∧ Settles fx.st (f fx x).st) (l : List α)
    (fx : Effects) (h : Sound skip fx) :
    Sound skip (l.foldl f fx) ∧ Settles fx.st (l.foldl f fx).st := by
  induction l generalizing fx with
  | nil => exact ⟨h, .refl _⟩
  | cons x rest ih =>
    obtain ⟨h1, hs1⟩ := hf fx x h
    obtain ⟨h2, hs2⟩ := ih (f fx x) h1
    exact ⟨h2, hs1.trans hs2⟩

namespace StateMachine

variable {s : StateMachine} {job : JobId} {v : Nat × AttemptId} {node : NodeId}

theorem adoptOne_sound (at_ : Timestamp) (fx : Effects) (id : AttemptId) (h : Sound ∅ fx) :
    Sound ∅ (adoptOne at_ fx id) ∧ Settles fx.st (adoptOne at_ fx id).st := by
  unfold adoptOne
  split
  · exact ⟨h, .refl _⟩
  · rename_i a ha
    split_ifs with hst
    · exact h.markAttemptRunning at_ ha hst
    · exact ⟨h, .refl _⟩

theorem loseOne_sound (at_ : Timestamp) (fx : Effects) (l : LostAttempt) (h : Sound ∅ fx) :
    Sound ∅ (loseOne at_ fx l) ∧ Settles fx.st (loseOne at_ fx l).st := by
  unfold loseOne
  split
  · exact ⟨h, .refl _⟩
  · split_ifs
    · exact ⟨h, .refl _⟩
    · obtain ⟨hS, hset, -⟩ := h.terminateAny l.attempt l.outcome l.actualRuntime at_ true
        (fun _ _ _ => rfl)
      exact ⟨hS, hset⟩

/-! ## Jobs -/

/-- A new job has no attempts. -/
theorem submitted_kept (h : Consistent s) {rec : JobRecord} (hnew : s.jobs.get? job = none)
    (hst : rec.state = .queued) (hlin : rec.attempts = []) :
    Kept s { s with jobs := s.jobs.insert job rec } := by
  refine ⟨⟨h.linked.congr rfl rfl rfl rfl rfl, ?_, h.fit, h.conserved⟩, .of_eq rfl, .of_eq rfl⟩
  have hother {j x} (hx : s.jobs.get? j = some x) : (s.jobs.insert job rec).get? j = some x := by
    rw [get?_insert_of_ne _ _ fun e => by simp [← e, hnew] at hx, hx]
  refine ⟨?_, ?_, ?_, ?_⟩
  · intro j x id hx hstate
    rw [get?_insert] at hx
    split_ifs at hx
    · cases hx
      simp [hst] at hstate
    · exact h.jobs.attempting hx hstate
  · intro id a ha hlive
    obtain ⟨x, hx, hx'⟩ := h.jobs.current ha hlive
    exact ⟨x, hother hx, hx'⟩
  · intro id a ha
    obtain ⟨x, hx, hx'⟩ := h.jobs.lineage ha
    exact ⟨x, hother hx, hx'⟩
  · intro j x id hx hid
    rw [get?_insert] at hx
    split_ifs at hx
    · cases hx
      simp [hlin] at hid
    · exact h.jobs.lineage_job hx hid

/-- A job that is not attempting is aborted on the spot. -/
theorem jobTerminalTransition_quiet (fx : Effects) {r : JobRecord} (to_ : JobState)
    (at_ : Timestamp) (hr : fx.st.jobs.get? job = some r) (hst : ∀ id, r.state ≠ .attempting id)
    (hto : ∀ id, to_ ≠ .attempting id) : Quiet fx.st (fx.jobTerminalTransition job to_ at_).st := by
  rw [fx.jobTerminalTransition_st]
  refine .modifyJob fx.st job _ fun j hj => ?_
  rw [hr] at hj
  cases hj
  refine ⟨fun id => ⟨fun e => absurd e (hto id), fun e => absurd e (hst id)⟩, ?_⟩
  simp only [JobRecord.stampTerminal]
  split_ifs <;> rfl

theorem aborting_quiet (c : AbortJob) : Quiet s (s.aborting c).st := by
  refine .modifyJob s c.job _ fun j _ => ?_
  obtain ⟨hst, -, hatt, -⟩ := j.requestAbort_spec ⟨c.reason, c.requestedAt⟩
  exact ⟨fun id => by rw [hst], hatt⟩

section

variable (h : Consistent s)

include h

theorem abortIdle_kept (hab : AbortPasses s c r) (hidle : ∀ id, r.state ≠ .attempting id) :
    Kept s ((s.aborting c).jobTerminalTransition c.job .aborted c.requestedAt).st := by
  have hq := s.aborting_quiet c
  have hr : (s.aborting c).st.jobs.get? c.job =
      some (r.requestAbort ⟨c.reason, c.requestedAt⟩) := by
    simp [aborting, abortFlagged, start, hab.job]
  have hq' := jobTerminalTransition_quiet (s.aborting c) .aborted c.requestedAt hr
    (by rw [(r.requestAbort_spec _).1]; exact hidle) (by simp)
  exact hq.then_kept (hq'.kept (hq.kept h).consistent)

theorem abortUndispatched_kept (c : AbortJob) (id : AttemptId) :
    Kept s ((s.aborting c).terminateAttempt id .aborted Duration.zero c.requestedAt true).st := by
  have hq := s.aborting_quiet c
  obtain ⟨hS, hset, -⟩ := ((hq.kept h).consistent.sound ∅ []).terminateAny id .aborted
    Duration.zero c.requestedAt true (fun _ _ _ => rfl)
  exact hq.then_kept (hS.kept hset)

/-! ## Nodes -/

theorem registering_books (c : RegisterNode) : Books (s.registering c) := by
  refine ⟨?_, h.fit, memoExact_none _ _⟩
  refine h.linked.annotate (.refl (fun _ => ⟨rfl, rfl⟩) _) rfl rfl rfl ?_
  intro n x hx
  by_cases e : c.node = n
  · exact ⟨_, by rw [← e]; exact get?_insert_self ..⟩
  · exact ⟨x, by rw [← hx]; exact get?_insert_of_ne _ _ e⟩

theorem registerNode_kept (c : RegisterNode) : Kept s ((s.registering c).pledgeNode c.node).st := by
  have hB := registering_books h c
  obtain ⟨hL', -, hp, hb, hc, hoth⟩ := pledgeNode_spec c.node hB.linked hB.fit hB.memo
  refine ⟨⟨hL', ?_, hb.holdsFit h.fit, ?_⟩, hb, (Advances.of_pledged hp).noNewAccrual⟩
  · exact JobLinked.pledged (s := (s.registering c).st)
      (h.jobs.annotate (.refl (fun _ => ⟨fun _ => .rfl, rfl⟩) _) (.refl (fun _ => ⟨rfl, rfl⟩) _)) hp
  · intro n
    by_cases e : n = c.node
    · rw [e]
      exact hc
    · -- the capacity of another node did not change
      refine hoth n e (ConservedOn.congr (h.conserved n) rfl fun d => ?_)
      have hget : (s.registering c).st.nodes.get? n = s.nodes.get? n :=
        get?_insert_of_ne _ _ (Ne.symm e)
      unfold capacityOf
      rw [hget]

end

theorem mem_insertBySeq {w : Nat × AttemptId} {l : List (Nat × AttemptId)} :
    w ∈ insertBySeq v l ↔ w = v ∨ w ∈ l := by
  induction l with
  | nil => simp [insertBySeq]
  | cons x rest ih =>
    simp only [insertBySeq]
    split_ifs
    · simp
    · simp only [mem_cons, ih]
      tauto

theorem mem_lostVictims :
    v ∈ s.lostVictims node ↔ ∃ al r, s.allocations.get? al = some r ∧ r.allocation.node = node ∧
      r.isLive = true ∧ v = (r.seq, r.allocation.attempt) := by
  have hfold : ∀ (l acc : List (Nat × AttemptId)),
      v ∈ l.foldl (fun acc v => insertBySeq v acc) acc ↔ v ∈ l ∨ v ∈ acc := by
    intro l
    induction l with
    | nil => simp
    | cons x rest ih =>
      intro acc
      simp only [foldl_cons, ih, mem_insertBySeq, mem_cons]
      tauto
  unfold lostVictims
  rw [hfold]
  simp only [mem_map, mem_filter, not_mem_nil, or_false, mem_values,
    Bool.and_eq_true, decide_eq_true_eq]
  constructor
  · rintro ⟨r, ⟨⟨al, hr⟩, hn, hl⟩, rfl⟩
    exact ⟨al, r, hr, hn, hl, rfl⟩
  · rintro ⟨al, r, hr, hn, hl, rfl⟩
    exact ⟨r, ⟨⟨al, hr⟩, hn, hl⟩, rfl⟩

/-- One attempt goes with its node, and the others are still on it. -/
theorem loseNodeAttempt_sound (at_ : Timestamp) {rest : List (Nat × AttemptId)} {fx : Effects}
    (h : Sound {node} fx)
    (hon : ∀ w ∈ v :: rest, ∀ a, fx.st.attempts.get? w.2 = some a → a.attempt.node = node) :
    Sound {node} (loseNodeAttempt at_ fx v) ∧ Settles fx.st (loseNodeAttempt at_ fx v).st ∧
      (∀ a, (loseNodeAttempt at_ fx v).st.attempts.get? v.2 = some a →
        a.attempt.state.isTerminal = true) ∧
      ∀ w ∈ rest, ∀ a, (loseNodeAttempt at_ fx v).st.attempts.get? w.2 = some a →
        a.attempt.node = node := by
  obtain ⟨h1, hs1, hend⟩ := h.terminateAny v.2 .nodeLost _ at_ false
    fun a ha hn => absurd (hon v (by simp) a ha) hn
  refine ⟨h1, hs1, hend, fun w hw a ha => ?_⟩
  obtain ⟨b, hb, hadv⟩ := hs1.advances.attempts.back ha
  rw [hadv.same.node]
  exact hon w (mem_cons_of_mem _ hw) b hb

/-- Every attempt of the list is over after the fold. -/
theorem loseNodeAttempts_sound (at_ : Timestamp) (node : NodeId) (l : List (Nat × AttemptId))
    (fx : Effects) (h : Sound {node} fx)
    (hon : ∀ v ∈ l, ∀ a, fx.st.attempts.get? v.2 = some a → a.attempt.node = node) :
    Sound {node} (l.foldl (loseNodeAttempt at_) fx) ∧
      Settles fx.st (l.foldl (loseNodeAttempt at_) fx).st ∧
      ∀ v ∈ l, ∀ a, (l.foldl (loseNodeAttempt at_) fx).st.attempts.get? v.2 = some a →
        a.attempt.state.isTerminal = true := by
  induction l generalizing fx with
  | nil => exact ⟨h, .refl _, by simp⟩
  | cons v rest ih =>
    obtain ⟨h1, hs1, hend, hon1⟩ := loseNodeAttempt_sound at_ h hon
    obtain ⟨h2, hs2, hends⟩ := ih _ h1 hon1
    refine ⟨h2, hs1.trans hs2, ?_⟩
    intro w hw a ha
    rcases mem_cons.mp hw with rfl | hw
    · -- once over, an attempt stays over
      obtain ⟨b, hb, hadv⟩ := hs2.advances.attempts.back ha
      exact hadv.terminal (hend b hb)
    · exact hends w hw a ha

variable {c : DeclareNodeLost} {n : NodeRecord}

theorem losing_spec (h : Consistent s) (hn : s.nodes.get? c.node = some n) :
    Quiet s (s.losing c n).st ∧ Consistent (s.losing c n).st ∧
      ∀ v ∈ (s.losing c n).st.lostVictims c.node, ∀ a,
        (s.losing c n).st.attempts.get? v.2 = some a → a.attempt.node = c.node := by
  have hq : Quiet s (s.losing c n).st :=
    { Quiet.refl s with
      nodes := .of_insert (R := fun (n n' : NodeRecord) => n'.node.capacity = n.node.capacity)
        (fun _ => rfl) hn rfl }
  have h1 := (hq.kept h).consistent
  refine ⟨hq, h1, fun v hv a ha => ?_⟩
  obtain ⟨al, r, hr, hrn, -, rfl⟩ := mem_lostVictims.mp hv
  obtain ⟨b, hb, -, ht⟩ := h1.linked.tied hr
  have : b = a := Option.some.inj (hb.symm.trans ha)
  rw [← this, ← ht.node, hrn]

theorem declareNodeLost_kept (h : Consistent s) (hn : s.nodes.get? c.node = some n) :
    Kept s (s.losses c n).st := by
  obtain ⟨hq, h1, hon⟩ := losing_spec h hn
  obtain ⟨hS, hset, hends⟩ := loseNodeAttempts_sound c.declaredAt c.node
    ((s.losing c n).st.lostVictims c.node) (s.losing c n) (h1.sound {c.node} _) hon
  have hS' : Sound ∅ (s.losses c n) := by
    refine ⟨hS.books, hS.jobs, ?_⟩
    intro m _
    by_cases hm : m = c.node
    · -- no live allocation is left on the lost node
      intro al r' hr' hacc hnode d
      obtain ⟨r, hr, hadv⟩ := hset.advances.allocations.back hr'
      obtain ⟨a', ha', -, ht'⟩ := hS.books.linked.tied hr'
      have hmem : (r.seq, r.allocation.attempt) ∈ (s.losing c n).st.lostVictims c.node := by
        refine mem_lostVictims.mpr ⟨al, r, hr, ?_, ?_, rfl⟩
        · rw [← hadv.same.node, hnode, hm]
        · simp [isLive, hadv.accruing hacc]
      have hterm := hends _ hmem a' (by rw [← hadv.same.attempt]; exact ha')
      have := (ht'.step (by simp)).terminal_iff.mp hterm
      rw [hacc] at this
      cases this
    · exact hS.conserved m (by simpa using hm)
  exact hq.then_kept (hS'.kept hset)

end StateMachine

end Coppice.State
