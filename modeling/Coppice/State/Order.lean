/-
  Coppice.State.Order

  Funding is work-conserving and in commit order: a later allocation gains in a
  dimension only when every earlier one still accruing needs no more of it.
-/

import Coppice.State.Faithful

namespace Coppice.State

open Lib Coppice.Core StateMachine Effects List OrdMap

/-! ## One dimension of a pledge loop -/

/-- The allocation holds as much of the dimension as before. -/
def AllocationRecord.SameIn (d : Dim) (r r' : AllocationRecord) : Prop :=
  r'.allocation.funded.get d = r.allocation.funded.get d

theorem AllocationRecord.SameIn.refl (d : Dim) (r : AllocationRecord) : r.SameIn d r := rfl

variable {d : Dim} {r' r : AllocationRecord} {free : Resources} {node : NodeId} {fx : Effects}
  {s s' : StateMachine} {al : AllocationId}

theorem AllocationRecord.SameIn.trans (h : r.SameIn d r') (h' : r'.SameIn d r'') : r.SameIn d r'' :=
  Eq.trans h' h

/-- In a dimension with nothing free a step gives nothing and leaves nothing free. -/
theorem pledgeOne_idle (node : NodeId) (seq : Nat) (id : AllocationId) (fx : Effects)
    (hd : free.get d = 0) :
    (pledgeOne node seq id fx free).2.1.get d = 0 ∧
      Rel (AllocationRecord.SameIn d) fx.st.allocations
        (pledgeOne node seq id fx free).1.st.allocations := by
  have hrefl : Rel (AllocationRecord.SameIn d) fx.st.allocations fx.st.allocations :=
    .refl (.refl d) _
  unfold pledgeOne
  split
  · exact ⟨hd, hrefl⟩
  · rename_i r hr
    simp only
    have hp : (free.componentMin (r.allocation.requested.saturatingSub
        r.allocation.funded)).get d = 0 := by
      rw [Resources.get_componentMin, hd]
      exact Nat.zero_min _
    generalize free.componentMin (r.allocation.requested.saturatingSub
      r.allocation.funded) = pledge at hp ⊢
    have hfunded :
        (r.allocation.funded.saturatingAdd pledge).get d = r.allocation.funded.get d := by
      have := r.allocation.funded.get_le_u64Max d
      rw [Resources.get_saturatingAdd, hp]
      omega
    have hfree : (free.saturatingSub pledge).get d = 0 := by
      rw [Resources.get_saturatingSub, hd, Nat.zero_sub]
    split_ifs
    · exact ⟨hd, hrefl⟩
    · refine ⟨hfree, .of_modify (.refl d) _ fun q hq => ?_⟩
      rw [hr] at hq
      cases hq
      exact hfunded
    · refine ⟨hfree, .of_modify (.refl d) _ fun q hq => ?_⟩
      rw [hr] at hq
      cases hq
      exact hfunded

/-- In a dimension with nothing free the whole loop gives nothing. -/
theorem pledgeLoop_idle (node : NodeId) (l : List (Nat × AllocationId)) (fx : Effects)
    (hd : free.get d = 0) :
    Rel (AllocationRecord.SameIn d) fx.st.allocations
      (pledgeLoop node l fx free).1.st.allocations := by
  induction l generalizing fx free with
  | nil => exact .refl (.refl d) _
  | cons e rest ih =>
    obtain ⟨seq, id⟩ := e
    obtain ⟨hd1, hrel⟩ := pledgeOne_idle node seq id fx hd
    have hrest := hrel.trans .trans (ih _ hd1)
    unfold pledgeLoop
    split_ifs
    · exact .refl (.refl d) _
    · split
      · rename_i heq
        rw [heq] at hrest
        exact hrest
      · rename_i heq
        rw [heq] at hrest
        exact hrest

/-- A loop over a queue in ascending seq order: where a later entry gains, an
    earlier one that is left accruing needs no more. -/
theorem pledgeLoop_inOrder {l : List (Nat × AllocationId)} (h : Pledging node newly fx free)
    (hl : Queued fx.st node l) (hsort : l.Pairwise fun a b => a.1 < b.1) {e0 e : Nat × AllocationId}
    (he0 : e0 ∈ l) (he : e ∈ l) (hlt : e0.1 < e.1) {r0 : AllocationRecord}
    (hr : fx.st.allocations.get? e.2 = some r)
    (hr' : (pledgeLoop node l fx free).1.st.allocations.get? e.2 = some r')
    (hgain : r.allocation.funded.get d < r'.allocation.funded.get d)
    (hr0 : (pledgeLoop node l fx free).1.st.allocations.get? e0.2 = some r0)
    (hacc : r0.allocation.state = .accruing) :
    r0.allocation.requested.get d ≤ r0.allocation.funded.get d := by
  induction l generalizing newly fx free with
  | nil => simp at he
  | cons x rest ih =>
    obtain ⟨seq, id⟩ := x
    obtain ⟨hhead, hsort'⟩ := pairwise_cons.mp hsort
    have hnd := hl.nodup
    simp only [map_cons, nodup_cons] at hnd
    by_cases hz : free.isZero = true
    · -- the loop stops at once, so nothing is gained
      rw [pledgeLoop, if_pos hz, hr] at hr'
      cases hr'
      omega
    · obtain ⟨q, hq, hqacc, hqnode, hqseq⟩ := hl.accruing (seq, id) (by simp)
      obtain ⟨fx1, free1, full, heq, hP, hG, -, hdone⟩ := pledgeOne_spec h hq hqacc hqnode hqseq
      rw [pledgeLoop_cons node seq id rest fx hz, heq] at hr' hr0
      have hrest := hl.tail hG
      obtain ⟨fx', fresh, hloop, hD⟩ := pledgeLoop_spec hP hrest
      rcases mem_cons.mp he with rfl | he
      · -- the head has the smallest seq
        rcases mem_cons.mp he0 with rfl | he0
        · exact absurd hlt (lt_irrefl _)
        · exact absurd (hhead e0 he0) (not_lt.mpr hlt.le)
      · have hne : e.2 ≠ id := fun hc => hnd.1 (hc ▸ mem_map_of_mem he)
        have hr1 : fx1.st.allocations.get? e.2 = some r := by rw [hG.others _ hne, hr]
        rcases mem_cons.mp he0 with rfl | he0
        · -- the head was served first; had it left the dimension dry, nobody would gain
          have hkeep : fx1.st.allocations.get? id = some r0 := by
            rw [← hD.others id hnd.1, ← hr0, hloop]
          rcases hdone r0 hkeep hacc d with hdry | hdone
          · obtain ⟨r'', hr'', hsame⟩ := (pledgeLoop_idle node rest fx1 hdry).some hr1
            rw [hr'] at hr''
            cases hr''
            have heq : r'.allocation.funded.get d = r.allocation.funded.get d := hsame
            omega
          · exact hdone
        · exact ih hP hrest hsort' he0 he hr1 hr' hr0

/-! ## One pass -/

/-- A pledge pass on `node` serves its queue in commit order: where an allocation
    gains, every earlier one that is still accruing after the pass needs no more. -/
def InOrder (fx : Effects) (node : NodeId) : Prop :=
  ∀ al r r' al₀ r₀ d, fx.st.allocations.get? al = some r →
    (fx.pledgeNode node).st.allocations.get? al = some r' → r.allocation.node = node →
    r.allocation.funded.get d < r'.allocation.funded.get d →
    (fx.pledgeNode node).st.allocations.get? al₀ = some r₀ → r₀.allocation.node = node →
    r₀.allocation.state = .accruing → r₀.seq < r.seq →
    r₀.allocation.requested.get d - r₀.allocation.funded.get d = 0

/-- What is accruing after a pass was queued before it. -/
theorem Pledged.queued_before (h : Pledged s s') (hL : Linked s [])
    (hr' : s'.allocations.get? al = some r') (hacc : r'.allocation.state = .accruing) :
    (r'.seq, al) ∈ s.nodeQueue r'.allocation.node := by
  rw [mem_nodeQueue, hL.queue]
  rcases h.allocations al with e | ⟨q, q', hq, hq', hqacc, hsame, -⟩
  · exact ⟨r', e ▸ hr', hacc, rfl, rfl⟩
  · rw [hr'] at hq'
    cases hq'
    exact ⟨q, hq, hqacc, hsame.node.symm, hsame.seq.symm⟩

theorem Books.inOrder (h : Books fx) (node : NodeId) : InOrder fx node := by
  intro al r r' al0 r0 d hr hr' hnode hgain hr0 hnode0 hacc hlt
  rcases pledgeNode_cases node h.linked h.fit h.memo with
    ⟨-, heq⟩ | ⟨fx', fresh, hloop, hD, hex, heq⟩
  · rw [heq, hr] at hr'
    cases hr'
    omega
  · obtain ⟨-, -, hp, hall⟩ := readyAll_spec (append_nil fresh ▸ hD.linked) hD.fresh_nodup hex
    rw [heq, hall] at hr' hr0
    -- only queued allocations gain
    have hmem : (r.seq, al) ∈ fx.st.nodeQueue node := by
      by_contra hnot
      have hout : al ∉ (fx.st.nodeQueue node).map Prod.snd := by
        intro hm
        obtain ⟨e, he, rfl⟩ := mem_map.mp hm
        obtain ⟨q, hq, -, -, hseq⟩ := (h.linked.queued node).accruing e he
        rw [hr] at hq
        cases hq
        exact hnot (by rw [hseq]; exact he)
      rw [hD.others al hout, hr] at hr'
      cases hr'
      omega
    have hmem0 := hD.pledged.queued_before h.linked hr0 hacc
    rw [hnode0] at hmem0
    have hfree := freeCapacity_get h.fit h.memo node
    have hP : Pledging node [] fx (fx.st.freeCapacity node fx.used) :=
      ⟨h.linked, h.fit, h.memo, hfree⟩
    have hdone := pledgeLoop_inOrder hP (h.linked.queued node)
      (nodeQueue_sorted fx.st node) hmem0 hmem hlt hr (by rw [hloop]; exact hr') hgain
      (by rw [hloop]; exact hr0) hacc
    omega

/-! ## The passes of a command -/

/-- The pass of `terminate_attempt` on a live attempt starts from `fx` on `node`. -/
def EndPass (fx₀ : Effects) (id : AttemptId) (outcome : AttemptOutcome) (at_ : Timestamp)
    (fx : Effects) (node : NodeId) : Prop :=
  ∃ a r, fx₀.st.attempts.get? id = some a ∧ a.attempt.state.isTerminal = false ∧
    fx₀.st.allocations.get? a.attempt.allocation = some r ∧ r.allocation.state ≠ .released ∧
    fx = fx₀.ending id a r outcome at_ ∧ node = r.allocation.node

/-- The pledge passes a command may run: the effects each starts from and its node. -/
inductive Pass (s : StateMachine) : Command → Effects → NodeId → Prop where
  | register {c} : Pass s (.registerNode c) (s.registering c) c.node
  | abort {c id fx node} :
      EndPass (Effects.start (s.abortFlagged c.job ⟨c.reason, c.requestedAt⟩)) id .aborted
        c.requestedAt fx node → Pass s (.abortJob c) fx node
  | outcome {c fx node} :
      EndPass (Effects.start s) c.attempt c.outcome c.observedAt fx node →
      Pass s (.recordAttemptOutcome c) fx node
  | lose {c pre l post fx node} : c.lost = pre ++ l :: post →
      EndPass (pre.foldl (StateMachine.loseOne c.observedAt)
        (s.adopting c))
        l.attempt l.outcome c.observedAt fx node → Pass s (.reconcileNode c) fx node
  | revoke {c pre id post r fx node} : c.revocations = pre ++ id :: post →
      (pre.foldl (Effects.revokeOne c.proposedAt)
        ⟨s, [], some s.usedCapacityMemo⟩).st.allocations.get? id = some r →
      EndPass (pre.foldl (Effects.revokeOne c.proposedAt) ⟨s, [], some s.usedCapacityMemo⟩)
        r.allocation.attempt .revoked c.proposedAt fx node → Pass s (.commitPlacements c) fx node

theorem EndPass.books {skip : Set NodeId} {fx0 : Effects} {id : AttemptId}
    {outcome : AttemptOutcome} {at_ : Timestamp} (h : EndPass fx0 id outcome at_ fx node)
    (hS : Sound skip fx0) : Books fx := by
  obtain ⟨a, r, ha, hlive, hr, hrl, rfl, rfl⟩ := h
  obtain ⟨hst1, hused1, -⟩ := fx0.ending_spec outcome at_ ha hlive hr
  exact (hS.books.freed ha hr hrl (a.endWith_same outcome at_) rfl hst1 hused1).1

theorem adoptAll_sound (h : Consistent s) (at_ : Timestamp) (l : List AttemptId) :
    Sound ∅ (l.foldl (adoptOne at_) (start s)) :=
  (Sound.foldl (adoptOne_sound at_) l _ (h.sound ∅ [])).1

/-- Every pass starts from exact books. -/
theorem Pass.books (h : Consistent s) (hp : Pass s c fx node) : Books fx := by
  cases hp with
  | register => exact registering_books h _
  | abort he => exact he.books ((abortFlagged_consistent h _ _).sound ∅ [])
  | outcome he => exact he.books (h.sound ∅ [])
  | lose _ he =>
    exact he.books (Sound.foldl (loseOne_sound _) _ _ (adoptAll_sound h _ _)).1
  | revoke _ _ he =>
    exact he.books ((StateMachine.Consistent.batchStart h).revokeAll _ _).1

/-! ## Gains come from passes -/

/-- Every allocation is still there and holds what it held. -/
def SameFunds (s s' : StateMachine) : Prop :=
  ∀ al r, s.allocations.get? al = some r →
    ∃ r', s'.allocations.get? al = some r' ∧ r'.allocation.funded = r.allocation.funded

/-- One step of a command: a pledge pass of `P`, or something that leaves the funds of
    every allocation alone. -/
inductive FundStep (P : Effects → NodeId → Prop) : Effects → Effects → Prop where
  | pass {fx : Effects} {node : NodeId} : P fx node → FundStep P fx (fx.pledgeNode node)
  | still {fx fx' : Effects} : SameFunds fx.st fx'.st → FundStep P fx fx'

/-- The way from `fx` to `fx'` consists of such steps. -/
def Funds (P : Effects → NodeId → Prop) (fx fx' : Effects) : Prop :=
  Relation.ReflTransGen (FundStep P) fx fx'

theorem SameFunds.of_eq (h : s'.allocations = s.allocations) : SameFunds s s' :=
  fun _ r hr => ⟨r, h ▸ hr, rfl⟩

/-- A record is added, or replaced by one with the same funds. -/
theorem SameFunds.of_insert
    (hr : ∀ r, s.allocations.get? al = some r → r'.allocation.funded = r.allocation.funded)
    (h : s'.allocations = s.allocations.insert al r') : SameFunds s s' := by
  intro i q hq
  rw [h, get?_insert]
  split_ifs with e
  · exact ⟨r', rfl, hr q (e ▸ hq)⟩
  · exact ⟨q, hq, rfl⟩

namespace Funds

variable {P : Effects → NodeId → Prop} {fx' fx'' : Effects}

theorem refl (fx : Effects) : Funds P fx fx := Relation.ReflTransGen.refl

theorem trans (h : Funds P fx fx') (h' : Funds P fx' fx'') : Funds P fx fx'' :=
  Relation.ReflTransGen.trans h h'

theorem still (h : SameFunds fx.st fx'.st) : Funds P fx fx' := .single (.still h)

theorem pass (h : P fx node) : Funds P fx (fx.pledgeNode node) := .single (.pass h)

/-- A fold, each of whose steps is taken from the fold of a proper part of the list. -/
theorem foldl {α : Type} {f : Effects → α → Effects} (l : List α) (fx : Effects)
    (hf : ∀ pre x post, l = pre ++ x :: post → Funds P (pre.foldl f fx) (f (pre.foldl f fx) x)) :
    Funds P fx (l.foldl f fx) := by
  induction l using List.reverseRecOn with
  | nil => exact .refl fx
  | append_singleton pre x ih =>
    rw [foldl_append]
    refine (ih fun p y post e => ?_).trans (hf pre x [] rfl)
    exact hf p y (post ++ [x]) (by rw [e]; simp)

end Funds

variable {P : Effects → NodeId → Prop}

/-- An attempt's end frees its hold, runs the pass if asked to, and settles. -/
theorem Sound.terminateAttempt_funds (id : AttemptId) (outcome : AttemptOutcome) (rt : Duration)
    (at_ : Timestamp) (pledge : Bool) (h : Sound skip fx)
    (hP : pledge = true → ∀ fx' node, EndPass fx id outcome at_ fx' node → P fx' node) :
    Funds P fx (fx.terminateAttempt id outcome rt at_ pledge) := by
  rcases fx.terminateAttempt_idle_or_live id outcome rt at_ pledge with ⟨-, heq⟩ | ⟨a, ha, hlive⟩
  · rw [heq]
    exact .refl fx
  · obtain ⟨al, fx1, fx2, x, he⟩ := h.books.ends outcome rt at_ pledge ha hlive
    have h1 : Funds P fx fx1 := by
      refine .still (.of_insert (fun r hr => ?_) (by rw [he.st1]))
      rw [he.allocation] at hr
      cases hr
      rfl
    have h2 : Funds P fx1 fx2 := by
      rw [he.second]
      split_ifs with hp
      · exact .pass (hP hp _ _ ⟨a, al, ha, hlive, he.allocation, he.held, he.first, rfl⟩)
      · exact .refl fx1
    exact (h1.trans h2).trans (.still (.of_eq he.allocations))

/-- `s'` comes from `s` by steps whose gains are all in passes of `P`; allocations may be
    evicted at the end. -/
def FundedFrom (P : Effects → NodeId → Prop) (s s' : StateMachine) : Prop :=
  ∃ fx, Funds P (Effects.start s) fx ∧
    ∀ al r', s'.allocations.get? al = some r' → fx.st.allocations.get? al = some r'

theorem FundedFrom.of_eq (h : s'.allocations = s.allocations) : FundedFrom P s s' :=
  ⟨start s, .refl _, fun _ _ hr' => h ▸ hr'⟩

theorem Funds.from (h : Funds P (start s) fx) : FundedFrom P s fx.st :=
  ⟨fx, h, fun _ _ hr' => hr'⟩

/-- An allocation that becomes active keeps its funds. -/
theorem Funds.markAttemptRunning (fx : Effects) (id : AttemptId) (at_ : Timestamp) :
    Funds P fx (fx.markAttemptRunning id at_) := by
  refine .still ?_
  unfold Effects.markAttemptRunning
  split
  · exact .of_eq rfl
  · intro al r hr
    simp only [Effects.modifyAllocation, Effects.attemptTransition_st, Effects.modifyAttempt,
      get?_modify, hr]
    split_ifs
    · refine ⟨_, rfl, ?_⟩
      simp only
      split_ifs <;> rfl
    · exact ⟨r, rfl, rfl⟩

namespace StateMachine

theorem reconcileNode_funded (h : Consistent s) (c : ReconcileNode) :
    FundedFrom (Pass s (.reconcileNode c)) s (s.reconciling c).st := by
  have hadopt : Funds (Pass s (.reconcileNode c)) (start s)
      (s.adopting c) := by
    refine .foldl c.adopted _ fun pre id post _ => ?_
    unfold adoptOne
    split
    · exact .refl _
    · split_ifs
      · exact .markAttemptRunning _ id _
      · exact .refl _
  have hlose : Funds (Pass s (.reconcileNode c))
      (s.adopting c)
      (s.reconciling c) := by
    refine .foldl c.lost _ fun pre l post e => ?_
    have hS := (Sound.foldl (loseOne_sound c.observedAt) pre _ (adoptAll_sound h c.observedAt
      c.adopted)).1
    unfold loseOne
    split
    · exact .refl _
    · split_ifs
      · exact .refl _
      · exact hS.terminateAttempt_funds _ _ _ _ _ fun _ _ _ he => .lose e he
  exact (hadopt.trans hlose).from

theorem declareNodeLost_funded (h : Consistent s) {c : DeclareNodeLost} {n : NodeRecord}
    (hn : s.nodes.get? c.node = some n) : FundedFrom P s (s.losses c n).st := by
  obtain ⟨-, h1, hon⟩ := losing_spec h hn
  have hstart : Funds P (start s) (s.losing c n) := .still (.of_eq rfl)
  have hends : Funds P (s.losing c n) (s.losses c n) := by
    refine .foldl _ _ fun pre v post e => ?_
    have hpre : ∀ w ∈ pre, w ∈ (s.losing c n).st.lostVictims c.node := by
      intro w hw
      rw [e]
      simp [hw]
    obtain ⟨hS, -, -⟩ := loseNodeAttempts_sound c.declaredAt c.node pre (s.losing c n)
      (h1.sound {c.node} _) fun w hw => hon w (hpre w hw)
    exact hS.terminateAttempt_funds _ _ _ _ _ fun hp => by cases hp
  exact (hstart.trans hends).from

end StateMachine

/-- The seats of a batch give to new allocations only. -/
theorem SeatTrail.funds (h : SeatTrail s revoked fx0 at_ fx ps cutoffs groups fx') :
    Funds P fx fx' := by
  induction h with
  | nil => exact .refl _
  | @cons fx _ _ _ _ _ cutoff _ group _ hS _ hf _ _ ih =>
    obtain ⟨-, -, hs⟩ := hS.seat at_ cutoff group hf
    have hone : Funds P fx (fx.seatPlacement at_ _ cutoff group) :=
      .still (.of_insert (fun r hr => by simp [hf.allocation] at hr) hs.allocations)
    exact hone.trans ih

namespace StateMachine

theorem commitPlacements_funded (h : Consistent s) {c : CommitPlacements}
    (hitems : (s.screen c).items = []) :
    FundedFrom (Pass s (.commitPlacements c)) s (s.committing c).st := by
  have hbatch := Consistent.batchStart h
  have hstart : Funds (Pass s (.commitPlacements c)) (start s)
      ⟨s, [], some s.usedCapacityMemo⟩ := .still (.of_eq rfl)
  have hrevoke : Funds (Pass s (.commitPlacements c)) ⟨s, [], some s.usedCapacityMemo⟩
      (c.revocations.foldl (revokeOne c.proposedAt)
        ⟨s, [], some s.usedCapacityMemo⟩) := by
    refine .foldl c.revocations _ fun pre id post e => ?_
    obtain ⟨hS, -, -⟩ := hbatch.revokeAll c.proposedAt pre
    unfold revokeOne
    split
    · exact .refl _
    · rename_i r hr
      exact hS.terminateAttempt_funds _ _ _ _ _ fun _ _ _ he => .revoke e hr he
  have hok : BatchOk s c := batchOk_of_items (isEmpty_iff.mpr hitems)
  exact ((hstart.trans hrevoke).trans (hok.trail h).funds).from

theorem Step.funded (hstep : Step s c out) (h : Consistent s) : FundedFrom (Pass s c) s out.1 := by
  cases hstep with
  | reject | noop | submit | abortDispatched | abortEnding | metadata | notified | setDrain
  | setDraining => exact .of_eq rfl
  | abortIdle =>
    refine .of_eq ?_
    rw [finish, jobTerminalTransition_st]
    rfl
  | @abortUndispatched c _ id =>
    have hflag : Funds (Pass s (.abortJob c)) (start s) (s.aborting c) := .still (.of_eq rfl)
    have hS := ((s.aborting_quiet c).kept h).consistent.sound ∅ []
    exact (hflag.trans (hS.terminateAttempt_funds id .aborted Duration.zero c.requestedAt true
      fun _ _ _ => .abort)).from
  | commit hitems => exact commitPlacements_funded h hitems
  | dispatchAttempt | exited =>
    refine .of_eq ?_
    simp only [finish, attemptTransition_st]
    rfl
  | started => exact (Funds.markAttemptRunning _ _ _).from
  | outcome => exact ((h.sound ∅ []).terminateAttempt_funds _ _ _ _ _ fun _ _ _ => .outcome).from
  | reconcile => exact reconcileNode_funded h _
  | register c =>
    have hstart : Funds (Pass s (.registerNode c)) (start s) (s.registering c) :=
      .still (.of_eq rfl)
    exact (hstart.trans (.pass .register)).from
  | lost hn => exact declareNodeLost_funded h hn
  | @evictJobs c hterm =>
    exact ⟨start s, .refl _, (evictJobs_spec c.jobs (start s) h hterm).2.allocations⟩
  | evictNodes => exact .of_eq (evictNodes_bystands _).allocations
  | renew => exact .of_eq (s.renewAll_quiet _ _).allocations
  | setting _ hset => exact .of_eq hset.work.allocations

end StateMachine

/-! ## Every reachable state -/

/-- In every reachable state an accruing allocation needs nothing that is free on its
    node; every pass serves the queue in commit order; and nothing else a command does
    gives an allocation more. -/
theorem reachable_funding {s : StateMachine} (h : Reachable s) :
    (∀ al r, s.allocations.get? al = some r → r.allocation.state = .accruing → ∀ d,
      (s.freeCapacity r.allocation.node none).get d = 0 ∨
        r.allocation.requested.get d - r.allocation.funded.get d = 0) ∧
    (∀ c fx node, Pass s c fx node → InOrder fx node) ∧
    ∀ c, FundedFrom (Pass s c) s (s.apply c).1 := by
  have hC := h.consistent
  refine ⟨fun al r hr hacc d => ?_, fun c fx node hp => (hp.books hC).inOrder node,
    fun c => (s.dispatch_step c).funded hC⟩
  have hfree : (s.freeCapacity r.allocation.node none).get d =
      s.capacityOf r.allocation.node d - s.heldOn r.allocation.node d :=
    @freeCapacity_get ⟨s, [], none⟩ hC.fit (memoExact_none s []) r.allocation.node d
  have hcons := hC.conserved r.allocation.node al r hr hacc rfl d
  omega

open Sample

/-- The third job accrues on a full node, which then registers with more capacity. -/
theorem reachable_funding_busy :
    ((run busy).allocations.get? 3).map (fun r => r.allocation.state) = some .accruing ∧
      FundedFrom (Pass (run busy) (register 20)) (run busy)
        ((run busy).apply (register 20)).1 :=
  ⟨by decide +kernel, (reachable_funding (reachable_run busy)).2.2 _⟩

end Coppice.State
