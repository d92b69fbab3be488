/-
  Coppice.State.Fill

  A pledge pass fills the accrual queue of its node: the needs after it are the
  needs before it, served from the head with what was free.
-/

import Coppice.Lib.Pour
import Coppice.State.Steps

namespace Coppice.State

open Lib Lib.Pour Coppice.Core StateMachine OrdMap Effects List AllocationRecord

/-- What an allocation still lacks. -/
def AllocationRecord.need (r : AllocationRecord) : Resources :=
  r.allocation.requested.saturatingSub r.allocation.funded

theorem AllocationRecord.need_get (r : AllocationRecord) (d : Dim) :
    r.need.get d = r.allocation.requested.get d - r.allocation.funded.get d :=
  Resources.get_saturatingSub _ _ _

variable {r : AllocationRecord} {s s' t : StateMachine} {al : AllocationId}
  {l : List (Nat × AllocationId)} {fx : Effects} {node : NodeId}

/-- Nothing is lacking exactly when all is funded. -/
theorem FundedRight.need_isZero (h : FundedRight r) :
    r.need.isZero = true ↔ r.allocation.funded = r.allocation.requested := by
  rw [Resources.isZero_iff, Resources.eq_iff_get]
  refine forall_congr' fun d => ?_
  have := h.le d
  rw [r.need_get]
  omega

/-- What the allocation `al` still lacks. -/
def StateMachine.needAt (s : StateMachine) (al : AllocationId) : Resources :=
  ((s.allocations.get? al).map need).getD .zero

theorem StateMachine.needAt_of_some (h : s.allocations.get? al = some r) :
    s.needAt al = r.need := by
  simp [needAt, h]

theorem StateMachine.needAt_congr (h : s'.allocations.get? al = s.allocations.get? al) :
    s'.needAt al = s.needAt al := by
  rw [needAt, needAt, h]

/-- One dimension of the needs of queued allocations. -/
def StateMachine.needsOf (s : StateMachine) (d : Dim) (l : List (Nat × AllocationId)) : List Nat :=
  l.map fun e => (s.needAt e.2).get d

theorem StateMachine.needsOf_congr (h : ∀ e ∈ l, s'.allocations.get? e.2 = s.allocations.get? e.2)
    (d : Dim) : s'.needsOf d l = s.needsOf d l := by
  refine map_congr_left fun e he => ?_
  rw [needAt_congr (h e he)]

/-! ## The loop -/

/-- One queued allocation takes what it needs of what is free. -/
theorem pledgeOne_fills (node : NodeId) (seq : Nat) {id : AllocationId} (free : Resources)
    (hr : fx.st.allocations.get? id = some r) (hfr : FundedRight r) :
    (∀ d, ((pledgeOne node seq id fx free).1.st.needAt id).get d = r.need.get d - free.get d) ∧
    (∀ d, (pledgeOne node seq id fx free).2.1.get d = free.get d - r.need.get d) ∧
    ∀ al, al ≠ id → (pledgeOne node seq id fx free).1.st.allocations.get? al =
      fx.st.allocations.get? al := by
  have hpledge : ∀ d, (free.componentMin r.need).get d = min (free.get d) (r.need.get d) :=
    Resources.get_componentMin _ _
  have hfunded : ∀ d, (r.allocation.funded.saturatingAdd (free.componentMin r.need)).get d =
      r.allocation.funded.get d + min (free.get d) (r.need.get d) := by
    intro d
    have hle := hfr.le d
    have hreq := r.allocation.requested.get_le_u64Max d
    rw [Resources.get_saturatingAdd, hpledge, r.need_get]
    omega
  have hleft : ∀ d, (free.saturatingSub (free.componentMin r.need)).get d =
      free.get d - r.need.get d := by
    intro d
    rw [Resources.get_saturatingSub, hpledge]
    omega
  -- after either kind of pledge the need is the difference
  have hneed : ∀ (st : AllocationState) d,
      (r.pledged (r.allocation.funded.saturatingAdd (free.componentMin r.need)) st).need.get d =
        r.need.get d - free.get d := by
    intro st d
    rw [need_get]
    simp only [pledged, hfunded, r.need_get]
    omega
  by_cases hz : (free.componentMin r.need).isZero = true
  · have hzero := Resources.isZero_iff.mp hz
    have hsame : pledgeOne node seq id fx free = (fx, free, false) := by
      simp only [pledgeOne, hr]
      exact if_pos hz
    rw [hsame]
    refine ⟨fun d => ?_, fun d => ?_, fun al _ => rfl⟩
    · have := hzero d
      rw [hpledge] at this
      rw [needAt_of_some hr]
      omega
    · have := hzero d
      rw [hpledge] at this
      show free.get d = _
      omega
  · obtain ⟨fx', heq, hst, -⟩ := pledgeOne_eq node seq hr rfl hz rfl
    rw [heq]
    refine ⟨fun d => ?_, hleft, fun al hal => ?_⟩
    · rw [needAt_of_some (by rw [hst]; exact get?_insert_self ..)]
      exact hneed _ d
    · rw [hst]
      exact get?_insert_of_ne _ _ (Ne.symm hal)

theorem pledgeLoop_fills (node : NodeId) (free : Resources) (hnd : (l.map Prod.snd).Nodup)
    (hl : ∀ e ∈ l, ∃ r, fx.st.allocations.get? e.2 = some r ∧ FundedRight r) (d : Dim) :
    (pledgeLoop node l fx free).1.st.needsOf d l = fill (fx.st.needsOf d l) (free.get d) ∧
    ∀ al, al ∉ l.map Prod.snd → (pledgeLoop node l fx free).1.st.allocations.get? al =
      fx.st.allocations.get? al := by
  induction l generalizing fx free with
  | nil => exact ⟨rfl, fun _ _ => rfl⟩
  | cons e rest ih =>
    obtain ⟨seq, id⟩ := e
    obtain ⟨r, hr, hfr⟩ := hl (seq, id) (by simp)
    simp only [map_cons, nodup_cons] at hnd
    by_cases hz : free.isZero = true
    · rw [pledgeLoop, if_pos hz, Resources.isZero_iff.mp hz d, fill_zero]
      exact ⟨rfl, fun _ _ => rfl⟩
    · rw [pledgeLoop_cons node seq id rest fx hz]
      obtain ⟨hneed, hleft, hothers⟩ := pledgeOne_fills node seq free hr hfr
      have hne : ∀ e ∈ rest, e.2 ≠ id := fun e he hc => hnd.1 (hc ▸ mem_map_of_mem he)
      obtain ⟨hfill, hsame⟩ := ih (pledgeOne node seq id fx free).2.1 hnd.2
        fun e he => by
          rw [hothers e.2 (hne e he)]
          exact hl e (mem_cons_of_mem _ he)
      refine ⟨?_, fun al hal => ?_⟩
      · rw [needsOf_congr fun e he => hothers e.2 (hne e he), hleft] at hfill
        simp only [needsOf, map_cons, fill_cons] at hfill ⊢
        rw [hfill, needAt_congr (hsame id hnd.1), hneed, needAt_of_some hr]
      · simp only [map_cons, mem_cons, not_or] at hal
        rw [hsame al hal.2, hothers al hal.1]

/-! ## The pass -/

/-- A pass hands the free capacity of the node to its queue. -/
theorem pledgeNode_fills (h : Books fx) (node : NodeId) (d : Dim) :
    (fx.pledgeNode node).st.needsOf d (fx.st.nodeQueue node) =
      fill (fx.st.needsOf d (fx.st.nodeQueue node))
        (fx.st.capacityOf node d - fx.st.heldOn node d) := by
  rcases pledgeNode_cases node h.linked h.fit h.memo with
    ⟨hfull, heq⟩ | ⟨fx', fresh, hloop, hD, hex, heq⟩
  · have hnone : fx.st.capacityOf node d - fx.st.heldOn node d = 0 := by
      have := hfull d
      omega
    rw [heq, hnone, fill_zero]
  · obtain ⟨-, -, -, hall⟩ := readyAll_spec (append_nil fresh ▸ hD.linked) hD.fresh_nodup hex
    have hq := h.linked.queued node
    have hfill := (pledgeLoop_fills node (fx.st.freeCapacity node fx.used) hq.nodup
      (fun e he => by
        obtain ⟨r, hr, -⟩ := hq.accruing e he
        exact ⟨r, hr, h.linked.funding hr⟩) d).1
    rw [hloop, freeCapacity_get h.fit h.memo] at hfill
    rw [heq, ← hfill]
    exact needsOf_congr (fun e _ => by rw [hall]) d

/-- A release on a node without overcommitment hands its hold to the queue: what was free
    before is wanted by no member. -/
theorem Books.terminateAttempt_fills {id : AttemptId} {a : AttemptRecord} (outcome : AttemptOutcome)
    (rt : Duration) (at_ : Timestamp) (h : Books fx) (ha : fx.st.attempts.get? id = some a)
    (hlive : a.attempt.state.isTerminal = false)
    (hr : fx.st.allocations.get? a.attempt.allocation = some r)
    (hacc : r.allocation.state ≠ .accruing)
    (hroom : ∀ d, fx.st.heldOn r.allocation.node d ≤ fx.st.capacityOf r.allocation.node d)
    (hcons : ConservedOn fx.st r.allocation.node) :
    (∀ d, (fx.terminateAttempt id outcome rt at_ true).st.needsOf d
        (fx.st.nodeQueue r.allocation.node) =
      fill (fx.st.needsOf d (fx.st.nodeQueue r.allocation.node)) (r.allocation.funded.get d)) ∧
    ∀ al q, al ≠ a.attempt.allocation → fx.st.allocations.get? al = some q →
      ∃ q', (fx.terminateAttempt id outcome rt at_ true).st.allocations.get? al = some q' ∧
        q.Served q' := by
  obtain ⟨r', fx1, fx2, x, he⟩ := h.ends outcome rt at_ true ha hlive
  generalize fx.terminateAttempt id outcome rt at_ true = fx' at *
  cases he.allocation.symm.trans hr
  have hqueue1 : fx1.st.nodeQueue r.allocation.node = fx.st.nodeQueue r.allocation.node := by
    have herase : fx1.st.accrualQueue = fx.st.accrualQueue := by
      rw [he.st1]
      exact erase_eq_self (h.linked.queue_none hr hacc)
    rw [nodeQueue, nodeQueue, herase]
  have hmem : ∀ e ∈ fx.st.nodeQueue r.allocation.node, ∃ q,
      fx.st.allocations.get? e.2 = some q ∧ q.allocation.state = .accruing ∧
        q.allocation.node = r.allocation.node ∧ q.seq = e.1 :=
    (h.linked.queued r.allocation.node).accruing
  have hne : ∀ e ∈ fx.st.nodeQueue r.allocation.node, e.2 ≠ a.attempt.allocation := by
    intro e he hc
    obtain ⟨q, hq, hqacc, -⟩ := hmem e he
    rw [hc, hr] at hq
    cases hq
    exact hacc hqacc
  refine ⟨fun d => ?_, fun al q hal hq => he.survives hal hq⟩
  -- what is free after the release is what was free before and the hold
  have hheld := he.heldOn r.allocation.node d
  have hhold : holdOf r.allocation.node d r = r.allocation.funded.get d := by
    simp [holdOf, isLive, he.held]
  have hcap : fx1.st.capacityOf r.allocation.node d = fx.st.capacityOf r.allocation.node d :=
    capacityOf_congr (by rw [he.st1]) _ _
  have hfree : fx1.st.capacityOf r.allocation.node d - fx1.st.heldOn r.allocation.node d =
      (fx.st.capacityOf r.allocation.node d - fx.st.heldOn r.allocation.node d) +
        r.allocation.funded.get d := by
    have := hroom d
    omega
  have hfill := pledgeNode_fills he.books1 r.allocation.node d
  rw [hqueue1, hfree, needsOf_congr fun e hm => he.allocations_of_ne (hne e hm)] at hfill
  rw [needsOf_congr (s := (fx1.pledgeNode r.allocation.node).st)
    fun e _ => by rw [he.allocations, he.second]; rfl, hfill]
  refine fill_idle ?_ _
  by_cases hfull : fx.st.capacityOf r.allocation.node d ≤ fx.st.heldOn r.allocation.node d
  · left
    omega
  · right
    refine sum_eq_zero fun w hw => ?_
    obtain ⟨e, hm, rfl⟩ := mem_map.mp hw
    obtain ⟨q, hq, hqacc, hqn, -⟩ := hmem e hm
    rw [needAt_of_some hq, q.need_get]
    rcases hcons e.2 q hq hqacc hqn d with hc | hc
    · exact absurd hc hfull
    · omega

/-! ## Queues -/

theorem Linked.mem_queue (h : Linked t []) {e : Nat × AllocationId} :
    e ∈ t.nodeQueue node ↔ ∃ r, t.allocations.get? e.2 = some r ∧
      r.allocation.state = .accruing ∧ r.allocation.node = node ∧ r.seq = e.1 := by
  rw [mem_nodeQueue, h.queue]

/-- A live allocation lacks something exactly while it accrues. -/
theorem Linked.need_isZero (h : Linked t []) (hr : t.allocations.get? al = some r)
    (hlive : r.isLive = true) : (t.needAt al).isZero = false ↔ r.allocation.state = .accruing := by
  have hfr := h.funding hr
  rw [needAt_of_some hr, ← Bool.not_eq_true, hfr.need_isZero]
  constructor
  · intro hne
    cases hst : r.allocation.state with
    | accruing => rfl
    | funded => exact absurd (hfr.funded hst) hne
    | active => exact absurd (hfr.active hst) hne
    | released => exact absurd hst (isLive_iff.mp hlive)
  · exact hfr.accruing

/-- A queue that lost members is the old one without them. -/
theorem nodeQueue_eq_filter {keep : Nat × AllocationId → Bool}
    (h : ∀ e, e ∈ s'.nodeQueue node ↔ e ∈ s.nodeQueue node ∧ keep e = true) :
    s'.nodeQueue node = (s.nodeQueue node).filter keep := by
  refine (nodeQueue_sorted s' node).eq_of_mem_iff
    ((nodeQueue_sorted s node).sublist filter_sublist) fun e => ?_
  rw [h, mem_filter]

end Coppice.State
