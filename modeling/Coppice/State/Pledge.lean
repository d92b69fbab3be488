/-
  Coppice.State.Pledge

  The pledge pass: freed capacity flows to the accrual queue of one node in commit
  order, and fully funded attempts become ready.  What stays free is wanted by no
  accruing allocation.
-/

import Coppice.State.Capacity

namespace Coppice.State

open HoldsBounded

open Lib Coppice.Core StateMachine OrdMap Effects List AllocationRecord Resources

namespace Effects

section

variable (fx : Effects)

@[simp] theorem emit_st (e : Event) : (fx.emit e).st = fx.st := rfl

@[simp] theorem memoAdd_st (node : NodeId) (amount : Resources) :
    (fx.memoAdd node amount).st = fx.st := rfl

@[simp] theorem memoSub_st (node : NodeId) (amount : Resources) :
    (fx.memoSub node amount).st = fx.st := rfl

@[simp] theorem modifyAllocation_used (al : AllocationId)
    (f : AllocationRecord → AllocationRecord) :
    (fx.modifyAllocation al f).used = fx.used := rfl

@[simp] theorem modifyAttempt_used (id : AttemptId) (f : AttemptRecord → AttemptRecord) :
    (fx.modifyAttempt id f).used = fx.used := rfl

@[simp] theorem modifyJob_used (job : JobId) (f : JobRecord → JobRecord) :
    (fx.modifyJob job f).used = fx.used := rfl

end

end Effects

/-! ## What a pledge may change -/

/-- The record stands, or it accrued and pledges were made to it. -/
def AllocationRecord.Served (q q' : AllocationRecord) : Prop :=
  Linked.SameAllocation q q' ∧ (q' = q ∨ q.allocation.state = .accruing ∧
    (q'.allocation.state = .accruing ∨ q'.allocation.state = .funded))

/-- The attempt left the accrual queue: it is ready and otherwise unchanged. -/
def AttemptRecord.readied (a : AttemptRecord) : AttemptRecord :=
  { a with attempt := { a.attempt with state := .ready } }

/-- Everything but the funding of accruing allocations, the readiness of their
    attempts and the queue is left alone. -/
structure Pledged (s s' : StateMachine) : Prop where
  rest : s' = { s with attempts := s'.attempts, allocations := s'.allocations,
                       accrualQueue := s'.accrualQueue }
  attempts : ∀ id, s'.attempts.get? id = s.attempts.get? id ∨
    ∃ a, s.attempts.get? id = some a ∧ a.attempt.state = .accruing ∧
      s'.attempts.get? id = some a.readied
  allocations : ∀ al, s'.allocations.get? al = s.allocations.get? al ∨
    ∃ r r', s.allocations.get? al = some r ∧ s'.allocations.get? al = some r' ∧
      r.allocation.state = .accruing ∧ Linked.SameAllocation r r' ∧
      (r'.allocation.state = .accruing ∨ r'.allocation.state = .funded)

namespace Pledged

variable {s s' s'' : StateMachine}

theorem refl (s : StateMachine) : Pledged s s := ⟨rfl, fun _ => .inl rfl, fun _ => .inl rfl⟩

theorem nodes (h : Pledged s s') : s'.nodes = s.nodes := by rw [h.rest]

theorem jobs (h : Pledged s s') : s'.jobs = s.jobs := by rw [h.rest]

theorem nextAllocationSeq (h : Pledged s s') : s'.nextAllocationSeq = s.nextAllocationSeq := by
  rw [h.rest]

theorem trans (h1 : Pledged s s') (h2 : Pledged s' s'') : Pledged s s'' := by
  refine ⟨?_, ?_, ?_⟩
  · rw [h2.rest, h1.rest]
  · intro id
    rcases h2.attempts id with e2 | ⟨a, ha, hacc, ha'⟩
    · rw [e2]
      exact h1.attempts id
    · rcases h1.attempts id with e1 | ⟨b, hb, -, hb'⟩
      · exact .inr ⟨a, e1 ▸ ha, hacc, ha'⟩
      · -- an attempt readied by the first pass is not accruing in the second
        rw [hb'] at ha
        cases ha
        simp [AttemptRecord.readied] at hacc
  · intro al
    rcases h2.allocations al with e2 | ⟨r, r', hr, hr', hacc, hsame, hst⟩
    · rw [e2]
      exact h1.allocations al
    · rcases h1.allocations al with e1 | ⟨q, q', hq, hq', hqacc, hqsame, -⟩
      · exact .inr ⟨r, r', e1 ▸ hr, hr', hacc, hsame, hst⟩
      · rw [hq'] at hr
        cases hr
        exact .inr ⟨q, r', hq, hr', hqacc, hqsame.trans hsame, hst⟩

/-- An attempt's identity and liveness survive a pledge pass. -/
theorem attempts_rel (h : Pledged s s') :
    OrdMap.Rel (fun a a' => Linked.SameAttempt a a' ∧
      a'.attempt.state.isTerminal = a.attempt.state.isTerminal) s.attempts s'.attempts := by
  intro id
  rcases h.attempts id with e | ⟨a, ha, hacc, ha'⟩
  · rw [e]
    exact OrdMap.Rel.refl (fun a => ⟨Linked.SameAttempt.refl a, rfl⟩) s.attempts id
  · exact .inr ⟨a, a.readied, ha, ha', ⟨rfl, rfl, rfl, rfl, rfl⟩, by rw [hacc]; rfl⟩

end Pledged

variable {s : StateMachine} {pledge funded : Resources} {seq : Nat} {a : AttemptRecord}
  {al : AllocationId}

/-- Jobs are linked as before when only readiness changed. -/
theorem JobLinked.pledged (h : JobLinked s) (hp : Pledged s s') : JobLinked s' := by
  refine h.annotate (OrdMap.Rel.of_eq (fun _ => ⟨fun _ => .rfl, rfl⟩) hp.jobs) ?_
  exact hp.attempts_rel.mono fun ⟨hsame, hterm⟩ => ⟨hsame.job, hterm⟩

/-! ## One queued allocation -/

/-- Inside a pledge loop on `node`: the books are exact and `free` is what is
    left of the node. -/
structure Pledging (node : NodeId) (newly : List AllocationId) (fx : Effects) (free : Resources) :
    Prop where
  linked : Linked fx.st newly
  fit : HoldsFit fx.st
  memo : MemoExact fx
  free_eq : ∀ d, free.get d = fx.st.capacityOf node d - fx.st.heldOn node d

/-- The allocation with a larger funded amount, in state `st`. -/
def AllocationRecord.pledged (r : AllocationRecord) (funded : Resources) (st : AllocationState) :
    AllocationRecord :=
  { r with allocation := { r.allocation with funded := funded, state := st } }

/-- What giving `pledge` to an accruing allocation does to the books. -/
structure GivesTo (node : NodeId) (id : AllocationId) (fx fx' : Effects) : Prop where
  pledged : Pledged fx.st fx'.st
  bounded : HoldsBounded fx.st fx'.st
  attempts : fx'.st.attempts = fx.st.attempts
  others : ∀ al, al ≠ id → fx'.st.allocations.get? al = fx.st.allocations.get? al
  grows : ∀ d, fx.st.heldOn node d ≤ fx'.st.heldOn node d
  elsewhere : ∀ n d, n ≠ node → fx'.st.heldOn n d = fx.st.heldOn n d

theorem GivesTo.refl (node : NodeId) (id : AllocationId) (fx : Effects) : GivesTo node id fx fx :=
  ⟨Pledged.refl _, HoldsBounded.refl _, rfl, fun _ _ => rfl, fun _ => le_refl _, fun _ _ _ => rfl⟩

variable {node : NodeId} {newly : List AllocationId} {fx : Effects} {free : Resources}
  {id : AllocationId} {r : AllocationRecord}

/-- The common part of a partial and of a full pledge. -/
theorem Pledging.give {newly' : List AllocationId} {st : AllocationState}
    (h : Pledging node newly fx free) (fx' : Effects) (hr : fx.st.allocations.get? id = some r)
    (hacc : r.allocation.state = .accruing) (hnode : r.allocation.node = node)
    (hpledge : ∀ d, pledge.get d = min (free.get d)
      (r.allocation.requested.get d - r.allocation.funded.get d))
    (hfunded : funded = r.allocation.funded.saturatingAdd pledge)
    (hst : st = if funded = r.allocation.requested then .funded else .accruing)
    (hnewly : newly' = if funded = r.allocation.requested then id :: newly else newly)
    (hfx : fx'.st = { fx.st with
      allocations := fx.st.allocations.insert id (r.pledged funded st)
      accrualQueue := if funded = r.allocation.requested then
          fx.st.accrualQueue.erase (toLex (node, r.seq)) else fx.st.accrualQueue })
    (hused : fx'.used = fx.used.map fun memo => memo.add node pledge) :
    Pledging node newly' fx' (free.saturatingSub pledge) ∧ GivesTo node id fx fx' := by
  have hatt : fx'.st.attempts = fx.st.attempts := by rw [hfx]
  have hq : fx'.st.accrualQueue = if funded = r.allocation.requested then
      fx.st.accrualQueue.erase (toLex (node, r.seq)) else fx.st.accrualQueue := by rw [hfx]
  have hfr := h.linked.funding hr
  have hget d : funded.get d = r.allocation.funded.get d + pledge.get d := by
    have hle := hfr.le d
    have hreq := r.allocation.requested.get_le_u64Max d
    have hp := hpledge d
    rw [hfunded, get_saturatingAdd]
    omega
  have hall j : fx'.st.allocations.get? j = if id = j then some (r.pledged funded st) else
      fx.st.allocations.get? j := by
    rw [hfx, get?_insert]
  have hlive : r.isLive = true := by simp [isLive, hacc]
  have hstlive : st ≠ .released := by
    rw [hst]
    split_ifs <;> simp
  have hlive' : (r.pledged funded st).isLive = true := by
    simp [isLive, pledged, hstlive]
  -- the hold of the node grows by exactly the pledge
  have hheld d : fx'.st.heldOn node d = fx.st.heldOn node d + pledge.get d := by
    have hup := heldOn_update hr hall node d
    have h1 : holdOf node d r = r.allocation.funded.get d := by
      simp [holdOf, hnode, hlive]
    have h2 : holdOf node d (r.pledged funded st) = funded.get d := by
      simp [holdOf, hlive']
      simp [pledged, hnode]
    rw [h1, h2, hget d] at hup
    omega
  have hother n d (hn : n ≠ node) : fx'.st.heldOn n d = fx.st.heldOn n d := by
    have hup := heldOn_update hr hall n d
    have h1 : holdOf n d r = 0 := by simp [holdOf, hnode, Ne.symm hn]
    have h2 : holdOf n d (r.pledged funded st) = 0 := by
      simp [holdOf, pledged, hnode, Ne.symm hn]
    omega
  have hcap : ∀ n d, fx'.st.capacityOf n d = fx.st.capacityOf n d := capacityOf_congr (by rw [hfx])
  have hbounded : HoldsBounded fx.st fx'.st := by
    intro n d
    rw [hcap]
    by_cases hn : n = node
    · subst hn
      have hp := hpledge d
      rw [h.free_eq] at hp
      rw [hheld]
      omega
    · rw [hother n d hn]
      exact Nat.le_max_left _ _
  have hfit : HoldsFit fx'.st := hbounded.holdsFit h.fit
  obtain ⟨a, ha, hal, ht⟩ := h.linked.tied hr
  have hnot : id ∉ newly := by
    intro hm
    have := (ht.funding (hal ▸ hm)).2
    rw [hacc] at this
    cases this
  have hastate : a.attempt.state = .accruing := (ht.step (hal ▸ hnot)).accruing_iff.mpr hacc
  refine ⟨⟨?_, hfit, ?_, ?_⟩, ⟨⟨?_, ?_, ?_⟩, hbounded, hatt, ?_, ?_, hother⟩⟩
  · -- linkage: the attempt stays accruing, the allocation is updated
    refine h.linked.update (r := r) a (r.pledged funded st) ha (by rw [hal, hr])
      (Linked.SameAttempt.refl a) ⟨rfl, rfl, rfl, rfl, rfl, rfl⟩ ?_ (by rw [hal]; exact hall) ?_
      (by rw [hfx]) (by rw [hfx]) ?_ ?_ ?_ (fun ht => ht) ?_ (fun _ => hacc) (fun _ => hlive)
    · intro j
      rw [hatt]
      split_ifs with hj
      · rw [← hj, ha]
      · rfl
    · intro k
      rw [hq]
      simp only [pledged, hst]
      by_cases hfull : funded = r.allocation.requested
      · simp [hfull, hnode]
      · simp [hfull]
    · rw [hal, hnewly, hst]
      intro hn
      by_cases hfull : funded = r.allocation.requested
      · simp [hfull] at hn
      · simp [hfull, pledged, hastate, InStep]
    · rw [hal, hnewly, hst]
      intro hm
      by_cases hfull : funded = r.allocation.requested
      · simp [hfull, pledged, hastate]
      · exact absurd (by simpa [hfull] using hm) hnot
    · intro al hne
      rw [hal] at hne
      rw [hnewly]
      split_ifs <;> simp [hne]
    · refine ⟨fun d => ?_, ?_, ?_, ?_⟩
      · have hp := hpledge d
        have hle := hfr.le d
        have hg := hget d
        simp only [pledged]
        omega
      all_goals
        simp only [pledged, hst]
        intro hs
        split_ifs at hs with hfull
      all_goals exact hfull
  · intro memo hmemo n d
    rw [hused] at hmemo
    obtain ⟨memo0, hm0, rfl⟩ := Option.map_eq_some_iff.mp hmemo
    rw [memo_get_add]
    split_ifs with hn
    · subst hn
      rw [h.memo memo0 hm0, ← hheld]
      exact Nat.min_eq_left (hfit _ _)
    · rw [h.memo memo0 hm0, hother n d (Ne.symm hn)]
  · intro d
    rw [get_saturatingSub, hcap, hheld, h.free_eq]
    omega
  · rw [hfx]
  · exact fun j => .inl (by rw [hatt])
  · intro al
    by_cases hid : id = al
    · subst hid
      refine .inr ⟨r, r.pledged funded st, hr, by rw [hall, if_pos rfl], hacc,
        ⟨rfl, rfl, rfl, rfl, rfl, rfl⟩, ?_⟩
      simp only [pledged, hst]
      split_ifs <;> simp
    · left
      rw [hall, if_neg hid]
  · intro al hne
    rw [hall, if_neg (Ne.symm hne)]
  · intro d
    rw [hheld]
    omega

/-- A pledge that gives something, whether or not it gives all that was wanted. -/
theorem pledgeOne_eq (node : NodeId) (seq : Nat) (hr : fx.st.allocations.get? id = some r)
    (hp : free.componentMin (r.allocation.requested.saturatingSub r.allocation.funded) = pledge)
    (hz : ¬pledge.isZero = true) (hf : r.allocation.funded.saturatingAdd pledge = funded) :
    ∃ fx', pledgeOne node seq id fx free =
        (fx', free.saturatingSub pledge, decide (funded = r.allocation.requested)) ∧
      fx'.st = { fx.st with
        allocations := fx.st.allocations.insert id (r.pledged funded
          (if funded = r.allocation.requested then .funded else r.allocation.state))
        accrualQueue := if funded = r.allocation.requested then
            fx.st.accrualQueue.erase (toLex (node, seq)) else fx.st.accrualQueue } ∧
      fx'.used = fx.used.map fun memo => memo.add node pledge := by
  unfold pledgeOne
  simp only [hr, hp, if_neg hz, hf]
  split_ifs with hfull
  · refine ⟨_, by rw [decide_eq_true hfull], ?_, rfl⟩
    simp only [memoAdd_st, emit_st, dequeue, modifyAllocation, modify_of_some _ hr]
    rfl
  · refine ⟨_, by rw [decide_eq_false hfull], ?_, rfl⟩
    simp [modifyAllocation, modify_of_some _ hr, pledged]

/-- One step of the loop: exact books, and the item no longer wants what is left. -/
theorem pledgeOne_spec (h : Pledging node newly fx free) (hr : fx.st.allocations.get? id = some r)
    (hacc : r.allocation.state = .accruing) (hnode : r.allocation.node = node)
    (hseq : r.seq = seq) :
    ∃ fx' free' full, pledgeOne node seq id fx free = (fx', free', full) ∧
      Pledging node (if full then id :: newly else newly) fx' free' ∧ GivesTo node id fx fx' ∧
      (full = true → ∃ r', fx'.st.allocations.get? id = some r' ∧ r'.allocation.state = .funded) ∧
      (∀ r', fx'.st.allocations.get? id = some r' → r'.allocation.state = .accruing →
        ∀ d, free'.get d = 0 ∨ r'.allocation.requested.get d ≤ r'.allocation.funded.get d) := by
  subst hseq
  have hpledge d : (free.componentMin (r.allocation.requested.saturatingSub
      r.allocation.funded)).get d = min (free.get d) (r.allocation.requested.get d -
      r.allocation.funded.get d) := by
    rw [get_componentMin, get_saturatingSub]
  generalize hp : free.componentMin (r.allocation.requested.saturatingSub
    r.allocation.funded) = pledge at hpledge
  by_cases hz : pledge.isZero = true
  · -- nothing to give: in each dimension nothing is free or nothing is needed
    refine ⟨fx, free, false, by simp only [pledgeOne, hr, hp, if_pos hz], h, GivesTo.refl _ _ _,
      by simp, ?_⟩
    intro r' hr' _ d
    rw [hr] at hr'
    cases hr'
    have := hpledge d
    rw [isZero_iff.mp hz d] at this
    omega
  · obtain ⟨fx', heq, hst, hused⟩ := pledgeOne_eq node r.seq hr hp hz rfl
    obtain ⟨hP, hG⟩ := h.give fx' hr hacc hnode hpledge rfl (by rw [hacc]) rfl hst hused
    have hget := congrArg (fun s => s.allocations.get? id) hst
    simp only [get?_insert_self] at hget
    refine ⟨fx', _, _, heq, by simpa using hP, hG, fun hfull => ⟨_, hget, ?_⟩, ?_⟩
    · exact if_pos (of_decide_eq_true hfull)
    · intro r' hr' hacc' d
      rw [hget] at hr'
      cases hr'
      have hreq := r.allocation.requested.get_le_u64Max d
      have hp' := hpledge d
      simp only [pledged, get_saturatingSub, get_saturatingAdd]
      omega

/-! ## The loop -/

/-- The list names distinct accruing allocations of `node` with their seqs. -/
structure Queued (s : StateMachine) (node : NodeId) (l : List (Nat × AllocationId)) : Prop where
  accruing : ∀ e ∈ l, ∃ r, s.allocations.get? e.2 = some r ∧ r.allocation.state = .accruing ∧
    r.allocation.node = node ∧ r.seq = e.1
  nodup : (l.map Prod.snd).Nodup

theorem mem_nodeQueue {e : Nat × AllocationId} :
    e ∈ s.nodeQueue node ↔ s.accrualQueue.get? (toLex (node, e.1)) = some e.2 := by
  simp only [nodeQueue, mem_map, mem_filter, decide_eq_true_eq]
  constructor
  · rintro ⟨⟨k, al⟩, ⟨hmem, hk⟩, rfl⟩
    have := mem_entries.mp hmem
    rw [← this, ← hk]
    rfl
  · intro h
    exact ⟨(toLex (node, e.1), e.2), ⟨mem_entries.mpr h, rfl⟩, rfl⟩

/-- The queue of a node is in commit order. -/
theorem nodeQueue_sorted (s : StateMachine) (node : NodeId) :
    (s.nodeQueue node).Pairwise fun a b => a.1 < b.1 := by
  unfold nodeQueue
  rw [pairwise_map]
  refine (s.accrualQueue.sorted.filter _).imp_of_mem ?_
  intro a b ha hb hlt
  have hna := (mem_filter.mp ha).2
  have hnb := (mem_filter.mp hb).2
  simp only [decide_eq_true_eq] at hna hnb
  rcases Prod.Lex.lt_iff.mp hlt with h | ⟨-, h⟩
  · rw [hna, hnb] at h
    exact absurd h (lt_irrefl _)
  · exact h

theorem Linked.queued (h : Linked s newly) (node : NodeId) : Queued s node (s.nodeQueue node) := by
  have hacc : ∀ e ∈ s.nodeQueue node, ∃ r, s.allocations.get? e.2 = some r ∧
      r.allocation.state = .accruing ∧ r.allocation.node = node ∧ r.seq = e.1 :=
    fun e he => h.queue.mp (mem_nodeQueue.mp he)
  refine ⟨hacc, ?_⟩
  -- keys are distinct and every allocation has one seq
  refine pairwise_map.mpr ((nodeQueue_sorted s node).imp_of_mem ?_)
  intro a b ha hb hlt heq
  obtain ⟨r, hr, -, -, hseq⟩ := hacc a ha
  obtain ⟨r', hr', -, -, hseq'⟩ := hacc b hb
  rw [heq, hr'] at hr
  cases hr
  exact hlt.ne (hseq.symm.trans hseq')

/-- Whether or not the head became funded, the loop goes on from the same effects. -/
theorem pledgeLoop_cons (node : NodeId) (seq : Nat) (id : AllocationId)
    (rest : List (Nat × AllocationId)) (fx : Effects) (hz : ¬free.isZero = true) :
    (pledgeLoop node ((seq, id) :: rest) fx free).1 =
      (pledgeLoop node rest (pledgeOne node seq id fx free).1
        (pledgeOne node seq id fx free).2.1).1 := by
  rw [pledgeLoop, if_neg hz]
  split
  · rename_i heq
    rw [heq]
  · rename_i heq
    rw [heq]

/-- Serving the head leaves the rest queued. -/
theorem Queued.tail {rest : List (Nat × AllocationId)} (h : Queued fx.st node ((seq, id) :: rest))
    (hG : GivesTo node id fx fx1) : Queued fx1.st node rest := by
  have hnd := h.nodup
  simp only [map_cons, nodup_cons] at hnd
  refine ⟨fun e he => ?_, hnd.2⟩
  have hne : e.2 ≠ id := fun hc => hnd.1 (hc ▸ mem_map_of_mem he)
  rw [hG.others e.2 hne]
  exact h.accruing e (mem_cons_of_mem _ he)

/-- What a pledge loop over `l` leaves behind. -/
structure LoopDone (node : NodeId) (newly : List AllocationId) (l : List (Nat × AllocationId))
    (fx fx' : Effects) (fresh : List AllocationId) : Prop where
  linked : Linked fx'.st (fresh ++ newly)
  memo : MemoExact fx'
  pledged : Pledged fx.st fx'.st
  bounded : HoldsBounded fx.st fx'.st
  attempts : fx'.st.attempts = fx.st.attempts
  others : ∀ al, al ∉ l.map Prod.snd → fx'.st.allocations.get? al = fx.st.allocations.get? al
  grows : ∀ d, fx.st.heldOn node d ≤ fx'.st.heldOn node d
  elsewhere : ∀ n d, n ≠ node → fx'.st.heldOn n d = fx.st.heldOn n d
  fresh_mem : ∀ al ∈ fresh, al ∈ l.map Prod.snd
  fresh_nodup : fresh.Nodup
  conserved : ∀ e ∈ l, ∀ r, fx'.st.allocations.get? e.2 = some r →
    r.allocation.state = .accruing → ∀ d, fx'.st.capacityOf node d ≤ fx'.st.heldOn node d ∨
      r.allocation.requested.get d ≤ r.allocation.funded.get d

theorem pledgeLoop_spec {l : List (Nat × AllocationId)} (h : Pledging node newly fx free)
    (hl : Queued fx.st node l) :
    ∃ fx' fresh, pledgeLoop node l fx free = (fx', fresh) ∧ LoopDone node newly l fx fx' fresh := by
  induction l generalizing newly fx free with
  | nil =>
    refine ⟨fx, [], rfl, ?_⟩
    exact ⟨h.linked, h.memo, Pledged.refl _, refl _, rfl, fun _ _ => rfl,
      fun _ => le_refl _, fun _ _ _ => rfl, by simp, nodup_nil, by simp⟩
  | cons e rest ih =>
    obtain ⟨seq, id⟩ := e
    simp only [pledgeLoop]
    by_cases hz : free.isZero = true
    · -- the loop breaks: nothing is free, so every queued allocation is as it was
      refine ⟨fx, [], by rw [if_pos hz], ?_⟩
      refine ⟨h.linked, h.memo, Pledged.refl _, refl _, rfl, fun _ _ => rfl,
        fun _ => le_refl _, fun _ _ _ => rfl, by simp, nodup_nil, ?_⟩
      intro e _ r _ _ d
      have := isZero_iff.mp hz d
      rw [h.free_eq] at this
      omega
    · rw [if_neg hz]
      obtain ⟨r, hr, hacc, hnode, hseq⟩ := hl.accruing (seq, id) (by simp)
      obtain ⟨fx1, free1, full, heq, hP, hG, hfull, hdone⟩ := pledgeOne_spec h hr hacc hnode hseq
      have hnd := hl.nodup
      simp only [map_cons, nodup_cons] at hnd
      obtain ⟨fx', fresh, heq', hD⟩ := ih hP (hl.tail hG)
      have hnode1 : fx'.st.nodes = fx1.st.nodes := hD.pledged.nodes
      refine ⟨fx', if full then id :: fresh else fresh, ?_, ?_⟩
      · rw [heq]
        cases full <;> simp [heq']
      · refine ⟨hD.linked.newly_congr ?_, hD.memo, hG.pledged.trans hD.pledged,
          hG.bounded.trans hD.bounded hnode1, hD.attempts.trans hG.attempts, ?_,
          fun d => le_trans (hG.grows d) (hD.grows d),
          fun n d hn => (hD.elsewhere n d hn).trans (hG.elsewhere n d hn), ?_, ?_, ?_⟩
        · intro al
          cases full <;> simp [or_left_comm]
        · intro al hal
          simp only [map_cons, mem_cons, not_or] at hal
          rw [hD.others al hal.2, hG.others al hal.1]
        · intro al hal
          cases full with
          | true =>
            rcases mem_cons.mp hal with rfl | hal
            · simp
            · exact mem_cons_of_mem _ (hD.fresh_mem al hal)
          | false => exact mem_cons_of_mem _ (hD.fresh_mem al hal)
        · cases full with
          | true => exact nodup_cons.mpr ⟨fun hm => hnd.1 (hD.fresh_mem _ hm), hD.fresh_nodup⟩
          | false => exact hD.fresh_nodup
        · intro e he r' hr' hacc' d
          rcases mem_cons.mp he with rfl | he
          · rw [hD.others id hnd.1] at hr'
            rcases hdone r' hr' hacc' d with hf | hf
            · left
              have := hP.free_eq d
              have := hD.grows d
              rw [capacityOf_congr hnode1]
              omega
            · exact .inr hf
          · exact hD.conserved e he r' hr' hacc' d

/-! ## The ready barrier -/

/-- Groups are singletons: the live members are the attempt alone. -/
theorem Linked.members_eq (h : Linked s newly) {id : AttemptId} (ha : s.attempts.get? id = some a)
    (hlive : a.attempt.state.isTerminal = false) :
    (s.attempts.entries.filter fun e =>
      e.2.group = a.group && !e.2.attempt.state.isTerminal).map Prod.fst = [id] := by
  rw [← perm_singleton, perm_ext_iff_of_nodup _ (nodup_singleton _)]
  · intro x
    simp only [mem_map, mem_filter, Bool.and_eq_true, decide_eq_true_eq,
      Bool.not_eq_true', mem_singleton]
    constructor
    · rintro ⟨⟨j, b⟩, ⟨hmem, hgroup, hlb⟩, rfl⟩
      have hb := mem_entries.mp hmem
      rw [h.group_eq hb, h.group_eq ha] at hgroup
      exact h.one_live hb ha hlb hlive hgroup
    · rintro rfl
      exact ⟨(x, a), ⟨mem_entries.mpr ha, rfl, hlive⟩, rfl⟩
  · exact (s.attempts.keys_nodup).sublist (filter_sublist.map _)

@[simp] theorem Effects.attemptTransition_used (fx : Effects) (id : AttemptId)
    (to_ : AttemptState) :
    (fx.attemptTransition id to_).used = fx.used := by
  unfold attemptTransition
  split
  · rfl
  · split_ifs <;> rfl

theorem Effects.attemptTransition_events (fx : Effects) {id : AttemptId} {to_ : AttemptState}
    (ha : fx.st.attempts.get? id = some a) (hne : a.attempt.state ≠ to_) :
    (fx.attemptTransition id to_).events =
      fx.events ++ [.attemptStateChanged id a.attempt.job a.attempt.node to_] := by
  unfold attemptTransition
  simp only [ha, if_pos hne]
  rfl

/-- Readying the attempt of a newly funded allocation restores its step. -/
theorem Linked.readied {s' : StateMachine} {rest : List AllocationId} (h : Linked s (al :: rest))
    (hnot : al ∉ rest) (hr : s.allocations.get? al = some r)
    (ha : s.attempts.get? r.allocation.attempt = some a) (haal : a.attempt.allocation = al)
    (hast : a.attempt.state = .accruing) (hrst : r.allocation.state = .funded)
    (hs : s' = { s with attempts := s.attempts.insert r.allocation.attempt a.readied }) :
    Linked s' rest := by
  subst hs
  refine h.update (r := r) a.readied r ha (by rw [haal, hr]) ⟨rfl, rfl, rfl, rfl, rfl⟩
    (Linked.SameAllocation.refl r) (fun j => get?_insert ..) ?_ ?_ rfl rfl ?_ ?_ ?_ ?_
    (h.funding hr) (fun hc => hc) (fun hl => hl)
  · intro j
    split_ifs with hj
    · rw [← hj, haal, hr]
    · rfl
  · intro k
    rw [if_neg (by rw [hrst]; simp), get?_erase]
    split_ifs with hk
    · rw [← hk]
      exact h.queue_none hr (by rw [hrst]; simp)
    · rfl
  · intro _
    simp [AttemptRecord.readied, hrst, InStep]
  · intro hm
    exact absurd (haal ▸ hm) hnot
  · intro al' hne
    rw [haal] at hne
    simp [hne]
  · intro hterm
    rw [hast] at hterm
    cases hterm

/-- The part of `pledge_node` after the loop. -/
def Effects.readyAll (fx : Effects) (newlyFunded : List AllocationId) : Effects :=
  newlyFunded.foldl (fun fx id =>
    match fx.st.allocations.get? id with
    | none => fx
    | some r => fx.checkReadyBarrier r.allocation.attempt) fx

section

variable {rest : List AllocationId}

/-- The barrier of a newly funded allocation readies its attempt and no other. -/
theorem readyAll_cons (h : Linked fx.st (al :: rest)) (hnot : al ∉ rest)
    (hex : ∃ r, fx.st.allocations.get? al = some r) :
    ∃ id a, ∃ fx' : Effects, fx.st.attempts.get? id = some a ∧ a.attempt.allocation = al ∧
      a.attempt.state = .accruing ∧ fx.readyAll (al :: rest) = fx'.readyAll rest ∧
      Linked fx'.st rest ∧ fx'.used = fx.used ∧
      fx'.st = { fx.st with attempts := fx.st.attempts.insert id a.readied } ∧
      fx'.events = fx.events ++ [.attemptStateChanged id a.attempt.job a.attempt.node .ready] := by
  obtain ⟨r, hr⟩ := hex
  obtain ⟨a, ha, haal, ht⟩ := h.tied hr
  obtain ⟨hast, hrst⟩ := ht.funding (by simp [haal])
  have hlive : a.attempt.state.isTerminal = false := by
    rw [hast]
    rfl
  have hne : a.attempt.state ≠ .ready := by
    rw [hast]
    simp
  have hbarrier : fx.checkReadyBarrier r.allocation.attempt =
      fx.attemptTransition r.allocation.attempt .ready := by
    unfold checkReadyBarrier
    simp only [ha, h.members_eq ha hlive, all_cons, all_nil, Bool.and_true,
      Option.bind_some, haal, hr, hrst, foldl_cons, foldl_nil, hast]
    simp
  have hst : (fx.attemptTransition r.allocation.attempt .ready).st =
      { fx.st with attempts := fx.st.attempts.insert r.allocation.attempt a.readied } := by
    unfold attemptTransition
    simp only [ha, if_pos hne, emit_st, modifyAttempt, modify_of_some _ ha]
    rfl
  refine ⟨_, a, _, ha, haal, hast, ?_, h.readied hnot hr ha haal hast hrst hst,
    by simp, hst, fx.attemptTransition_events ha hne⟩
  simp [readyAll, hr, hbarrier]

theorem readyAll_spec {fresh : List AllocationId} (h : Linked fx.st fresh) (hnd : fresh.Nodup)
    (hex : ∀ al ∈ fresh, ∃ r, fx.st.allocations.get? al = some r) :
    Linked (fx.readyAll fresh).st [] ∧ (fx.readyAll fresh).used = fx.used ∧
      Pledged fx.st (fx.readyAll fresh).st ∧
      (fx.readyAll fresh).st.allocations = fx.st.allocations := by
  induction fresh generalizing fx with
  | nil => exact ⟨h, rfl, Pledged.refl _, rfl⟩
  | cons al rest ih =>
    obtain ⟨hnot, hnd'⟩ := nodup_cons.mp hnd
    obtain ⟨id, a, fx1, ha, -, hast, hstep, hL, hused, hst, -⟩ :=
      readyAll_cons h hnot (hex al (by simp))
    have hall : fx1.st.allocations = fx.st.allocations := by rw [hst]
    obtain ⟨hL', hu', hp', ha'⟩ := ih hL hnd' fun x hx => hall ▸ hex x (mem_cons_of_mem _ hx)
    rw [hstep]
    refine ⟨hL', hu'.trans hused, Pledged.trans ?_ hp', ha'.trans hall⟩
    refine ⟨by rw [hst], fun i => ?_, fun _ => .inl (by rw [hall])⟩
    rw [hst, get?_insert]
    split_ifs with hid
    · exact .inr ⟨a, hid ▸ ha, hast, rfl⟩
    · exact .inl rfl

end

/-! ## The pass -/

section

variable (node : NodeId) (hL : Linked fx.st []) (hfit : HoldsFit fx.st) (hmemo : MemoExact fx)

include hL hfit hmemo

/-- A pass does nothing when nothing is free; otherwise it is the loop over the
    node's queue and then the barrier of what was funded. -/
theorem pledgeNode_cases :
    (∀ d, fx.st.capacityOf node d ≤ fx.st.heldOn node d) ∧ fx.pledgeNode node = fx ∨
    ∃ fx' fresh, pledgeLoop node (fx.st.nodeQueue node) fx
        (fx.st.freeCapacity node fx.used) = (fx', fresh) ∧
      LoopDone node [] (fx.st.nodeQueue node) fx fx' fresh ∧
      (∀ al ∈ fresh, ∃ r, fx'.st.allocations.get? al = some r) ∧
      fx.pledgeNode node = fx'.readyAll fresh := by
  have hfree := freeCapacity_get hfit hmemo node
  unfold pledgeNode
  by_cases hz : (fx.st.freeCapacity node fx.used).isZero = true
  · left
    refine ⟨fun d => ?_, by simp only [if_pos hz]⟩
    have := isZero_iff.mp hz d
    rw [hfree d] at this
    omega
  · right
    obtain ⟨fx', fresh, heq, hD⟩ :=
      pledgeLoop_spec (l := fx.st.nodeQueue node) ⟨hL, hfit, hmemo, hfree⟩ (hL.queued node)
    refine ⟨fx', fresh, heq, hD, fun al hal => ?_, by simp only [if_neg hz, heq]; rfl⟩
    obtain ⟨e, he, rfl⟩ := mem_map.mp (hD.fresh_mem al hal)
    obtain ⟨r, hr, -⟩ := (hL.queued node).accruing e he
    rcases hD.pledged.allocations e.2 with h | ⟨_, r', _, hr', _⟩
    · exact ⟨r, h.trans hr⟩
    · exact ⟨r', hr'⟩

/-- A pledge pass on one node: linkage and books are kept, holds stay bounded,
    and afterwards the node conserves its capacity. -/
theorem pledgeNode_spec :
    Linked (fx.pledgeNode node).st [] ∧ MemoExact (fx.pledgeNode node) ∧
      Pledged fx.st (fx.pledgeNode node).st ∧ HoldsBounded fx.st (fx.pledgeNode node).st ∧
      ConservedOn (fx.pledgeNode node).st node ∧
      (∀ n, n ≠ node → ConservedOn fx.st n → ConservedOn (fx.pledgeNode node).st n) := by
  rcases pledgeNode_cases node hL hfit hmemo with ⟨hfull, heq⟩ | ⟨fx', fresh, -, hD, hex, heq⟩
  · rw [heq]
    exact ⟨hL, hmemo, Pledged.refl _, refl _, fun _ _ _ _ _ d => .inl (hfull d),
      fun n _ h => h⟩
  · rw [heq]
    obtain ⟨hL', hu', hp', ha'⟩ := readyAll_spec (append_nil fresh ▸ hD.linked) hD.fresh_nodup hex
    have hpl := hD.pledged.trans hp'
    refine ⟨hL', ?_, hpl, hD.bounded.trans (of_eq ha') hp'.nodes, ?_, ?_⟩
    · intro memo hm n d
      rw [hu'] at hm
      rw [hD.memo memo hm, heldOn_congr ha']
    · -- every accruing allocation of the node is still queued, hence was visited
      intro al r hr hacc hnode d
      rw [heldOn_congr ha', capacityOf_congr hp'.nodes]
      rw [ha'] at hr
      have hq : (r.seq, al) ∈ fx.st.nodeQueue node := by
        rw [mem_nodeQueue, hL.queue]
        rcases hD.pledged.allocations al with h | ⟨q, q', hq, hq', hqacc, hsame, -⟩
        · exact ⟨r, h ▸ hr, hacc, hnode, rfl⟩
        · rw [hr] at hq'
          cases hq'
          exact ⟨q, hq, hqacc, by rw [← hsame.node, hnode], hsame.seq.symm⟩
      exact hD.conserved _ hq r hr hacc d
    · intro n hn hcon al r hr hacc hnode d
      rw [ha'] at hr
      have hnotq : al ∉ (fx.st.nodeQueue node).map Prod.snd := by
        intro hm
        obtain ⟨e, he, rfl⟩ := mem_map.mp hm
        obtain ⟨q, hq, -, hqn, -⟩ := (hL.queued node).accruing e he
        rcases hD.pledged.allocations e.2 with h | ⟨q1, q', hq1, hq', -, hsame, -⟩
        · rw [h, hq] at hr
          cases hr
          exact hn (hnode.symm.trans hqn)
        · rw [hq] at hq1
          cases hq1
          rw [hr] at hq'
          cases hq'
          exact hn (hnode.symm.trans (hsame.node.trans hqn))
      rw [hD.others al hnotq] at hr
      rw [capacityOf_congr (s := fx.st) (by rw [hp'.nodes, hD.pledged.nodes])]
      rcases hcon al r hr hacc hnode d with h | h
      · left
        rw [heldOn_congr ha', hD.elsewhere n d hn]
        exact h
      · exact .inr h

end

end Coppice.State
