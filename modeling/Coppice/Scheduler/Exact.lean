/-
  Coppice.Scheduler.Exact

  The projected bounds are exact: let every guaranteed release of a node happen at
  its instant, each pledged, while nothing else touches the node; then an accruing
  allocation is funded at the time the sweep reports, and one without a bound stays
  unfunded.  `Serving` is the simulation relation.
-/

import Coppice.Scheduler.Sweep

namespace Coppice.Scheduler

open Lib Lib.Pour Coppice.Core State StateMachine OrdMap List Option

/-! ## Releases on time -/

/-- The node and its live allocations are the same in both states. -/
structure Untouched (node : NodeId) (s s' : StateMachine) : Prop where
  record : s'.nodes.get? node = s.nodes.get? node
  allocations : ∀ al r, r.allocation.node = node → r.isLive = true →
    (s'.allocations.get? al = some r ↔ s.allocations.get? al = some r)

/-- The attempt `id` ends at `at_`, and what it held is pledged. -/
def Frees (id : AttemptId) (at_ : Timestamp) (s s' : StateMachine) : Prop :=
  ∃ outcome rt v, s' =
    { ((Effects.start s).terminateAttempt id outcome rt at_ true).st with version := v }

/-- An accepted outcome report ends its attempt. -/
theorem recordAttemptOutcome_frees {s : StateMachine} {c : RecordAttemptOutcome} {x : Applied}
    (h : (s.apply (.recordAttemptOutcome c)).2 = .ok x) :
    Frees c.attempt c.observedAt s (s.apply (.recordAttemptOutcome c)).1 := by
  have hdisp : (s.recordAttemptOutcome c).2 = .ok x := h
  show Frees c.attempt c.observedAt s
    { (s.recordAttemptOutcome c).1 with version := (s.recordAttemptOutcome c).1.version + 1 }
  unfold recordAttemptOutcome at hdisp ⊢
  cases ha : s.attempts.get? c.attempt with
  | none =>
    rw [ha] at hdisp
    cases hdisp
  | some a =>
    simp only [ha] at hdisp ⊢
    split_ifs at hdisp with hterm hrevoked
    · cases hdisp
    · cases hdisp
    · rw [if_neg hterm, if_neg hrevoked]
      exact ⟨c.outcome, c.actualRuntime, _, rfl⟩

/-- The guaranteed releases of a node: each allocation with its instant. -/
def guaranteedReleases (s : StateMachine) (node : NodeId) : List (AllocationId × Timestamp) :=
  s.allocations.entries.filterMap fun e =>
    if e.2.allocation.node = node then (s.guaranteedRelease e.2).map fun at_ => (e.1, at_)
    else none

/-- Commands in whose course the releases `due` happen on `node`, in this order and each at its
    instant; no other command touches the node. -/
inductive OnTime (node : NodeId) :
    StateMachine → List (AllocationId × Timestamp) → List Command → Prop where
  | done {s} : OnTime node s [] []
  | aside {s c due cs} : Untouched node s (s.apply c).1 → OnTime node (s.apply c).1 due cs →
      OnTime node s due (c :: cs)
  | release {s c al at_ due cs r} : s.allocations.get? al = some r → c.stampedAt = at_ →
      Frees r.allocation.attempt at_ s (s.apply c).1 → OnTime node (s.apply c).1 due cs →
      OnTime node s ((al, at_) :: due) (c :: cs)

def fullyFunded (s : StateMachine) (al : AllocationId) : Bool :=
  match s.allocations.get? al with
  | none => false
  | some r => r.allocation.funded = r.allocation.requested

/-- The stamp of the first command after which the allocation is fully funded. -/
def fundedAt (al : AllocationId) : StateMachine → List Command → Option Timestamp
  | _, [] => none
  | s, c :: cs =>
    if fullyFunded (s.apply c).1 al then some c.stampedAt else fundedAt al (s.apply c).1 cs

/-! ## The simulation -/

/-- After releases that freed `F`, the queue that `node` had in `s` is filled with `F`. -/
structure Serving (s : StateMachine) (node : NodeId) (F : Dim → Nat) (t : StateMachine) : Prop where
  consistent : Consistent t
  room : ∀ d, t.heldOn node d ≤ t.capacityOf node d
  live : ∀ e ∈ s.nodeQueue node, ∃ r, t.allocations.get? e.2 = some r ∧
    r.allocation.node = node ∧ r.isLive = true
  queue : t.nodeQueue node = (s.nodeQueue node).filter fun e => !(t.needAt e.2).isZero
  needs : ∀ d, t.needsOf d (s.nodeQueue node) = fill (s.needsOf d (s.nodeQueue node)) (F d)

theorem Serving.start (h : Consistent s) {node : NodeId}
    (hroom : ∀ d, s.heldOn node d ≤ s.capacityOf node d) : Serving s node 0 s := by
  have hlive : ∀ e ∈ s.nodeQueue node, ∃ r, s.allocations.get? e.2 = some r ∧
      r.allocation.state = .accruing ∧ r.allocation.node = node ∧ r.isLive = true := by
    intro e he
    obtain ⟨r, hr, hacc, hn, -⟩ := h.linked.mem_queue.mp he
    exact ⟨r, hr, hacc, hn, by simp [AllocationRecord.isLive, hacc]⟩
  refine ⟨h, hroom, ?_, ?_, fun d => (fill_zero _).symm⟩
  · intro e he
    obtain ⟨r, hr, -, hn, hl⟩ := hlive e he
    exact ⟨r, hr, hn, hl⟩
  · refine (filter_eq_self.mpr fun e he => ?_).symm
    obtain ⟨r, hr, hacc, -, hl⟩ := hlive e he
    rw [(h.linked.need_isZero hr hl).mpr hacc]
    rfl

/-- A command that does not touch the node leaves its queue as it is. -/
theorem Serving.aside {F : Dim → Nat} (h : Serving s node F t) (c : Command)
    (hu : Untouched node t (t.apply c).1) : Serving s node F (t.apply c).1 := by
  obtain ⟨hC, hb⟩ := apply_consistent h.consistent c
  have hget : ∀ e ∈ s.nodeQueue node,
      (t.apply c).1.allocations.get? e.2 = t.allocations.get? e.2 := by
    intro e he
    obtain ⟨r, hr, hn, hl⟩ := h.live e he
    rw [hr, hu.allocations e.2 r hn hl, hr]
  refine ⟨hC, fun d => ?_, fun e he => ?_, ?_, fun d => ?_⟩
  · have hcap : (t.apply c).1.capacityOf node d = t.capacityOf node d := by
      rw [capacityOf, capacityOf, hu.record]
    have hheld := hb node d
    have := h.room d
    omega
  · rw [hget e he]
    exact h.live e he
  · have hqueue : (t.apply c).1.nodeQueue node = t.nodeQueue node := by
      refine (nodeQueue_sorted _ _).eq_of_mem_iff (nodeQueue_sorted _ _) fun e => ?_
      rw [hC.linked.mem_queue, h.consistent.linked.mem_queue]
      refine exists_congr fun r => ?_
      constructor
      · rintro ⟨hr, hacc, hn, hseq⟩
        exact ⟨(hu.allocations _ _ hn (by simp [AllocationRecord.isLive, hacc])).mp hr, hacc, hn,
          hseq⟩
      · rintro ⟨hr, hacc, hn, hseq⟩
        exact ⟨(hu.allocations _ _ hn (by simp [AllocationRecord.isLive, hacc])).mpr hr, hacc, hn,
          hseq⟩
    rw [hqueue, h.queue]
    refine filter_congr fun e he => ?_
    rw [needAt_congr (hget e he)]
  · rw [needsOf_congr hget, h.needs]

/-- A release hands what it frees to the queue. -/
theorem Serving.release {F : Dim → Nat} {c : Command} {al : AllocationId} {r : AllocationRecord}
    {at_ : Timestamp} (h : Serving s node F t) (hr : t.allocations.get? al = some r)
    (hactive : r.allocation.state = .active) (hn : r.allocation.node = node)
    (hal : al ∉ (s.nodeQueue node).map Prod.snd)
    (hf : Frees r.allocation.attempt at_ t (t.apply c).1) :
    Serving s node (F + r.allocation.funded.get) (t.apply c).1 ∧
      ∀ al' q, al' ≠ al → t.allocations.get? al' = some q → q.allocation.state ≠ .accruing →
        (t.apply c).1.allocations.get? al' = some q := by
  obtain ⟨hC, hb⟩ := apply_consistent h.consistent c
  obtain ⟨outcome, rt, v, hst⟩ := hf
  have hsound : Sound ∅ (Effects.start t) := h.consistent.sound ∅ []
  obtain ⟨a, ha, haal, ht⟩ := h.consistent.linked.tied hr
  have hlive : a.attempt.state.isTerminal = false := by
    rw [← Bool.not_eq_true, (ht.step (by simp)).terminal_iff, hactive]
    simp
  have hacc : r.allocation.state ≠ .accruing := by
    rw [hactive]
    simp
  obtain ⟨hfill, hrest⟩ := hsound.books.terminateAttempt_fills outcome rt at_ ha hlive
    (by rw [haal]; exact hr) hacc (by rw [hn]; exact h.room) (h.consistent.conserved _)
  obtain ⟨-, hsettles, -⟩ := hsound.terminateAttempt outcome rt at_ true ha hlive (fun _ => rfl)
  rw [hn] at hfill
  -- the records of the original queue after the release
  have hafter al' q (hne : al' ≠ al) (hq : t.allocations.get? al' = some q) : ∃ q', (t.apply
      c).1.allocations.get? al' = some q' ∧ q.Served q' := by
    rw [hst]
    exact hrest al' q (haal ▸ hne) hq
  have hne : ∀ e ∈ s.nodeQueue node, e.2 ≠ al := fun e he hc => hal (hc ▸ mem_map_of_mem he)
  have hnew : NoNewAccrual t (t.apply c).1 := by
    rw [hst]
    exact hsettles.advances.noNewAccrual
  have hlive' : ∀ e ∈ s.nodeQueue node, ∃ q, (t.apply c).1.allocations.get? e.2 = some q ∧
      q.allocation.node = node ∧ q.isLive = true := by
    intro e he
    obtain ⟨q, hq, hqn, hql⟩ := h.live e he
    obtain ⟨q', hq', hsame, hcase⟩ := hafter e.2 q (hne e he) hq
    refine ⟨q', hq', hsame.node.trans hqn, ?_⟩
    rcases hcase with rfl | ⟨-, hst' | hst'⟩
    · exact hql
    · simp [AllocationRecord.isLive, hst']
    · simp [AllocationRecord.isLive, hst']
  refine ⟨⟨hC, fun d => ?_, hlive', ?_, fun d => ?_⟩, ?_⟩
  · have hcap : (t.apply c).1.capacityOf node d = t.capacityOf node d := by
      refine capacityOf_congr ?_ node d
      rw [hst]
      exact hsettles.advances.nodes
    have hheld := hb node d
    have := h.room d
    omega
  · refine nodeQueue_eq_filter fun e => ?_
    rw [hC.linked.mem_queue]
    constructor
    · rintro ⟨q', hq', hacc', hn', hseq'⟩
      obtain ⟨q, hq, hqacc, hsame⟩ := hnew e.2 q' hq' hacc'
      have hmem : e ∈ t.nodeQueue node := h.consistent.linked.mem_queue.mpr
        ⟨q, hq, hqacc, hsame.node ▸ hn', hsame.seq ▸ hseq'⟩
      rw [h.queue] at hmem
      refine ⟨(mem_filter.mp hmem).1, ?_⟩
      rw [(hC.linked.need_isZero hq' (by simp [AllocationRecord.isLive, hacc'])).mpr hacc']
      rfl
    · rintro ⟨he, hneed⟩
      obtain ⟨q, hq, hqn, hql⟩ := h.live e he
      obtain ⟨q', hq', hsame, hcase⟩ := hafter e.2 q (hne e he) hq
      obtain ⟨q'', hq'', -, hql'⟩ := hlive' e he
      rw [hq'] at hq''
      cases hq''
      have hacc' := (hC.linked.need_isZero hq' hql').mp (by simpa using hneed)
      -- what still lacks something lacked it before, so it was queued
      have hqacc : q.allocation.state = .accruing := by
        rcases hcase with rfl | ⟨hqacc, -⟩
        · exact hacc'
        · exact hqacc
      have hmem : e ∈ t.nodeQueue node := by
        rw [h.queue]
        refine mem_filter.mpr ⟨he, ?_⟩
        rw [(h.consistent.linked.need_isZero hq hql).mpr hqacc]
        rfl
      obtain ⟨q1, hq1, -, -, hseq⟩ := h.consistent.linked.mem_queue.mp hmem
      rw [hq] at hq1
      cases hq1
      exact ⟨q', hq', hacc', hsame.node.trans hqn, hsame.seq.trans hseq⟩
  · have hkeep : fill (t.needsOf d (t.nodeQueue node)) (r.allocation.funded.get d) =
        (t.apply c).1.needsOf d (t.nodeQueue node) := by
      rw [hst]
      exact (hfill d).symm
    rw [h.queue] at hkeep
    rw [Pi.add_apply, ← fill_fill, ← h.needs d]
    refine (fill_filter hkeep fun e he hz => ?_).symm
    -- a member that lacked nothing is unchanged
    obtain ⟨q, hq, -, hql⟩ := h.live e he
    have hzero : (t.needAt e.2).isZero = true := by simpa using hz
    have hnacc : q.allocation.state ≠ .accruing := by
      intro hc
      have := (h.consistent.linked.need_isZero hq hql).mpr hc
      rw [hzero] at this
      cases this
    obtain ⟨q', hq', -, hcase⟩ := hafter e.2 q (hne e he) hq
    rcases hcase with rfl | ⟨hc, -⟩
    · refine ⟨Resources.isZero_iff.mp hzero d, ?_⟩
      rw [needAt_congr (hq'.trans hq.symm)]
      exact Resources.isZero_iff.mp hzero d
    · exact absurd hc hnacc
  · intro al' q hne' hq hnacc
    obtain ⟨q', hq', -, hcase⟩ := hafter al' q hne' hq
    rcases hcase with rfl | ⟨hc, -⟩
    · exact hq'
    · exact absurd hc hnacc

/-- The state's queue and the sweep agree on whether an allocation is served. -/
theorem Serving.met_iff {F : Dim → Nat} (h : Serving s node F t) {i : Nat} {e : Nat × AllocationId}
    (hi : (s.nodeQueue node)[i]? = some e) :
    Met (queuedNeeds s node) i F ↔ fullyFunded t e.2 = true := by
  obtain ⟨r, hr, -, -⟩ := h.live e (mem_of_getElem? hi)
  have hget d : (fill (needsIn d (queuedNeeds s node)) (F d))[i]? = some (r.need.get d) := by
    have hneeds : needsIn d (queuedNeeds s node) = s.needsOf d (s.nodeQueue node) := by
      simp [needsIn, queuedNeeds, needsOf, Function.comp_def]
    rw [hneeds, ← h.needs]
    simp [needsOf, hi, needAt_of_some hr]
  have hfull : fullyFunded t e.2 = true ↔ r.need.isZero = true := by
    rw [(h.consistent.linked.funding hr).need_isZero]
    simp [fullyFunded, hr]
  rw [hfull, Resources.isZero_iff]
  refine forall_congr' fun d => ?_
  rw [hget, some.injEq]

/-! ## The whole run -/

/-- What an allocation frees when it is released. -/
def freedBy (s : StateMachine) (al : AllocationId) : Dim → Nat :=
  ((s.allocations.get? al).map fun r => r.allocation.funded.get).getD 0

/-- A due release as an item of the running total. -/
def dueItem (s : StateMachine) (p : AllocationId × Timestamp) : Timestamp × (Dim → Nat) :=
  (p.2, freedBy s p.1)

/-- The allocation is running on `node`. -/
def ActiveOn (s : StateMachine) (node : NodeId) (al : AllocationId) : Prop :=
  ∃ r, s.allocations.get? al = some r ∧ r.allocation.state = .active ∧ r.allocation.node = node

/-- Along the run the allocation is funded when the running total of releases meets its need. -/
theorem fundedAt_eq_firstAt {F : Dim → Nat} {i : Nat} {e : Nat × AllocationId}
    (hrun : OnTime node t due cs) (h : Serving s node F t) (hi : (s.nodeQueue node)[i]? = some e)
    (hnot : ¬Met (queuedNeeds s node) i F)
    (hsame : ∀ p ∈ due, t.allocations.get? p.1 = s.allocations.get? p.1)
    (hactive : ∀ p ∈ due, ActiveOn s node p.1) (hs : Linked s []) (hnd : (due.map Prod.fst).Nodup) :
    fundedAt e.2 t cs = firstAt (Met (queuedNeeds s node) i) F (due.map (dueItem s)) := by
  induction hrun generalizing F with
  | done => rfl
  | @aside t c due cs hu _ ih =>
    have h' := h.aside c hu
    have hno : fullyFunded (t.apply c).1 e.2 = false := by
      rw [← Bool.not_eq_true, ← h'.met_iff hi]
      exact hnot
    simp only [fundedAt, hno, Bool.false_eq_true, if_false]
    refine ih h' hnot (fun p hp => ?_) hactive hnd
    obtain ⟨r, hr, hst, hn⟩ := hactive p hp
    have hlive : r.isLive = true := by simp [AllocationRecord.isLive, hst]
    rw [hr, hu.allocations p.1 r hn hlive, hsame p hp, hr]
  | @release t c al at_ due cs r hr hat hf _ ih =>
    obtain ⟨r', hr', hst, hn⟩ := hactive (al, at_) (by simp)
    have hrs := hsame (al, at_) (by simp)
    rw [hr, hr'] at hrs
    cases hrs
    simp only [map_cons, nodup_cons] at hnd
    have hal : al ∉ (s.nodeQueue node).map Prod.snd := by
      intro hm
      obtain ⟨e', he', rfl⟩ := mem_map.mp hm
      obtain ⟨q, hq, hacc, -⟩ := hs.mem_queue.mp he'
      rw [hr'] at hq
      cases hq
      rw [hst] at hacc
      cases hacc
    obtain ⟨h', hkept⟩ := h.release hr hst hn hal hf
    have hfreed : freedBy s al = r.allocation.funded.get := by simp [freedBy, hr']
    simp only [fundedAt, map_cons, dueItem, firstAt, hfreed, hat]
    by_cases hmet : Met (queuedNeeds s node) i (F + r.allocation.funded.get)
    · rw [if_pos hmet, if_pos ((h'.met_iff hi).mp hmet)]
    · rw [if_neg hmet, if_neg fun hc => hmet ((h'.met_iff hi).mpr hc)]
      refine ih h' hmet (fun p hp => ?_) (fun p hp => hactive p (mem_cons_of_mem _ hp)) hnd.2
      obtain ⟨q, hq, hqst, -⟩ := hactive p (mem_cons_of_mem _ hp)
      have hqt : t.allocations.get? p.1 = some q := (hsame p (mem_cons_of_mem _ hp)).trans hq
      have hpal : p.1 ≠ al := fun hc => hnd.1 (hc ▸ mem_map_of_mem hp)
      rw [hkept p.1 q hpal hqt (by rw [hqst]; simp), hq]

/-! ## The releases that are due -/

theorem guaranteedRelease_running {s : StateMachine} {r : AllocationRecord} {t : Timestamp}
    (h : s.guaranteedRelease r = some t) :
    r.allocation.state ≠ .released ∧ ∃ a, s.attempts.get? r.allocation.attempt = some a ∧
      a.attempt.state = .running := by
  unfold guaranteedRelease at h
  by_cases hrel : r.allocation.state = .released
  · rw [if_pos hrel] at h
    cases h
  · rw [if_neg hrel] at h
    cases ha : s.attempts.get? r.allocation.attempt with
    | none =>
      rw [ha] at h
      cases h
    | some a =>
      rw [ha] at h
      simp only at h
      by_cases hrun : a.attempt.state = .running
      · exact ⟨hrel, a, rfl, hrun⟩
      · rw [if_pos hrun] at h
        cases h

theorem mem_guaranteedReleases {s : StateMachine} {node : NodeId} {p : AllocationId × Timestamp} :
    p ∈ guaranteedReleases s node ↔ ∃ r, s.allocations.get? p.1 = some r ∧
      r.allocation.node = node ∧ s.guaranteedRelease r = some p.2 := by
  simp only [guaranteedReleases, mem_filterMap]
  constructor
  · rintro ⟨⟨al, r⟩, hmem, hp⟩
    split_ifs at hp with hn
    obtain ⟨t, ht, rfl⟩ := map_eq_some_iff.mp hp
    exact ⟨r, mem_entries.mp hmem, hn, ht⟩
  · rintro ⟨r, hr, hn, ht⟩
    refine ⟨(p.1, r), mem_entries.mpr hr, ?_⟩
    rw [if_pos hn, ht]
    rfl

theorem guaranteedReleases_active {s : StateMachine} (h : Linked s []) {node : NodeId}
    {p : AllocationId × Timestamp} (hp : p ∈ guaranteedReleases s node) : ActiveOn s node p.1 := by
  obtain ⟨r, hr, hn, ht⟩ := mem_guaranteedReleases.mp hp
  obtain ⟨-, a, ha, hrun⟩ := guaranteedRelease_running ht
  obtain ⟨a', ha', -, hties⟩ := h.tied hr
  rw [ha] at ha'
  cases ha'
  have hstep := hties.step (by simp)
  rw [hrun] at hstep
  exact ⟨r, hr, hstep.eq_allocationStateOf, hn⟩

section

variable (s : StateMachine) (node : NodeId)

theorem guaranteedReleases_nodup : ((guaranteedReleases s node).map Prod.fst).Nodup := by
  refine List.Nodup.sublist ?_ s.allocations.keys_nodup
  unfold guaranteedReleases OrdMap.keys
  generalize s.allocations.entries = l
  induction l with
  | nil => simp
  | cons e rest ih =>
    simp only [filterMap_cons, map_cons]
    split_ifs with hn
    · cases s.guaranteedRelease e.2 with
      | none => exact ih.cons _
      | some t => exact ih.cons_cons _
    · exact ih.cons _

/-- The sweep's events are the due releases. -/
theorem releasesOn_items :
    (releasesOn s node).map ReleaseEvent.item = (guaranteedReleases s node).map (dueItem s) := by
  have hlookup : ∀ e ∈ s.allocations.entries, s.allocations.get? e.1 = some e.2 :=
    fun e he => mem_entries.mp he
  unfold releasesOn guaranteedReleases values
  revert hlookup
  generalize s.allocations.entries = l
  intro hlookup
  induction l with
  | nil => rfl
  | cons e rest ih =>
    have ih := ih fun e' he' => hlookup e' (mem_cons_of_mem e he')
    have he := hlookup e (by simp)
    by_cases hn : e.2.allocation.node = node
    · cases ht : s.guaranteedRelease e.2 with
      | none => simpa [hn, releaseEvent, ht] using ih
      | some t => simpa [hn, releaseEvent, ht, ReleaseEvent.item, dueItem, freedBy, he] using ih
    · simpa [hn] using ih

/-- Guaranteed releases free no more than the node holds. -/
theorem releasedIn_le_heldOn (d : Dim) : releasedIn d (releasesOn s node) ≤ s.heldOn node d := by
  unfold releasedIn releasesOn heldOn sumBy values
  generalize s.allocations.entries = l
  induction l with
  | nil => simp
  | cons e rest ih =>
    by_cases hn : e.2.allocation.node = node
    · cases ht : s.guaranteedRelease e.2 with
      | none =>
        simp only [map_cons, filter_cons, hn, decide_true, if_true,
          filterMap_cons, releaseEvent, ht, map_none, sum_cons] at ih ⊢
        omega
      | some t =>
        have hlive : e.2.isLive = true := by
          simpa [AllocationRecord.isLive] using (guaranteedRelease_running ht).1
        have hhold : holdOf node d e.2 = e.2.allocation.funded.get d := by
          simp [holdOf, hn, hlive]
        simp only [map_cons, filter_cons, hn, decide_true, if_true,
          filterMap_cons, releaseEvent, ht, map_some, sum_cons, hhold] at ih ⊢
        omega
    · simp only [map_cons, filter_cons, hn, decide_false, Bool.false_eq_true, if_false,
        sum_cons] at ih ⊢
      omega

end

/-! ## Exactness -/

/-- If every guaranteed release of a node happens at its instant and nothing else touches the
    node, an accruing allocation is fully funded when its bound says, and never without one. -/
theorem projectedStarts_exact {s : StateMachine} {node : NodeId} {al : AllocationId}
    {r : AllocationRecord} {due : List (AllocationId × Timestamp)} {cs : List Command}
    (hs : Reachable s) (hroom : ∀ d, s.heldOn node d ≤ s.capacityOf node d)
    (hr : s.allocations.get? al = some r) (hacc : r.allocation.state = .accruing)
    (hn : r.allocation.node = node) (hdue : due.Perm (guaranteedReleases s node))
    (hsorted : due.Pairwise fun a b => a.2 ≤ b.2) (hrun : OnTime node s due cs) :
    (projectedStarts s).get? al = some (fundedAt al s cs) := by
  have hC := hs.consistent
  have hmem : (r.seq, al) ∈ s.nodeQueue node := hC.linked.mem_queue.mpr ⟨r, hr, hacc, hn, rfl⟩
  obtain ⟨i, hi⟩ := getElem?_of_mem hmem
  have hstart : Serving s node 0 s := .start hC hroom
  have hnot : ¬Met (queuedNeeds s node) i 0 := by
    rw [hstart.met_iff hi]
    simpa [fullyFunded, hr] using (hC.linked.funding hr).accruing hacc
  -- the run
  have hmem' : ∀ p ∈ due, p ∈ guaranteedReleases s node := fun p hp => hdue.mem_iff.mp hp
  have hfunded := fundedAt_eq_firstAt hrun hstart hi hnot (fun _ _ => rfl)
    (fun p hp => guaranteedReleases_active hC.linked (hmem' p hp)) hC.linked
    ((hdue.map Prod.fst).nodup_iff.mpr (guaranteedReleases_nodup s node))
  -- the sweep
  have hfit d : releasedIn d (sortReleaseEvents (releasesOn s node)) ≤ u64Max := by
    have hperm : releasedIn d (sortReleaseEvents (releasesOn s node)) =
        releasedIn d (releasesOn s node) := ((sortReleaseEvents_perm _).map _).sum_eq
    have := releasedIn_le_heldOn s node d
    have := hC.fit node d
    omega
  have hneed : (queuedNeeds s node)[i]? = some r.need := by
    simp [queuedNeeds, hi, needAt_of_some hr]
  have hneed0 : r.need.isZero = false := by
    rw [← Bool.not_eq_true, (hC.linked.funding hr).need_isZero]
    exact (hC.linked.funding hr).accruing hacc
  have hsweep := sweepProjectedReady_eq_firstAt hfit hneed hneed0
  have hitems : ((sortReleaseEvents (releasesOn s node)).map ReleaseEvent.item).Perm
      (due.map (dueItem s)) := by
    refine ((sortReleaseEvents_perm _).map _).trans ?_
    rw [releasesOn_items]
    exact (hdue.map _).symm
  have hfirst := firstAt_perm hitems
    (pairwise_map.mpr (sortReleaseEvents_sorted (releasesOn s node)))
    (pairwise_map.mpr hsorted) (fun _ _ hle h => Met.mono h hle) hnot
  rw [projectedStarts_get? hC.linked hi, hsweep, hfirst, hfunded]

namespace Sample

open State.Sample

/-- A job of one minute at most. -/
def timed (id : JobId) (n : UInt64) : Command :=
  submitJob { job id (cpu n) with maxRuntime := some (Duration.ofSecs 60) }

def seconds (n : Int) : Timestamp := Timestamp.clamp (n * 1000000)

/-- Two bounded jobs run on the node, a third accrues and needs both to end. -/
def crowded : List Command :=
  [configure, register 10, timed 1 5, timed 2 3, submit 3 9, commit [] [place 1 5, place 2 3],
    send 1, send 2, start 1, .recordAttemptStarted ⟨2, seconds 10⟩, commit [] [place 3 9]]

def ends (id : AttemptId) (at_ : Timestamp) : Command :=
  .recordAttemptOutcome ⟨id, .exited 0, Duration.ofSecs 60, at_⟩

/-- Both end on time; a submission in between does not touch the node. -/
def relief : List Command := [ends 1 (seconds 60), submit 4 1, ends 2 (seconds 70)]

end Sample

open Sample

theorem crowded_onTime : OnTime 1 (run crowded) [(1, seconds 60), (2, seconds 70)]
    relief := by
  have hends (s : StateMachine) id at_ (hok : (s.apply (ends id at_)).2.isOk = true) : Frees
      id at_ s (s.apply (ends id at_)).1 := by
    cases hres : (s.apply (ends id at_)).2 with
    | error e =>
      rw [hres] at hok
      cases hok
    | ok x => exact recordAttemptOutcome_frees hres
  have hget : ∀ (s : StateMachine) al,
      (s.allocations.get? al).map (fun r => r.allocation.attempt) = some al →
      ∃ r, s.allocations.get? al = some r ∧ r.allocation.attempt = al :=
    fun s al h => map_eq_some_iff.mp h
  obtain ⟨r, hr, hatt⟩ := hget (run crowded) 1 (by decide +kernel)
  refine .release hr rfl (hatt ▸ hends _ 1 _ (by decide +kernel)) (.aside ⟨?_, ?_⟩ ?_)
  · decide +kernel
  · intro al q _ _
    have hsame : (((run crowded).apply
        (ends 1 (seconds 60))).1.apply (submit 4 1)).1.allocations =
      ((run crowded).apply
        (ends 1 (seconds 60))).1.allocations := by decide +kernel
    rw [hsame]
  · obtain ⟨q, hq, hatt'⟩ := hget (((run crowded).apply
      (ends 1 (seconds 60))).1.apply (submit 4 1)).1 2
      (by decide +kernel)
    exact .release hq rfl (hatt' ▸ hends _ 2 _ (by decide +kernel)) .done

/-- The third job is funded when the second release comes. -/
theorem projectedStarts_exact_crowded :
    (projectedStarts (run crowded)).get? 3 = some (some (seconds 70)) ∧
    (projectedStarts (run crowded)).get? 3 = some (fundedAt 3 (run crowded) relief) := by
  have hrec : ((run crowded).allocations.get? 3).map (fun r =>
      (r.allocation.state, r.allocation.node)) = some (.accruing, 1) := by decide +kernel
  obtain ⟨r, hr, hst⟩ := map_eq_some_iff.mp hrec
  simp only [Prod.mk.injEq] at hst
  refine ⟨by decide +kernel, projectedStarts_exact (reachable_run crowded) ?_ hr hst.1
    hst.2 ?_ ?_ crowded_onTime⟩
  · intro d
    cases d <;> decide +kernel
  · have hdue : guaranteedReleases (run crowded) 1 =
        [(1, seconds 60), (2, seconds 70)] := by decide +kernel
    rw [hdue]
  · decide +kernel

end Coppice.Scheduler
