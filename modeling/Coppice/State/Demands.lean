/-
  Coppice.State.Demands

  What a batch asks of the nodes it touches: the accruals that stay, in queue order,
  then its placements, each served from the room of its node.  The room the
  revocations really leave is at most the one `check_accrual_limit` starts from, and
  less only on a node that holds more than it advertises.
-/

import Coppice.Lib.Serve
import Coppice.State.Revoke
import Mathlib.Data.Finset.Card

namespace Coppice.State

open Lib Coppice.Core StateMachine List OrdMap

/-! ## Accruing jobs -/

/-- `job` has an accruing allocation on `node`. -/
def AccruesOn (s : StateMachine) (node : NodeId) (job : JobId) : Prop :=
  ∃ al r, s.allocations.get? al = some r ∧ r.allocation.state = .accruing ∧
    r.allocation.node = node ∧ r.allocation.job = job

/-- The distinct jobs accruing anywhere. -/
def StateMachine.accruingJobs (s : StateMachine) : Finset JobId :=
  ((s.allocations.values.filter fun r => r.allocation.state = .accruing).map
    fun r => r.allocation.job).toFinset

variable {s : StateMachine} {j : JobId} {al : AllocationId} {r : AllocationRecord}
  {ids revoked : List AllocationId} {c : CommitPlacements}

theorem StateMachine.mem_accruingJobs : j ∈ s.accruingJobs ↔ ∃ node, AccruesOn s node j := by
  simp only [accruingJobs, mem_toFinset, mem_map, mem_filter, mem_values, decide_eq_true_eq]
  constructor
  · rintro ⟨r, ⟨⟨al, hr⟩, hacc⟩, rfl⟩
    exact ⟨r.allocation.node, al, r, hr, hacc, rfl, rfl⟩
  · rintro ⟨node, al, r, hr, hacc, -, rfl⟩
    exact ⟨r, ⟨⟨al, hr⟩, hacc⟩, rfl⟩

theorem NoNewAccrual.accruesOn (h : NoNewAccrual s s') (ha : AccruesOn s' node j) :
    AccruesOn s node j := by
  obtain ⟨al, r', hr', hacc, rfl, rfl⟩ := ha
  obtain ⟨r, hr, hracc, hsame⟩ := h al r' hr' hacc
  exact ⟨al, r, hr, hracc, hsame.node.symm, hsame.job.symm⟩

/-- A job accrues once. -/
theorem Linked.accrues_once (hL : Linked s []) {al' : AllocationId} {r' : AllocationRecord}
    (hr : s.allocations.get? al = some r) (hr' : s.allocations.get? al' = some r')
    (hacc : r.allocation.state = .accruing) (hacc' : r'.allocation.state = .accruing)
    (hjob : r.allocation.job = r'.allocation.job) : al = al' := by
  have live {k q} (hq : s.allocations.get? k = some q) (hqacc : q.allocation.state = .accruing) : ∃
      b, s.attempts.get? q.allocation.attempt = some b ∧ b.attempt.allocation = k ∧ b.attempt.job =
      q.allocation.job ∧ b.attempt.state.isTerminal = false := by
    obtain ⟨b, hb, hbal, ht⟩ := hL.tied hq
    have hst := (ht.step (by simp)).accruing_iff.mpr hqacc
    exact ⟨b, hb, hbal, ht.job.symm, by rw [hst]; rfl⟩
  obtain ⟨a, ha, hal, haj, hal'⟩ := live hr hacc
  obtain ⟨b, hb, hbl, hbj, hbl'⟩ := live hr' hacc'
  have hid := hL.one_live ha hb hal' hbl' (by rw [haj, hbj, hjob])
  rw [hid, hb] at ha
  cases ha
  rw [← hal, hbl]

/-! ## Demands -/

/-- Something to be funded from a node: an accrual that waits there or the
    allocation of a placement. -/
structure Demand where
  allocation : AllocationId
  node : NodeId
  job : JobId
  need : Resources

abbrev Demand.amount (x : Demand) (d : Dim) : Nat := x.need.get d

/-- The demands with the verdict whether the pools meet them. -/
abbrev served (pool : NodeId → Dim → Nat) (l : List Demand) : List (Demand × Bool) :=
  Serve.serve Demand.node Demand.amount pool l

/-- What the demands leave in the pools. -/
abbrev drawn (pool : NodeId → Dim → Nat) (l : List Demand) : NodeId → Dim → Nat :=
  l.foldl (Serve.draw Demand.node Demand.amount) pool

/-- The job an allocation belongs to. -/
def StateMachine.jobOf (s : StateMachine) (al : AllocationId) : JobId :=
  ((s.allocations.get? al).map fun r => r.allocation.job).getD 0

theorem StateMachine.jobOf_of_some (hr : s.allocations.get? al = some r) :
    s.jobOf al = r.allocation.job := by
  simp [jobOf, hr]

/-- What a queued accrual of a node still asks for. -/
def StateMachine.demandOf (s : StateMachine) (n : NodeId) (e : Nat × AllocationId) : Demand :=
  ⟨e.2, n, s.jobOf e.2, s.needAt e.2⟩

/-- The accruals on a node that are not revoked, in queue order. -/
def StateMachine.waits (s : StateMachine) (ids : List AllocationId) (n : NodeId) : List Demand :=
  (s.staying ids n).map (s.demandOf n)

def Placement.demands (p : Placement) : List Demand :=
  p.allocations.map fun spec => ⟨spec.id, spec.node, p.job, spec.requested⟩

/-- The demands of a batch in the order in which they are served. -/
def StateMachine.demands (s : StateMachine) (c : CommitPlacements) : List Demand :=
  (s.touchedNodes c c.revocations).keys.flatMap (s.waits c.revocations) ++
    c.placements.flatMap Placement.demands

theorem StateMachine.node_of_mem_waits (n : NodeId) : ∀ x ∈ s.waits ids n, x.node = n := by
  intro x hx
  obtain ⟨e, -, rfl⟩ := mem_map.mp hx
  rfl

section Waits

variable {n : NodeId} {x : Demand}

theorem Linked.mem_waits (h : Linked s []) :
    x ∈ s.waits ids n ↔ x.allocation ∉ ids ∧ ∃ r, s.allocations.get? x.allocation = some r ∧
      r.allocation.state = .accruing ∧ r.allocation.node = n ∧
      x = ⟨x.allocation, n, r.allocation.job, r.need⟩ := by
  rw [waits, mem_map]
  constructor
  · rintro ⟨e, he, rfl⟩
    obtain ⟨hnot, r, hr, hacc, hn, -⟩ := h.mem_staying.mp he
    refine ⟨hnot, r, hr, hacc, hn, ?_⟩
    simp [demandOf, jobOf_of_some hr, needAt_of_some hr]
  · rintro ⟨hnot, r, hr, hacc, hn, hx⟩
    refine ⟨(r.seq, x.allocation), h.mem_staying.mpr ⟨hnot, r, hr, hacc, hn, rfl⟩, ?_⟩
    rw [hx]
    simp [demandOf, jobOf_of_some hr, needAt_of_some hr]

/-- A job waits once. -/
theorem Linked.waits_inj (h : Linked s []) {n' : NodeId} {y : Demand} (hx : x ∈ s.waits ids n)
    (hy : y ∈ s.waits ids n') (hjob : x.job = y.job) : x = y := by
  obtain ⟨-, r, hr, hacc, hn, hxe⟩ := h.mem_waits.mp hx
  obtain ⟨-, r', hr', hacc', hn', hye⟩ := h.mem_waits.mp hy
  rw [hxe, hye] at hjob
  have hal := h.accrues_once hr hr' hacc hacc' hjob
  rw [hal, hr'] at hr
  cases hr
  rw [hxe, hye, hal, ← hn, ← hn']

theorem Linked.waits_nodup (h : Linked s []) (n : NodeId) : (s.waits ids n).Nodup := by
  have hal : ((s.waits ids n).map Demand.allocation).Nodup := by
    rw [waits, map_map]
    exact (h.queued n).nodup.sublist (filter_sublist.map _)
  exact hal.of_map _

end Waits

section

variable (pool : NodeId → Dim → Nat) (l : List Demand) (x : Demand)

/-- The verdict on one more demand. -/
theorem served_snoc :
    served pool (l ++ [x]) =
      served pool l ++ [(x, decide (∀ d, x.amount d ≤ drawn pool l x.node d))] :=
  Serve.serve_append pool l [x]

theorem drawn_snoc (n : NodeId) (d : Dim) :
    drawn pool (l ++ [x]) n d = drawn pool l n d - if n = x.node then x.amount d else 0 := by
  rw [drawn, foldl_append, foldl_cons, foldl_nil]
  simp only [Serve.draw]
  split_ifs <;> rfl

end

theorem mem_touchedNodes {n : NodeId} :
    n ∈ (s.touchedNodes c revoked).keys ↔
      (∃ id ∈ revoked, ∃ r, s.allocations.get? id = some r ∧ r.allocation.node = n) ∨
      ∃ p ∈ c.placements, ∃ spec ∈ p.allocations, spec.node = n := by
  rw [OrdMap.mem_keys]
  have hunit : (∃ v, (s.touchedNodes c revoked).get? n = some v) ↔
      (s.touchedNodes c revoked).get? n = some () :=
    ⟨fun ⟨_, hv⟩ => hv, fun hv => ⟨(), hv⟩⟩
  rw [hunit]
  let P (t : OrdSet NodeId) : Prop := t.get? n = some ()
  refine (foldl_iff (P := P) (Q := fun spec : AllocationSpec => spec.node = n) (fun t spec => ?_)
    _ _).trans (or_congr ((foldl_iff (P := P) (Q := fun id => ∃ r,
      s.allocations.get? id = some r ∧ r.allocation.node = n) (fun t id => ?_) revoked _).trans
        ?_) ?_)
  · simp only [P, get?_insert]
    by_cases hn : spec.node = n <;> simp [hn]
  · cases hr : s.allocations.get? id with
    | none => simp
    | some r =>
      simp only [P, get?_insert]
      by_cases hn : r.allocation.node = n <;> simp [hn]
  · simp [P]
  simp only [mem_flatMap]
  constructor
  · rintro ⟨spec, ⟨p, hp, hspec⟩, hn⟩
    exact ⟨p, hp, spec, hspec, hn⟩
  · rintro ⟨p, hp, spec, hspec, hn⟩
    exact ⟨spec, ⟨p, hp, hspec⟩, hn⟩

theorem StateMachine.BatchOk.touched (p : Placement) (hp : p ∈ c.placements) :
    ∀ spec ∈ p.allocations, spec.node ∈ (s.touchedNodes c c.revocations).keys :=
  fun spec hspec => mem_touchedNodes.mpr (.inr ⟨p, hp, spec, hspec, rfl⟩)

/-! ### Whose they are -/

/-- The accruals of a job that is placed are revoked in the same batch. -/
theorem Screened.revoked_of_accruing (h : Screened s revoked p spec) (hC : Consistent s)
    (hr : s.allocations.get? al = some r) (hacc : r.allocation.state = .accruing)
    (hj : r.allocation.job = p.job) : al ∈ revoked := by
  obtain ⟨a, ha, hal, ht⟩ := hC.linked.tied hr
  have hst := (ht.step (by simp)).accruing_iff.mpr hacc
  have hlive : a.attempt.state.isTerminal = false := by rw [hst]; rfl
  obtain ⟨rec, hrec, hstate, -⟩ := hC.jobs.current ha hlive
  obtain ⟨j, hjob, hreseat⟩ := h.job
  rw [← ht.job, hj, hjob] at hrec
  cases hrec
  rcases hreseat with hq | hre
  · rw [hq] at hstate
    cases hstate
  · unfold isReseat at hre
    simpa [hstate, JobState.attempt, ha, hal] using hre

namespace StateMachine

theorem Seatable.screened {jobs : List JobId}
 {attempts : List AttemptId} {allocs : List AllocationId} {ps : List Placement}
    (h : Seatable s revoked jobs attempts allocs ps) :
    (∀ p ∈ ps, ∃ spec, Screened s revoked p spec) ∧ (ps.map Placement.job).Nodup ∧
      ∀ p ∈ ps, p.job ∉ jobs := by
  induction h with
  | nil => simp
  | @cons jobs attempts allocs p spec rest hsc hj _ _ _ ih =>
    obtain ⟨hscreened, hnd, hnew⟩ := ih
    refine ⟨?_, ?_, ?_⟩
    · intro q hq
      rcases mem_cons.mp hq with rfl | hq
      · exact ⟨spec, hsc⟩
      · exact hscreened q hq
    · rw [map_cons, nodup_cons]
      refine ⟨fun hmem => ?_, hnd⟩
      obtain ⟨q, hq, hqj⟩ := mem_map.mp hmem
      exact hnew q hq (by rw [hqj]; exact mem_cons_self)
    · intro q hq
      rcases mem_cons.mp hq with rfl | hq
      · exact hj
      · exact fun hmem => hnew q hq (mem_cons_of_mem _ hmem)

theorem map_job_demands (ps : List Placement) (h : ∀ p ∈ ps, ∃ spec, p.allocations = [spec]) :
    (ps.flatMap Placement.demands).map Demand.job = ps.map Placement.job := by
  induction ps with
  | nil => rfl
  | cons p ps ih =>
    obtain ⟨spec, hone⟩ := h p (by simp)
    have hrest := ih fun q hq => h q (mem_cons_of_mem p hq)
    rw [flatMap_cons, map_append, hrest, Placement.demands, hone]
    rfl

/-- The demands of a batch are those of different jobs. -/
theorem BatchOk.demands_nodup (hok : BatchOk s c) (hC : Consistent s) :
    ((s.demands c).map Demand.job).Nodup := by
  obtain ⟨hscreened, hnd, -⟩ := hok.seatable.screened
  have hone : ∀ p ∈ c.placements, ∃ spec, p.allocations = [spec] := fun p hp => by
    obtain ⟨spec, hsc⟩ := hscreened p hp
    exact ⟨spec, hsc.one⟩
  rw [demands, map_append, map_job_demands _ hone, map_flatMap, nodup_append]
  refine ⟨nodup_flatMap.mpr ⟨fun n _ => ?_, ?_⟩, hnd, ?_⟩
  · refine (hC.linked.waits_nodup n).map_on fun x hx y hy hxy => ?_
    exact hC.linked.waits_inj hx hy hxy
  · refine (keys_nodup _).imp fun {n n'} hne => ?_
    refine disjoint_left.mpr fun j hj hj' => ?_
    obtain ⟨x, hx, rfl⟩ := mem_map.mp hj
    obtain ⟨y, hy, hyj⟩ := mem_map.mp hj'
    have hxy := hC.linked.waits_inj hy hx hyj
    exact hne ((node_of_mem_waits n x hx).symm.trans (hxy ▸ node_of_mem_waits n' y hy))
  · intro j hj j' hj' hjj
    obtain ⟨n, -, hj⟩ := mem_flatMap.mp hj
    obtain ⟨x, hx, rfl⟩ := mem_map.mp hj
    obtain ⟨p, hp, rfl⟩ := mem_map.mp hj'
    obtain ⟨spec, hsc⟩ := hscreened p hp
    obtain ⟨hnot, r, hr, hacc, -, hxe⟩ := hC.linked.mem_waits.mp hx
    rw [hxe] at hjj
    exact hnot (hsc.revoked_of_accruing hC hr hacc hjj)

/-- No job of a demand accrues on a node that the batch does not touch. -/
theorem BatchOk.not_away (hok : BatchOk s c) (hC : Consistent s) {x : Demand} (hx : x ∈ s.demands c)
    {n : NodeId} (hn : n ∉ (s.touchedNodes c c.revocations).keys) : ¬AccruesOn s n x.job := by
  rintro ⟨al, r, hr, hacc, hrn, hj⟩
  have hal : al ∉ c.revocations := fun hid =>
    hn (mem_touchedNodes.mpr (.inl ⟨al, hid, r, hr, hrn⟩))
  rcases mem_append.mp hx with hx | hx
  · obtain ⟨m, hm, hx⟩ := mem_flatMap.mp hx
    obtain ⟨-, q, hq, hqacc, hqn, hxe⟩ := hC.linked.mem_waits.mp hx
    rw [hxe] at hj
    have hsame := hC.linked.accrues_once hr hq hacc hqacc hj
    rw [← hsame, hr] at hq
    cases hq
    exact hn (hrn ▸ hqn ▸ hm)
  · obtain ⟨p, hp, hx⟩ := mem_flatMap.mp hx
    obtain ⟨spec, -, rfl⟩ := mem_map.mp hx
    obtain ⟨spec', hsc⟩ := hok.seatable.screened.1 p hp
    exact hal (hsc.revoked_of_accruing hC hr hacc hj)

end StateMachine

/-! ## The room on a node -/

section

variable (s : StateMachine) (ids : List AllocationId)

/-- The free capacity the simulation starts from. -/
theorem freeAfterRevocation_get (used : Memo) (node : NodeId) (d : Dim) :
    (s.freeAfterRevocation ids used node).get d =
      min ((s.freeCapacity node (some used)).get d + revokedHold s ids node d) u64Max := by
  unfold freeAfterRevocation
  generalize s.freeCapacity node (some used) = free
  induction ids generalizing free with
  | nil =>
    have := free.get_le_u64Max d
    simp only [foldl_nil, revokedHold, map_nil, sum_nil]
    omega
  | cons x rest ih =>
    rw [foldl_cons, ih]
    cases hx : s.allocations.get? x with
    | none => rw [revokedHold_cons_of_none hx]
    | some r =>
      rw [revokedHold_cons_of_some hx]
      simp only
      split_ifs with hn
      · rw [Resources.get_saturatingAdd]
        omega
      · omega

/-- The room the simulation starts from. -/
def StateMachine.simRoom (n : NodeId) (d : Dim) : Nat :=
  (s.freeAfterRevocation ids s.usedCapacityMemo n).get d

/-- No revoked hold lies in a dimension in which its node holds more than it
    advertises. -/
def RevocationsCovered : Prop :=
  ∀ id ∈ ids, ∀ r, s.allocations.get? id = some r → ∀ d, 0 < r.allocation.funded.get d →
    s.heldOn r.allocation.node d ≤ s.capacityOf r.allocation.node d

end

/-- The simulation starts from at least the room a node has after the
    revocations, and from exactly that when they are covered. -/
theorem room_le_freeAfterRevocation (hfit : HoldsFit s)
    (hpart : ∀ n d, revokedHold s ids n d ≤ s.heldOn n d) (n : NodeId) (d : Dim) :
    s.room ids n d ≤ (s.freeAfterRevocation ids s.usedCapacityMemo n).get d ∧
      (RevocationsCovered s ids →
        s.room ids n d = (s.freeAfterRevocation ids s.usedCapacityMemo n).get d) := by
  have hfree : (s.freeCapacity n (some s.usedCapacityMemo)).get d =
      s.capacityOf n d - s.heldOn n d :=
    @freeCapacity_get ⟨s, [], some s.usedCapacityMemo⟩ hfit
      (memoExact_usedCapacityMemo hfit []) n d
  have hcap := s.capacityOf_le n d
  have hp := hpart n d
  rw [freeAfterRevocation_get, hfree, room]
  refine ⟨by omega, fun hcov => ?_⟩
  by_cases hzero : revokedHold s ids n d = 0
  · omega
  · -- some revoked allocation holds this dimension on the node
    have hcovered : s.heldOn n d ≤ s.capacityOf n d := by
      by_contra hover
      apply hzero
      unfold revokedHold
      rw [sum_eq_zero_iff]
      intro x hx
      obtain ⟨id, hid, rfl⟩ := mem_map.mp hx
      cases hr : s.allocations.get? id with
      | none => rfl
      | some r =>
        simp only
        split_ifs with hn
        · by_contra hpos
          have := hcov id hid r hr d (Nat.pos_of_ne_zero hpos)
          rw [hn] at this
          exact hover this
        · rfl
    omega

end Coppice.State
