/-
  Coppice.State.AccrualSim

  The simulation of a batch by which `check_accrual_limit` decides: it serves the
  demands from the simulated room and counts the jobs of those it cannot meet.
-/

import Coppice.State.Demands

namespace Coppice.State

open Lib Coppice.Core StateMachine OrdMap List Resources Serve

theorem mem_survivingJobs {s : StateMachine} (revoked : List AllocationId) (j : JobId) :
    (s.survivingJobs revoked).get? j = some () ↔ ∃ id ∈ s.accrualQueue.values, id ∉ revoked ∧
      ∃ r, s.allocations.get? id = some r ∧ r.allocation.job = j := by
  refine (foldl_iff (P := fun jobs : OrdSet JobId => jobs.get? j = some ())
    (Q := fun id => id ∉ revoked ∧ ∃ r, s.allocations.get? id = some r ∧ r.allocation.job = j)
    (fun jobs id => ?_) _ _).trans (by simp)
  by_cases hid : id ∈ revoked
  · simp [hid]
  · cases hr : s.allocations.get? id with
    | none => simp [hid]
    | some r =>
      simp only [contains_iff_mem, hid, if_false, not_false_iff, true_and, Option.some.injEq,
        exists_eq_left', get?_insert]
      by_cases hj : r.allocation.job = j <;> simp [hj]

section Queue

variable {s : StateMachine} {ids : List AllocationId}

/-- What the simulation of a queue reports: the jobs that go on accruing are
    those whose demand is not met. -/
structure QueueSim (pool : NodeId → Dim → Nat) (n : NodeId) (l : List Demand)
    (acc jobs : OrdSet JobId) (out : Resources × OrdSet JobId × OrdSet JobId) : Prop where
  left : ∀ d, out.1.get d = drawn pool l n d
  accruing : ∀ j, out.2.1.get? j = some () ↔
    acc.get? j = some () ∧ ∀ x, (x, true) ∈ served pool l → x.job ≠ j
  nodeJobs : ∀ j, out.2.2.get? j = some () ↔
    jobs.get? j = some () ∨ ∃ x, (x, false) ∈ served pool l ∧ x.job = j

namespace QueueSim

variable {pool : NodeId → Dim → Nat} {n : NodeId} {x : Demand} {l : List Demand}
  {acc jobs : OrdSet JobId} {out : Resources × OrdSet JobId × OrdSet JobId}

/-- The head of the queue gets all it needs. -/
theorem met (h : QueueSim (drawn pool [x]) n l (acc.erase x.job) jobs out)
    (hmet : ∀ d, x.amount d ≤ pool x.node d) : QueueSim pool n (x :: l) acc jobs out := by
  have hserve : served pool (x :: l) = (x, true) :: served (drawn pool [x]) l := by
    simp [served, serve, decide_eq_true hmet, drawn]
  refine ⟨h.left, fun j => ?_, fun j => ?_⟩
  · rw [h.accruing, get?_erase, hserve]
    simp only [mem_cons, Prod.mk.injEq]
    constructor
    · rintro ⟨hacc, hrest⟩
      split_ifs at hacc with hne
      refine ⟨hacc, ?_⟩
      rintro y (⟨rfl, -⟩ | hy)
      · exact hne
      · exact hrest y hy
    · rintro ⟨hacc, hall⟩
      rw [if_neg (hall x (.inl ⟨rfl, trivial⟩))]
      exact ⟨hacc, fun y hy => hall y (.inr hy)⟩
  · rw [h.nodeJobs, hserve]
    simp

/-- The head of the queue goes on accruing. -/
theorem unmet (h : QueueSim (drawn pool [x]) n l acc (jobs.insert x.job ()) out)
    (hunmet : ¬∀ d, x.amount d ≤ pool x.node d) : QueueSim pool n (x :: l) acc jobs out := by
  have hserve : served pool (x :: l) = (x, false) :: served (drawn pool [x]) l := by
    simp [served, serve, decide_eq_false hunmet, drawn]
  refine ⟨h.left, fun j => ?_, fun j => ?_⟩
  · rw [h.accruing, hserve]
    simp
  · rw [h.nodeJobs, get?_insert, hserve]
    simp only [mem_cons, Prod.mk.injEq]
    by_cases hj : x.job = j
    · rw [if_pos hj]
      exact iff_of_true (.inl rfl) (.inr ⟨x, .inl ⟨rfl, trivial⟩, hj⟩)
    · rw [if_neg hj]
      refine or_congr_right ⟨?_, ?_⟩
      · rintro ⟨y, hy, hyj⟩
        exact ⟨y, .inr hy, hyj⟩
      · rintro ⟨y, ⟨rfl, -⟩ | hy, hyj⟩
        · exact absurd hyj hj
        · exact ⟨y, hy, hyj⟩

end QueueSim

theorem simQueue_sim (n : NodeId) {l : List (Nat × AllocationId)} {free : Resources}
    {pool : NodeId → Dim → Nat} (accruing nodeJobs : OrdSet JobId)
    (hl : ∀ e ∈ l, ∃ r, s.allocations.get? e.2 = some r) (hpool : ∀ d, pool n d = free.get d) :
    QueueSim pool n ((l.filter fun e => !ids.contains e.2).map (s.demandOf n)) accruing nodeJobs
      (s.simQueue ids l free accruing nodeJobs) := by
  induction l generalizing free pool accruing nodeJobs with
  | nil => exact ⟨fun d => (hpool d).symm, by simp [simQueue], by simp [simQueue]⟩
  | cons e rest ih =>
    have hrest := fun x hx => hl x (mem_cons_of_mem e hx)
    by_cases hrev : e.2 ∈ ids
    · rw [filter_cons_of_neg (by simpa using hrev), simQueue, if_pos (by simpa using hrev)]
      exact ih accruing nodeJobs hrest hpool
    · obtain ⟨r, hr⟩ := hl e (by simp)
      have hx : s.demandOf n e = ⟨e.2, n, r.allocation.job, r.need⟩ := by
        simp [demandOf, jobOf_of_some hr, needAt_of_some hr]
      rw [filter_cons_of_pos (by simpa using hrev), map_cons, simQueue,
        if_neg (by simpa using hrev), hx]
      simp only [hr]
      -- the step passes on what the member does not need
      have hpool' d : drawn pool [⟨e.2, n, r.allocation.job, r.need⟩] n d = (free.saturatingSub
          (free.componentMin r.need)).get d := by
        have hself : drawn pool [⟨e.2, n, r.allocation.job, r.need⟩] n d =
            pool n d - r.need.get d := draw_self Demand.node Demand.amount pool
              ⟨e.2, n, r.allocation.job, r.need⟩ d
        rw [hself, get_saturatingSub, get_componentMin, ← hpool]
        omega
      have hverdict : (∀ d, Demand.amount ⟨e.2, n, r.allocation.job, r.need⟩ d ≤ pool n d) ↔
          free.componentMin r.need = r.need := by
        rw [componentMin_eq_right_iff]
        simp [Demand.amount, hpool]
      split_ifs with hmet
      · exact (ih _ _ hrest hpool').met (hverdict.mpr hmet)
      · exact (ih _ _ hrest hpool').unmet (mt hverdict.mp hmet)

end Queue

/-- The simulation after serving `l`: `away` are the jobs that accrue on nodes
    the batch does not touch. -/
structure SimServes (pool : NodeId → Dim → Nat) (away : JobId → Prop) (touched : List NodeId)
    (l : List Demand) (sim : StateMachine.AccrualSim) : Prop where
  free : ∀ n ∈ touched, ∃ f, sim.simFree.get? n = some f ∧ ∀ d, f.get d = drawn pool l n d
  perNode : ∀ n ∈ touched, ∃ js, sim.perNode.get? n = some js ∧ ∀ j, js.get? j = some () ↔
    ∃ x, (x, false) ∈ served pool l ∧ x.node = n ∧ x.job = j
  accruing : ∀ j, sim.accruing.get? j = some () ↔
    away j ∨ ∃ x, (x, false) ∈ served pool l ∧ x.job = j

section Nodes

variable {s : StateMachine} {ids : List AllocationId}

/-- The survivors are the jobs with an accrual that stays. -/
theorem Linked.mem_survivors (h : Linked s []) {j : JobId} :
    (s.survivingJobs ids).get? j = some () ↔ ∃ n, ∃ x ∈ s.waits ids n, x.job = j := by
  rw [mem_survivingJobs]
  constructor
  · rintro ⟨id, hid, hnot, r, hr, hj⟩
    obtain ⟨k, hk⟩ := mem_values.mp hid
    obtain ⟨r', hr', hacc, -, -⟩ := h.queue.mp hk
    rw [hr] at hr'
    cases hr'
    exact ⟨r.allocation.node, ⟨id, r.allocation.node, r.allocation.job, r.need⟩,
      h.mem_waits.mpr ⟨hnot, r, hr, hacc, rfl, rfl⟩, hj⟩
  · rintro ⟨n, x, hx, hj⟩
    obtain ⟨hnot, r, hr, hacc, hn, hxe⟩ := h.mem_waits.mp hx
    rw [hxe] at hj
    exact ⟨x.allocation, mem_values.mpr ⟨toLex (n, r.seq), h.queue.mpr ⟨r, hr, hacc, hn, rfl⟩⟩,
      hnot, r, hr, hj⟩

/-- Part way through the nodes: the simulation has drained the queues of `done`. -/
structure Draining (s : StateMachine) (ids : List AllocationId) (sim : StateMachine.AccrualSim)
    (done : List NodeId) : Prop where
  free : ∀ n ∈ done, ∃ f, sim.simFree.get? n = some f ∧
    ∀ d, f.get d = drawn (s.simRoom ids) (s.waits ids n) n d
  perNode : ∀ n ∈ done, ∃ js, sim.perNode.get? n = some js ∧ ∀ j, js.get? j = some () ↔
    ∃ x, (x, false) ∈ served (s.simRoom ids) (s.waits ids n) ∧ x.job = j
  accruing : ∀ j, sim.accruing.get? j = some () ↔ ∃ n, ∃ x ∈ s.waits ids n, x.job = j ∧
    (n ∈ done → (x, false) ∈ served (s.simRoom ids) (s.waits ids n))
  rest : ∀ n, n ∉ done → sim.perNode.get? n = none

namespace Draining

variable {sim : StateMachine.AccrualSim} {done : List NodeId}

/-- Before any queue is drained. -/
theorem start (h : Linked s []) : Draining s ids ⟨s.survivingJobs ids, .empty, .empty⟩ [] := by
  refine ⟨by simp, by simp, fun j => ?_, by simp⟩
  simp [h.mem_survivors]

/-- Draining one more queue. -/
theorem next (hL : Linked s []) (h : Draining s ids sim done) {n : NodeId} (hn : n ∉ done) :
    Draining s ids (s.simNode ids s.usedCapacityMemo sim n) (n :: done) := by
  have hq : QueueSim (s.simRoom ids) n (s.waits ids n) sim.accruing .empty
      (s.simQueue ids (s.nodeQueue n) (s.freeAfterRevocation ids s.usedCapacityMemo n)
        sim.accruing .empty) := by
    refine simQueue_sim n sim.accruing .empty (fun e he => ?_) fun _ => rfl
    obtain ⟨r, hr, -⟩ := hL.mem_queue.mp he
    exact ⟨r, hr⟩
  have hsim : s.simNode ids s.usedCapacityMemo sim n =
      let out := s.simQueue ids (s.nodeQueue n) (s.freeAfterRevocation ids s.usedCapacityMemo n)
        sim.accruing .empty
      ⟨out.2.1, sim.simFree.insert n out.1, sim.perNode.insert n out.2.2⟩ := by
    simp [simNode, h.rest n hn]
  rw [hsim]
  generalize s.simQueue ids (s.nodeQueue n) (s.freeAfterRevocation ids s.usedCapacityMemo n)
    sim.accruing .empty = out at hq
  refine ⟨fun m hm => ?_, fun m hm => ?_, fun j => ?_, fun m hm => ?_⟩
  · simp only [get?_insert]
    split_ifs with hmn
    · subst hmn
      exact ⟨out.1, rfl, hq.left⟩
    · exact h.free m ((mem_cons.mp hm).resolve_left (Ne.symm hmn))
  · simp only [get?_insert]
    split_ifs with hmn
    · subst hmn
      exact ⟨out.2.2, rfl, fun j => by simpa using hq.nodeJobs j⟩
    · exact h.perNode m ((mem_cons.mp hm).resolve_left (Ne.symm hmn))
  · rw [hq.accruing, h.accruing]
    constructor
    · rintro ⟨⟨m, x, hx, hj, hdone⟩, hnone⟩
      refine ⟨m, x, hx, hj, fun hm => ?_⟩
      rcases mem_cons.mp hm with rfl | hm
      · obtain ⟨b, hb⟩ := exists_mem_serve (s.simRoom ids) hx
        cases b with
        | true => exact absurd hj (hnone x hb)
        | false => exact hb
      · exact hdone hm
    · rintro ⟨m, x, hx, hj, hdone⟩
      refine ⟨⟨m, x, hx, hj, fun hm => hdone (mem_cons_of_mem n hm)⟩, fun y hy hyj => ?_⟩
      -- the job waits once, so this is the same demand with another verdict
      have hymem := mem_of_mem_serve hy
      have hxy : y = x := hL.waits_inj hymem hx (hyj.trans hj.symm)
      have hmn : m = n :=
        (node_of_mem_waits m x hx).symm.trans
          (hxy ▸ node_of_mem_waits n y hymem)
      subst hmn hxy
      cases serve_unique (hL.waits_nodup m) hy (hdone (by simp))
  · rw [mem_cons, not_or] at hm
    simp only [get?_insert, if_neg (Ne.symm hm.1)]
    exact h.rest m hm.2

theorem foldl (hL : Linked s []) (l : List NodeId) (h : Draining s ids sim done) (hnd : l.Nodup)
    (hl : ∀ n ∈ l, n ∉ done) :
    Draining s ids (l.foldl (s.simNode ids s.usedCapacityMemo) sim) (l.reverse ++ done) := by
  induction l generalizing sim done with
  | nil => exact h
  | cons n rest ih =>
    obtain ⟨hnot, hnd'⟩ := nodup_cons.mp hnd
    have hnext := ih (h.next hL (hl n (by simp))) hnd' fun m hm => by
      rw [mem_cons, not_or]
      exact ⟨fun e => hnot (e ▸ hm), hl m (mem_cons_of_mem _ hm)⟩
    simpa using hnext

/-- Once the queues of the touched nodes are drained. -/
theorem serves {touched : List NodeId} (hnd : touched.Nodup)
    (h : Draining s ids sim touched.reverse) :
    SimServes (s.simRoom ids) (fun j => ∃ n ∉ touched, ∃ x ∈ s.waits ids n, x.job = j) touched
      (touched.flatMap (s.waits ids)) sim := by
  have hmem : ∀ e : Demand × Bool, e ∈ served (s.simRoom ids) (touched.flatMap (s.waits ids)) ↔
      ∃ n ∈ touched, e ∈ served (s.simRoom ids) (s.waits ids n) := fun _ =>
    mem_serve_flatMap (s.simRoom ids) hnd node_of_mem_waits
  refine ⟨fun n hn => ?_, fun n hn => ?_, fun j => ?_⟩
  · obtain ⟨f, hf, hfd⟩ := h.free n (mem_reverse.mpr hn)
    refine ⟨f, hf, fun d => (hfd d).trans ?_⟩
    exact (foldl_draw_flatMap _ hnd node_of_mem_waits hn d).symm
  · obtain ⟨js, hjs, hj⟩ := h.perNode n (mem_reverse.mpr hn)
    refine ⟨js, hjs, fun j => (hj j).trans ⟨?_, ?_⟩⟩
    · rintro ⟨x, hx, hxj⟩
      exact ⟨x, (hmem _).mpr ⟨n, hn, hx⟩, node_of_mem_waits n x (mem_of_mem_serve hx), hxj⟩
    · rintro ⟨x, hx, hxn, hxj⟩
      obtain ⟨m, -, hx⟩ := (hmem _).mp hx
      have hm := node_of_mem_waits m x (mem_of_mem_serve hx)
      rw [← hm, hxn] at hx
      exact ⟨x, hx, hxj⟩
  · rw [h.accruing]
    constructor
    · rintro ⟨n, x, hx, hj, hdone⟩
      by_cases hn : n ∈ touched
      · exact .inr ⟨x, (hmem _).mpr ⟨n, hn, hdone (mem_reverse.mpr hn)⟩, hj⟩
      · exact .inl ⟨n, hn, x, hx, hj⟩
    · rintro (⟨n, hn, x, hx, hj⟩ | ⟨x, hx, hj⟩)
      · exact ⟨n, x, hx, hj, fun hdone => absurd (mem_reverse.mp hdone) hn⟩
      · obtain ⟨n, -, hx⟩ := (hmem _).mp hx
        exact ⟨n, x, mem_of_mem_serve hx, hj, fun _ => hx⟩

end Draining

end Nodes

/-- Simulating one placement. -/
theorem SimServes.placement {pool : NodeId → Dim → Nat} {away : JobId → Prop}
    (h : SimServes pool away touched l sim) {p : Placement} {spec : AllocationSpec}
    (hone : p.allocations = [spec]) (htouched : spec.node ∈ touched) :
    SimServes pool away touched (l ++ p.demands) (simPlacement sim p) := by
  obtain ⟨free, hfree, hget⟩ := h.free _ htouched
  obtain ⟨js, hjs, hmem⟩ := h.perNode _ htouched
  have hdemands : p.demands = [⟨spec.id, spec.node, p.job, spec.requested⟩] := by
    simp [Placement.demands, hone]
  rw [hdemands]
  -- the free capacity shrinks by what is requested, as far as it goes
  have hfree' : ∀ n ∈ touched, ∃ f,
      (sim.simFree.insert spec.node
        (free.saturatingSub (free.componentMin spec.requested))).get? n = some f ∧
      ∀ d, f.get d = drawn pool (l ++ [⟨spec.id, spec.node, p.job, spec.requested⟩]) n d := by
    intro n hn
    rw [get?_insert]
    by_cases e : spec.node = n
    · subst e
      rw [if_pos rfl]
      refine ⟨_, rfl, fun d => ?_⟩
      rw [drawn_snoc, if_pos rfl, ← hget, get_saturatingSub, get_componentMin]
      simp only [Demand.amount]
      omega
    · rw [if_neg e]
      obtain ⟨f, hf, hfd⟩ := h.free n hn
      refine ⟨f, hf, fun d => ?_⟩
      rw [drawn_snoc, if_neg (Ne.symm e), Nat.sub_zero, hfd]
  have hverdict : (∀ d, Demand.amount ⟨spec.id, spec.node, p.job, spec.requested⟩ d ≤
      drawn pool l spec.node d) ↔ free.componentMin spec.requested = spec.requested := by
    rw [componentMin_eq_right_iff]
    simp [Demand.amount, hget]
  unfold simPlacement
  simp only [hone, head?_cons, hfree]
  by_cases hfull : free.componentMin spec.requested = spec.requested
  · have hsame x : (x, false) ∈ served pool (l ++ [⟨spec.id, spec.node, p.job, spec.requested⟩]) ↔
        (x, false) ∈ served pool l := by
      rw [served_snoc, decide_eq_true (hverdict.mpr hfull)]
      simp
    rw [if_neg (not_not.mpr hfull)]
    refine ⟨hfree', fun n hn => ?_, fun j => ?_⟩
    · simp only [hsame]
      exact h.perNode n hn
    · simp only [hsame]
      exact h.accruing j
  · have hnew x : (x, false) ∈ served pool (l ++ [⟨spec.id, spec.node, p.job, spec.requested⟩]) ↔
        (x, false) ∈ served pool l ∨ x = ⟨spec.id, spec.node, p.job, spec.requested⟩ := by
      rw [served_snoc, decide_eq_false (mt hverdict.mp hfull)]
      simp
    rw [if_pos hfull]
    refine ⟨hfree', fun n hn => ?_, fun j => ?_⟩
    · simp only [hnew, or_and_right, exists_or, exists_eq_left]
      by_cases e : spec.node = n
      · subst e
        refine ⟨_, get?_insert_self .., fun j => ?_⟩
        rw [hjs, Option.getD_some, get?_insert]
        by_cases hj : p.job = j
        · simp [hj]
        · simp only [hj, and_false, or_false]
          exact hmem j
      · obtain ⟨ks, hks, hk⟩ := h.perNode n hn
        refine ⟨ks, by rw [get?_insert_of_ne _ _ e, hks], fun j => ?_⟩
        simp only [e, false_and, or_false]
        exact hk j
    · simp only [hnew, or_and_right, exists_or, exists_eq_left, get?_insert]
      by_cases hj : p.job = j
      · simp [hj]
      · simp only [hj, or_false]
        exact h.accruing j

section Trail

variable {s : StateMachine} {revoked : List AllocationId} {fx0 fx fx' : Effects} {at_ : Timestamp}
  {ps : List Placement} {cutoffs : List (Option Timestamp)} {groups : List (List Victim)}
  {touched : List NodeId} {l : List Demand} {pool : NodeId → Dim → Nat}

/-- Simulating the whole batch. -/
theorem SeatTrail.simulated (h : SeatTrail s revoked fx0 at_ fx ps cutoffs groups fx')
    (htouched : ∀ p ∈ ps, ∀ spec ∈ p.allocations, spec.node ∈ touched) {away : JobId → Prop}
    (hsim : SimServes pool away touched l sim) :
    SimServes pool away touched (l ++ ps.flatMap Placement.demands)
      (ps.foldl simPlacement sim) := by
  induction h generalizing l sim with
  | nil => simpa using hsim
  | @cons _ _ p spec _ _ _ _ _ _ _ _ hf _ _ ih =>
    have hspec : spec.node ∈ touched := htouched p (by simp) spec (by rw [hf.one]; simp)
    have hrest := ih (fun q hq => htouched q (mem_cons_of_mem _ hq))
      (hsim.placement hf.one hspec)
    rwa [append_assoc, ← flatMap_cons] at hrest

end Trail

namespace StateMachine

variable {s : StateMachine} {c : CommitPlacements}

/-- The simulation of a batch whose items pass serves the demands from the
    simulated room. -/
theorem simulateAccruals_serves (hC : Consistent s) (hok : BatchOk s c) :
    SimServes (s.simRoom c.revocations)
      (fun j => ∃ n ∉ (s.touchedNodes c c.revocations).keys,
        ∃ x ∈ s.waits c.revocations n, x.job = j)
      (s.touchedNodes c c.revocations).keys (s.demands c)
      (s.simulateAccruals c c.revocations s.usedCapacityMemo) := by
  have hstart : Draining s c.revocations ⟨s.survivingJobs c.revocations, .empty, .empty⟩ [] :=
    Draining.start hC.linked
  have hdrained := hstart.foldl hC.linked (s.touchedNodes c c.revocations).keys
    (keys_nodup _) (by simp)
  rw [append_nil] at hdrained
  exact (hok.trail hC).simulated BatchOk.touched (hdrained.serves (keys_nodup _))

end StateMachine

end Coppice.State
