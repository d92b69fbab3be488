/-
  Coppice.Coordinator.Housekeeping

  The retention sweep of `tasks/housekeeping.rs`: what a scan lists is accepted
  also later.  And a node declared lost can be evicted.
-/

import Coppice.State.Lifespan
import Mathlib.Data.List.Sort

namespace Coppice.Coordinator.Housekeeping

open Lib Coppice.Core State StateMachine List

variable {α κ : Type} [LinearOrder κ] {items : List α} {key : α → κ} {s : StateMachine}

/-- The keys of a scan are distinct, so it does not matter how the smallest are found. -/
def oldestFirst (items : List α) (limit : Nat) (key : α → κ) : List α :=
  (items.insertionSort (key · ≤ key ·)).take limit

/-- What is left out is no older than the selection, which is full. -/
theorem mem_oldestFirst_or (h : x ∈ items) : x ∈ oldestFirst items limit key ∨
    (oldestFirst items limit key).length = limit ∧
      ∀ y ∈ oldestFirst items limit key, key y ≤ key x := by
  have hsorted := pairwise_insertionSort (key · ≤ key ·) items
  have hx := (mem_insertionSort (key · ≤ key ·)).mpr h
  rw [← take_append_drop limit (items.insertionSort _)] at hsorted hx
  grind [oldestFirst, length_pos_of_mem, length_drop]

structure TerminalJobRecord where
  job : JobId
  state : JobState
  submittedAt : Timestamp
  terminalAt : Timestamp

def overdueJob (view : StateMachine) (now : Timestamp) (e : JobId × JobRecord) :
    Option TerminalJobRecord :=
  if e.2.state.isTerminal then e.2.terminalAt.bind fun terminalAt =>
    if view.policy.terminalRetention ≤ now.durationSince terminalAt then
      some ⟨e.1, e.2.state, e.2.submittedAt, terminalAt⟩
    else none
  else none

def dueForEviction (view : StateMachine) (now : Timestamp) (limit : Nat) : List TerminalJobRecord :=
  oldestFirst (view.jobs.entries.filterMap (overdueJob view now)) limit
    fun r => toLex (r.terminalAt, r.job)

theorem evictJobs_jobs (l : List JobId) (fx : Effects) (j : JobId) :
    (l.foldl evictJob fx).st.jobs.get? j = if j ∈ l then none else fx.st.jobs.get? j := by
  induction l generalizing fx with
  | nil => simp
  | cons x rest ih =>
    grind [evictJob, Effects.emit, evictAttempts_evicted, OrdMap.get?_erase]

theorem evictTerminalJobs_passes (batch : List JobId) (at_ : Timestamp)
    (hterm : ∀ j ∈ batch, ∀ r, s.jobs.get? j = some r → r.state.isTerminal = true) :
    s.dispatch (.evictTerminalJobs ⟨batch, at_⟩) =
      (batch.foldl evictJob (Effects.start s)).finish := by
  simp only [dispatch, evictTerminalJobs]
  rw [filterMap_eq_nil_iff.mpr]
  · rfl
  · grind [fst_mem_of_mem_zipIdx]

/-- A job whose retention is over is listed unless the list is full of older ones.  And whatever
    is applied after the scan, short of a listed job evicted and submitted anew, a batch of
    listed jobs is accepted: they go, with their attempts and allocations, and no other job. -/
theorem retention_sweep (h : Reachable s) (now : Timestamp) (limit : Nat) :
    let due := dueForEviction s now limit
    (∀ j r t, s.jobs.get? j = some r → r.terminalAt = some t →
      s.policy.terminalRetention ≤ now.durationSince t →
      (∃ d ∈ due, d.job = j) ∨ due.length = limit ∧ ∀ d ∈ due, d.terminalAt ≤ t) ∧
    ∀ s', Reach s (fun s c => (s.apply c).1) (fun s c => ∀ d ∈ due, s.jobs.get? d.job = none →
        (s.apply c).1.jobs.get? d.job = none) s' →
      ∀ batch ⊆ due.map (·.job), ∀ at_,
        let out := s'.apply (.evictTerminalJobs ⟨batch, at_⟩)
        out.2.isOk = true ∧
        (∀ j, out.1.jobs.get? j = if j ∈ batch then none else s'.jobs.get? j) ∧
        (∀ id a, out.1.attempts.get? id = some a → a.attempt.job ∉ batch) ∧
        ∀ al r, out.1.allocations.get? al = some r → r.allocation.job ∉ batch := by
  refine ⟨fun j r t hr ht hret => ?_, fun s' hrun batch hsub at_ => ?_⟩
  · have hdue : overdueJob s now (j, r) = some ⟨j, r.state, r.submittedAt, t⟩ := by
      grind [overdueJob, (h.lived.jobs hr).terminalAt]
    exact (mem_oldestFirst_or (mem_filterMap.mpr ⟨_, OrdMap.mem_entries.mpr hr, hdue⟩)).imp
      (fun hd => ⟨_, hd, rfl⟩) fun hold =>
        ⟨hold.1, fun d hd => Prod.Lex.monotone_fst _ _ (hold.2 d hd)⟩
  -- what was terminal at the scan stays terminal for as long as it is there
  obtain ⟨hs', hterm⟩ := Reach.invariant (fun t => Reachable t ∧ ∀ d ∈ dueForEviction s now limit,
      ∀ r, t.jobs.get? d.job = some r → r.state.isTerminal = true)
    ⟨h, by grind [dueForEviction, oldestFirst, mem_of_mem_take, mem_insertionSort, overdueJob,
      OrdMap.mem_entries, Option.bind_eq_some_iff]⟩
    (fun t c ht hok => ⟨ht.1.apply c, fun d hd r' hr' => by
      cases hr : t.jobs.get? d.job with
      | none => simp [hok d hd hr] at hr'
      | some r => grind [(ht.1.jobLife hr hr').ages.frozen]⟩) hrun
  have hpass := evictTerminalJobs_passes (s := s') batch at_ (by grind)
  intro out
  have hC := (hs'.apply (.evictTerminalJobs ⟨batch, at_⟩)).consistent
  have hjobs j : out.1.jobs.get? j = if j ∈ batch then none else s'.jobs.get? j := by
    refine .trans ?_ (evictJobs_jobs batch (Effects.start s') j)
    simp only [out, apply, hpass]
    rfl
  -- an attempt on record has its job on record
  have hatt id a (ha : out.1.attempts.get? id = some a) : a.attempt.job ∉ batch := by
    grind [hC.jobs.lineage ha]
  refine ⟨by simp only [out, apply, hpass]; rfl, hjobs, hatt, fun al r hr => ?_⟩
  obtain ⟨a, ha, -, hties⟩ := hC.linked.tied hr
  exact hties.job ▸ hatt _ a ha

open Sample

/-- Three days after it succeeded, the first job is listed.  It goes after another submission. -/
theorem retention_sweep_busy :
    let out := (run (busy ++ [submit 4 1])).apply (.evictTerminalJobs ⟨[1], epoch⟩)
    out.2.isOk = true ∧ out.1.jobs.get? 1 = none := by
  have hdue : (dueForEviction (run busy) (Timestamp.clamp 259200000000) 5).map (·.job) = [1] := by
    decide +kernel
  obtain ⟨hok, hjobs, -⟩ := (retention_sweep (reachable_run busy) _ _).2 _
    (Reach.init.step (a := submit 4 1) (by decide +kernel)) [1] (fun _ hj => hdue ▸ hj) epoch
  exact ⟨hok, hjobs 1⟩

/-- The loss of a node ends all work on it, so that its record can be evicted at once. -/
theorem lost_node_evictable (h : Reachable s) (c : DeclareNodeLost) {n : NodeRecord}
    (hn : s.nodes.get? c.node = some n) :
    let lost := (s.apply (.declareNodeLost c)).1
    lost.Vacant c.node ∧ ∀ at_, (lost.apply (.evictNodes ⟨[c.node], none, at_⟩)).2.isOk = true := by
  intro lost
  obtain ⟨-, h1, hon⟩ := losing_spec h.consistent hn
  obtain ⟨-, hset, hends⟩ :=
    loseNodeAttempts_sound c.declaredAt c.node _ _ (h1.sound {c.node} _) hon
  have hfold : lost.attempts = (s.losses c n).st.attempts := by
    simp only [lost, apply, dispatch, declareNodeLost, hn]
    rfl
  have hvac : lost.Vacant c.node := by
    intro al r' hr' hnode
    obtain ⟨a, ha, -, ht'⟩ := (h.apply (.declareNodeLost c)).consistent.linked.tied hr'
    obtain ⟨b, hb, hadv⟩ := hset.advances.attempts.back (hfold ▸ ha)
    obtain ⟨r, hr, ht⟩ := h1.linked.allocation_of hb
    have hlive := (ht.step (by simp)).terminal_iff
    have hlive' := (ht'.step (by simp)).terminal_iff
    by_contra hl
    -- an attempt still alive would be among those that ended
    have hend := hends (r.seq, _) (mem_lostVictims.mpr ⟨_, r, hr,
      by rw [ht.node, ← hadv.same.node, ← ht'.node, hnode],
      by grind [AllocationRecord.isLive_iff, hadv.terminal], by rw [ht.attempt]⟩) a (hfold ▸ ha)
    grind [AllocationRecord.isLive_iff]
  obtain ⟨x, hx, hdrain⟩ : ∃ x, lost.nodes.get? c.node = some x ∧ x.isDraining = true := by
    simp [lost, apply, dispatch, s.declareNodeLost_nodes c hn, NodeRecord.isDraining]
  refine ⟨hvac, fun at_ => ?_⟩
  simp [apply, dispatch, evictNodes, hx, hdrain, authorize, done, Except.isOk, Except.toBool]
  grind [OrdMap.mem_values, Vacant]

/-- A node with a ready and an accruing attempt on it. -/
theorem lost_node_evictable_busy : (((run busy).apply (.declareNodeLost ⟨1, epoch⟩)).1.apply
    (.evictNodes ⟨[1], none, epoch⟩)).2.isOk = true := by
  obtain ⟨n, hn⟩ := Option.isSome_iff_exists.mp
    (show ((run busy).nodes.get? 1).isSome = true by decide +kernel)
  exact (lost_node_evictable (reachable_run busy) ⟨1, epoch⟩ hn).2 epoch

end Coppice.Coordinator.Housekeeping
