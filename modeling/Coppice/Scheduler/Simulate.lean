/-
  Coppice.Scheduler.Simulate

  The scheduler's replay of a batch (`simulate_batch` in `coppice-
  scheduler/src/engine.rs`).  It meets the demands of the batch from the simulated
  room, apply from the real one, so it predicts apply exactly when both meet the
  same demands.
-/

import Coppice.State.AccrualLimit
import Coppice.State.Screening

namespace Coppice.Scheduler

open Lib Coppice.Core State StateMachine List
open StateMachine (AccrualSim)

/-! ## Proposals -/

/-- One proposed seating of a job on a node. -/
structure ProposedPlacement where
  job : JobId
  node : NodeId
  requested : Resources
  /-- The scheduler's own prediction of the funding outcome. -/
  expectFunded : Bool
  preemptions : List Eviction

structure PlacementProposal where
  againstVersion : UInt64
  now : Timestamp
  revocations : List AllocationId
  placements : List ProposedPlacement

/-- Exactly one allocation, and the job's id for its group. -/
def ProposedPlacement.toPlacement (p : ProposedPlacement) (ids : AttemptId × AllocationId) :
    Placement :=
  ⟨p.job, ids.1, p.job, [⟨ids.2, p.node, p.requested⟩], p.preemptions⟩

/-- The ids that each call of the source's `mint` returns. -/
abbrev Minting : Type := Nat → AttemptId × AllocationId

/-- The placements from the `k`-th call of `mint` on. -/
def mintPlacements (mint : Minting) :
    Nat → List ProposedPlacement → List Placement
  | _, [] => []
  | k, p :: ps => p.toPlacement (mint k) :: mintPlacements mint (k + 1) ps

/-- The command, with its ids minted. -/
def PlacementProposal.toCommitPlacements (q : PlacementProposal) (mint : Minting) :
    CommitPlacements :=
  ⟨q.againstVersion, q.revocations, mintPlacements mint 0 q.placements, q.now⟩

/-! ## The replay -/

section

variable (s : StateMachine) (baseFree : OrdMap NodeId Resources) (revocations : List AllocationId)
  (placements : List ProposedPlacement)

/-- Free capacity of every node, in one scan of the allocations. -/
def freeCapacityMap : OrdMap NodeId Resources :=
  let used := s.usedCapacityMemo
  s.nodes.mapVal fun id rec => rec.node.capacity.saturatingSub ((used.get? id).getD .zero)

/-- The nodes whose queue or free capacity the batch may change. -/
def replayNodes : OrdSet NodeId :=
  let touched := revocations.foldl
    (fun touched id =>
      match s.allocations.get? id with
      | none => touched
      | some a => touched.insert a.allocation.node ()) (.empty : OrdSet NodeId)
  placements.foldl (fun touched p => touched.insert p.node ()) touched

/-- The base free capacity of a node with the revoked holds returned. -/
def replayFree (node : NodeId) : Resources :=
  revocations.foldl
    (fun free id =>
      match s.allocations.get? id with
      | none => free
      | some a =>
        if a.allocation.node = node then free.saturatingAdd a.allocation.funded else free)
    ((baseFree.get? node).getD .zero)

/-- One touched node: freed capacity flows to its surviving queue. -/
def replayNode (sim : AccrualSim) (node : NodeId) : AccrualSim :=
  let (free, accruing, nodeJobs) :=
    s.simQueue revocations (s.nodeQueue node) (replayFree s baseFree revocations node)
      sim.accruing ((sim.perNode.get? node).getD .empty)
  { accruing := accruing
    simFree := sim.simFree.insert node free
    perNode := sim.perNode.insert node nodeJobs }

/-- One placement, and whether it is fully funded. -/
def replayPlacement (sim : AccrualSim) (p : ProposedPlacement) : AccrualSim × Bool :=
  match sim.simFree.get? p.node with
  | none => (sim, false)
  | some free =>
    let pledge := free.componentMin p.requested
    let sim := { sim with simFree := sim.simFree.insert p.node (free.saturatingSub pledge) }
    if pledge = p.requested then (sim, true)
    else
      ({ sim with
          accruing := sim.accruing.insert p.job ()
          perNode := sim.perNode.insert p.node
            (((sim.perNode.get? p.node).getD .empty).insert p.job ()) }, false)

def replayPlacements : AccrualSim → List ProposedPlacement → AccrualSim × List Bool
  | sim, [] => (sim, [])
  | sim, p :: ps =>
    let (sim, full) := replayPlacement sim p
    let (sim, funded) := replayPlacements sim ps
    (sim, full :: funded)

/-- The batch replayed: the accrual bookkeeping and the funding of each placement. -/
def replayBatch : AccrualSim × List Bool :=
  let start : AccrualSim := ⟨s.survivingJobs revocations, .empty, .empty⟩
  let drained := (replayNodes s revocations placements).keys.foldl
    (replayNode s baseFree revocations) start
  replayPlacements drained placements

structure BatchSim where
  /-- Whether apply funds each placement fully, in payload order. -/
  funded : List Bool
  /-- Whether the cluster-wide accrual cap would reject the batch. -/
  rejectsAccrual : Bool
  /-- Whether the limit of one accruing job on a node would reject it. -/
  rejectsPerNode : Bool

def simulateBatch : BatchSim :=
  let before := (s.survivingJobs revocations).entries.length
  let (sim, funded) := replayBatch s baseFree revocations placements
  let after := sim.accruing.entries.length
  let limit := s.policy.accrualLimit
  { funded := funded
    rejectsAccrual := limit < after && before < after
    rejectsPerNode := sim.perNode.values.any fun jobs => 1 < jobs.entries.length }

/-- The end of a pass: every prediction is rederived by the replay. -/
def intoProposal (now : Timestamp) (revocations : List AllocationId)
    (placements : List ProposedPlacement) : PlacementProposal :=
  let sim := simulateBatch s (freeCapacityMap s) revocations placements
  { againstVersion := s.version
    now := now
    revocations := revocations
    placements :=
      placements.zipWith (fun p funded => { p with expectFunded := funded }) sim.funded }

/-! ## The replay and the check of apply -/

theorem freeCapacityMap_getD (node : NodeId) :
    ((freeCapacityMap s).get? node).getD .zero = s.freeCapacity node (some s.usedCapacityMemo) := by
  rw [freeCapacityMap, OrdMap.get?_mapVal, freeCapacity]
  cases s.nodes.get? node with
  | none => rfl
  | some rec => rfl

theorem replayNode_eq :
    replayNode s (freeCapacityMap s) revocations = s.simNode revocations s.usedCapacityMemo := by
  funext sim node
  have hfree : replayFree s (freeCapacityMap s) revocations node =
      s.freeAfterRevocation revocations s.usedCapacityMemo node := by
    rw [replayFree, freeCapacityMap_getD]
    rfl
  rw [replayNode, hfree]
  rfl

end

theorem flatMap_mintPlacements (mint : Minting) (k : Nat) (ps : List ProposedPlacement)
    (touched : OrdSet NodeId) :
    ((mintPlacements mint k ps).flatMap Placement.allocations).foldl
      (fun touched spec => touched.insert spec.node ()) touched =
    ps.foldl (fun touched p => touched.insert p.node ()) touched := by
  induction ps generalizing k touched with
  | nil => rfl
  | cons _ _ ih => exact ih (k + 1) _

theorem replayPlacement_fst (sim : AccrualSim) (p : ProposedPlacement)
    (ids : AttemptId × AllocationId) :
    (replayPlacement sim p).1 = simPlacement sim (p.toPlacement ids) := by
  simp only [replayPlacement, simPlacement, ProposedPlacement.toPlacement, head?_cons]
  cases sim.simFree.get? p.node with
  | none => rfl
  | some free =>
    simp only [ne_eq, ite_not]
    split_ifs <;> rfl

section Replay

variable {pool : NodeId → Dim → Nat} {away : JobId → Prop} {touched : List NodeId}

/-- The flag of a placement is the verdict on its demand. -/
theorem replayPlacement_snd (h : SimServes pool away touched l sim) (p : ProposedPlacement)
    (ids : AttemptId × AllocationId) (hp : p.node ∈ touched) :
    [(replayPlacement sim p).2] =
      (served (drawn pool l) (p.toPlacement ids).demands).map Prod.snd := by
  obtain ⟨free, hfree, hget⟩ := h.free _ hp
  have hverdict : (∀ d, p.requested.get d ≤ drawn pool l p.node d) ↔
      free.componentMin p.requested = p.requested := by
    rw [Resources.componentMin_eq_right_iff]
    simp [hget]
  have hserved : (served (drawn pool l) (p.toPlacement ids).demands).map Prod.snd =
      [decide (∀ d, p.requested.get d ≤ drawn pool l p.node d)] := rfl
  rw [hserved, replayPlacement, hfree]
  simp only [hverdict]
  split_ifs with hfull
  · rw [decide_eq_true hfull]
  · rw [decide_eq_false hfull]

theorem replayPlacements_spec (mint : Minting) (k : Nat) {ps : List ProposedPlacement}
    (h : SimServes pool away touched l sim) (hps : ∀ p ∈ ps, p.node ∈ touched) :
    (replayPlacements sim ps).1 = (mintPlacements mint k ps).foldl simPlacement sim ∧
    (replayPlacements sim ps).2 = (served (drawn pool l)
      ((mintPlacements mint k ps).flatMap Placement.demands)).map Prod.snd := by
  induction ps generalizing k l sim with
  | nil => exact ⟨rfl, rfl⟩
  | cons p ps ih =>
    have hp := hps p (by simp)
    have hstep : SimServes pool away touched (l ++ (p.toPlacement (mint k)).demands)
        (simPlacement sim (p.toPlacement (mint k))) := h.placement rfl hp
    obtain ⟨hfst, hsnd⟩ := ih (k + 1) hstep fun q hq => hps q (mem_cons_of_mem p hq)
    have hflag := replayPlacement_snd h p (mint k) hp
    rw [← replayPlacement_fst sim p (mint k)] at hfst hsnd
    refine ⟨?_, ?_⟩
    · rw [replayPlacements, mintPlacements, foldl_cons, ← replayPlacement_fst sim p (mint k)]
      exact hfst
    · rw [mintPlacements, flatMap_cons, served, Serve.serve_append, map_append, ← hflag,
        replayPlacements]
      simp [hsnd, drawn]

end Replay

/-! ## The prediction and the outcome -/

section Outcome

variable {s : StateMachine} {q : PlacementProposal} {mint : Minting}

/-- The replay of a batch. -/
theorem replayBatch_spec (hC : Consistent s) (mint : Minting) :
    (replayBatch s (freeCapacityMap s) q.revocations q.placements).1 =
      s.simulateAccruals (q.toCommitPlacements mint) q.revocations s.usedCapacityMemo ∧
    (replayBatch s (freeCapacityMap s) q.revocations q.placements).2 =
      (served (drawn (s.simRoom q.revocations)
        ((s.touchedNodes (q.toCommitPlacements mint) q.revocations).keys.flatMap
          (s.waits q.revocations)))
        ((q.toCommitPlacements mint).placements.flatMap Placement.demands)).map Prod.snd := by
  have hstart : Draining s q.revocations ⟨s.survivingJobs q.revocations, .empty, .empty⟩ [] :=
    Draining.start hC.linked
  have hdrained := hstart.foldl hC.linked
    (s.touchedNodes (q.toCommitPlacements mint) q.revocations).keys (OrdMap.keys_nodup _) (by simp)
  rw [append_nil] at hdrained
  have hserves := hdrained.serves (OrdMap.keys_nodup _)
  have hnodes : ∀ p ∈ q.placements, p.node ∈
      (s.touchedNodes (q.toCommitPlacements mint) q.revocations).keys := by
    have hmem (k : Nat) (ps : List ProposedPlacement) : ∀ p ∈ ps, ∃ ids, p.toPlacement ids ∈
        mintPlacements mint k ps := by
      induction ps generalizing k with
      | nil => simp
      | cons p0 ps ih =>
        intro p hp
        rcases mem_cons.mp hp with rfl | hp
        · exact ⟨mint k, mem_cons_self⟩
        · obtain ⟨ids, hids⟩ := ih (k + 1) p hp
          exact ⟨ids, mem_cons_of_mem _ hids⟩
    intro p hp
    obtain ⟨ids, hids⟩ := hmem 0 q.placements p hp
    exact StateMachine.BatchOk.touched _ hids ⟨ids.2, p.node, p.requested⟩ mem_cons_self
  have htouched : replayNodes s q.revocations q.placements =
      s.touchedNodes (q.toCommitPlacements mint) q.revocations :=
    (flatMap_mintPlacements mint 0 q.placements _).symm
  unfold replayBatch
  simp only [htouched, replayNode_eq]
  exact replayPlacements_spec mint 0 hserves hnodes

/-- The allocation is in `state` in `t`. -/
def StartsAs (t : StateMachine) (al : AllocationId) (state : AllocationState) : Prop :=
  ∃ r, t.allocations.get? al = some r ∧ r.allocation.state = state

/-- The batch of the proposal that a pass ends with. -/
def batchOf (s : StateMachine) (now : Timestamp) (revocations : List AllocationId)
    (placements : List ProposedPlacement) (mint : Minting) : CommitPlacements :=
  (intoProposal s now revocations placements).toCommitPlacements mint

/-- The prediction of the replay is what apply makes of the batch: every placement
    of the proposal is fully funded as it says, and the jobs counted as accruing
    are those that accrue. -/
structure Predicts (s t : StateMachine) (now : Timestamp) (revocations : List AllocationId)
    (placements : List ProposedPlacement) (mint : Minting) : Prop where
  funded : ∀ i, i < placements.length → ∃ p,
    (intoProposal s now revocations placements).placements[i]? = some p ∧
    StartsAs t (mint i).2 (if p.expectFunded = true then .funded else .accruing)
  accruing : ∀ j, (replayBatch s (freeCapacityMap s) revocations placements).1.accruing.get? j =
    some () ↔ j ∈ t.accruingJobs

theorem getElem?_demands (mint : Minting) (k i : Nat) (ps : List ProposedPlacement) :
    ((mintPlacements mint k ps).flatMap Placement.demands)[i]? =
      (ps[i]?).map fun p => ⟨(mint (k + i)).2, p.node, p.job, p.requested⟩ := by
  induction ps generalizing k i with
  | nil => simp [mintPlacements]
  | cons p ps ih =>
    cases i with
    | zero => rfl
    | succ i =>
      have hstep := ih (k + 1) i
      rw [Nat.add_right_comm] at hstep
      exact hstep

theorem length_replayPlacements (sim : AccrualSim) (ps : List ProposedPlacement) :
    (replayPlacements sim ps).2.length = ps.length := by
  induction ps generalizing sim with
  | nil => rfl
  | cons p ps ih => exact congrArg (· + 1) (ih _)

/-- Flags do not matter to the command. -/
theorem mintPlacements_zipWith (k : Nat) {ps : List ProposedPlacement} {flags : List Bool}
    (h : flags.length = ps.length) :
    mintPlacements mint k (ps.zipWith (fun p funded => { p with expectFunded := funded }) flags) =
      mintPlacements mint k ps := by
  induction ps generalizing k flags with
  | nil => simp
  | cons p ps ih =>
    cases flags with
    | nil => cases h
    | cons flag flags =>
      rw [zipWith_cons_cons, mintPlacements, mintPlacements, ih _ (Nat.succ.inj h)]
      rfl

theorem batchOf_eq (s : StateMachine) (now : Timestamp) (revocations : List AllocationId)
    (placements : List ProposedPlacement) (mint : Minting) :
    batchOf s now revocations placements mint =
      PlacementProposal.toCommitPlacements ⟨s.version, now, revocations, placements⟩ mint :=
  congrArg (CommitPlacements.mk s.version revocations · now)
    (mintPlacements_zipWith 0 (length_replayPlacements _ _))

/-- The simulated verdict on the demand of the `i`-th placement is its flag. -/
theorem getElem?_funded (hC : Consistent s) (mint : Minting) {i : Nat} {p : ProposedPlacement}
    (hp : q.placements[i]? = some p) :
    ∃ flag, (simulateBatch s (freeCapacityMap s) q.revocations q.placements).funded[i]? =
        some flag ∧
      ((⟨(mint i).2, p.node, p.job, p.requested⟩ : Demand), flag) ∈
        served (s.simRoom q.revocations) (s.demands (q.toCommitPlacements mint)) := by
  have hflags : (simulateBatch s (freeCapacityMap s) q.revocations q.placements).funded =
      (replayBatch s (freeCapacityMap s) q.revocations q.placements).2 := rfl
  rw [hflags, (replayBatch_spec hC mint).2]
  have hdemand := getElem?_demands mint 0 i q.placements
  rw [hp, Nat.zero_add, Option.map_some] at hdemand
  -- the verdicts are listed with the demands
  set P := (q.toCommitPlacements mint).placements.flatMap Placement.demands
  set pool := drawn (s.simRoom q.revocations)
    ((s.touchedNodes (q.toCommitPlacements mint) q.revocations).keys.flatMap
      (s.waits q.revocations))
  have hfst : (served pool P)[i]?.map Prod.fst = some ⟨(mint i).2, p.node, p.job, p.requested⟩ := by
    rw [← getElem?_map, Serve.map_fst_serve]
    exact hdemand
  obtain ⟨⟨x, flag⟩, hx, rfl⟩ := Option.map_eq_some_iff.mp hfst
  refine ⟨flag, by rw [getElem?_map, hx]; rfl, ?_⟩
  have hsplit : served (s.simRoom q.revocations) (s.demands (q.toCommitPlacements mint)) =
      served (s.simRoom q.revocations)
        ((s.touchedNodes (q.toCommitPlacements mint) q.revocations).keys.flatMap
          (s.waits q.revocations)) ++ served pool P := Serve.serve_append _ _ _
  rw [hsplit]
  exact mem_append_right _ (mem_of_getElem? hx)

/-- The simulated verdict on a placement is what the proposal says of it. -/
theorem expectFunded_verdict (hC : Consistent s) (now : Timestamp) (revocations : List AllocationId)
    {placements : List ProposedPlacement} {i : Nat} {p : ProposedPlacement}
    (hp : placements[i]? = some p) : ∃ p',
      (intoProposal s now revocations placements).placements[i]? = some p' ∧
      ((⟨(mint i).2, p.node, p.job, p.requested⟩ : Demand), p'.expectFunded) ∈
        served (s.simRoom revocations)
          (s.demands (batchOf s now revocations placements mint)) := by
  obtain ⟨flag, hflag, hmem⟩ := getElem?_funded hC mint
    (q := ⟨s.version, now, revocations, placements⟩) hp
  rw [batchOf_eq]
  refine ⟨{ p with expectFunded := flag }, ?_, hmem⟩
  rw [intoProposal, getElem?_zipWith, hp, hflag]

/-- The replay predicts an accepted batch when no revoked hold lies in a dimension
    in which its node holds more than it advertises.  In general it does so exactly
    when the simulated room and the real one meet the same demands.  In any case a
    placement that is funded was expected to be, and what is counted as accruing
    accrues. -/
theorem simulateBatch_predicts_iff {s : StateMachine} (h : Reachable s) (now : Timestamp)
    (revocations : List AllocationId) (placements : List ProposedPlacement) (mint : Minting)
    {applied : Applied}
    (hok : (s.apply (.commitPlacements (batchOf s now revocations placements mint))).2 =
      .ok applied) :
    let t := (s.apply (.commitPlacements (batchOf s now revocations placements mint))).1
    (RevocationsCovered s revocations → Predicts s t now revocations placements mint) ∧
    (Predicts s t now revocations placements mint ↔
      StateMachine.ServedAlike s (batchOf s now revocations placements mint)) ∧
    (∀ i p, (intoProposal s now revocations placements).placements[i]? = some p →
      StartsAs t (mint i).2 .funded → p.expectFunded = true) ∧
    ∀ j, (replayBatch s (freeCapacityMap s) revocations placements).1.accruing.get? j =
      some () → j ∈ t.accruingJobs := by
  intro t
  have hC := h.consistent
  have hsim : (replayBatch s (freeCapacityMap s) revocations placements).1 =
      s.simulateAccruals (batchOf s now revocations placements mint) revocations
        s.usedCapacityMemo := by
    rw [batchOf_eq]
    exact (replayBatch_spec hC mint (q := ⟨s.version, now, revocations, placements⟩)).1
  have hverdict {i : Nat} {p} := @expectFunded_verdict s mint hC now revocations placements i p
  have hrev : (batchOf s now revocations placements mint).revocations = revocations := rfl
  have ht : t = (s.apply (.commitPlacements (batchOf s now revocations placements mint))).1 := rfl
  clear_value t
  generalize hc : batchOf s now revocations placements mint = c at *
  subst hrev
  have hcommits : StateMachine.Commits s c := commitPlacements_commits hok
  have hbatch := hcommits.ok
  have hlands := commitEffects_lands hC hbatch
  -- the version the command bumps is not looked at
  have hstate : (s.commitPlacements c).1 = (s.committing c).st :=
    hcommits.state
  have hallocs : t.allocations = (s.committing c).st.allocations := by
    rw [ht, ← hstate]
    rfl
  have hjobs j : j ∈ t.accruingJobs ↔
      ∃ n, AccruesOn (s.committing c).st n j := by
    rw [← mem_accruingJobs, accruingJobs, accruingJobs, hallocs]
  have halike := servedAlike_iff hC hbatch
  have hstarts x b (hx : (x, b) ∈ served (s.room c.revocations) (s.demands c)) :
      StartsAs t x.allocation (if b = true then .funded else .accruing) := by
    rw [StartsAs, hallocs]
    exact hlands.verdict x b hx
  have hpredicts : Predicts s t now c.revocations placements mint ↔
      StateMachine.ServedAlike s c := by
    refine ⟨fun hpred => halike.mpr fun j => ?_, fun hal => ⟨fun i hi => ?_, fun j => ?_⟩⟩
    · rw [← hjobs, ← hpred.accruing, hsim]
    · obtain ⟨p, hp, hmem⟩ := hverdict (List.getElem?_eq_getElem hi)
      exact ⟨p, hp, hstarts _ _ (Eq.mp (congrArg (_ ∈ ·) hal) hmem)⟩
    · rw [hjobs, hsim]
      exact halike.mp hal j
  refine ⟨fun hcov => hpredicts.mpr (hbatch.servedAlike hC hcov), hpredicts,
    fun i p hp hfunded => ?_, fun j hj => ?_⟩
  · have hi : i < placements.length := by
      have hlen := (List.getElem?_eq_some_iff.mp hp).1
      simp only [intoProposal, length_zipWith] at hlen
      omega
    obtain ⟨p', hp', hmem⟩ := hverdict (List.getElem?_eq_getElem hi)
    cases hp.symm.trans hp'
    cases hflag : p.expectFunded with
    | true => rfl
    | false =>
      -- what the simulation leaves unmet really is
      rw [hflag] at hmem
      obtain ⟨r, hr, hst⟩ := hstarts _ false
        (Serve.unmet_mono (fun n d => (hbatch.room_le hC n d).1) hmem)
      obtain ⟨r', hr', hst'⟩ := hfunded
      cases hr.symm.trans hr'
      cases hst.symm.trans hst'
  · rw [hsim] at hj
    exact (hjobs j).mpr (accrues_of_simulated hC hbatch hj)

open State.Sample

/-- The job of the accrual, to be seated again. -/
def Sample.reseat : List ProposedPlacement := [⟨3, 1, cpu 5, true, []⟩]

/-- A covered accrual is revoked and its job seated again: it is expected to accrue, and does. -/
theorem simulateBatch_predicts_busy :
    Predicts (run busy) ((run busy).apply
        (.commitPlacements (batchOf (run busy) epoch [3] Sample.reseat fun i => (i + 5, i + 5)))).1
      epoch [3] Sample.reseat (fun i => (i + 5, i + 5)) ∧
    (intoProposal (run busy) epoch [3] Sample.reseat).placements.map (·.expectFunded) =
      [false] := by
  have hok : ((run busy).apply (.commitPlacements
      (batchOf (run busy) epoch [3] Sample.reseat fun i => (i + 5, i + 5)))).2.isOk = true := by
    decide +kernel
  refine ⟨?_, by decide +kernel⟩
  cases hres : ((run busy).apply (.commitPlacements
      (batchOf (run busy) epoch [3] Sample.reseat fun i => (i + 5, i + 5)))).2 with
  | ok applied =>
    exact (simulateBatch_predicts_iff (reachable_run busy) epoch [3] Sample.reseat
      (fun i => (i + 5, i + 5)) hres).1 covered_busy
  | error reason => simp [hres, Except.isOk, Except.toBool] at hok

/-- Two jobs for a shrunken node. -/
def Sample.refill : List ProposedPlacement := [⟨3, 1, cpu 2, false, []⟩, ⟨4, 1, cpu 5, false, []⟩]

/-- The node holds ten units and advertises six, so the two that are revoked are
    not free; the replay takes them for free and expects the first placement to be
    funded, which accrues. -/
theorem shrunk_node_mispredicted :
    Reachable (run shrunk.dropLast) ∧
    ((run shrunk.dropLast).apply (.commitPlacements
      (batchOf (run shrunk.dropLast) epoch [2] Sample.refill fun i => (i + 3, i + 3)))).2.isOk =
        true ∧
    (intoProposal (run shrunk.dropLast) epoch [2] Sample.refill).placements.map
      (·.expectFunded) = [true, false] ∧
    StartsAs ((run shrunk.dropLast).apply (.commitPlacements
      (batchOf (run shrunk.dropLast) epoch [2] Sample.refill fun i => (i + 3, i + 3)))).1 3
        .accruing := by
  refine ⟨reachable_run shrunk.dropLast, by decide +kernel, by decide +kernel, ?_⟩
  have hstate : (((run shrunk.dropLast).apply (.commitPlacements
      (batchOf (run shrunk.dropLast) epoch [2] Sample.refill fun i =>
        (i + 3, i + 3)))).1.allocations.get? 3).map (fun r => r.allocation.state) =
      some .accruing := by decide +kernel
  exact Option.map_eq_some_iff.mp hstate

end Outcome

end Coppice.Scheduler
