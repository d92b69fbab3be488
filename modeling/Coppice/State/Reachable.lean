/-
  Coppice.State.Reachable

  Runs of the state machine: every reachable state satisfies the invariant,
  so jobs, attempts and allocations agree in it, and no command funds more
  than a node has.
-/

import Coppice.State.Batch
import Coppice.State.Writes
import Coppice.Lib.Run

namespace Coppice.State

open Lib Coppice.Core StateMachine

/-! ## The invariant along runs -/

/-- Reached from the default state by some sequence of commands. -/
def Reachable (s : StateMachine) : Prop :=
  Reach default (fun s c => (s.apply c).1) (fun _ _ => True) s

variable {s : StateMachine} {id : AttemptId}

theorem Reachable.foldl_apply (h : Reachable s) (cmds : List Command) :
    Reachable (cmds.foldl (fun s c => (s.apply c).1) s) :=
  Reach.foldl cmds _ h fun _ _ _ => trivial

theorem reachable_run (cmds : List Command) :
    Reachable (cmds.foldl (fun s c => (s.apply c).1) default) :=
  Reachable.foldl_apply .init cmds

namespace StateMachine

theorem default_consistent : Consistent default := by
  refine ⟨⟨?_, ?_, ?_, ?_, ?_, ?_, ?_, ?_, ?_, ?_, ?_⟩, ⟨?_, ?_, ?_, ?_⟩, ?_, ?_⟩
  all_goals simp [default, ConservedOn, HoldsFit, heldOn]

/-- Every command other than a batch. -/
theorem Step.kept (hstep : Step s c out) (h : Consistent s) (hc : ∀ b, c ≠ .commitPlacements b) :
    Kept s out.1 := by
  have hstart := h.sound ∅ []
  cases hstep with
  | reject | noop => exact h.kept_self
  | submit hnew hr => exact submitted_kept h hnew hr.state hr.attempts
  | abortIdle hab hidle => exact abortIdle_kept h hab hidle
  | abortUndispatched => exact abortUndispatched_kept h _ _
  | abortDispatched | abortEnding => exact (s.aborting_quiet _).kept h
  | metadata => exact Quiet.kept (.modifyJob s _ _ fun _ _ => ⟨fun _ => .rfl, rfl⟩) h
  | commit => exact absurd rfl (hc _)
  | dispatchAttempt ha hst =>
    obtain ⟨hS, hset⟩ := hstart.attemptTransition .dispatching ha (.inl ⟨hst, rfl⟩)
    exact hS.kept hset
  | @started c _ ha hst =>
    obtain ⟨hS, hset⟩ := hstart.markAttemptRunning c.observedAt ha hst
    exact hS.kept hset
  | exited ha hst =>
    obtain ⟨hS, hset⟩ := hstart.attemptTransition .finalizing ha (.inr ⟨hst, rfl⟩)
    exact hS.kept hset
  | @outcome c =>
    obtain ⟨hS, hset, -⟩ := hstart.terminateAny c.attempt c.outcome c.actualRuntime
      c.observedAt true (fun _ _ _ => rfl)
    exact hS.kept hset
  | notified => exact Quiet.kept (.modifyAttempt s _ _ fun _ => ⟨rfl, rfl, rfl, rfl, rfl⟩) h
  | @reconcile c =>
    obtain ⟨h1, hs1⟩ := Sound.foldl (adoptOne_sound c.observedAt) c.adopted _ hstart
    obtain ⟨h2, hs2⟩ := Sound.foldl (loseOne_sound c.observedAt) c.lost _ h1
    exact h2.kept (hs1.trans hs2)
  | register c => exact registerNode_kept h c
  | lost hn => exact declareNodeLost_kept h hn
  | setDrain drain => exact (s.setDrainRecord_quiet _ drain).kept h
  | setDraining => exact Quiet.kept (.modifyNode s _ _ fun _ => rfl) h
  | @evictJobs c hterm =>
    obtain ⟨h', hsw⟩ := evictJobs_spec c.jobs (Effects.start s) h hterm
    exact hsw.kept h'
  | evictNodes hempty =>
    refine evictNodes_kept h fun n hn hne al r hr hnode => ?_
    obtain ⟨x, hx⟩ := Option.ne_none_iff_exists'.mp hne
    exact (hempty n hn x hx).2 al r hr hnode
  | renew => exact (s.renewAll_quiet _ _).kept h
  | setting _ hset =>
    obtain ⟨⟨hj, ha, hal, hq, hseq⟩, hn, -⟩ := hset
    exact (Quiet.of_eq hj ha hal hq hseq hn).kept h

/-- The version counter is outside the invariant. -/
theorem version_quiet (s : StateMachine) (v : UInt64) : Quiet s { s with version := v } :=
  .of_eq rfl rfl rfl rfl rfl rfl

theorem apply_kept (h : Consistent s) (c : Command) (hc : ∀ b, c ≠ .commitPlacements b) :
    Kept s (s.apply c).1 := by
  have hk := (s.dispatch_step c).kept h hc
  have hq := version_quiet (s.dispatch c).1 ((s.dispatch c).1.version + 1)
  exact ⟨(hq.kept hk.consistent).consistent, hk.bounded, hk.accruing⟩

theorem apply_consistent (h : Consistent s) (c : Command) :
    Consistent (s.apply c).1 ∧ HoldsBounded s (s.apply c).1 := by
  by_cases hc : ∃ b, c = .commitPlacements b
  · obtain ⟨b, rfl⟩ := hc
    obtain ⟨hC, hb⟩ := commitPlacements_consistent h b
    have hq := version_quiet (s.commitPlacements b).1 ((s.commitPlacements b).1.version + 1)
    exact ⟨(hq.kept hC).consistent, hb⟩
  · have hk := apply_kept h c fun b e => hc ⟨b, e⟩
    exact ⟨hk.consistent, hk.bounded⟩

end StateMachine

theorem Reachable.consistent (h : Reachable s) : Consistent s :=
  Reach.invariant Consistent default_consistent
    (fun _ c hs _ => (apply_consistent hs c).1) h

/-! ## Jobs, attempts and allocations -/

/-- The allocation state that goes with an attempt state. -/
def allocationStateOf : AttemptState → AllocationState
  | .accruing => .accruing
  | .ready | .dispatching => .funded
  | .running | .finalizing => .active
  | .terminal _ => .released

theorem InStep.eq_allocationStateOf (h : InStep a r) : r = allocationStateOf a := by
  cases a <;> cases r <;> simp_all [InStep, allocationStateOf]

/-- `id` is a non-terminal attempt of `job`. -/
def LiveAttempt (s : StateMachine) (job : JobId) (id : AttemptId) : Prop :=
  ∃ a, s.attempts.get? id = some a ∧ a.attempt.state.isTerminal = false ∧ a.attempt.job = job

/-- The attempt and its allocation carry each other's ids and matching states. -/
structure AllocationAgrees (s : StateMachine) (id : AttemptId) (a : AttemptRecord)
    (r : AllocationRecord) : Prop where
  found : s.allocations.get? a.attempt.allocation = some r
  ids : a.attempt.id = id ∧ r.allocation.id = a.attempt.allocation
  job : r.allocation.job = a.attempt.job
  node : r.allocation.node = a.attempt.node
  attempt : r.allocation.attempt = id
  state : r.allocation.state = allocationStateOf a.attempt.state
  funded_le : ∀ d, r.allocation.funded.get d ≤ r.allocation.requested.get d
  accruing_ne : r.allocation.state = .accruing → r.allocation.funded ≠ r.allocation.requested
  /-- Among allocations that still hold capacity, full funding is what the state says. -/
  full_iff : r.allocation.state ≠ .released →
    (r.allocation.funded = r.allocation.requested ↔
      r.allocation.state = .funded ∨ r.allocation.state = .active)

/-- How the three maps agree. -/
structure MapsAgree (s : StateMachine) : Prop where
  attempting_iff : ∀ {j rec}, s.jobs.get? j = some rec → ∀ id,
    rec.state = .attempting id ↔ LiveAttempt s j id
  only : ∀ {j rec id}, s.jobs.get? j = some rec → rec.state = .attempting id →
    (∀ i, LiveAttempt s j i → i = id) ∧ rec.attempts.getLast? = some id
  owner : ∀ {j id}, LiveAttempt s j id →
    ∃ rec, s.jobs.get? j = some rec ∧ rec.state = .attempting id
  allocation : ∀ {id a}, s.attempts.get? id = some a → ∃ r, AllocationAgrees s id a r

theorem Consistent.current (h : Consistent s) (hlive : LiveAttempt s j id) :
    ∃ rec, s.jobs.get? j = some rec ∧ rec.state = .attempting id ∧
      rec.attempts.getLast? = some id := by
  obtain ⟨a, ha, hl, rfl⟩ := hlive
  exact h.jobs.current ha hl

theorem Consistent.allocationAgrees (h : Consistent s) {a : AttemptRecord}
    (ha : s.attempts.get? id = some a) : ∃ r, AllocationAgrees s id a r := by
  obtain ⟨r, hr, ht⟩ := h.linked.allocation_of ha
  have hfr := h.linked.funding hr
  refine ⟨r, hr, ⟨h.linked.attempt_id ha, h.linked.allocation_id hr⟩, ht.job, ht.node, ht.attempt,
    (ht.step (by simp)).eq_allocationStateOf, hfr.le, hfr.accruing, fun hrel => ?_⟩
  cases hst : r.allocation.state with
  | accruing => simpa [hst] using hfr.accruing hst
  | funded => simpa [hst] using hfr.funded hst
  | active => simpa [hst] using hfr.active hst
  | released => exact absurd hst hrel

/-- In every reachable state jobs, attempts and allocations agree. -/
theorem reachable_mapsAgree {s : StateMachine} (h : Reachable s) : MapsAgree s := by
  have hC := h.consistent
  refine ⟨fun {j rec} hj id => ⟨fun hst => ?_, fun hlive => ?_⟩, fun {j rec id} hj hst => ⟨?_, ?_⟩,
    fun hlive => ?_, fun ha => hC.allocationAgrees ha⟩
  · obtain ⟨a, ha, hjob, hl⟩ := hC.jobs.attempting hj hst
    exact ⟨a, ha, hl, hjob⟩
  · obtain ⟨rec', hj', hst, -⟩ := hC.current hlive
    rw [hj] at hj'
    cases hj'
    exact hst
  · intro i hlive
    obtain ⟨rec', hj', hst', -⟩ := hC.current hlive
    rw [hj] at hj'
    cases hj'
    rw [hst] at hst'
    cases hst'
    rfl
  · obtain ⟨a, ha, hjob, hl⟩ := hC.jobs.attempting hj hst
    obtain ⟨rec', hj', -, hlast⟩ := hC.current ⟨a, ha, hl, hjob⟩
    rw [hj] at hj'
    cases hj'
    exact hlast
  · obtain ⟨rec, hj, hst, -⟩ := hC.current hlive
    exact ⟨rec, hj, hst⟩

open Sample

/-- A state with a finished, a ready and an accruing attempt. -/
theorem reachable_mapsAgree_busy : (run busy).attempts.entries.length = 3 ∧ MapsAgree (run busy) :=
  ⟨by decide +kernel, reachable_mapsAgree (reachable_run busy)⟩

/-- A released allocation keeps what it was funded with, so full funding alone
    does not make an allocation `Funded` or `Active`. -/
theorem released_fully_funded :
    ∃ s, Reachable s ∧ ∃ id a r, s.attempts.get? id = some a ∧
      s.allocations.get? a.attempt.allocation = some r ∧
      ¬(r.allocation.funded = r.allocation.requested ↔
        r.allocation.state = .funded ∨ r.allocation.state = .active) := by
  -- the first job's attempt succeeded
  have hatt : ((run busy).attempts.get? 1).map (fun a => a.attempt.allocation) =
      some 1 := by decide +kernel
  have hall : ((run busy).allocations.get? 1).map (fun r =>
      (r.allocation.funded, r.allocation.requested, r.allocation.state)) =
        some (cpu 8, cpu 8, .released) := by decide +kernel
  obtain ⟨a, ha, hal⟩ := Option.map_eq_some_iff.mp hatt
  obtain ⟨r, hr, hrec⟩ := Option.map_eq_some_iff.mp hall
  simp only [Prod.mk.injEq] at hrec
  obtain ⟨hfunded, hrequested, hstate⟩ := hrec
  refine ⟨run busy, reachable_run busy, 1, a, r, ha, by rw [hal, hr], ?_⟩
  rw [hfunded, hrequested, hstate]
  simp

/-! ## Capacity -/

/-- No command funds more on a node than it held or advertises, and the
    saturating sums are the exact ones. -/
theorem apply_holdsBounded {s : StateMachine} (h : Reachable s) (c : Command) :
    (∀ node d, (s.apply c).1.heldOn node d ≤
      max (s.heldOn node d) ((s.apply c).1.capacityOf node d)) ∧
    ∀ node d, s.heldOn node d ≤ u64Max ∧ (s.usedHere node).get d = s.heldOn node d ∧
      ((s.usedCapacityMemo.get? node).getD .zero).get d = s.heldOn node d ∧
      (s.freeCapacity node none).get d = s.capacityOf node d - s.heldOn node d ∧
      (s.freeCapacity node (some s.usedCapacityMemo)).get d =
        s.capacityOf node d - s.heldOn node d := by
  have hC := h.consistent
  refine ⟨(apply_consistent hC c).2, fun node d => ?_⟩
  have hfit := hC.fit node d
  refine ⟨hfit, ?_, ?_, ?_, ?_⟩
  · rw [s.usedHere_get]
    exact Nat.min_eq_left hfit
  · rw [s.usedCapacityMemo_get]
    exact Nat.min_eq_left hfit
  · exact @freeCapacity_get ⟨s, [], none⟩ hC.fit (memoExact_none s []) node d
  · exact @freeCapacity_get ⟨s, [], some s.usedCapacityMemo⟩ hC.fit
      (memoExact_usedCapacityMemo hC.fit []) node d

/-- The node shrinks below its holds; a further batch seats nothing on it. -/
theorem apply_holdsBounded_busy :
    (run (busy ++ [register 4])).heldOn 1 .cpuMillis = 10 ∧
    (((run (busy ++ [register 4])).apply
      (commit [3] [])).1.heldOn 1 .cpuMillis ≤
      max ((run (busy ++ [register 4])).heldOn 1 .cpuMillis)
        (((run (busy ++ [register 4])).apply
          (commit [3] [])).1.capacityOf 1 .cpuMillis)) :=
  ⟨by decide +kernel, (apply_holdsBounded (reachable_run _) _).1 1 _⟩

end Coppice.State
