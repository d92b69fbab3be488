/-
  Coppice.Coordinator.Resumption

  What a start tells an attempt about its job's past: `resumption_identity` of
  `coppice-coordinator/src/tasks/dispatch.rs`.  Whatever comes before an attempt in
  its lineage is over, so the guard against one that is not never applies.
-/

import Coppice.State.History

namespace Coppice.Coordinator

open Coppice.Core State

/-! ## The identity of a start -/

structure ResumptionIdentity where
  index : Nat
  previous : Option (AttemptId × AttemptOutcome)

/-- The index is a `u32`, which a position above it does not fit. -/
def resumptionIdentity (state : StateMachine) (job : JobRecord) (attempt : AttemptId) :
    ResumptionIdentity :=
  let position := job.attempts.idxOf attempt
  let earlier := (job.attempts.take position).reverse.filterMap fun id =>
    (state.attempts.get? id).map fun r => (id, r)
  ⟨min position u32Max, (earlier.find? fun x => x.2.startedAt.isSome).bind fun x =>
    match x.2.attempt.state with
    | .terminal outcome => some (x.1, outcome)
    | _ => none⟩

/-- The attempt ran. -/
def Started (s : StateMachine) (id : AttemptId) : Prop :=
  (s.attempts.get? id).any (fun r => r.startedAt.isSome) = true

/-- An attempt stands once in its lineage and all before it are over.  The identity has its
    position, and the last one before it that ran, with its outcome; none exactly when none
    before it ran. -/
theorem resumption_identity_exact {s : StateMachine} (h : Reachable s) {id : AttemptId}
    {a : AttemptRecord} (ha : s.attempts.get? id = some a) :
    ∃ r earlier later, s.jobs.get? a.attempt.job = some r ∧ r.attempts = earlier ++ id :: later ∧
      r.attempts.Nodup ∧ (resumptionIdentity s r id).index = min earlier.length u32Max ∧
      (∀ i ∈ earlier, ∃ b outcome, s.attempts.get? i = some b ∧ b.attempt.job = a.attempt.job ∧
        b.attempt.state = .terminal outcome) ∧
      ((resumptionIdentity s r id).previous = none ↔ ∀ i ∈ earlier, ¬Started s i) ∧
      ∀ i outcome, (resumptionIdentity s r id).previous = some (i, outcome) →
        ∃ before after b, earlier = before ++ i :: after ∧ (∀ k ∈ after, ¬Started s k) ∧
          Started s i ∧ s.attempts.get? i = some b ∧ b.attempt.state = .terminal outcome := by
  have hjobs := h.consistent.jobs
  obtain ⟨r, hr, hmem⟩ := hjobs.lineage ha
  obtain ⟨earlier, later, hline⟩ := List.append_of_mem hmem
  have hnodup := h.distinct _ _ hr
  have hdisj : ∀ i ∈ earlier, i ∉ id :: later := by
    rw [hline] at hnodup
    exact fun i hi => List.disjoint_of_nodup_append hnodup hi
  -- a live attempt is the last of its lineage
  have hover : ∀ i ∈ earlier, ∃ b outcome, s.attempts.get? i = some b ∧
      b.attempt.job = a.attempt.job ∧ b.attempt.state = .terminal outcome := by
    intro i hi
    obtain ⟨b, hb, hbj⟩ := hjobs.lineage_job hr (hline ▸ List.mem_append_left _ hi)
    cases hst : b.attempt.state with
    | terminal outcome => exact ⟨b, outcome, hb, hbj, hst⟩
    | _ =>
      obtain ⟨r', hr', -, hlast⟩ := hjobs.current hb (by rw [hst]; rfl)
      rw [hbj, hr] at hr'
      cases hr'
      rw [hline, List.getLast?_append_of_ne_nil _ (List.cons_ne_nil _ _)] at hlast
      exact absurd (List.mem_of_getLast? hlast) (hdisj i hi)
  have hposition : r.attempts.idxOf id = earlier.length := by
    rw [hline, List.idxOf_append_of_notMem fun hin => hdisj id hin List.mem_cons_self,
      List.idxOf_cons_self, Nat.add_zero]
  have hprevious : (resumptionIdentity s r id).previous =
      ((earlier.reverse.find? fun i => ((s.attempts.get? i).map fun b => (i, b)).any
        fun x => x.2.startedAt.isSome).bind fun i => (s.attempts.get? i).map fun b => (i, b)).bind
          fun x => match x.2.attempt.state with
            | .terminal outcome => some (x.1, outcome)
            | _ => none := by
    simp only [resumptionIdentity, hposition]
    rw [hline, List.take_left, List.find?_filterMap]
  refine ⟨r, earlier, later, hr, hline, hnodup, by simp only [resumptionIdentity, hposition],
    hover, ?_⟩
  rw [hprevious]
  cases hfind : earlier.reverse.find? _ with
  | none =>
    have hnone : ∀ i ∈ earlier, ¬Started s i := by
      simpa [Started, Option.any_map, Function.comp_def] using hfind
    simpa using hnone
  | some i =>
    obtain ⟨hi, after, before, hsplit, hafter⟩ := List.find?_eq_some_iff_append.mp hfind
    have hearlier : earlier = before.reverse ++ i :: after.reverse := by
      rw [← List.reverse_reverse earlier, hsplit]
      simp
    have hmem : i ∈ earlier := hearlier ▸ List.mem_append_right _ List.mem_cons_self
    obtain ⟨b, outcome, hb, -, hst⟩ := hover i hmem
    have hstarted : Started s i := by simpa [Started, Option.any_map, Function.comp_def] using hi
    simp only [Option.bind_some, hb, Option.map_some, hst, Option.some.injEq, Prod.mk.injEq]
    refine ⟨⟨by simp, fun hnone => absurd hstarted (hnone i hmem)⟩, ?_⟩
    rintro _ _ ⟨rfl, rfl⟩
    refine ⟨before.reverse, after.reverse, b, hearlier, fun k hk => ?_, hstarted, hb, hst⟩
    simpa [Started, Option.any_map, Function.comp_def] using hafter k (List.mem_reverse.mp hk)

open Sample

/-- A first attempt runs and is lost, a second never starts, a third is seated. -/
def Sample.thirdTry : List Command :=
  [configure, register 10, submit 1 8, commit [] [place 1 8], send 1, start 1,
    .recordAttemptOutcome ⟨1, .nodeLost, .zero, epoch⟩, commit [] [⟨1, 2, 1, [⟨2, 1, cpu 8⟩], []⟩],
    send 2, .recordAttemptOutcome ⟨2, .agentError, .zero, epoch⟩,
    commit [] [⟨1, 3, 1, [⟨3, 1, cpu 8⟩], []⟩], send 3]

theorem resumption_identity_exact_thirdTry :
    ∃ r, (run Sample.thirdTry).jobs.get? 1 = some r ∧ r.attempts.Nodup ∧
      (resumptionIdentity (run Sample.thirdTry) r 3).previous = some (1, .nodeLost) := by
  have hjob : ((run Sample.thirdTry).attempts.get? 3).map (·.attempt.job) = some 1 := by
    decide +kernel
  have heval : ((run Sample.thirdTry).jobs.get? 1).map
      (fun r => (resumptionIdentity (run Sample.thirdTry) r 3).previous) =
        some (some (1, .nodeLost)) := by decide +kernel
  obtain ⟨a, ha, hj⟩ := Option.map_eq_some_iff.mp hjob
  obtain ⟨r, -, -, hr, -, hnodup, -⟩ := resumption_identity_exact (s := run _) (reachable_run _) ha
  rw [hj] at hr
  rw [hr] at heval
  exact ⟨r, hr, hnodup, Option.some.inj heval⟩

end Coppice.Coordinator
