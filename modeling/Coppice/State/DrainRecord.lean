/-
  Coppice.State.DrainRecord

  The drain record of a node.  Its first request stands, a deadline is never taken
  back and moves only before the notices of the recorded one begin, and what is
  placed on the node ends before they do.
-/

import Coppice.State.Reachable
import Coppice.State.Screening

namespace Coppice.State

open Lib Coppice.Core StateMachine OrdMap NodeAdmission

/-- The drain record of a node. -/
def StateMachine.drainOf (s : StateMachine) (node : NodeId) : Option Drain :=
  (s.nodes.get? node).bind fun r => r.node.drain

/-- The request asks for the deadline `D'` in time to move the drain `prior`. -/
structure MovesDeadline (s : StateMachine) (x : SetNodeDrain) (prior : Option Drain)
    (now D' : Timestamp) : Prop where
  request : x.drain = some ⟨now, some D'⟩
  lead : s.policy.deadlineDrainMinLead ≤ D'.durationSince now
  notice : ∀ D, prior.bind Drain.deadline = some D → now < s.policy.tNotice D

namespace StateMachine

variable {s : StateMachine} {node : NodeId} {d : Drain}

theorem drainOf_of_some {r : NodeRecord} (h : s.nodes.get? node = some r) :
    s.drainOf node = r.node.drain := by
  simp [drainOf, h]

theorem drainOf_congr {s' : StateMachine} (h : s'.nodes = s.nodes) (node : NodeId) :
    s'.drainOf node = s.drainOf node := by
  rw [drainOf, drainOf, h]

theorem setDrainRecord_drainOf (s : StateMachine) (n : NodeId) (drain : Option Drain)
    (node : NodeId) (hn : (s.nodes.get? n).isSome = true) :
    (s.setDrainRecord n drain).drainOf node = if n = node then drain else s.drainOf node := by
  obtain ⟨r, hr⟩ := Option.isSome_iff_exists.mp hn
  simp only [drainOf, setDrainRecord, get?_modify]
  split_ifs with h
  · subst h
    simp [hr]
  · rfl

/-! ## One command -/

/-- What a drain request writes. -/
theorem setNodeDrain_cases (s : StateMachine) (x : SetNodeDrain) :
    (s.setNodeDrain x).1 = s ∨ ∃ r drain, s.nodes.get? x.node = some r ∧
      (s.setNodeDrain x).1 = s.setDrainRecord x.node drain ∧
      (drain = none ∨ r.node.drain = none ∨ ∃ now D', MovesDeadline s x r.node.drain now D' ∧
        drain = some ⟨(r.node.drain.map Drain.requestedAt).getD now, some D'⟩) := by
  cases hr : s.nodes.get? x.node with
  | none =>
    left
    simp [setNodeDrain, hr, reject]
  | some r =>
    simp only [setNodeDrain, hr]
    split
    · exact .inl rfl
    split
    · exact .inr ⟨r, none, rfl, rfl, .inl rfl⟩
    rename_i drain hx
    obtain ⟨now, deadline⟩ := drain
    split
    · -- a drain without a deadline begins, and repeats as nothing
      split_ifs with hnone
      · exact .inr ⟨r, _, rfl, rfl, .inr (.inl (Option.isNone_iff_eq_none.mp hnone))⟩
      · exact .inl rfl
    · rename_i D' hdeadline
      subst hdeadline
      split_ifs with hsame hlead
      · exact .inl rfl
      · exact .inl rfl
      · have hlead := not_lt.mp hlead
        split
        · rename_i hprior
          refine .inr ⟨r, _, rfl, rfl, .inr (.inr ⟨now, D', ⟨hx, hlead, ?_⟩, rfl⟩)⟩
          intro D hD
          rw [hprior] at hD
          cases hD
        · rename_i D hprior
          split_ifs with hstarted
          · exact .inl rfl
          · refine .inr ⟨r, _, rfl, rfl, .inr (.inr ⟨now, D', ⟨hx, hlead, ?_⟩, rfl⟩)⟩
            intro D1 hD1
            rw [hprior] at hD1
            cases hD1
            exact not_le.mp hstarted

/-- What a command does to a recorded drain. -/
theorem apply_drainOf (c : Command) (h : s.drainOf node = some d) :
    (s.apply c).1.drainOf node = some d ∨ (s.apply c).1.drainOf node = none ∨
      ∃ x now D', c = .setNodeDrain x ∧ x.node = node ∧ MovesDeadline s x (some d) now D' ∧
        (s.apply c).1.drainOf node = some ⟨d.requestedAt, some D'⟩ := by
  have hversion : (s.apply c).1.drainOf node = (s.dispatch c).1.drainOf node :=
    drainOf_congr rfl node
  rw [hversion]
  obtain ⟨r, hr, hd⟩ := Option.bind_eq_some_iff.mp h
  cases c with
  | registerNode c =>
    left
    show (s.registerNode c).1.drainOf node = some d
    rw [drainOf, registerNode_nodes, get?_insert]
    split_ifs with hn
    · rw [hn, hr]
      exact hd
    · exact h
  | declareNodeLost c =>
    left
    show (s.declareNodeLost c).1.drainOf node = some d
    cases hc : s.nodes.get? c.node with
    | none => simpa [declareNodeLost, hc, reject] using h
    | some n =>
      rw [drainOf, s.declareNodeLost_nodes c hc, get?_insert]
      split_ifs with hn
      · rw [hn, hr] at hc
        cases hc
        simp [hd]
      · exact h
  | evictNodes c =>
    show (s.evictNodes c).1.drainOf node = some d ∨ (s.evictNodes c).1.drainOf node = none ∨ _
    cases hc : (s.evictNodes c).1.nodes.get? node with
    | none => exact .inr (.inl (by rw [drainOf, hc]; rfl))
    | some r' =>
      rw [s.evictNodes_nodes c hc] at hr
      cases hr
      exact .inl ((drainOf_of_some hc).trans hd)
  | setNodeDraining c =>
    left
    show (s.setNodeDraining c).1.drainOf node = some d
    unfold setNodeDraining
    split
    · exact h
    · simp only [done, drainOf, get?_modify, hr]
      split_ifs <;> exact hd
  | setNodeDrain x =>
    show (s.setNodeDrain x).1.drainOf node = some d ∨ (s.setNodeDrain x).1.drainOf node = none ∨ _
    rcases s.setNodeDrain_cases x with heq | ⟨r', drain, hr', heq, hcase⟩
    · exact .inl (by rw [heq, h])
    have hafter : (s.setNodeDrain x).1.drainOf node =
        if x.node = node then drain else s.drainOf node := by
      rw [heq, s.setDrainRecord_drainOf x.node drain node (by simp [hr'])]
    rw [hafter]
    by_cases hn : x.node = node
    · rw [hn, hr] at hr'
      cases hr'
      rw [if_pos hn]
      rcases hcase with hdrain | hnone | ⟨now, D', hmoves, hdrain⟩
      · exact .inr (.inl hdrain)
      · rw [hd] at hnone
        cases hnone
      · rw [hd] at hmoves hdrain
        exact .inr (.inr ⟨x, now, D', rfl, hn, hmoves, hafter.trans ((if_pos hn).trans hdrain)⟩)
    · rw [if_neg hn]
      exact .inl h
  | _ c => exact .inl ((drainOf_congr ((s.dispatch_step _).nodes rfl) node).trans h)

end StateMachine

/-! ## Placements -/

/-- On a node with a deadline everything placed is certain to end before the
    notices begin. -/
theorem StateMachine.Passes.before_notice (h : Passes s c revoked used sc p spec cutoff group sc')
    {d : Drain} {D : Timestamp} (hd : s.drainOf spec.node = some d) (hD : d.deadline = some D) :
    ∃ j m, s.jobs.get? p.job = some j ∧ j.spec.maxRuntime = some m ∧
      (c.proposedAt.saturatingAdd m).saturatingAdd s.policy.abortGrace ≤ s.policy.tNotice D := by
  obtain ⟨j, n, hj, hn, hadmit⟩ := h.admitted
  have hdrain : n.node.drain = some d := by
    rw [← drainOf_of_some hn, hd]
  cases hclosed : n.draining with
  | true => simp [admitPlacement, NodeRecord.admits, NodeRecord.admission, hclosed,
      admits] at hadmit
  | false =>
    cases hm : j.spec.maxRuntime with
    | none => simp [admitPlacement, NodeRecord.admits, NodeRecord.admission, hclosed, hdrain, hD,
        admits, hm] at hadmit
    | some m =>
      refine ⟨j, m, hj, hm, ?_⟩
      by_contra hlate
      simp [admitPlacement, NodeRecord.admits, NodeRecord.admission, hclosed, hdrain, hD,
        admits, hm, hlate] at hadmit

/-! ## Runs -/

/-- `s'` is reached from `s` by commands after each of which the node has a
    drain record. -/
def DrainKept (node : NodeId) (s s' : StateMachine) : Prop :=
  Reach s (fun s c => (s.apply c).1) (fun s c => ((s.apply c).1.drainOf node).isSome = true) s'

theorem DrainKept.stands {d : Drain} (hrun : DrainKept node s s') (h : s.drainOf node = some d) :
    ∃ d', s'.drainOf node = some d' ∧ d'.requestedAt = d.requestedAt ∧
      (d.deadline.isSome = true → d'.deadline.isSome = true) := by
  refine Reach.invariant (fun t => ∃ d', t.drainOf node = some d' ∧
    d'.requestedAt = d.requestedAt ∧ (d.deadline.isSome = true → d'.deadline.isSome = true))
    ⟨d, h, rfl, id⟩ ?_ hrun
  rintro t c ⟨d', hd', hreq, hdl⟩ hkept
  rcases apply_drainOf c hd' with hsame | hnone | ⟨x, now, D', -, -, -, hmoved⟩
  · exact ⟨d', hsame, hreq, hdl⟩
  · rw [hnone] at hkept
    cases hkept
  · exact ⟨_, hmoved, hreq, fun _ => rfl⟩

/-- The drain record of a node, over every run: the first request stands and a
    deadline is never taken back while the record is kept; a deadline is moved
    only by a request in time; an authorized request that repeats the recorded
    deadline is accepted and changes nothing; and whatever is placed on the node
    is certain to end before the notices of its deadline begin. -/
theorem drain_record_stands {s : StateMachine} {node : NodeId} {d : Drain}
    (h : s.drainOf node = some d) :
    (∀ s', DrainKept node s s' → ∃ d', s'.drainOf node = some d' ∧
      d'.requestedAt = d.requestedAt ∧ (d.deadline.isSome = true → d'.deadline.isSome = true)) ∧
    (∀ c D d', d.deadline = some D → (s.apply c).1.drainOf node = some d' →
      d'.deadline ≠ some D → ∃ x now D', c = .setNodeDrain x ∧ x.node = node ∧
        x.drain = some ⟨now, some D'⟩ ∧ d'.deadline = some D' ∧ now < s.policy.tNotice D ∧
        s.policy.deadlineDrainMinLead ≤ D'.durationSince now) ∧
    (∀ (x : SetNodeDrain) now D, d.deadline = some D → x.node = node →
      x.drain = some ⟨now, some D⟩ → s.authorize x.actor .drain = .ok () →
      s.apply (.setNodeDrain x) = ({ s with version := s.version + 1 }, .ok ⟨[]⟩)) ∧
    ∀ c D applied, d.deadline = some D → (s.apply (.commitPlacements c)).2 = .ok applied →
      ∀ p ∈ c.placements, ∀ spec ∈ p.allocations, spec.node = node →
        ∃ j m, s.jobs.get? p.job = some j ∧ j.spec.maxRuntime = some m ∧
          (c.proposedAt.saturatingAdd m).saturatingAdd s.policy.abortGrace ≤
            s.policy.tNotice D := by
  refine ⟨fun s' hrun => hrun.stands h, ?_, ?_, ?_⟩
  · intro c D d' hD hd' hne
    rcases apply_drainOf c h with hsame | hnone | ⟨x, now, D', rfl, hn, hmoves, hmoved⟩
    · rw [hd'] at hsame
      cases hsame
      exact absurd hD hne
    · rw [hnone] at hd'
      cases hd'
    · rw [hmoved] at hd'
      cases hd'
      exact ⟨x, now, D', rfl, hn, hmoves.request, rfl, hmoves.notice D hD, hmoves.lead⟩
  · rintro x now D hD rfl hx hauth
    obtain ⟨r, hr, hdrain⟩ := Option.bind_eq_some_iff.mp h
    have hdone : s.dispatch (.setNodeDrain x) = s.done := by
      simp [dispatch, setNodeDrain, hr, hauth, hx, hdrain, hD]
    simp only [apply, hdone]
    rfl
  · rintro c D applied hD hok p hp spec hspec rfl
    obtain ⟨sc, -, hscreens⟩ := (commitPlacements_commits hok).screens
    obtain ⟨sc₁, sc₂, spec', cutoff, group, hpass⟩ := hscreens.mem hp
    rw [hpass.screened.one, List.mem_singleton] at hspec
    subst hspec
    exact hpass.before_notice h hD

namespace Sample

/-- An hour after the epoch. -/
def later : Timestamp := Timestamp.clamp 3600000000

def drainBy (actor : Option Actor) : Command :=
  .setNodeDrain ⟨1, some ⟨epoch, some later⟩, actor, epoch⟩

/-- Node 1 is drained with a deadline. -/
def deadlined : List Command := [configure, register 10, drainBy none]

end Sample

open Sample

theorem drain_record_stands_deadlined :
    ∃ d, (run deadlined).drainOf 1 = some d ∧ d.deadline = some later ∧
      (run deadlined).apply (drainBy none) =
        ({ run deadlined with
          version := (run deadlined).version + 1 }, .ok ⟨[]⟩) := by
  have hdrain : (run deadlined).drainOf 1 = some ⟨epoch, some later⟩ := by decide +kernel
  obtain ⟨-, -, hrepeat, -⟩ := drain_record_stands hdrain
  exact ⟨_, hdrain, rfl, hrepeat _ epoch later rfl rfl rfl rfl⟩

/-- An actor without authority is refused even where the deadline is the recorded
    one. -/
theorem unauthorized_repeat_refused :
    (run deadlined).drainOf 1 = some ⟨epoch, some later⟩ ∧
      ((run deadlined).apply
        (drainBy (some ⟨"nobody", [], false, false⟩))).2.isOk = false := by
  decide +kernel

end Coppice.State
