/-
  Coppice.State.Screening

  The validation of an accepted batch, placement by placement: `Screens` is the
  trail of the screen, with the cutoff and the eviction group of each placement; the
  seats follow it.
-/

import Coppice.State.Batch
import Coppice.State.Frame

namespace Coppice.State

open Coppice.Core List

namespace StateMachine

variable {s : StateMachine} {c : CommitPlacements} {revoked : List AllocationId} {used : Memo}

/-- The screen before the first placement. -/
structure Screen.Blank (s : StateMachine) (c : CommitPlacements) (sc : Screen) : Prop where
  seated : sc.seated = .empty
  preempt : sc.preempt = PreemptCheck.forBatch s c
  seenJobs : sc.seenJobs = []

/-- What an accepted batch passed and did. -/
structure Commits (s : StateMachine) (c : CommitPlacements) : Prop where
  ok : BatchOk s c
  screens : ∃ sc, Screen.Blank s c sc ∧ Screens s c c.revocations s.usedCapacityMemo sc
    c.placements (s.screen c).cutoffs (s.screen c).victims
  state : (s.commitPlacements c).1 = (Effects.seatAll c.proposedAt c.placements
    (s.screen c).cutoffs (s.screen c).victims (s.revokedEffects c)).st

theorem screens_of_items (h : (s.screen c).items.isEmpty = true) :
    ∃ sc, Screen.Blank s c sc ∧ Screens s c c.revocations s.usedCapacityMemo sc
      c.placements (s.screen c).cutoffs (s.screen c).victims := by
  have hrev : (s.validateRevocations c.revocations 0 []).2 = c.revocations :=
    (batchOk_of_items h).revoked
  have hitems : (s.screen c).items = [] := isEmpty_iff.mp h
  obtain ⟨-, -, cutoffs, groups, hscreens, -, -, hc, hg⟩ := screenPlacements_screens hitems
  rw [hrev] at hscreens
  have hcut : (s.screen c).cutoffs = cutoffs := hc
  have hvic : (s.screen c).victims = groups := hg
  rw [hcut, hvic]
  exact ⟨_, ⟨rfl, rfl, rfl⟩, hscreens⟩

/-- A batch that was not refused. -/
theorem commitPlacements_commits {x : Applied} (h : (s.commitPlacements c).2 = .ok x) :
    Commits s c := by
  unfold commitPlacements at h
  simp only at h
  split_ifs at h with hitems
  have hempty : (s.screen c).items.isEmpty = true := by simpa using hitems
  split at h
  · cases h
  · rename_i hlimit
    refine ⟨batchOk_of_items hempty, screens_of_items hempty, ?_⟩
    unfold commitPlacements
    simp only [if_neg hitems, hlimit]
    rfl

/-- A batch that was refused changes nothing. -/
theorem commitPlacements_refused {r : RejectionReason} (h : (s.commitPlacements c).2 = .error r) :
    (s.commitPlacements c).1 = s :=
  (s.dispatch_step (.commitPlacements c)).rejected r h

/-- A passed placement was admitted to its node. -/
theorem Passes.admitted (h : Passes s c revoked used sc p spec cutoff group sc') :
    ∃ j n, s.jobs.get? p.job = some j ∧ s.nodes.get? spec.node = some n ∧
      s.admitPlacement c used sc.seated j n spec = .ok (cutoff, sc'.seated) := by
  obtain ⟨j, hj, -⟩ := h.screened.job
  obtain ⟨n, hn, -⟩ := h.screened.node
  have hvalid := h.valid
  unfold validatePlacement at hvalid
  simp only [hj, h.screened.one, hn] at hvalid
  split_ifs at hvalid
  exact ⟨j, n, hj, hn, hvalid⟩

/-- Every placement of the trail passed on some screen. -/
theorem Screens.mem (h : Screens s c revoked used sc ps cutoffs groups) (hp : p ∈ ps) :
    ∃ sc1 sc2 spec cutoff group, Passes s c revoked used sc1 p spec cutoff group sc2 := by
  induction h with
  | nil => cases hp
  | cons hpass _ ih =>
    rcases mem_cons.mp hp with rfl | hp
    · exact ⟨_, _, _, _, _, hpass⟩
    · exact ih hp

end StateMachine

/-! ## Eviction groups -/

/-- A victim of a placement on `node`, with its hold and its attempt. -/
structure Condemned (s : StateMachine) (p : Placement) (node : NodeId) (v : Victim)
    (r : AllocationRecord) (a : AttemptRecord) : Prop where
  allocation : s.allocations.get? v.1 = some r
  node : r.allocation.node = node
  attempt : s.attempts.get? r.allocation.attempt = some a
  running : a.attempt.state = .running
  unmarked : a.preemption = none
  reason : v.2 = .priority p.job ∨ v.2 = .relocation p.job
  outranked : v.2 = .priority p.job → ∃ victim job, s.jobs.get? r.allocation.job = some victim ∧
    s.jobs.get? p.job = some job ∧ victim.spec.priority < job.spec.priority

/-- The check still has its ledger and its groups. -/
def PreemptCheck.Same (check check' : PreemptCheck) : Prop :=
  check'.ledger = check.ledger ∧ check'.groups = check.groups

namespace StateMachine

variable {s : StateMachine} {revoked : List AllocationId} {used : Memo}

section Victims

variable {p : Placement} {job : JobRecord} {node : NodeId} {relocating : Bool}
  {check check' : PreemptCheck} {group : List Victim}

theorem validateVictim_condemned {e : Eviction} {reason : PreemptReason} {notice : Duration}
    (hjob : s.jobs.get? p.job = some job)
    (h : s.validateVictim p job node relocating used check e = (.ok (reason, notice), check')) :
    (∃ r a, Condemned s p node (e.allocation, reason) r a) ∧ PreemptCheck.Same check check' := by
  unfold validateVictim at h
  simp only at h
  split at h
  · cases h
  split at h
  · cases h
  rename_i r hr
  split at h
  · cases h
  rename_i hnode
  split at h
  · cases h
  split at h
  on_goal 2 => cases h
  rename_i a victim ha hvictim
  split at h
  · cases h
  rename_i hrun
  split at h
  · cases h
  split at h
  · cases h
  rename_i hmark
  have hunmarked : a.preemption = none := by simpa using hmark
  split at h
  · cases h
  split at h
  · -- the class rule
    split at h
    · cases h
    rename_i hrank
    cases h
    exact ⟨⟨r, a, hr, not_not.mp hnode, ha, not_not.mp hrun, hunmarked, .inl rfl,
      fun _ => ⟨victim, job, hvictim, hjob, not_le.mp hrank⟩⟩, rfl, rfl⟩
  · -- the relocation condition
    split at h
    · cases h
    split at h
    · cases h
    cases h
    exact ⟨⟨r, a, hr, not_not.mp hnode, ha, not_not.mp hrun, hunmarked, .inr rfl,
      fun hp => nomatch hp⟩, rfl, rfl⟩

theorem validateVictims_condemned {l : List Eviction} {longest longest' : Duration}
    (hjob : s.jobs.get? p.job = some job)
    (h : s.validateVictims p job node relocating used l check longest =
      (.ok (group, longest'), check')) :
    (∀ v ∈ group, ∃ r a, Condemned s p node v r a) ∧ PreemptCheck.Same check check' := by
  induction l generalizing check longest group longest' check' with
  | nil =>
    cases h
    exact ⟨by simp, rfl, rfl⟩
  | cons e rest ih =>
    unfold validateVictims at h
    split at h
    · cases h
    · next hone =>
        obtain ⟨hcond, hl, hg⟩ := validateVictim_condemned hjob hone
        split at h
        · cases h
        · next hrest =>
            cases h
            obtain ⟨hrest, hl', hg'⟩ := ih hrest
            refine ⟨fun v hv => ?_, hl'.trans hl, hg'.trans hg⟩
            rcases mem_cons.mp hv with rfl | hv
            · exact hcond
            · exact hrest v hv

/-- A group is for a node without one, on behalf of a job without one. -/
theorem validatePreemptions_condemned {spec : AllocationSpec} (hone : p.allocations = [spec])
    (h : s.validatePreemptions p revoked used check = (.ok group, check')) :
    group = [] ∧ check' = check ∨
      (∀ v ∈ group, ∃ r a, Condemned s p spec.node v r a) ∧
        spec.node ∉ check.ledger.guarded ∧ p.job ∉ check.ledger.beneficiaries ∧
        spec.node ∉ check.groups ∧ check'.ledger = check.ledger ∧
        check'.groups = spec.node :: check.groups := by
  unfold validatePreemptions at h
  simp only [hone, head?_cons] at h
  split at h
  · cases h
    exact .inl ⟨rfl, rfl⟩
  · split at h
    · rename_i job spec' hjob hspec
      cases hspec
      split at h
      · cases h
      split at h
      · cases h
      split at h
      · cases h
      rename_i hguard
      simp only [contains_iff_mem, not_or] at hguard
      split at h
      · cases h
      · next hvictims =>
          obtain ⟨hcond, hl, hg⟩ := validateVictims_condemned hjob hvictims
          split at h
          · cases h
            exact .inr ⟨hcond, hguard.1, hguard.2.1, hguard.2.2, hl, hg⟩
          · cases h
    · cases h

end Victims

end StateMachine

/-- The victims of a batch, each with the placement it makes room for. -/
def marks : List Placement → List (List Victim) →
    List (Placement × Victim)
  | p :: ps, group :: groups => group.map (fun v => (p, v)) ++ marks ps groups
  | _, _ => []

/-- The nodes that have an eviction group already. -/
def Screen.groupNodes (sc : Screen) : List NodeId := (sc.preempt.map PreemptCheck.groups).getD []

/-- A victim of the batch. -/
structure Evicts (s : StateMachine) (p : Placement) (v : Victim) (r : AllocationRecord)
    (a : AttemptRecord) : Prop where
  condemned : Condemned s p r.allocation.node v r a
  unguarded : r.allocation.node ∉ s.preemptionLedger.guarded
  undue : p.job ∉ s.preemptionLedger.beneficiaries

/-- The ledger of the check is the one of the state. -/
def Screen.Faithful (s : StateMachine) (sc : Screen) : Prop :=
  ∀ check, sc.preempt = some check → check.ledger = s.preemptionLedger

namespace StateMachine

variable {s : StateMachine} {c : CommitPlacements} {revoked : List AllocationId} {used : Memo}
  {sc : Screen} {ps : List Placement} {cutoffs : List (Option Timestamp)}
  {groups : List (List Victim)}

/-- A placement that passes evicts from a node without a group. -/
theorem Passes.evicts (h : Passes s c revoked used sc p spec cutoff group sc')
    (hsc : sc.Faithful s) :
    sc'.Faithful s ∧ (∀ n ∈ sc.groupNodes, n ∈ sc'.groupNodes) ∧
      ∀ v ∈ group, ∃ r a, Evicts s p v r a ∧ r.allocation.node ∉ sc.groupNodes ∧
        r.allocation.node ∈ sc'.groupNodes ∧ r.allocation.node = spec.node := by
  rcases h.preempt with ⟨hnone, rfl, hnone'⟩ | ⟨check, check', hcheck, hvalid, hcheck'⟩
  · refine ⟨fun check hc => ?_, fun n hn => ?_, by simp⟩
    · rw [hnone'] at hc
      cases hc
    · simp [Screen.groupNodes, hnone] at hn
  · have hledger := hsc check hcheck
    simp only [Screen.groupNodes, hcheck, hcheck', Option.map_some, Option.getD_some]
    rcases validatePreemptions_condemned h.screened.one hvalid with ⟨rfl, rfl⟩ |
      ⟨hcond, hguard, hdue, hnew, hl, hg⟩
    · refine ⟨fun c' hc' => ?_, fun _ hn => hn, by simp⟩
      rw [hcheck'] at hc'
      cases hc'
      exact hledger
    · rw [hledger] at hguard hdue
      refine ⟨fun c' hc' => ?_, fun n hn => by rw [hg]; exact mem_cons_of_mem _ hn, fun v hv => ?_⟩
      · rw [hcheck'] at hc'
        cases hc'
        exact hl.trans hledger
      · obtain ⟨r, a, hc⟩ := hcond v hv
        have hnode := hc.node
        rw [← hnode] at hc hguard hnew hg
        exact ⟨r, a, ⟨hc, hguard, hdue⟩, hnew, by rw [hg]; exact mem_cons_self, hnode⟩

/-- The groups of a batch are the scheduler's. -/
theorem Screens.scheduled (h : Screens s c revoked used sc ps cutoffs groups) :
    ∀ group ∈ groups, ∀ v ∈ group, ∃ job, v.2 = .priority job ∨ v.2 = .relocation job := by
  induction h with
  | nil => simp
  | @cons _ _ p _ _ group _ _ _ hpass _ ih =>
    intro g hg v hv
    rcases mem_cons.mp hg with rfl | hg
    · rcases hpass.preempt with ⟨-, rfl, -⟩ | ⟨check, check', -, hvalid, -⟩
      · cases hv
      · rcases validatePreemptions_condemned hpass.screened.one hvalid with ⟨rfl, -⟩ | ⟨hcond, -⟩
        · cases hv
        · obtain ⟨r, a, hc⟩ := hcond v hv
          exact ⟨p.job, hc.reason⟩
    · exact ih g hg v hv

/-- The victims of a batch: two of them are on one node exactly if they make room for
    one job. -/
theorem Screens.evicts (h : Screens s c revoked used sc ps cutoffs groups) (hsc : sc.Faithful s) :
    (∀ m ∈ marks ps groups, ∃ r a, Evicts s m.1 m.2 r a ∧ r.allocation.node ∉ sc.groupNodes ∧
        m.1.job ∉ sc.seenJobs) ∧
      ∀ m ∈ marks ps groups, ∀ m' ∈ marks ps groups, ∀ r a r' a', Evicts s m.1 m.2 r a →
        Evicts s m'.1 m'.2 r' a' →
          (r.allocation.node = r'.allocation.node ↔ m.1.job = m'.1.job) := by
  induction h with
  | nil => exact ⟨by simp [marks], by simp [marks]⟩
  | @cons sc sc' p spec cutoff group rest _ groups hpass _ ih =>
    obtain ⟨hsc', hmore, hgroup⟩ := hpass.evicts hsc
    obtain ⟨hrest, hpairs⟩ := ih hsc'
    have hunseen : p.job ∉ sc.seenJobs := hpass.unseen.job
    -- a victim of this placement and one of a later placement
    have hcross : ∀ v ∈ group, ∀ m ∈ marks rest groups, ∀ r a r' a', Evicts s p v r a →
        Evicts s m.1 m.2 r' a' → r.allocation.node ≠ r'.allocation.node ∧ p.job ≠ m.1.job := by
      intro v hv m hm r a r' a' he he'
      obtain ⟨r1, a1, he1, -, hin, -⟩ := hgroup v hv
      obtain ⟨r2, a2, he2, hout, hseen⟩ := hrest m hm
      have hr := he.condemned.allocation.symm.trans he1.condemned.allocation
      have hr' := he'.condemned.allocation.symm.trans he2.condemned.allocation
      cases hr
      cases hr'
      rw [hpass.seenJobs] at hseen
      exact ⟨fun e => hout (e ▸ hin), fun e => hseen (by rw [e]; exact mem_cons_self)⟩
    refine ⟨fun m hm => ?_, fun m hm m' hm' r a r' a' he he' => ?_⟩
    · rcases mem_append.mp hm with hm | hm
      · obtain ⟨v, hv, rfl⟩ := mem_map.mp hm
        obtain ⟨r, a, he, hout, -, -⟩ := hgroup v hv
        exact ⟨r, a, he, hout, hunseen⟩
      · obtain ⟨r, a, he, hout, hseen⟩ := hrest m hm
        refine ⟨r, a, he, fun hn => hout (hmore _ hn), fun hs => hseen ?_⟩
        rw [hpass.seenJobs]
        exact mem_cons_of_mem _ hs
    · rcases mem_append.mp hm with hm | hm <;> rcases mem_append.mp hm' with hm' | hm'
      · obtain ⟨v, hv, rfl⟩ := mem_map.mp hm
        obtain ⟨v', hv', rfl⟩ := mem_map.mp hm'
        obtain ⟨r1, a1, he1, -, -, hn⟩ := hgroup v hv
        obtain ⟨r2, a2, he2, -, -, hn'⟩ := hgroup v' hv'
        cases he.condemned.allocation.symm.trans he1.condemned.allocation
        cases he'.condemned.allocation.symm.trans he2.condemned.allocation
        exact ⟨fun _ => rfl, fun _ => hn.trans hn'.symm⟩
      · obtain ⟨v, hv, rfl⟩ := mem_map.mp hm
        obtain ⟨hn, hj⟩ := hcross v hv m' hm' r a r' a' he he'
        exact ⟨fun e => absurd e hn, fun e => absurd e hj⟩
      · obtain ⟨v, hv, rfl⟩ := mem_map.mp hm'
        obtain ⟨hn, hj⟩ := hcross v hv m hm r' a' r a he' he
        exact ⟨fun e => absurd e.symm hn, fun e => absurd e.symm hj⟩
      · exact hpairs m hm m' hm' r a r' a' he he'

theorem Commits.evicts (h : Commits s c) :
    (∀ m ∈ marks c.placements (s.screen c).victims, ∃ r a, Evicts s m.1 m.2 r a) ∧
      ∀ m ∈ marks c.placements (s.screen c).victims,
        ∀ m' ∈ marks c.placements (s.screen c).victims, ∀ r a r' a',
          Evicts s m.1 m.2 r a → Evicts s m'.1 m'.2 r' a' →
            (r.allocation.node = r'.allocation.node ↔ m.1.job = m'.1.job) := by
  obtain ⟨sc, hblank, hscreens⟩ := h.screens
  have hsc : sc.Faithful s := by
    intro check hcheck
    rw [hblank.preempt] at hcheck
    simp only [PreemptCheck.forBatch] at hcheck
    split_ifs at hcheck
    cases hcheck
    rfl
  obtain ⟨hevicts, hpairs⟩ := hscreens.evicts hsc
  refine ⟨fun m hm => ?_, hpairs⟩
  obtain ⟨r, a, he, -, -⟩ := hevicts m hm
  exact ⟨r, a, he⟩

end StateMachine

end Coppice.State
