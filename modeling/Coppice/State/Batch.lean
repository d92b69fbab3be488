/-
  Coppice.State.Batch

  A scheduling batch as a whole: what its validation establishes, and that
  the effects of an accepted batch keep the invariant.
-/

import Coppice.State.Seat

namespace Coppice.State

open Lib Coppice.Core List OrdMap Effects

/-! ## What validation establishes -/

/-- A placement that passed its own checks. -/
structure Screened (s : StateMachine) (revoked : List AllocationId) (p : Placement)
    (spec : AllocationSpec) : Prop where
  one : p.allocations = [spec]
  group : p.group = p.job
  job : ∃ j, s.jobs.get? p.job = some j ∧ (j.state = .queued ∨ s.isReseat j revoked = true)
  attempt : s.attempts.get? p.attempt = none
  allocation : s.allocations.get? spec.id = none
  node : ∃ n, s.nodes.get? spec.node = some n ∧ spec.requested.fitsWithin n.node.capacity = true

/-- Distinct from everything the batch placed before it. -/
structure Unseen (sc : Screen) (p : Placement) (spec : AllocationSpec) : Prop where
  job : p.job ∉ sc.seenJobs
  attempt : p.attempt ∉ sc.seenAttempts
  allocation : spec.id ∉ sc.seenAllocs

namespace StateMachine

variable {s : StateMachine} {c : CommitPlacements} {revoked : List AllocationId} {used : Memo}

theorem admitPlacement_fits {seated : OrdMap NodeId Resources} {j : JobRecord} {n : NodeRecord}
    {spec : AllocationSpec} {out : Option Timestamp × OrdMap NodeId Resources}
    (h : s.admitPlacement c used seated j n spec = .ok out) :
    spec.requested.fitsWithin n.node.capacity = true := by
  have hgates : s.placementGates j n spec = .ok () := by
    unfold admitPlacement at h
    cases hg : s.placementGates j n spec with
    | error r =>
      rw [hg] at h
      split at h <;> cases h
    | ok u => rfl
  unfold placementGates at hgates
  split_ifs at hgates with h1 h2 h3
  simpa using h2

theorem validatePlacement_ok {sc : Screen} {p : Placement}
    {out : Option Timestamp × OrdMap NodeId Resources}
    (h : s.validatePlacement c revoked used sc p = .ok out) :
    ∃ spec, Screened s revoked p spec ∧ Unseen sc p spec := by
  unfold validatePlacement at h
  cases hj : s.jobs.get? p.job with
  | none =>
    rw [hj] at h
    cases h
  | some j =>
    simp only [hj] at h
    split at h
    · cases h
    · rename_i hq
      split at h
      · cases h
      · rename_i hg
        split at h
        · rename_i spec hspec
          split at h
          · cases h
          · rename_i ha
            split at h
            · cases h
            · rename_i hal
              split at h
              · cases h
              · rename_i n hn
                simp only [not_or, not_and, contains_iff_mem] at hq ha hal
                refine ⟨spec, ⟨hspec, not_not.mp hg, ⟨j, hj, ?_⟩, ?_, ?_, n, hn,
                  admitPlacement_fits h⟩, hq.2, ha.2, hal.2⟩
                · by_cases hst : j.state = .queued
                  · exact .inl hst
                  · exact .inr (by simpa using hq.1 hst)
                · exact contains_eq_false_iff.mp (by simpa using ha.1)
                · exact contains_eq_false_iff.mp (by simpa using hal.1)
        · cases h

/-- The rest of a batch, each placement screened and distinct from what the
    batch already holds. -/
inductive Seatable (s : StateMachine) (revoked : List AllocationId) :
    List JobId → List AttemptId → List AllocationId → List Placement → Prop where
  | nil {jobs attempts allocs} : Seatable s revoked jobs attempts allocs []
  | cons {jobs attempts allocs p spec rest} : Screened s revoked p spec → p.job ∉ jobs →
      p.attempt ∉ attempts → spec.id ∉ allocs →
      Seatable s revoked (p.job :: jobs) (p.attempt :: attempts) (spec.id :: allocs) rest →
      Seatable s revoked jobs attempts allocs (p :: rest)

/-- The placement passed both validations on `sc`, which left `sc'`. -/
structure Passes (s : StateMachine) (c : CommitPlacements) (revoked : List AllocationId)
    (used : Memo) (sc : Screen) (p : Placement) (spec : AllocationSpec) (cutoff : Option Timestamp)
    (group : List Victim) (sc' : Screen) : Prop where
  screened : Screened s revoked p spec
  unseen : Unseen sc p spec
  valid : s.validatePlacement c revoked used sc p = .ok (cutoff, sc'.seated)
  preempt : sc.preempt = none ∧ group = [] ∧ sc'.preempt = none ∨
    ∃ check check', sc.preempt = some check ∧
      s.validatePreemptions p revoked used check = (.ok group, check') ∧ sc'.preempt = some check'
  seenJobs : sc'.seenJobs = p.job :: sc.seenJobs

/-- Every placement passed in turn. -/
inductive Screens (s : StateMachine) (c : CommitPlacements) (revoked : List AllocationId)
    (used : Memo) : Screen → List Placement → List (Option Timestamp) →
      List (List Victim) → Prop where
  | nil {sc} : Screens s c revoked used sc [] [] []
  | cons {sc sc' p spec cutoff group rest cutoffs groups} :
      Passes s c revoked used sc p spec cutoff group sc' →
      Screens s c revoked used sc' rest cutoffs groups →
      Screens s c revoked used sc (p :: rest) (cutoff :: cutoffs) (group :: groups)

variable {idx : Nat} {sc : Screen} {p : Placement} {ps : List Placement}

/-- An accepted placement. -/
theorem screenPlacement_passes (h : (s.screenPlacement c revoked used idx sc p).items = []) :
    sc.items = [] ∧ ∃ spec cutoff group,
      Passes s c revoked used sc p spec cutoff group (s.screenPlacement c revoked used idx sc p) ∧
      (s.screenPlacement c revoked used idx sc p).seenAttempts = p.attempt :: sc.seenAttempts ∧
      (s.screenPlacement c revoked used idx sc p).seenAllocs = spec.id :: sc.seenAllocs ∧
      (s.screenPlacement c revoked used idx sc p).cutoffs = sc.cutoffs ++ [cutoff] ∧
      (s.screenPlacement c revoked used idx sc p).victims = sc.victims ++ [group] := by
  cases hv : s.validatePlacement c revoked used sc p with
  | error r =>
    simp only [screenPlacement, hv] at h
    simp at h
  | ok out =>
    obtain ⟨spec, hsc, hun⟩ := validatePlacement_ok hv
    have hids : (p.allocations.head?.map AllocationSpec.id).toList = [spec.id] := by
      simp [hsc.one]
    cases hpre : sc.preempt with
    | none =>
      simp only [screenPlacement, hv, hpre, hids, singleton_append] at h ⊢
      exact ⟨h, spec, out.1, [], ⟨hsc, hun, hv, .inl ⟨hpre, rfl, rfl⟩, rfl⟩, trivial, rfl, rfl, rfl⟩
    | some check =>
      cases hvp : s.validatePreemptions p revoked used check with
      | mk res check' =>
        cases res with
        | error r =>
          simp only [screenPlacement, hv, hpre, hvp] at h
          simp at h
        | ok group =>
          simp only [screenPlacement, hv, hpre, hvp, hids, singleton_append] at h ⊢
          exact ⟨h, spec, out.1, group,
            ⟨hsc, hun, hv, .inr ⟨check, check', hpre, hvp, rfl⟩, rfl⟩, trivial, rfl, rfl, rfl⟩

/-- A batch without diagnostics: every placement was accepted in turn. -/
theorem screenPlacements_screens (h : (s.screenPlacements c revoked used idx sc ps).items = []) :
    sc.items = [] ∧ Seatable s revoked sc.seenJobs sc.seenAttempts sc.seenAllocs ps ∧
      ∃ cutoffs groups, Screens s c revoked used sc ps cutoffs groups ∧
        cutoffs.length = ps.length ∧ groups.length = ps.length ∧
        (s.screenPlacements c revoked used idx sc ps).cutoffs = sc.cutoffs ++ cutoffs ∧
        (s.screenPlacements c revoked used idx sc ps).victims = sc.victims ++ groups := by
  induction ps generalizing idx sc with
  | nil => exact ⟨h, .nil, [], [], .nil, rfl, rfl, by simp [screenPlacements],
      by simp [screenPlacements]⟩
  | cons p rest ih =>
    obtain ⟨hitems, hseat, cutoffs, groups, hscreens, hlc, hlg, hc, hg⟩ := ih h
    obtain ⟨hsc, spec, cutoff, group, hpass, ha, hal, hcut, hvic⟩ := screenPlacement_passes hitems
    obtain ⟨hjob, hattempt, hallocation⟩ := hpass.unseen
    rw [hpass.seenJobs, ha, hal] at hseat
    refine ⟨hsc, .cons hpass.screened hjob hattempt hallocation hseat, cutoff :: cutoffs,
      group :: groups, .cons hpass hscreens, by simp [hlc], by simp [hlg], ?_, ?_⟩
    · rw [screenPlacements, hc, hcut]
      simp
    · rw [screenPlacements, hg, hvic]
      simp

/-- Accepted revocations are distinct accruing allocations. -/
theorem validateRevocations_ok {ids : List AllocationId} {acc : List AllocationId}
    (h : (s.validateRevocations ids idx acc).1 = []) :
    (s.validateRevocations ids idx acc).2 = acc ++ ids ∧
      (∀ id ∈ ids, id ∉ acc ∧ ∃ r, s.allocations.get? id = some r ∧
        r.allocation.state = .accruing) ∧ ids.Nodup := by
  induction ids generalizing idx acc with
  | nil => simp [validateRevocations]
  | cons id rest ih =>
    unfold validateRevocations at h ⊢
    cases hr : s.allocations.get? id with
    | none =>
      rw [hr] at h
      simp at h
    | some r =>
      simp only [hr] at h ⊢
      by_cases hbad : r.allocation.state ≠ .accruing ∨ acc.contains id = true
      · rw [if_pos hbad] at h
        simp at h
      · rw [if_neg hbad] at h ⊢
        simp only [not_or, not_not, contains_iff_mem] at hbad
        obtain ⟨heq, hall, hnd⟩ := ih h
        refine ⟨by rw [heq]; simp, ?_, ?_⟩
        · intro x hx
          rcases mem_cons.mp hx with rfl | hx
          · exact ⟨hbad.2, r, hr, hbad.1⟩
          · obtain ⟨hnot, hex⟩ := hall x hx
            exact ⟨fun hm => hnot (by simp [hm]), hex⟩
        · refine nodup_cons.mpr ⟨fun hm => ?_, hnd⟩
          exact (hall id hm).1 (by simp)

end StateMachine

/-! ## Revocations -/

/-- Revoking an allocation releases it. -/
theorem Sound.revokeOne {fx : Effects} (at_ : Timestamp) (id : AllocationId) (h : Sound ∅ fx) :
    Sound ∅ (revokeOne at_ fx id) ∧ Settles fx.st (revokeOne at_ fx id).st ∧
      ∀ r, (revokeOne at_ fx id).st.allocations.get? id = some r →
        r.allocation.state = .released := by
  unfold Effects.revokeOne
  cases hr : fx.st.allocations.get? id with
  | none => exact ⟨h, .refl _, fun r hr' => by simp [hr] at hr'⟩
  | some r =>
    obtain ⟨hS, hset, hend⟩ := h.terminateAny r.allocation.attempt .revoked Duration.zero at_ true
      (fun _ _ _ => rfl)
    refine ⟨hS, hset, fun r' hr' => ?_⟩
    obtain ⟨q, hq, hadv⟩ := hset.advances.allocations.back hr'
    rw [hr] at hq
    cases hq
    obtain ⟨a', ha', -, ht'⟩ := hS.books.linked.tied hr'
    rw [hadv.same.attempt] at ha'
    exact (ht'.step (by simp)).terminal_iff.mp (hend a' ha')

theorem Sound.revokeAll (at_ : Timestamp) (ids : List AllocationId) {fx : Effects}
    (h : Sound ∅ fx) :
    Sound ∅ (ids.foldl (Effects.revokeOne at_) fx) ∧
      Settles fx.st (ids.foldl (Effects.revokeOne at_) fx).st ∧
      ∀ id ∈ ids, ∀ r, (ids.foldl (Effects.revokeOne at_) fx).st.allocations.get? id = some r →
        r.allocation.state = .released := by
  induction ids generalizing fx with
  | nil => exact ⟨h, .refl _, by simp⟩
  | cons x rest ih =>
    obtain ⟨h1, hs1, hend1⟩ := h.revokeOne at_ x
    obtain ⟨h2, hs2, hend2⟩ := ih h1
    refine ⟨h2, hs1.trans hs2, fun id hid r hr => ?_⟩
    rcases mem_cons.mp hid with rfl | hid
    · -- once released, an allocation stays released
      obtain ⟨q, hq, hadv⟩ := hs2.advances.allocations.back hr
      exact hadv.released (hend1 q hq)
    · exact hend2 id hid r hr

/-- After the revocations the job of every accepted placement is idle. -/
theorem Screened.idle (h : Screened s revoked p spec) {fx : Effects} (hS : Sound ∅ fx)
    (hset : Settles s fx.st) (hrev : ∀ id ∈ revoked, ∀ r, fx.st.allocations.get? id = some r →
      r.allocation.state = .released) :
    ∃ j, fx.st.jobs.get? p.job = some j ∧ ∀ x, j.state ≠ .attempting x := by
  obtain ⟨j, hj, hst⟩ := h.job
  obtain ⟨j', hj', hadv⟩ := hset.advances.jobs.some hj
  refine ⟨j', hj', fun x hx => ?_⟩
  have hjx := hadv.attempting x hx
  rcases hst with hq | hre
  · simp [hq] at hjx
  · -- a reseat: the attempt the job had was revoked in this batch
    obtain ⟨a', ha', -, hlive⟩ := hS.jobs.attempting hj' hx
    obtain ⟨a, ha, hsame, -⟩ := hset.advances.attempts.back ha'
    have hmem : a.attempt.allocation ∈ revoked := by
      unfold StateMachine.isReseat at hre
      simpa [hjx, JobState.attempt, ha] using hre
    obtain ⟨r, hr, ht⟩ := hS.books.linked.allocation_of ha'
    have hrel := hrev _ hmem r (by rw [← hsame.allocation]; exact hr)
    have := (ht.step (by simp)).terminal_iff.mpr hrel
    rw [hlive] at this
    cases this

/-! ## Seats -/

/-- Part way through the seats of a batch: `fx₀` is where they started and the
    lists say what has been seated. -/
structure Seating (fx₀ fx : Effects) (jobs : List JobId) (attempts : List AttemptId)
    (allocs : List AllocationId) : Prop where
  sound : Sound ∅ fx
  nodes : fx.st.nodes = fx₀.st.nodes
  jobs : ∀ j, j ∉ jobs → fx.st.jobs.get? j = fx₀.st.jobs.get? j
  attempts : ∀ id, id ∉ attempts → (fx.st.attempts.get? id = none ↔ fx₀.st.attempts.get? id = none)
  allocations : ∀ al, al ∉ allocs → fx.st.allocations.get? al = fx₀.st.allocations.get? al

namespace Seating

variable {fx0 fx fx' : Effects} {jobs : List JobId} {attempts : List AttemptId}
  {allocs : List AllocationId} {p : Placement} {spec : AllocationSpec}

theorem start (h : Sound ∅ fx0) : Seating fx0 fx0 [] [] [] :=
  ⟨h, rfl, fun _ _ => rfl, fun _ _ => .rfl, fun _ _ => rfl⟩

/-- The next placement of an accepted batch is fresh. -/
theorem fresh (h : Seating fx0 fx jobs attempts allocs) {s : StateMachine} (hset : Settles s fx0.st)
    (hsc : Screened s revoked p spec)
    (hidle : ∃ j, fx0.st.jobs.get? p.job = some j ∧ ∀ x, j.state ≠ .attempting x)
    (hj : p.job ∉ jobs) (ha : p.attempt ∉ attempts) (hal : spec.id ∉ allocs) :
    ∃ j, Fresh fx p spec j := by
  obtain ⟨j, hj0, hid⟩ := hidle
  obtain ⟨n, hn, -⟩ := hsc.node
  refine ⟨j, hsc.one, hsc.group, by rw [h.jobs _ hj, hj0], hid, ?_, ?_, n, ?_⟩
  · rw [h.attempts _ ha, hset.advances.attempts.none_iff]
    exact hsc.attempt
  · rw [h.allocations _ hal, hset.advances.allocations.none_iff]
    exact hsc.allocation
  · rw [h.nodes, hset.advances.nodes, hn]

theorem next (h : Seating fx0 fx jobs attempts allocs) (hS : Sound ∅ fx')
    (hs : Seats fx fx' p spec) :
    Seating fx0 fx' (p.job :: jobs) (p.attempt :: attempts) (spec.id :: allocs) := by
  refine ⟨hS, hs.nodes.trans h.nodes, ?_, ?_, ?_⟩
  · intro j hj
    rw [mem_cons, not_or] at hj
    rw [hs.jobs j hj.1, h.jobs j hj.2]
  · intro id hid
    rw [mem_cons, not_or] at hid
    rw [hs.attempts id hid.1, h.attempts id hid.2]
  · intro al hal
    rw [mem_cons, not_or] at hal
    rw [hs.allocations, get?_insert_of_ne _ _ (Ne.symm hal.1), h.allocations al hal.2]

end Seating

/-- The seats of an accepted batch, one after the other: each placement is new to
    the state it is seated in, and the job is as the revocations left it. -/
inductive SeatTrail (s : StateMachine) (revoked : List AllocationId) (fx₀ : Effects)
    (at_ : Timestamp) : Effects → List Placement → List (Option Timestamp) →
      List (List Victim) → Effects → Prop where
  | nil {fx} (sound : Sound ∅ fx) : SeatTrail s revoked fx₀ at_ fx [] [] [] fx
  | cons {fx fx' p spec j ps cutoff cutoffs group groups} (sound : Sound ∅ fx)
      (screened : Screened s revoked p spec) (fresh : Fresh fx p spec j)
      (job : fx₀.st.jobs.get? p.job = some j)
      (rest : SeatTrail s revoked fx₀ at_ (fx.seatPlacement at_ p cutoff group) ps cutoffs groups
        fx') :
      SeatTrail s revoked fx₀ at_ fx (p :: ps) (cutoff :: cutoffs) (group :: groups) fx'

/-- Seating the rest of a batch. -/
theorem Seating.trail {s : StateMachine} {revoked : List AllocationId} {fx0 : Effects}
    (at_ : Timestamp) (hS0 : Sound ∅ fx0) (hset : Settles s fx0.st)
    (hrev : ∀ id ∈ revoked, ∀ r, fx0.st.allocations.get? id = some r →
      r.allocation.state = .released)
    {jobs : List JobId} {attempts : List AttemptId} {allocs : List AllocationId}
    {ps : List Placement} (hseat : StateMachine.Seatable s revoked jobs attempts allocs ps)
    {cutoffs : List (Option Timestamp)} {groups : List (List Victim)}
    (hlc : cutoffs.length = ps.length) (hlg : groups.length = ps.length)
    {fx : Effects} (h : Seating fx0 fx jobs attempts allocs) :
    SeatTrail s revoked fx0 at_ fx ps cutoffs groups
      (seatAll at_ ps cutoffs groups fx) := by
  induction hseat generalizing fx cutoffs groups with
  | nil =>
    rw [length_nil, length_eq_zero_iff] at hlc hlg
    subst hlc hlg
    exact .nil h.sound
  | cons hsc hj ha hal _ ih =>
    obtain ⟨cutoff, cutoffs, rfl⟩ := exists_cons_of_length_eq_add_one hlc
    obtain ⟨group, groups, rfl⟩ := exists_cons_of_length_eq_add_one hlg
    obtain ⟨j, hf⟩ := h.fresh hset hsc (hsc.idle hS0 hset hrev) hj ha hal
    obtain ⟨hS, -, hs⟩ := h.sound.seat at_ cutoff group hf
    have hjob : fx0.st.jobs.get? _ = some j := (h.jobs _ hj).symm.trans hf.job
    exact .cons h.sound hsc hf hjob
      (ih (Nat.succ.inj hlc) (Nat.succ.inj hlg) (h.next hS hs))

namespace SeatTrail

variable {s : StateMachine} {revoked : List AllocationId} {fx0 fx fx' : Effects} {at_ : Timestamp}
  {ps : List Placement} {cutoffs : List (Option Timestamp)} {groups : List (List Victim)}

/-- Seating keeps the invariant. -/
theorem sound (h : SeatTrail s revoked fx0 at_ fx ps cutoffs groups fx') :
    Sound ∅ fx' ∧ HoldsBounded fx.st fx'.st ∧ fx'.st.nodes = fx.st.nodes := by
  induction h with
  | nil hS => exact ⟨hS, .refl _, rfl⟩
  | @cons _ _ _ _ _ _ cutoff _ group _ hS _ hf _ _ ih =>
    obtain ⟨-, hb, hs⟩ := hS.seat at_ cutoff group hf
    obtain ⟨hS', hb', hn'⟩ := ih
    exact ⟨hS', hb.trans hb' hn', hn'.trans hs.nodes⟩

/-- The seats leave attempts and holds that are there alone, but for the marks. -/
theorem stays (h : SeatTrail s revoked fx0 at_ fx ps cutoffs groups fx') :
    (∀ {id a}, fx.st.attempts.get? id = some a →
      ∃ a', fx'.st.attempts.get? id = some a' ∧ a.Marked a') ∧
      ∀ {al r}, fx.st.allocations.get? al = some r → fx'.st.allocations.get? al = some r := by
  induction h with
  | nil _ => exact ⟨fun ha => ⟨_, ha, .refl _⟩, fun hr => hr⟩
  | @cons fx _ p spec _ _ cutoff _ group _ hS _ hf _ _ ih =>
    obtain ⟨fx1, heq, hatt, hall, -⟩ := seatPlacement_attempts fx at_ cutoff group hf.one hf.job
    have hseats := (hS.seat at_ cutoff group hf).2.2
    refine ⟨fun {id a} ha => ?_, fun {al r} hr => ih.2 ?_⟩
    · have hne : p.attempt ≠ id := fun e => by rw [← e, hf.attempt] at ha; cases ha
      have ha1 : fx1.st.attempts.get? id = some a := by
        rw [hatt, get?_insert_of_ne _ _ hne]
        exact ha
      obtain ⟨b, hb, hmark⟩ := (recordVictims_marked group fx1 at_ spec.node).1.some ha1
      rw [heq] at ih
      obtain ⟨c, hc, hmark'⟩ := ih.1 hb
      exact ⟨c, hc, hmark.trans hmark'⟩
    · have hne : spec.id ≠ al := fun e => by rw [← e, hf.allocation] at hr; cases hr
      rw [hseats.allocations, get?_insert_of_ne _ _ hne]
      exact hr

end SeatTrail

namespace StateMachine

variable {s : StateMachine} {c : CommitPlacements}

/-- What an accepted batch has passed. -/
structure BatchOk (s : StateMachine) (c : CommitPlacements) : Prop where
  revoked : (s.screenBatch c).1 = c.revocations
  accruing : ∀ id ∈ c.revocations, ∃ r, s.allocations.get? id = some r ∧
    r.allocation.state = .accruing
  nodup : c.revocations.Nodup
  seatable : Seatable s c.revocations [] [] [] c.placements
  cutoffs : (s.screen c).cutoffs.length = c.placements.length
  victims : (s.screen c).victims.length = c.placements.length

theorem batchOk_of_items (h : (s.screen c).items.isEmpty = true) : BatchOk s c := by
  simp only [List.isEmpty_iff] at h
  obtain ⟨hitems, hseat, cutoffs, groups, -, hlc, hlg, hc, hg⟩ := screenPlacements_screens h
  obtain ⟨hrev, hacc, hnd⟩ := validateRevocations_ok hitems
  rw [List.nil_append] at hrev
  have heq : (s.screenBatch c).1 = c.revocations := hrev
  refine ⟨heq, fun id hid => (hacc id hid).2, hnd, hrev ▸ hseat, ?_, ?_⟩
  · change (s.screenPlacements c _ _ _ _ _).cutoffs.length = _
    rw [hc]
    simpa using hlc
  · change (s.screenPlacements c _ _ _ _ _).victims.length = _
    rw [hg]
    simpa using hlg

/-- The state after the revocations of a batch. -/
def revokedEffects (s : StateMachine) (c : CommitPlacements) : Effects :=
  c.revocations.foldl (revokeOne c.proposedAt) ⟨s, [], some s.usedCapacityMemo⟩

theorem Consistent.batchStart (h : Consistent s) : Sound ∅ ⟨s, [], some s.usedCapacityMemo⟩ :=
  ⟨⟨h.linked, h.fit, memoExact_usedCapacityMemo h.fit []⟩, h.jobs, fun n _ => h.conserved n⟩

/-- The seats of a batch that has passed. -/
theorem BatchOk.trail (hok : BatchOk s c) (h : Consistent s) :
    SeatTrail s c.revocations (s.revokedEffects c) c.proposedAt (s.revokedEffects c) c.placements
      (s.screen c).cutoffs (s.screen c).victims
      (s.committing c) := by
  obtain ⟨hS0, hset, hrel⟩ := Sound.revokeAll c.proposedAt c.revocations (Consistent.batchStart h)
  exact Seating.trail c.proposedAt hS0 hset hrel hok.seatable hok.cutoffs hok.victims
    (Seating.start hS0)

/-- A batch, accepted or not, keeps the invariant. -/
theorem commitPlacements_consistent (h : Consistent s) (c : CommitPlacements) :
    Consistent (s.commitPlacements c).1 ∧ HoldsBounded s (s.commitPlacements c).1 := by
  unfold commitPlacements
  simp only
  split_ifs with hitems
  · exact ⟨h, .refl s⟩
  · split
    · exact ⟨h, .refl s⟩
    · have hok : BatchOk s c := batchOk_of_items (by simpa using hitems)
      obtain ⟨-, hset, -⟩ := Sound.revokeAll c.proposedAt c.revocations (Consistent.batchStart h)
      obtain ⟨hS, hb, hn⟩ := (hok.trail h).sound
      exact ⟨hS.consistent, hset.bounded.trans hb hn⟩

end StateMachine

end Coppice.State
