/-
  Coppice.State.Emptying

  A drain without a deadline only empties its node: each command keeps or lowers the
  bounds of the node's commitments, and what a batch adds is backfill, certain to be
  over by the horizon that was there.
-/

import Coppice.State.DrainRecord
import Coppice.State.Landing
import Coppice.State.Terminations

namespace Coppice.State

open NodeHorizon

open Lib Coppice.Core StateMachine List OrdMap AllocationRecord Resources NodeRecord

/-! ## The order of horizons -/

/-- An instant that may never come. -/
def limitOf (bound : Option Timestamp) : WithBot (WithTop Timestamp) :=
  match bound with
  | none => ((⊤ : WithTop Timestamp) : WithBot (WithTop Timestamp))
  | some t => ((t : WithTop Timestamp) : WithBot (WithTop Timestamp))

namespace NodeHorizon

/-- Empty, then bounded by time, then unbounded. -/
def limit : NodeHorizon → WithBot (WithTop Timestamp)
  | .empty => ⊥
  | .bounded t => limitOf (some t)
  | .unbounded => limitOf none

instance : LE NodeHorizon := ⟨fun h h' => h.limit ≤ h'.limit⟩

theorem le_def {h h' : NodeHorizon} : h ≤ h' ↔ h.limit ≤ h'.limit := Iff.rfl

end NodeHorizon

theorem limitOf_le_none (bound : Option Timestamp) : limitOf bound ≤ limitOf none := by
  cases bound with
  | none => exact le_refl _
  | some t => exact WithBot.coe_le_coe.mpr le_top

theorem limitOf_some_le {t u : Timestamp} : limitOf (some t) ≤ limitOf (some u) ↔ t ≤ u := by
  simp [limitOf]

theorem limitOf_mono : Monotone fun t => limitOf (some t) := fun _ _ => limitOf_some_le.mpr

theorem NodeHorizon.limit_absorb (h : NodeHorizon) (bound : Option Timestamp) :
    (h.absorb bound).limit = max h.limit (limitOf bound) := by
  cases h with
  | unbounded => exact (max_eq_left (limitOf_le_none bound)).symm
  | empty => cases bound <;> exact (max_eq_right bot_le).symm
  | bounded t =>
    cases bound with
    | none => exact (max_eq_right (limitOf_le_none (some t))).symm
    | some u => exact limitOf_mono.map_max

theorem limitOf_minSome (a b : Option Timestamp) :
    limitOf (minSome a b) = min (limitOf a) (limitOf b) := by
  cases a with
  | none => exact (min_eq_right (limitOf_le_none b)).symm
  | some t =>
    cases b with
    | none => exact (min_eq_left (limitOf_le_none (some t))).symm
    | some u => exact limitOf_mono.map_min

namespace StateMachine

variable {s : StateMachine} {n : NodeId} {al : AllocationId} {r : AllocationRecord}

/-- The horizon is the join of the bounds of the live commitments. -/
theorem nodeHorizon_le_iff {x : WithBot (WithTop Timestamp)} :
    (s.nodeHorizon n).limit ≤ x ↔ ∀ al r, s.allocations.get? al = some r →
      r.allocation.node = n → r.isLive = true → limitOf (s.commitmentBound r) ≤ x := by
  have hfold : ∀ (l : List AllocationRecord) (h : NodeHorizon),
      (l.foldl (fun h record => if record.allocation.node = n ∧ record.isLive then
        h.absorb (s.commitmentBound record) else h) h).limit ≤ x ↔
      h.limit ≤ x ∧ ∀ r ∈ l, r.allocation.node = n → r.isLive = true →
        limitOf (s.commitmentBound r) ≤ x := by
    intro l
    induction l with
    | nil => simp
    | cons r rest ih =>
      intro h
      rw [foldl_cons, ih, forall_mem_cons]
      split_ifs with hr
      · rw [limit_absorb, max_le_iff]
        exact ⟨fun ⟨⟨h1, h2⟩, h3⟩ => ⟨h1, fun _ _ => h2, h3⟩,
          fun ⟨h1, h2, h3⟩ => ⟨⟨h1, h2 hr.1 hr.2⟩, h3⟩⟩
      · exact ⟨fun ⟨h1, h3⟩ => ⟨h1, fun hn hl => absurd ⟨hn, hl⟩ hr, h3⟩,
          fun ⟨h1, _, h3⟩ => ⟨h1, h3⟩⟩
  unfold nodeHorizon
  rw [hfold]
  simp only [limit, bot_le, true_and, mem_values]
  exact ⟨fun h al r hr => h r ⟨al, hr⟩, fun h r ⟨al, hr⟩ => h al r hr⟩

theorem commitmentBound_le (hr : s.allocations.get? al = some r) (hn : r.allocation.node = n)
    (hlive : r.isLive = true) : limitOf (s.commitmentBound r) ≤ (s.nodeHorizon n).limit :=
  nodeHorizon_le_iff.mp (le_refl _) al r hr hn hlive

/-- An accrual has no bound. -/
theorem unbounded_of_accruing (hr : s.allocations.get? al = some r) (hn : r.allocation.node = n)
    (hacc : r.allocation.state = .accruing) : s.nodeHorizon n = .unbounded := by
  have hlive : r.isLive = true := by simp [isLive, hacc]
  have hle := commitmentBound_le hr hn hlive
  have hnone : s.commitmentBound r = none := if_pos hacc
  rw [hnone] at hle
  cases hh : s.nodeHorizon n with
  | unbounded => rfl
  | _ =>
    rw [hh] at hle
    exact absurd hle (by simp [limit, limitOf])

end StateMachine

/-! ## Commitments that are there -/

variable {s s' : StateMachine} {r : AllocationRecord}

/-- The bound of a commitment that does not accrue, as the least of what bounds it. -/
theorem limitOf_commitmentBound {a : AttemptRecord} (hacc : r.allocation.state ≠ .accruing)
    (ha : s.attempts.get? r.allocation.attempt = some a) :
    limitOf (s.commitmentBound r) = min
      (limitOf (a.startedAt.bind fun started =>
        ((s.jobs.get? r.allocation.job).bind fun j => j.spec.maxRuntime).map
          fun m => (started.saturatingAdd m).saturatingAdd s.policy.abortGrace))
      (min (limitOf (a.startedAt.bind fun _ => (a.preemption.bind Preemption.acknowledged).map
          fun ack => ack.deadline.saturatingAdd s.policy.abortGrace)) (limitOf a.drainCutoff)) := by
  unfold commitmentBound
  simp only [if_neg hacc, ha]
  cases a.startedAt with
  | none =>
    simp only [Option.bind_none]
    rw [min_eq_right (limitOf_le_none _ |> le_trans (min_le_left _ _)),
      min_eq_right (limitOf_le_none _)]
  | some started =>
    simp only [Option.bind_some]
    rw [limitOf_minSome, limitOf_minSome]

variable {c : Command} {al : AllocationId} {r' : AllocationRecord}

/-- A hold after a command has moved at most, or a batch has placed it. -/
theorem StateMachine.apply_hold (hC : Consistent s)
    (hr' : (s.apply c).1.allocations.get? al = some r') :
    (∃ r, s.allocations.get? al = some r ∧ r.Moves r') ∨
      s.allocations.get? al = none ∧ ∃ x, c = .commitPlacements x ∧ Commits s x := by
  have hsame (h : (s.dispatch c).1.allocations = s.allocations) :
      ∃ r, s.allocations.get? al = some r ∧ r.Moves r' :=
    ⟨r', (congrArg (get? · al) h).symm.trans hr', .refl r'⟩
  by_cases hc : c.rewrites = true
  · cases c with
    | commitPlacements c =>
      have hcommit : (s.commitPlacements c).1.allocations.get? al = some r' := hr'
      cases hres : (s.commitPlacements c).2 with
      | error e => exact .inl (hsame (congrArg allocations (commitPlacements_refused hres)))
      | ok x =>
        have hb := commitPlacements_commits hres
        cases hr : s.allocations.get? al with
        | none => exact .inr ⟨rfl, c, rfl, hb⟩
        | some r =>
          obtain ⟨q, hq, hmove⟩ := (revocations_progressed s c).moved.allocations.some hr
          rw [hb.state] at hcommit
          cases hcommit.symm.trans ((hb.ok.trail hC).stays.2 hq)
          exact .inl ⟨r, rfl, hmove⟩
    | recordAttemptNotified c => exact .inl (hsame (s.recordAttemptNotified_quiet c).allocations)
    | renewIntervalCharges c => exact .inl (hsame (s.renewIntervalCharges_quiet c).allocations)
    | _ c => cases hc
  · exact .inl (((s.dispatch_step _).carried (by simpa using hc)).allocations hr')

/-- A hold that is there moves at most. -/
theorem StateMachine.apply_moves_hold (hC : Consistent s) (hr : s.allocations.get? al = some r)
    (hr' : (s.apply c).1.allocations.get? al = some r') : r.Moves r' := by
  rcases apply_hold hC hr' with ⟨q, hq, hmove⟩ | ⟨hnone, -⟩
  · cases hq.symm.trans hr
    exact hmove
  · cases hnone.symm.trans hr

namespace Reachable

section

variable (h : Reachable s) (hr : s.allocations.get? al = some r)
  (hr' : (s.apply c).1.allocations.get? al = some r')

include h hr hr'

/-- A live hold after a command, with its attempt before and after. -/
theorem hold_before (hlive : r'.isLive = true) :
    ∃ a a', s.attempts.get? r.allocation.attempt = some a ∧
      (s.apply c).1.attempts.get? r.allocation.attempt = some a' ∧
      a.attempt.state.isTerminal = false ∧ a'.attempt.state.isTerminal = false ∧
      r.allocation.state = allocationStateOf a.attempt.state ∧
      r'.allocation.state = allocationStateOf a'.attempt.state ∧
      a.attempt.job = r.allocation.job := by
  have hmove := apply_moves_hold h.consistent hr hr'
  have hatt : r'.allocation.attempt = r.allocation.attempt := by rw [hmove]
  obtain ⟨a, ha, hal⟩ := h.consistent.linked.attempt_of hr
  obtain ⟨a', ha', hal'⟩ := (h.apply c).consistent.linked.attempt_of hr'
  obtain ⟨q, hq⟩ := h.consistent.allocationAgrees ha
  obtain ⟨q', hq'⟩ := (h.apply c).consistent.allocationAgrees ha'
  cases (hal ▸ hq.found).symm.trans hr
  cases (hal' ▸ hq'.found).symm.trans hr'
  have hlive' : a'.attempt.state.isTerminal = false := by
    cases hst : a'.attempt.state with
    | terminal o =>
      have hrel := hq'.state
      rw [hst] at hrel
      simp [isLive, hrel, allocationStateOf] at hlive
    | _ => rfl
  rw [hatt] at ha'
  exact ⟨a, a', ha, ha', h.live_of_live ha ha' hlive', hlive', hq.state, hq'.state, hq.job.symm⟩

/-- Nothing starts to accrue again. -/
theorem accruing_before (hacc : r'.allocation.state = .accruing) :
    r.allocation.state = .accruing := by
  obtain ⟨a, a', ha, ha', -, -, hst, hst', -⟩ :=
    h.hold_before hr hr' (by simp [isLive, hacc])
  have hacc' : a'.attempt.state = .accruing := by
    rw [hst'] at hacc
    cases hs : a'.attempt.state <;> rw [hs] at hacc <;> first | rfl | cases hacc
  obtain ⟨states, ⟨steps, -, htrail⟩, -⟩ := h.attemptLife ha ha'
  rw [hacc'] at htrail
  obtain ⟨-, hsame⟩ := htrail.unentered fun v hv => by
    cases v <;> simp [AttemptState.mayTransitionTo, AttemptState.isTerminal] at hv
  rw [hst, hsame]
  rfl

end

/-- A command keeps or lowers the bound of a commitment that was there. -/
theorem commitmentBound_le (h : Reachable s)
    (hgrace : (s.apply c).1.policy.abortGrace = s.policy.abortGrace)
    (hr : s.allocations.get? al = some r) (hr' : (s.apply c).1.allocations.get? al = some r')
    (hlive : r'.isLive = true) :
    r.isLive = true ∧
      limitOf ((s.apply c).1.commitmentBound r') ≤ limitOf (s.commitmentBound r) := by
  have hmove := apply_moves_hold h.consistent hr hr'
  obtain ⟨a, a', ha, ha', hl, hl', hst, hst', hjob⟩ := h.hold_before hr hr' hlive
  have hlive0 : r.isLive = true := by
    simp only [isLive, hst]
    cases hs : a.attempt.state <;> rw [hs] at hl <;> first | rfl | cases hl
  refine ⟨hlive0, ?_⟩
  by_cases hacc : r.allocation.state = .accruing
  · have hnone : s.commitmentBound r = none := if_pos hacc
    rw [hnone]
    exact limitOf_le_none _
  have hacc' : r'.allocation.state ≠ .accruing := fun e => hacc (h.accruing_before hr hr' e)
  -- the job and its declared bound are the same
  obtain ⟨j, hj, -⟩ := h.consistent.jobs.current ha hl
  obtain ⟨j', hj', -⟩ := (h.apply c).consistent.jobs.current ha' hl'
  have hjob' : a'.attempt.job = a.attempt.job := (h.attemptAges ha ha').same.job
  rw [hjob'] at hj'
  have hspec := (h.jobLife hj hj').ages.spec
  have hmax : j'.spec.maxRuntime = j.spec.maxRuntime := by rw [hspec]
  rw [hjob] at hj hj'
  have hrjob : r'.allocation.job = r.allocation.job := by rw [hmove]
  have hratt : r'.allocation.attempt = r.allocation.attempt := by rw [hmove]
  rw [limitOf_commitmentBound hacc ha, limitOf_commitmentBound hacc' (hratt ▸ ha'), hrjob, hj, hj',
    hgrace]
  simp only [Option.bind_some, hmax]
  have hcutoff : a'.drainCutoff = a.drainCutoff := by
    cases apply_fate h.consistent ha' with
    | kept hb _ hseat | noted hb _ _ _ hseat | evicted hb _ _ _ _ _ hseat _ =>
      rw [ha] at hb
      cases hb
      exact hseat.cutoff
    | fresh hnone _ =>
      rw [ha] at hnone
      cases hnone
  rw [hcutoff]
  cases hstart : a.startedAt with
  | none =>
    exact min_le_min (limitOf_le_none _) (min_le_min (limitOf_le_none _) (le_refl _))
  | some started =>
    rw [(h.attemptAges ha ha').started started hstart]
    refine min_le_min (le_refl _) (min_le_min ?_ (le_refl _))
    cases hp : a.preemption with
    | none => exact limitOf_le_none _
    | some p =>
      cases hack : p.acknowledged with
      | none =>
        simp only [Option.bind_some, hack]
        exact limitOf_le_none _
      | some ack =>
        have hstep : AttemptStays r.allocation.attempt s (s.apply c).1 :=
          .step .init (by rw [ha']; rfl)
        obtain ⟨p', hp', hkept⟩ := hstep.recordKept h ha hp ha'
        obtain ⟨ack', hack', -, hle⟩ := hkept.acknowledged ack hack
        simp only [hp', Option.bind_some, hack, hack', Option.map_some]
        exact limitOf_some_le.mpr (Timestamp.saturatingAdd_le hle _)

end Reachable

/-! ## Backfill -/

/-- The node is under an operator drain without a deadline. -/
def RegularDrain (s : StateMachine) (n : NodeId) : Prop :=
  ∃ d, s.drainOf n = some d ∧ d.deadline = none

/-- What the batch has seated as backfill on a node so far. -/
def Screen.seatedOn (sc : Screen) (n : NodeId) : Resources := (sc.seated.get? n).getD .zero

namespace StateMachine

variable {c : CommitPlacements} {revoked : List AllocationId} {used : Memo} {sc sc' : Screen}
  {p : Placement} {spec : AllocationSpec} {cutoff : Option Timestamp} {group : List Victim}

/-- A placement onto a drained node is backfill up to the horizon. -/
theorem Passes.backfills (h : Passes s c revoked used sc p spec cutoff group sc')
    (hp : p ∈ c.placements) (hd : RegularDrain s spec.node) :
    ∃ t j, s.nodeHorizon spec.node = .bounded t ∧ cutoff = some t ∧ s.jobs.get? p.job = some j ∧
      j.spec.maxRuntime ≠ none ∧
      (∀ d, spec.requested.get d ≤ (s.freeCapacity spec.node (some used)).get d -
        (sc.seatedOn spec.node).get d) ∧
      sc'.seated = sc.seated.insert spec.node
        ((sc.seatedOn spec.node).saturatingAdd spec.requested) := by
  obtain ⟨d, hd, hnone⟩ := hd
  obtain ⟨j, n, hj, hn, hadmit⟩ := h.admitted
  have hdrain : n.node.drain = some d := by rw [← drainOf_of_some hn, hd]
  cases hclosed : n.draining with
  | true => simp [admitPlacement, admits, admission, hclosed,
      NodeAdmission.admits] at hadmit
  | false =>
    have htarget : (s.drainedTargets c).contains spec.node = true := by
      rw [contains_iff_mem]
      refine mem_filter.mpr ⟨mem_flatMap.mpr ⟨p, hp, ?_⟩, ?_⟩
      · rw [h.screened.one]
        exact mem_cons_self
      · simp [hn, hdrain, hnone, hclosed]
    have hhorizon : s.batchHorizon c spec.node = s.nodeHorizon spec.node := if_pos htarget
    simp only [admitPlacement, admits, admission, hclosed, hdrain, hnone,
      hhorizon, Bool.false_eq_true, if_false] at hadmit
    cases hh : s.nodeHorizon spec.node with
    | empty => simp [hh, NodeAdmission.admits] at hadmit
    | unbounded => simp [hh, NodeAdmission.admits] at hadmit
    | bounded t =>
      cases hm : j.spec.maxRuntime with
      | none => simp [hh, NodeAdmission.admits, hm] at hadmit
      | some m =>
        simp only [hh, NodeAdmission.admits, hm] at hadmit
        split at hadmit
        · cases hadmit
        · rename_i hadm
          split_ifs at hadm
        · rename_i t' hadm
          split_ifs at hadm with hends
          cases hadm
          split at hadmit
          · cases hadmit
          · split_ifs at hadmit with hfits
            rw [Bool.not_eq_true', Bool.not_eq_false, fitsWithin_iff] at hfits
            obtain ⟨hcut, hseated⟩ := Prod.mk.inj (Except.ok.inj hadmit)
            refine ⟨t, j, rfl, hcut.symm, hj, by rw [hm]; exact Option.some_ne_none m, ?_,
              hseated.symm⟩
            intro d
            rw [← get_saturatingSub]
            exact hfits d

/-- A placement elsewhere seats nothing on the node. -/
theorem Passes.seated_ne (h : Passes s c revoked used sc p spec cutoff group sc') {n : NodeId}
    (hne : spec.node ≠ n) : sc'.seatedOn n = sc.seatedOn n := by
  obtain ⟨j, r, -, -, hadmit⟩ := h.admitted
  have hseated : sc'.seated = sc.seated ∨ ∃ x, sc'.seated = sc.seated.insert spec.node x := by
    unfold admitPlacement at hadmit
    split at hadmit
    · cases hadmit
    · cases hgates : s.placementGates j r spec with
      | error e =>
        rw [hgates] at hadmit
        cases hadmit
      | ok u =>
        rw [hgates] at hadmit
        exact .inl (Prod.mk.inj (Except.ok.inj hadmit)).2.symm
    · split at hadmit
      · cases hadmit
      · simp only at hadmit
        split_ifs at hadmit
        exact .inr ⟨_, (Prod.mk.inj (Except.ok.inj hadmit)).2.symm⟩
  unfold Screen.seatedOn
  rcases hseated with e | ⟨x, e⟩
  · rw [e]
  · rw [e, get?_insert_of_ne _ _ hne]

end StateMachine

/-- A hold placed on a drained node. -/
structure Backfill (s s' : StateMachine) (r : AllocationRecord) : Prop where
  funded : r.allocation.state = .funded
  full : r.allocation.funded = r.allocation.requested
  job : ∃ j, s.jobs.get? r.allocation.job = some j ∧ j.spec.maxRuntime ≠ none
  cutoff : ∃ a t, s'.attempts.get? r.allocation.attempt = some a ∧ a.startedAt = none ∧
    a.drainCutoff = some t ∧ s.nodeHorizon r.allocation.node = .bounded t

/-- What is free on the node, beyond what the batch has seated on it. -/
def RoomLeft (s : StateMachine) (n : NodeId) (sc : Screen) (fx : Effects) : Prop :=
  ∀ d, s.capacityOf n d - s.heldOn n d - (sc.seatedOn n).get d ≤
    fx.st.capacityOf n d - fx.st.heldOn n d

section Batches

variable {c : CommitPlacements} {n : NodeId} {sc : Screen} {revoked : List AllocationId}
  {fx : Effects}

/-- A seat on the drained node is funded in full and leaves the room it should. -/
theorem RoomLeft.seat {sc' : Screen} {cutoff : Option Timestamp} {group : List Victim}
    (at_ : Timestamp) (hfit : HoldsFit s) (hS : Sound ∅ fx) (hf : Fresh fx p spec j)
    (hpass : StateMachine.Passes s c revoked s.usedCapacityMemo sc p spec cutoff group sc')
    (hp : p ∈ c.placements) (hd : RegularDrain s n) (hroom : RoomLeft s n sc fx) :
    RoomLeft s n sc' (fx.seatPlacement at_ p cutoff group) ∧
      (spec.node = n → (fx.seatedAllocation p spec).allocation.funded = spec.requested) := by
  have hseats := (hS.seat at_ cutoff group hf).2.2
  have hcap : ∀ d, (fx.seatPlacement at_ p cutoff group).st.capacityOf n d =
      fx.st.capacityOf n d := capacityOf_congr hseats.nodes n
  have hheld := hseats.heldOn hf.allocation n
  by_cases hn : spec.node = n
  · subst hn
    obtain ⟨t, -, -, -, -, -, hfits, hseated⟩ := hpass.backfills hp hd
    have hexact : MemoExact ⟨s, [], some s.usedCapacityMemo⟩ := memoExact_usedCapacityMemo hfit []
    have hbefore : ∀ d, (s.freeCapacity spec.node (some s.usedCapacityMemo)).get d =
        s.capacityOf spec.node d - s.heldOn spec.node d := freeCapacity_get hfit hexact spec.node
    have hnow := freeCapacity_get hS.books.fit hS.books.memo spec.node
    have hfull : (fx.st.freeCapacity spec.node fx.used).componentMin spec.requested =
        spec.requested := by
      rw [componentMin_eq_right_iff]
      intro d
      have h1 := hfits d
      have h2 := hroom d
      rw [hbefore d] at h1
      rw [hnow d]
      omega
    refine ⟨fun d => ?_, fun _ => hfull⟩
    have h1 := hfits d
    have h2 := hroom d
    have h3 := get_le_u64Max (s.freeCapacity spec.node (some s.usedCapacityMemo)) d
    have hon : (sc'.seatedOn spec.node).get d =
        min ((sc.seatedOn spec.node).get d + spec.requested.get d) u64Max := by
      simp [Screen.seatedOn, hseated]
    rw [hcap, hheld, if_pos rfl, hfull, hon]
    rw [hbefore d] at h1 h3
    omega
  · refine ⟨fun d => ?_, fun e => absurd e hn⟩
    rw [hcap, hheld, if_neg hn, hpass.seated_ne hn, Nat.zero_add]
    exact hroom d

/-- What the seats of a batch add to the drained node is backfill. -/
theorem SeatTrail.backfills (h : SeatTrail s revoked fx0 at_ fx ps cutoffs groups fx')
    (hscreens : StateMachine.Screens s c revoked s.usedCapacityMemo sc ps cutoffs groups)
    (hps : ∀ p ∈ ps, p ∈ c.placements) (hfit : HoldsFit s) (hd : RegularDrain s n)
    (hroom : (∃ t, s.nodeHorizon n = .bounded t) → RoomLeft s n sc fx) {r : AllocationRecord}
    (hr : fx'.st.allocations.get? al = some r) (hn : r.allocation.node = n) :
    fx.st.allocations.get? al = some r ∨ Backfill s fx'.st r := by
  induction h generalizing sc with
  | nil _ => exact .inl hr
  | @cons fx fx' p spec j ps cutoff cutoffs group groups hS _ hf _ hrest ih =>
    obtain _ | ⟨hpass, hlater⟩ := hscreens
    have hspec := Option.some.inj (congrArg List.head? (hf.one.symm.trans hpass.screened.one))
    subst hspec
    have hp := hps p mem_cons_self
    have hseats := (hS.seat at_ cutoff group hf).2.2
    rcases ih hlater (fun q hq => hps q (mem_cons_of_mem _ hq))
      (fun hb => (RoomLeft.seat at_ hfit hS hf hpass hp hd (hroom hb)).1) hr with hr | hback
    · rw [hseats.allocations, get?_insert] at hr
      split_ifs at hr with hid
      · -- the seat itself
        cases hr
        have hnode : spec.node = n := hn
        subst hnode
        obtain ⟨t, job, hhorizon, hcut, hjob, hmax, -, -⟩ := hpass.backfills hp hd
        have hfull := (RoomLeft.seat at_ hfit hS hf hpass hp hd (hroom ⟨t, hhorizon⟩)).2 rfl
        obtain ⟨fx1, heq, hatt, -, -⟩ := seatPlacement_attempts fx at_ cutoff group hf.one hf.job
        have hseated : fx1.st.attempts.get? p.attempt = some (seatedBy fx at_ p spec j cutoff) := by
          rw [hatt, get?_insert_self]
        obtain ⟨b, hb, hmark⟩ := (recordVictims_marked group fx1 at_ spec.node).1.some hseated
        rw [← heq] at hb
        obtain ⟨b', hb', hmark'⟩ := hrest.stays.1 hb
        have hrecord := hmark.trans hmark'
        have hstamps := (seatedAttempt_attempt fx.st at_ p spec j cutoff
          (if (fx.seatedAllocation p spec).allocation.funded = spec.requested then .ready
            else .accruing)).2.2
        refine .inr ⟨if_pos hfull, hfull, ⟨job, hjob, hmax⟩, b', t, hb', ?_, ?_, hhorizon⟩
        · rw [hrecord]
          exact hstamps.started
        · rw [hrecord, ← hcut]
          exact (seatedBy_record fx at_ p spec j cutoff).2
      · exact .inl hr
    · exact .inr hback

/-- Revocations leave a node without accruals alone. -/
theorem roomLeft_start (hC : Consistent s) (hb : StateMachine.Commits s c)
    (hbound : ∃ t, s.nodeHorizon n = .bounded t) : RoomLeft s n sc (s.revokedEffects c) := by
  obtain ⟨t, ht⟩ := hbound
  have hnone : ∀ al r, s.allocations.get? al = some r → r.allocation.node = n →
      r.allocation.state ≠ .accruing := by
    intro al r hr hn hacc
    rw [unbounded_of_accruing hr hn hacc] at ht
    cases ht
  have hrev := hC.revoked c.proposedAt hb.ok.nodup hb.ok.accruing
  have hhold d : revokedHold s c.revocations n d = 0 := by
    refine sum_eq_zero fun x hx => ?_
    obtain ⟨al, hal, rfl⟩ := mem_map.mp hx
    obtain ⟨r, hr, hacc⟩ := hb.ok.accruing al hal
    rw [hr]
    exact if_neg fun hn => hnone al r hr hn hacc
  have hstay : s.staying c.revocations n = [] := by
    refine eq_nil_iff_forall_not_mem.mpr fun e he => ?_
    obtain ⟨-, r, hr, hacc, hn, -⟩ := hC.linked.mem_staying.mp he
    exact hnone e.2 r hr hn hacc
  intro d
  have hfree := hrev.free n d
  rw [hstay] at hfree
  have hroom : (s.revokedEffects c).st.capacityOf n d - (s.revokedEffects c).st.heldOn n d =
      s.capacityOf n d - s.heldOn n d := by
    refine hfree.trans ?_
    simp [room, hhold, needsOf]
  omega

/-- What a command adds to a drained node is backfill. -/
theorem apply_backfills (hC : Consistent s) (hd : RegularDrain s n) {c : Command}
    {r : AllocationRecord} (hr : (s.apply c).1.allocations.get? al = some r)
    (hn : r.allocation.node = n) (hnew : s.allocations.get? al = none) :
    Backfill s (s.apply c).1 r := by
  rcases apply_hold hC hr with ⟨q, hq, -⟩ | ⟨-, c, rfl, hb⟩
  · cases hq.symm.trans hnew
  · have hrevoke : Moved s (s.revokedEffects c).st := (revocations_progressed s c).moved
    obtain ⟨sc, hblank, hscreens⟩ := hb.screens
    have hcommit : (s.commitPlacements c).1.allocations.get? al = some r := hr
    rw [hb.state] at hcommit
    rcases (hb.ok.trail hC).backfills hscreens (fun _ hp => hp) hC.fit hd
      (roomLeft_start hC hb) hcommit hn with hold | hback
    · rw [hrevoke.allocations.none_iff.mpr hnew] at hold
      cases hold
    · have hst : (s.apply (.commitPlacements c)).1.attempts =
          (s.commitPlacements c).1.attempts := rfl
      rw [hb.state] at hst
      obtain ⟨a, t, ha, hrest⟩ := hback.cutoff
      exact ⟨hback.funded, hback.full, hback.job, a, t, by rw [hst]; exact ha, hrest⟩

end Batches

/-! ## Runs under a drain -/

/-- A seat that was backfill is over by the horizon that admitted it. -/
theorem Backfill.bound (h : Backfill s s' r) :
    limitOf (s'.commitmentBound r) = (s.nodeHorizon r.allocation.node).limit := by
  obtain ⟨a, t, ha, hstart, hcut, hhorizon⟩ := h.cutoff
  have hacc : r.allocation.state ≠ .accruing := by
    rw [h.funded]
    exact AllocationState.noConfusion
  have hbound : s'.commitmentBound r = some t := by
    simp [commitmentBound, if_neg hacc, ha, hstart, hcut]
  rw [hbound, hhorizon]
  rfl

/-- A step taken while the node is drained, at one abort grace. -/
def DrainedStep (n : NodeId) (s : StateMachine) (c : Command) : Prop :=
  RegularDrain s n ∧ (s.apply c).1.policy.abortGrace = s.policy.abortGrace

/-- A run from one state to another during which the node stays drained. -/
def DrainedRun (n : NodeId) (s : StateMachine) : StateMachine → Prop :=
  Reach s (fun s c => (s.apply c).1) (DrainedStep n)

/-- `s'` holds no more accruals on the node than `s`. -/
def AccruesWithin (n : NodeId) (s s' : StateMachine) : Prop :=
  ∀ al r, s'.allocations.get? al = some r → r.allocation.node = n →
    r.allocation.state = .accruing →
      ∃ q, s.allocations.get? al = some q ∧ q.allocation.node = n ∧ q.allocation.state = .accruing

theorem AccruesWithin.trans (h : AccruesWithin n s s') (h' : AccruesWithin n s' s'') :
    AccruesWithin n s s'' := by
  intro al r hr hn hacc
  obtain ⟨q, hq, hqn, hqacc⟩ := h' al r hr hn hacc
  exact h al q hq hqn hqacc

namespace Reachable

variable {n : NodeId}

theorem accruesWithin (h : Reachable s) (hd : RegularDrain s n) :
    AccruesWithin n s (s.apply c).1 := by
  intro al r hr hn hacc
  cases hold : s.allocations.get? al with
  | none =>
    have hfunded := (apply_backfills h.consistent hd hr hn hold).funded
    rw [hacc] at hfunded
    cases hfunded
  | some q =>
    have hmove := apply_moves_hold h.consistent hold hr
    refine ⟨q, rfl, ?_, h.accruing_before hold hr hacc⟩
    rw [← hn, hmove]

theorem nodeHorizon_apply_le (h : Reachable s) (hstep : DrainedStep n s c) :
    (s.apply c).1.nodeHorizon n ≤ s.nodeHorizon n := by
  refine StateMachine.nodeHorizon_le_iff.mpr fun al r' hr' hn hlive => ?_
  cases hold : s.allocations.get? al with
  | none =>
    have hback := apply_backfills h.consistent hstep.1 hr' hn hold
    rw [hback.bound, hn]
  | some r =>
    obtain ⟨hlive0, hle⟩ := h.commitmentBound_le hstep.2 hold hr' hlive
    have hmove := StateMachine.apply_moves_hold h.consistent hold hr'
    have hn0 : r.allocation.node = n := by rw [← hn, hmove]
    exact hle.trans (StateMachine.commitmentBound_le hold hn0 hlive0)

end Reachable

/-- While a node is drained without a deadline, its horizon never rises and no accrual is
    added to it; what each command of the run places on it is backfill. -/
theorem regular_drain_empties {s s' : StateMachine} {n : NodeId} (h : Reachable s)
    (hrun : DrainedRun n s s') :
    s'.nodeHorizon n ≤ s.nodeHorizon n ∧ AccruesWithin n s s' ∧
      ∀ c al r, DrainedStep n s' c → (s'.apply c).1.allocations.get? al = some r →
        r.allocation.node = n → s'.allocations.get? al = none → Backfill s' (s'.apply c).1 r := by
  have hall := Reach.invariant
    (fun s' => Reachable s' ∧ s'.nodeHorizon n ≤ s.nodeHorizon n ∧ AccruesWithin n s s')
    ⟨h, le_def.mpr (le_refl _), fun _ r hr hn hacc => ⟨r, hr, hn, hacc⟩⟩
    (fun t c ht hstep => ⟨ht.1.apply c,
      le_def.mpr ((ht.1.nodeHorizon_apply_le hstep).trans ht.2.1),
      ht.2.2.trans (ht.1.accruesWithin hstep.1)⟩) hrun
  exact ⟨hall.2.1, hall.2.2, fun c al r hstep hr hn hnew =>
    apply_backfills hall.1.consistent hstep.1 hr hn hnew⟩

namespace Sample

/-- A job that runs for at most so many seconds. -/
def submitFor (id : JobId) (seconds : Int) : Command :=
  submitJob { job id (cpu 4) with maxRuntime := some (Duration.ofSecs seconds) }

/-- An hour's job runs on node 1, which is drained; a minute's job waits. -/
def emptying : List Command :=
  [configure, register 10, submitFor 1 3600, submitFor 2 60, commit [] [place 1 4], send 1, start 1,
    .setNodeDrain ⟨1, some ⟨epoch, none⟩, none, epoch⟩]

end Sample

open Sample

/-- The minute's job is backfill on the drained node. -/
theorem regular_drain_empties_backfill :
    ∃ r, ((run emptying).apply (commit [] [place 2 4])).1.allocations.get?
        2 = some r ∧
      Backfill (run emptying)
        ((run emptying).apply (commit [] [place 2 4])).1 r ∧
      ((run emptying).apply (commit [] [place 2 4])).1.nodeHorizon 1 ≤
        (run emptying).nodeHorizon 1 := by
  have hreach : Reachable (run emptying) := reachable_run _
  have hdrain : (run emptying).drainOf 1 = some ⟨epoch, none⟩ := by
    decide +kernel
  have hstep : DrainedStep 1 (run emptying) (commit [] [place 2 4]) :=
    ⟨⟨_, hdrain, rfl⟩, by decide +kernel⟩
  have hnew : (run emptying).allocations.get? 2 = none := by decide +kernel
  have hseat : (((run emptying).apply
      (commit [] [place 2 4])).1.allocations.get? 2).map
        (fun r => r.allocation.node) = some 1 := by decide +kernel
  obtain ⟨r, hr, hn⟩ := Option.map_eq_some_iff.mp hseat
  obtain ⟨-, -, hplaced⟩ := regular_drain_empties (n := 1) hreach .init
  obtain ⟨hle, -, -⟩ := regular_drain_empties hreach (.step .init hstep)
  exact ⟨r, hr, hplaced _ 2 r hstep hr hn hnew, hle⟩

end Coppice.State
