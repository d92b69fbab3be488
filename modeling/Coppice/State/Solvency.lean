/-
  Coppice.State.Solvency

  No over-refund.  In a run whose stamps do not go back, whose decay policy stays
  while anything is owed, that places only jobs with a declared bound and saturates
  no usage, every entity's decayed usage covers what the unsettled attempts of its
  subtree were charged.
-/

import Coppice.State.Booking

namespace Coppice.State

open Lib Coppice.Core StateMachine OrdMap Effects List Option

/-! ## Commands that leave the ledger alone -/

namespace StateMachine

variable {s : StateMachine}

theorem registerNode_still (h : Consistent s) (c : RegisterNode) :
    Still s ((s.registering c).pledgeNode c.node).st := by
  have hB := registering_books h c
  obtain ⟨-, hp, -, -⟩ := hB.pledgeIf true c.node
  have hstart : Still s (s.registering c).st := .of_eq rfl rfl rfl rfl
  exact hstart.trans (.of_pledged hp)

/-- A job that is submitted has no attempt yet. -/
theorem submitted_still (h : Consistent s) {job : JobId} (r : JobRecord)
    (hnew : s.jobs.get? job = none) : Still s { s with jobs := s.jobs.insert job r } := by
  refine .of_rel (fun id a ha => ?_) (.of_eq .refl rfl) (.of_eq .refl rfl) rfl
  obtain ⟨x, hx, -⟩ := h.jobs.lineage ha
  simp [ownerOf, get?_insert_of_ne _ _ (ne_of_get? hnew hx)]

/-- Only settled attempts are evicted. -/
theorem evictJobs_still (h : Consistent s) (hset : SettledRight s) {jobs : List JobId}
    (hended : ∀ j ∈ jobs, ∀ r, s.jobs.get? j = some r → r.state.isTerminal = true) :
    Still s (jobs.foldl evictJob (start s)).st := by
  have h' := (evictJobs_spec jobs (start s) h hended).1
  have hsweeps := evictJobs_sweeps hended
  have hrest := (evictJobs_evicted jobs (start s)).rest
  refine ⟨ext_get? fun id => ?_, .of_eq .refl (by rw [hrest]; rfl), by rw [hrest]; rfl,
    fun _ id a ha => ?_⟩
  · rw [debts_get?, debts_get?]
    rcases hsweeps.attempts id with e | e
    · -- an attempt that stays has its job
      rw [e]
      cases ha : s.attempts.get? id with
      | none => rfl
      | some a =>
        have ha' : (jobs.foldl evictJob (start s)).st.attempts.get? id = some a := e.trans ha
        obtain ⟨r, hr, -⟩ := h'.jobs.lineage ha'
        refine debtOf_congr ?_ (.refl a)
        rcases hsweeps.jobs a.attempt.job with ej | ⟨ej, -⟩
        · simp [ownerOf, ej]
        · rw [show (jobs.foldl evictJob (start s)).st.jobs.get? a.attempt.job = some r
            from hr] at ej
          cases ej
    · rw [e]
      cases ha : s.attempts.get? id with
      | none => rfl
      | some a =>
        -- a live attempt would still be there, for its job is
        cases hlive : a.attempt.state.isTerminal with
        | true => simp [debtOf, (hset id a ha).trans hlive]
        | false =>
          obtain ⟨r, hr, hst, -⟩ := h.jobs.current ha hlive
          have hr' : (jobs.foldl evictJob (start s)).st.jobs.get?
              a.attempt.job = some r := by
            rcases hsweeps.jobs a.attempt.job with ej | ⟨-, hterm⟩
            · exact ej.trans hr
            · have := hterm r hr
              rw [hst] at this
              cases this
          obtain ⟨b, hb, -, -⟩ := h'.jobs.attempting hr' hst
          rw [show (jobs.foldl evictJob (start s)).st.attempts.get? id = some b
            from hb] at e
          cases e
  · rcases hsweeps.attempts id with e | e
    · exact hset id a (e.symm.trans ha)
    · rw [show (jobs.foldl evictJob (start s)).st.attempts.get? id = some a
        from ha] at e
      cases e

section

variable (hset : SettledRight s) (hjobs : JobLinked s)
  (hcharged : ∀ id d, s.debts.get? id = some d → d.charge.interval = none) (at_ : Timestamp)

include hset hjobs hcharged

/-- Nothing is renewed while no open charge goes by intervals. -/
theorem renewOne_eq (r : IntervalRenewal) : renewOne at_ s r = s := by
  unfold renewOne
  split
  · rfl
  · rename_i a ha
    split_ifs with hst
    · rfl
    · have hrun : a.attempt.state = .running := not_not.mp hst
      have hlive : a.attempt.state.isTerminal = false := by rw [hrun]; rfl
      obtain ⟨j, hj, -⟩ := hjobs.lineage ha
      have hopen : a.settlement = none := by simpa [hlive] using hset _ a ha
      have hdebt : s.debts.get? r.attempt = some ⟨j.spec.quotaEntity, a.charge⟩ := by
        simp [debts_get?, ha, debtOf, ownerOf, hopen, hj]
      have hinterval : a.charge.interval = none := hcharged _ _ hdebt
      rw [hinterval]
      split
      · rename_i e
        cases e
      · rfl

theorem renewAll_eq (l : List IntervalRenewal) : l.foldl (renewOne at_) s = s := by
  induction l with
  | nil => rfl
  | cons r rest ih => rw [foldl_cons, renewOne_eq hset hjobs hcharged, ih]

end

/-- Every command but the two that replace quotas and policy. -/
theorem Step.booked (hstep : Step s c out) (h : Consistent s) (hset : SettledRight s)
    (hcharged : ∀ id d, s.debts.get? id = some d → d.charge.interval = none)
    (hbound : ∀ fx j, Places s c fx j → j.spec.maxRuntime ≠ none)
    (hquota : ∀ x, c ≠ .configureQuotaEntity x) (hpolicy : ∀ x, c ≠ .updatePolicy x) :
    Booked s c out.1 := by
  have hflag : ∀ c : AbortJob, Booked s (.abortJob c) (s.aborting c).st :=
    fun c => .still (abortFlagged_still c.job _)
  have hmoves : ∀ {c id to_ a}, s.attempts.get? id = some a → a.attempt.state.isTerminal = false →
      to_.isTerminal = false → Booked s c ((start s).attemptTransition id to_).st := by
    intro c id to_ a ha hlive hto
    rw [attemptTransition_st]
    refine .still (.modifyAttempt _ _ fun b hb => ⟨rfl, rfl, rfl, ?_⟩)
    rw [show s.attempts.get? id = some b from hb] at ha
    cases ha
    rw [hlive]
    exact hto
  cases hstep with
  | reject | noop => exact .refl s
  | submit hnew => exact .still (submitted_still h _ hnew)
  | abortIdle =>
    refine (hflag _).trans (.still ?_)
    rw [finish, jobTerminalTransition_st]
    exact .modifyJob _ _ fun j => by rw [(j.stampTerminal_spec _).1]
  | @abortUndispatched c _ _ _ hab hst =>
    have hC := (abortFlagged_consistent h c.job ⟨c.reason, c.requestedAt⟩).sound ∅ []
    exact (hflag c).trans ((Ends.abort hab.job hst).booked hC ((hflag c).settled hset) true)
  | abortDispatched | abortEnding => exact hflag _
  | metadata => exact .still (.modifyJob _ _ fun _ => rfl)
  | commit hitems => exact commitPlacements_booked h hset hitems hbound
  | dispatchAttempt ha hst | exited ha hst => exact hmoves ha (by rw [hst]; rfl) rfl
  | started ha hst =>
    refine .still (.markAttemptRunning (start s) _ fun b hb => ?_)
    rw [show s.attempts.get? _ = some b from hb] at ha
    cases ha
    rw [hst]
    rfl
  | outcome => exact Ends.outcome.booked (h.sound ∅ []) hset true
  | notified => exact .still (.modifyAttempt _ _ fun _ _ => ⟨rfl, rfl, rfl, rfl⟩)
  | @reconcile c => exact reconciling_booked h hset c c.lost [] (by simp)
  | register c => exact .still (registerNode_still h c)
  | @lost c n hn =>
    exact losing_booked h hset c hn ((s.losing c n).st.lostVictims c.node) []
      (append_nil _).symm
  | setDrain | setDraining => exact .still (.of_eq rfl rfl rfl rfl)
  | evictJobs hterm => exact .still (evictJobs_still h hset hterm)
  | @evictNodes c =>
    obtain ⟨_, _, heq⟩ := evictNodes_st c.nodes s
    rw [heq]
    exact .still (.of_eq rfl rfl rfl rfl)
  | renew =>
    rw [renewAll_eq hset h.jobs hcharged]
    exact .refl s
  | setting _ hsetting =>
    exact .still (.of_eq hsetting.work.jobs hsetting.work.attempts (hsetting.entities hquota)
      (hsetting.decay hpolicy))

/-! ## The tree and the policy -/

/-- Every entity on the chain of an entity that is there is there. -/
theorem mem_chain_contains (hroot : Rooted s) {x : QuotaEntityId} :
    ∀ (fuel : Nat) {e : QuotaEntityId}, s.quotaEntities.contains e = true →
      x ∈ s.entityChainFuel fuel (some e) → s.quotaEntities.contains x = true := by
  intro fuel
  induction fuel with
  | zero => intro e _ hx; cases hx
  | succ fuel ih =>
    intro e he hx
    rcases mem_cons.mp hx with rfl | hx
    · exact he
    · obtain ⟨q, hq⟩ := contains_iff.mp he
      rw [hq, bind_some] at hx
      cases hp : q.parent with
      | none =>
        rw [hp, entityChainFuel_none] at hx
        cases hx
      | some p =>
        rw [hp] at hx
        exact ih (hroot.parents hq hp) hx

/-- More fuel than the chain is long changes nothing. -/
theorem entityChainFuel_short (s : StateMachine) : ∀ (fuel : Nat) (e : Option QuotaEntityId),
    (s.entityChainFuel (fuel + 1) e).length ≤ fuel →
    s.entityChainFuel fuel e = s.entityChainFuel (fuel + 1) e := by
  intro fuel
  induction fuel with
  | zero =>
    intro e h
    exact (length_eq_zero_iff.mp (Nat.le_zero.mp h)).symm
  | succ fuel ih =>
    intro e h
    cases e with
    | none => rfl
    | some id =>
      have htail := ih (s.parentOf id) (Nat.le_of_succ_le_succ h)
      exact congrArg (id :: ·) htail

/-- Planting an entity leaves the chains of the others alone. -/
theorem entityChainFuel_plant {e : QuotaEntityId} {q : QuotaEntity} (fuel : Nat)
    (x : Option QuotaEntityId) (he : e ∉ s.entityChainFuel fuel x) :
    ({ s with quotaEntities := s.quotaEntities.insert e q } : StateMachine).entityChainFuel fuel x =
      s.entityChainFuel fuel x := by
  induction fuel generalizing x with
  | zero => rfl
  | succ fuel ih =>
    cases x with
    | none => rfl
    | some id =>
      have hchain : s.entityChainFuel (fuel + 1) (some id) =
          id :: s.entityChainFuel fuel (s.parentOf id) := rfl
      rw [hchain] at he ⊢
      obtain ⟨hne, htail⟩ := not_or.mp (fun h => he (mem_cons.mpr h))
      have hpar : ({ s with quotaEntities := s.quotaEntities.insert e q } :
          StateMachine).parentOf id = s.parentOf id := by
        simp [parentOf, get?_insert_of_ne _ _ hne]
      show id :: entityChainFuel _ fuel (parentOf _ id) = _
      rw [hpar, ih _ htail]

end StateMachine

variable {s : StateMachine} {now : Timestamp} {c : Command}

/-- A new entity is owed nothing. -/
theorem Solvent.plant {e : QuotaEntityId} {q : QuotaEntity} (h : Solvent s now) (hroot : Rooted s)
    (hnew : s.quotaEntities.get? e = none)
    (hparent : ∀ p, q.parent = some p → s.quotaEntities.contains p = true ∧
      (s.entityChain p).length < quotaTreeDepthCap) (hupdated : q.usage.lastUpdate = now) :
    Solvent { s with quotaEntities := s.quotaEntities.insert e q } now := by
  let s' : StateMachine := { s with quotaEntities := s.quotaEntities.insert e q }
  have habsent : s.quotaEntities.contains e = false := contains_eq_false_iff.mpr hnew
  -- `e` is on no chain that was there
  have hoff : ∀ x, s.quotaEntities.contains x = true → e ∉ s.entityChain x := by
    intro x hx hmem
    have := mem_chain_contains hroot _ hx hmem
    rw [habsent] at this
    cases this
  have hchain : ∀ x, s.quotaEntities.contains x = true → s'.entityChain x = s.entityChain x :=
    fun x hx => entityChainFuel_plant _ _ (hoff x hx)
  have howner : ∀ id d, s.debts.get? id = some d → s.quotaEntities.contains d.owner = true := by
    intro id d hd
    rw [debts_get?] at hd
    obtain ⟨a, -, ha⟩ := bind_eq_some_iff.mp hd
    unfold debtOf at ha
    split_ifs at ha
    obtain ⟨owner, how, rfl⟩ := map_eq_some_iff.mp ha
    obtain ⟨j, hj, rfl⟩ := map_eq_some_iff.mp how
    exact hroot.jobs hj
  have hshares x id d (hd : s.debts.get? id = some d) : (if x ∈ s'.entityChain d.owner then
      (s.policy.decay.decayBetween d.charge.amount d.charge.chargedAt now).toNat else 0) = if x ∈
      s.entityChain d.owner then (s.policy.decay.decayBetween d.charge.amount d.charge.chargedAt
      now).toNat else 0 := by
    rw [hchain d.owner (howner id d hd)]
  refine ⟨h.tick, fun x qx p hq hp => ?_, h.settled, fun x qx hq => ?_, h.charged,
    fun x qx hq => ?_⟩
  · rw [get?_insert] at hq
    split_ifs at hq with hx
    · cases hq
      subst hx
      obtain ⟨hp0, hdepth⟩ := hparent p hp
      have hself : s'.entityChain e = e :: s'.entityChainFuel 31 (some p) := by
        rw [entityChain_eq]
        simp [s', hp]
      have hfuel : s'.entityChainFuel 31 (some p) = s'.entityChain p :=
        s'.entityChainFuel_short 31 (some p) (by
          have := hchain p hp0
          rw [show s'.entityChainFuel (31 + 1) (some p) = s'.entityChain p from rfl, this]
          exact Nat.le_of_lt_succ hdepth)
      rw [hself, hfuel]
    · have hx0 : s.quotaEntities.contains x = true := contains_iff.mpr ⟨qx, hq⟩
      rw [hchain x hx0, hchain p (hroot.parents hq hp)]
      exact h.forest x qx p hq hp
  · rw [get?_insert] at hq
    split_ifs at hq with hx
    · cases hq
      exact le_of_eq hupdated
    · exact h.updated x qx hq
  · have hsame : s'.outstanding x now = s.outstanding x now :=
      sumBy_congr fun id d hd => hshares x id d hd
    rw [show outstanding _ x now = s'.outstanding x now from rfl, hsame]
    rw [get?_insert] at hq
    split_ifs at hq with hx
    · have hzero : s.outstanding x now = 0 := by
        unfold outstanding owedBy
        exact sumBy_eq_zero fun id d hd => if_neg (hx ▸ hoff d.owner (howner id d hd))
      rw [hzero]
      exact Nat.zero_le _
    · exact h.covered x qx hq

/-- With nothing owed the decay policy may change. -/
theorem Solvent.repolicy {policy : PolicyConfig} (h : Solvent s now)
    (htick : 0 < policy.decay.tick.asMicros)
    (hsteady : policy.decay = s.policy.decay ∨ s.debts = .empty) :
    Solvent { s with policy := policy } now := by
  rcases hsteady with hdecay | hempty
  · exact h.still (.of_eq rfl rfl rfl hdecay)
  · have hempty' : ({ s with policy := policy } : StateMachine).debts = .empty := hempty
    refine ⟨htick, h.forest.congr fun _ => rfl, h.settled, h.updated, h.charged, fun e q _ => ?_⟩
    unfold outstanding owedBy
    rw [hempty', sumBy_empty]
    exact Nat.zero_le _

namespace StateMachine

theorem configureQuotaEntity_solvent (hroot : Rooted s) (c : ConfigureQuotaEntity)
    (h : Solvent s c.updatedAt) : Solvent (s.configureQuotaEntity c).1 c.updatedAt := by
  unfold configureQuotaEntity
  split
  · rename_i existing hexisting
    unfold reconfigureQuotaEntity
    split
    · exact h
    · split_ifs
      · exact h
      · refine h.still (.of_rel (fun _ _ _ => rfl) (.of_eq .refl rfl) ?_ rfl)
        exact .of_insert .refl hexisting ⟨rfl, rfl⟩
  · rename_i hnew
    unfold createQuotaEntity
    split
    · exact h
    · split
      · exact h
      · rename_i hparent
        split
        · exact h
        · split
          · exact h
          · refine h.plant hroot hnew (fun p hp => ?_) rfl
            have hp' : c.parent = some p := hp
            simp only [checkParent, hp'] at hparent
            split_ifs at hparent with hthere hdepth
            exact ⟨by simpa using hthere, Nat.lt_of_not_le hdepth⟩

theorem updatePolicy_solvent (c : UpdatePolicy) (h : Solvent s now)
    (hsteady : (s.updatePolicy c).1.policy.decay = s.policy.decay ∨ s.debts = .empty) :
    Solvent (s.updatePolicy c).1 now := by
  unfold updatePolicy at hsteady ⊢
  split at hsteady
  · exact h
  · rename_i hfault
    split at hsteady
    · exact h
    · refine h.repolicy ?_ hsteady
      -- the fault check has seen the tick
      unfold policyFault DecayPolicy.validate at hfault
      split at hfault
      · cases hfault
      · rename_i hvalid
        split_ifs at hvalid with htick
        simpa [Duration.isPositive, Duration.asMicros] using htick

end StateMachine

/-! ## Runs -/

/-- What the step must observe: the decay policy stays while anything is owed, every job
    placed declares a bound, and no usage saturates. -/
structure Metered (s : StateMachine) (c : Command) : Prop where
  steady : (s.apply c).1.policy.decay = s.policy.decay ∨ s.debts = .empty
  bounded : ∀ x, (s.apply c).2 = .ok x → ∀ fx j, Places s c fx j → j.spec.maxRuntime ≠ none
  fits : ∀ x, (s.apply c).2 = .ok x →
    ∀ st owner amount, Charges s c st owner amount → st.ChargeFits owner amount c.stampedAt

/-- An accepted command keeps the ledger solvent. -/
theorem StateMachine.dispatch_solvent (hcons : Consistent s) (hroot : Rooted s)
    (h : Solvent s c.stampedAt)
    (hsteady : (s.dispatch c).1.policy.decay = s.policy.decay ∨ s.debts = .empty)
    (hbounded : ∀ fx j, Places s c fx j → j.spec.maxRuntime ≠ none)
    (hfits : ∀ st owner amount, Charges s c st owner amount →
      st.ChargeFits owner amount c.stampedAt) : Solvent (s.dispatch c).1 c.stampedAt := by
  cases c with
  | configureQuotaEntity c => exact configureQuotaEntity_solvent hroot c h
  | updatePolicy c => exact updatePolicy_solvent c h hsteady
  | _ c =>
    exact ((s.dispatch_step _).booked hcons h.settled (fun id d hd => (h.charged id d hd).2)
      hbounded (by simp) (by simp)).solvent h hfits

theorem StateMachine.apply_solvent (hcons : Consistent s) (hroot : Rooted s)
    (h : Solvent s c.stampedAt) (hm : Metered s c) : Solvent (s.apply c).1 c.stampedAt := by
  have hdispatch : Solvent (s.dispatch c).1 c.stampedAt := by
    cases hres : (s.apply c).2 with
    | error e => rw [(s.dispatch_atomic c).rejected e hres]; exact h
    | ok x => exact dispatch_solvent hcons hroot h hm.steady (hm.bounded x hres) (hm.fits x hres)
  exact hdispatch.still (.of_eq rfl rfl rfl rfl)

theorem StateMachine.default_solvent (t : Timestamp) : Solvent default t := by
  refine ⟨by decide, ?_, ?_, ?_, ?_, ?_⟩
  · intro e q p hq
    simp [default] at hq
  · intro id a ha
    simp [default] at ha
  · intro e q hq
    simp [default] at hq
  · intro id d hd
    simp [debts_get?, default] at hd
  · intro e q hq
    simp [default] at hq

/-- `s` is reached by metered commands whose stamps do not go back; `now` is the last of
    them. -/
def MeteredRun (s : StateMachine) (now : Timestamp) : Prop :=
  Reach (StateMachine.default, Timestamp.minValue) (fun x c => ((x.1.apply c).1, c.stampedAt))
    (fun x c => x.2 ≤ c.stampedAt ∧ Metered x.1 c) (s, now)

theorem MeteredRun.solvent (h : MeteredRun s now) : Reachable s ∧ Solvent s now := by
  have hstart : Reachable default ∧ Solvent default Timestamp.minValue :=
    ⟨Reach.init, default_solvent _⟩
  refine Reach.invariant (fun x : StateMachine × Timestamp => Reachable x.1 ∧ Solvent x.1 x.2)
    hstart ?_ h
  rintro ⟨s, now⟩ c ⟨hs, hsolv⟩ ⟨hle, hm⟩
  exact ⟨hs.apply c, apply_solvent hs.consistent hs.rooted (hsolv.later hle) hm⟩

/-- The ledger when a command ends an attempt is reached by the command's own steps. -/
theorem Ends.reached {fx : Effects} {id : AttemptId} {outcome : AttemptOutcome} {rt : Duration}
    (he : Ends s c fx id outcome rt) (h : Consistent s) (hset : SettledRight s) :
    Booked s c fx.st := by
  cases he with
  | abort => exact .still (abortFlagged_still _ _)
  | outcome => exact .refl s
  | lose e => exact reconciling_booked h hset _ _ _ e
  | nodeLost hn e => exact losing_booked h hset _ hn _ _ e
  | revoke e => exact revoking_booked h hset _ _ _ e

/-- Every refund that `c` makes takes from no entity more than it holds, and leaves it all
    that the other open attempts of its subtree were charged. -/
def RefundsExact (s : StateMachine) (c : Command) : Prop :=
  ∀ fx id outcome rt a j r, Ends s c fx id outcome rt → fx.st.attempts.get? id = some a →
    a.attempt.state.isTerminal = false → fx.st.jobs.get? a.attempt.job = some j →
    trueUp a.charge (a.actualCost rt) c.stampedAt fx.st.policy.decay (a.retains outcome) =
      .refund r →
    ∀ e ∈ fx.st.entityChain j.spec.quotaEntity, ∀ q, fx.st.quotaEntities.get? e = some q →
      (q.usage.refund r c.stampedAt fx.st.policy.decay).usage.toNat + r.toNat =
        fx.st.usageAt q c.stampedAt ∧
      fx.st.owedBy (fx.st.debts.erase id) e c.stampedAt ≤
        (q.usage.refund r c.stampedAt fx.st.policy.decay).usage.toNat

theorem Solvent.refundsExact (h : Solvent s c.stampedAt) (hcons : Consistent s)
    (hfits : ∀ st owner amount, Charges s c st owner amount →
      st.ChargeFits owner amount c.stampedAt) : RefundsExact s c := by
  intro fx id outcome rt a j r he ha hlive hj hrefund e hmem q hq
  have hfx : Solvent fx.st c.stampedAt := (he.reached hcons h.settled).solvent h hfits
  have hopen : a.settlement = none := by simpa [hlive] using hfx.settled id a ha
  have hdebt : fx.st.debts.get? id = some ⟨j.spec.quotaEntity, a.charge⟩ := by
    simp [debts_get?, ha, debtOf, ownerOf, hopen, hj]
  have hcov := hfx.refund_covered hdebt hrefund hmem hq
  have hleft : (q.usage.refund r c.stampedAt fx.st.policy.decay).usage.toNat =
      fx.st.usageAt q c.stampedAt - r.toNat :=
    UInt64.toNat_saturatingSub _ _
  omega

/-- Decayed usage covers the open charges of the subtree in every state and at every later
    time, and no refund clips or takes what another attempt was charged. -/
theorem never_over_refunds {s : StateMachine} {now : Timestamp} (h : MeteredRun s now) :
    (∀ e q t, now ≤ t → s.quotaEntities.get? e = some q → s.outstanding e t ≤ s.usageAt q t) ∧
      ∀ c, now ≤ c.stampedAt → Metered s c → ∀ x, (s.apply c).2 = .ok x → RefundsExact s c := by
  obtain ⟨hs, hsolv⟩ := h.solvent
  refine ⟨fun e q t ht hq => (hsolv.later ht).covered e q hq, fun c hle hm x hx => ?_⟩
  exact (hsolv.later hle).refundsExact hs.consistent (hm.fits x hx)

/-! ### Two attempts charged in one subtree, one of them about to be settled -/

theorem MeteredRun.step (h : MeteredRun s now) (hle : now ≤ c.stampedAt) (hm : Metered s c) :
    MeteredRun (s.apply c).1 c.stampedAt :=
  Reach.step (a := c) h ⟨hle, hm⟩

/-- The commands that may end or place attempts. -/
def Command.books : Command → Bool
  | .abortJob _ | .commitPlacements _ | .recordAttemptOutcome _ | .reconcileNode _
  | .declareNodeLost _ => true
  | _ => false

theorem Metered.of_idle (hidle : c.books = false)
    (hsteady : (s.apply c).1.policy.decay = s.policy.decay) : Metered s c := by
  have hends : ∀ fx id outcome rt, ¬ Ends s c fx id outcome rt := by
    intro fx id outcome rt he
    cases he <;> cases hidle
  have hplaces : ∀ fx j, ¬ Places s c fx j := by
    intro fx j hp
    cases hp
    cases hidle
  refine ⟨.inl hsteady, fun _ _ fx j hp => absurd hp (hplaces fx j),
    fun _ _ st owner amount h => ?_⟩
  cases h with
  | ends he => exact absurd he (hends _ _ _ _)
  | places hp => exact absurd hp (hplaces _ _)

/-- The job declares a bound, and its price saturates no usage. -/
def StateMachine.placeable (s : StateMachine) (at_ : Timestamp) (j : JobRecord) : Bool :=
  j.spec.maxRuntime.isSome && decide (s.ChargeFits j.spec.quotaEntity (s.priceOf j) at_)

/-- A batch that places one job. -/
theorem Metered.of_place {v : UInt64} {at_ : Timestamp} {p : Placement}
    (hsteady : (s.apply (.commitPlacements ⟨v, [], [p], at_⟩)).1.policy.decay = s.policy.decay)
    (hjob : (s.jobs.get? p.job).all (s.placeable at_) = true) :
    Metered s (.commitPlacements ⟨v, [], [p], at_⟩) := by
  have hone fx j (hp : Places s (.commitPlacements ⟨v, [], [p], at_⟩) fx j) : fx.st = s ∧
      s.placeable at_ j = true := by
    cases hp with
    | @seat _ pre p' post _ e hk =>
      cases pre with
      | nil =>
        simp only [nil_append, cons.injEq] at e
        have hj : s.jobs.get? p.job = some j := by
          rw [e.1]
          exact hk
        rw [hj] at hjob
        exact ⟨rfl, hjob⟩
      | cons x rest => simp at e
  refine ⟨.inl hsteady, fun _ _ fx j hp => ?_, fun _ _ st owner amount h => ?_⟩
  · have hj := (hone fx j hp).2
    simp only [placeable, Bool.and_eq_true] at hj
    exact isSome_iff_ne_none.mp hj.1
  · cases h with
    | ends he =>
      cases he with
      | revoke e => simp at e
    | places hp =>
      obtain ⟨hst, hj⟩ := hone _ _ hp
      simp only [placeable, Bool.and_eq_true, decide_eq_true_eq] at hj
      rw [hst]
      exact hj.2

/-- A command that books nothing, or a batch that places one job, with the decay unchanged. -/
def StateMachine.plain (s : StateMachine) (c : Command) : Bool :=
  decide ((s.apply c).1.policy.decay = s.policy.decay) &&
    match c with
    | .commitPlacements ⟨_, [], [p], at_⟩ => (s.jobs.get? p.job).all (s.placeable at_)
    | c => !c.books

theorem Metered.of_plain (h : s.plain c = true) : Metered s c := by
  unfold StateMachine.plain at h
  rw [Bool.and_eq_true, decide_eq_true_eq] at h
  obtain ⟨hsteady, hc⟩ := h
  split at hc
  · exact .of_place hsteady hc
  · exact .of_idle (by simpa using hc) hsteady

/-- An outcome that is refunded. -/
theorem Metered.of_refund {c : RecordAttemptOutcome}
    (hsteady : (s.apply (.recordAttemptOutcome c)).1.policy.decay = s.policy.decay)
    (hrefund : (s.attempts.get? c.attempt).all (fun a => decide
      (a.actualCost c.actualRuntime ≤ a.charge.amount)) = true) :
    Metered s (.recordAttemptOutcome c) := by
  refine ⟨.inl hsteady, fun _ _ fx j hp => (by cases hp), fun _ _ st owner amount h => ?_⟩
  cases h with
  | ends he hb _ _ htrue =>
    cases he with
    | outcome =>
      rw [show s.attempts.get? c.attempt = some _ from hb] at hrefund
      simp only [trueUp, if_pos (of_decide_eq_true hrefund)] at htrue
      cases htrue
  | places hp => cases hp

namespace Sample

/-- One cost unit per milli of processor and second. -/
def weighted : PolicyConfig := { PolicyConfig.default with costWeights := ⟨4294967296, 0, 0⟩ }

/-- A job of two minutes at most, charged to the child entity. -/
def boundedJob (id : JobId) : Job :=
  { job id (cpu 4) with maxRuntime := some (Duration.ofSecs 120), quotaEntity := 2 }

def billed : List Command :=
  [.updatePolicy ⟨weighted, none, epoch⟩, configure,
    .configureQuotaEntity ⟨2, some 1, "team", 0, none, none, epoch⟩, register 10,
    submitJob (boundedJob 1), submitJob (boundedJob 2), commit [] [place 1 4],
    commit [] [place 2 4], send 1, start 1]

/-- The first attempt is over after a minute. -/
def settles : Command :=
  .recordAttemptOutcome ⟨1, .exited 0, Duration.ofSecs 60, Timestamp.clamp 60000000⟩

end Sample

open Sample

theorem billed_metered : MeteredRun (run billed) epoch := by
  have hplain : Along (fun x c => ((x.1.apply c).1, c.stampedAt))
      (fun (x : StateMachine × Timestamp) c => x.2 ≤ c.stampedAt ∧ x.1.plain c = true)
      (.default, Timestamp.minValue) billed := by decide +kernel
  have hstart : MeteredRun .default Timestamp.minValue := .init
  exact Reach.invariant (fun x : StateMachine × Timestamp => MeteredRun x.1 x.2) hstart
    (fun x c hx hc => hx.step hc.1 (.of_plain hc.2)) (Along.reach .init hplain)

/-- Both attempts are owed to the parent of their entity; the first is refunded after a
    minute, and what the second was charged stays. -/
theorem never_over_refunds_billed :
    (0 < (run billed).outstanding 1 epoch ∧ ∃ x, ((run billed).apply settles).2 = .ok x) ∧
    (∀ e q t, epoch ≤ t → (run billed).quotaEntities.get? e = some q →
      (run billed).outstanding e t ≤ (run billed).usageAt q t) ∧
    RefundsExact (run billed) settles := by
  have haccepted : ∃ x, ((run billed).apply settles).2 = .ok x := by
    have hok : ((run billed).apply settles).2.isOk = true := by
      decide +kernel
    cases hres : ((run billed).apply settles).2 with
    | error e => rw [hres] at hok; cases hok
    | ok x => exact ⟨x, rfl⟩
  obtain ⟨x, hx⟩ := haccepted
  obtain ⟨hcovered, hexact⟩ := never_over_refunds billed_metered
  exact ⟨⟨by decide +kernel, x, hx⟩, hcovered, hexact settles (by decide)
    (.of_refund (by decide +kernel) (by decide +kernel)) x hx⟩

end Coppice.State
