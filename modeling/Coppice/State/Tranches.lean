/-
  Coppice.State.Tranches

  Charging attempts without a declared bound, interval by interval.  The levies of
  an attempt, collected over a run in its account, cover the intervals it has paid
  for once each, and add up to its charge.
-/

import Coppice.State.Booking
import Coppice.State.Screening
import Mathlib.Algebra.BigOperators.Ring.List

namespace Coppice.State

open Lib Coppice.Core StateMachine OrdMap Effects List UInt64

/-! ## Levies -/

/-- What an attempt is charged for the intervals after `after` up to `upTo`. -/
structure Levy where
  attempt : AttemptId
  job : JobId
  after : Nat
  upTo : Nat
  amount : CostUnits
  deriving DecidableEq

/-- The price of the span. -/
def AttemptRecord.priceOf (a : AttemptRecord) (seconds : UInt64) (after upTo : Nat) : CostUnits :=
  costFromRate a.rateUcuPerSecond ((UInt64.ofNat (upTo - after)).saturatingMul seconds) a.multiplier

/-- The record of an attempt that pays a levy. -/
def AttemptRecord.pays (at_ : Timestamp) (x : Levy) (a : AttemptRecord) : AttemptRecord :=
  { a with charge :=
      { a.charge with
        amount := a.charge.amount.saturatingAdd x.amount
        interval := a.charge.interval.map fun i => ⟨i.seconds, x.upTo, x.amount, a.charge.chargedAt⟩
        chargedAt := at_ } }

/-- Only the charge differs. -/
def AttemptRecord.Recharged (a a' : AttemptRecord) : Prop := a' = { a with charge := a'.charge }

theorem AttemptRecord.Recharged.refl (a : AttemptRecord) : a.Recharged a := rfl

variable {a b c : AttemptRecord} {at_ : Timestamp} {s : StateMachine} {iv : ChargeInterval}
  {acc : Accounts} {revoked : List AllocationId} {fx0 fx fx' : Effects} {ps : List Placement}
  {cutoffs : List (Option Timestamp)} {groups : List (List Victim)} {id : AttemptId}
  {seconds : UInt64}

theorem AttemptRecord.Recharged.trans (h : a.Recharged b) (h' : b.Recharged c) : a.Recharged c := by
  unfold Recharged at *
  rw [h', h]

/-- A renewal that charges its attempt `x`. -/
structure Renews (at_ : Timestamp) (s : StateMachine) (r : IntervalRenewal) (x : Levy)
    (a : AttemptRecord) (iv : ChargeInterval) : Prop where
  found : s.attempts.get? r.attempt = some a
  running : a.attempt.state = .running
  interval : a.charge.interval = some iv
  token : r.paid = iv.paid
  attempt : x.attempt = r.attempt
  job : x.job = a.attempt.job
  after : x.after = iv.paid
  due : ∃ start, a.startedAt = some start ∧
    x.upTo = intervalsDue (at_.durationSince start) iv.seconds
  grows : x.after < x.upTo
  amount : x.amount = a.priceOf iv.seconds x.after x.upTo

theorem Renews.pays_interval (h : Renews at_ s r x a iv) :
    (a.pays at_ x).charge.interval = some ⟨iv.seconds, x.upTo, x.amount, a.charge.chargedAt⟩ := by
  simp [AttemptRecord.pays, h.interval]

namespace StateMachine

/-- Charge a levy to the owner of its job and to every ancestor. -/
def levy (at_ : Timestamp) (s : StateMachine) (x : Levy) : StateMachine :=
  match s.ownerOf x.job with
  | none => s
  | some e => s.chargeAncestors e x.amount at_

/-- What a renewal charges its attempt, when it charges at all. -/
def renewal (at_ : Timestamp) (s : StateMachine) (r : IntervalRenewal) : Option Levy :=
  match s.attempts.get? r.attempt with
  | none => none
  | some a =>
    if a.attempt.state ≠ .running then none
    else
      match a.startedAt, a.charge.interval with
      | some startedAt, some interval =>
        if interval.paid ≠ r.paid then none
        else
          let target := intervalsDue (at_.durationSince startedAt) interval.seconds
          if target ≤ interval.paid then none
          else some ⟨r.attempt, a.attempt.job, interval.paid, target,
            a.priceOf interval.seconds interval.paid target⟩
      | _, _ => none

variable {r : IntervalRenewal} {x : Levy}

theorem renewal_renews (h : renewal at_ s r = some x) : ∃ a iv, Renews at_ s r x a iv := by
  unfold renewal at h
  split at h
  · cases h
  · rename_i a ha
    split_ifs at h with hrun
    split at h
    · rename_i start iv hstart hiv
      split_ifs at h with htoken
      simp only at h
      split_ifs at h with htarget
      cases h
      exact ⟨a, iv, ha, not_not.mp hrun, hiv, (not_not.mp htoken).symm, rfl, rfl, rfl,
        ⟨start, hstart, rfl⟩, not_le.mp htarget, rfl⟩
    · cases h

/-- A renewal that charges nothing changes nothing. -/
theorem renewOne_of_none (h : renewal at_ s r = none) : renewOne at_ s r = s := by
  unfold renewal at h
  unfold renewOne
  cases ha : s.attempts.get? r.attempt with
  | none => rfl
  | some a =>
    simp only [ha] at h ⊢
    by_cases hrun : a.attempt.state = .running
    · simp only [hrun, ne_eq, not_true_eq_false, if_false] at h ⊢
      cases hstart : a.startedAt with
      | none => rfl
      | some start =>
        cases hiv : a.charge.interval with
        | none => rfl
        | some iv =>
          simp only [hstart, hiv] at h ⊢
          split_ifs at h ⊢
          all_goals rfl
    · rw [if_pos hrun]

/-- A renewal books its levy on the attempt and charges it to the owner. -/
theorem renewOne_of_some (h : renewal at_ s r = some x) : renewOne at_ s r =
    levy at_ { s with attempts := s.attempts.modify r.attempt (AttemptRecord.pays at_ x) } x := by
  obtain ⟨a, iv, hr⟩ := renewal_renews h
  obtain ⟨start, hstart, hdue⟩ := hr.due
  have hgrows := hr.grows
  rw [hr.after, hdue] at hgrows
  unfold renewOne levy
  simp only [hr.found, hr.running, hstart, hr.interval, hr.token, ownerOf, hr.job, ne_eq,
    not_true_eq_false, if_false, if_neg (not_le.mpr hgrows)]
  have hamount : x.amount = costFromRate a.rateUcuPerSecond ((ofNat
      (intervalsDue (at_.durationSince start) iv.seconds - iv.paid)).saturatingMul iv.seconds)
        a.multiplier := by
    rw [hr.amount, hr.after, hdue]
    rfl
  rw [← hamount, ← hdue]
  have hmap : s.attempts.modify r.attempt (AttemptRecord.pays at_ x) =
      s.attempts.modify r.attempt fun a =>
        { a with charge :=
            { a.charge with
              amount := a.charge.amount.saturatingAdd x.amount
              interval := some ⟨iv.seconds, x.upTo, x.amount, a.charge.chargedAt⟩
              chargedAt := at_ } } := by
    rw [modify_of_some _ hr.found, modify_of_some _ hr.found]
    simp [AttemptRecord.pays, hr.interval]
  rw [hmap]
  cases s.jobs.get? a.attempt.job <;> rfl

/-! ## Accounts -/

/-- What a placement charges up front, for the first interval of its attempt. -/
def opening (s : StateMachine) (p : Placement) : Option Levy :=
  (s.jobs.get? p.job).map fun j => ⟨p.attempt, p.job, 0, 1, s.priceOf j⟩

/-- What the renewals of a command charge, one after the other. -/
def renewals (at_ : Timestamp) : List IntervalRenewal → StateMachine → List Levy
  | [], _ => []
  | r :: rest, s => (renewal at_ s r).toList ++ renewals at_ rest (renewOne at_ s r)

/-- What the seats of a batch charge, one after the other. -/
def openings (at_ : Timestamp) : List Placement → List (Option Timestamp) →
    List (List Victim) → Effects → List Levy
  | p :: ps, cutoff :: cutoffs, group :: groups, fx =>
    (fx.st.opening p).toList ++ openings at_ ps cutoffs groups (fx.seatPlacement at_ p cutoff group)
  | _, _, _, _ => []

/-- What a command charges to attempts. -/
def levies (s : StateMachine) : Command → List Levy
  | .commitPlacements c =>
    if (s.commitPlacements c).2.isOk then
      openings c.proposedAt c.placements (s.screen c).cutoffs (s.screen c).victims
        (s.revokedEffects c)
    else []
  | .renewIntervalCharges c =>
    if (s.renewIntervalCharges c).2.isOk then renewals c.proposedAt c.renewals s else []
  | _ => []

end StateMachine

/-- What each attempt has been charged. -/
abbrev Accounts : Type := AttemptId → List Levy

/-- Enter a levy; the first interval opens the account. -/
def Accounts.post (acc : Accounts) (x : Levy) : Accounts :=
  Function.update acc x.attempt (if x.after = 0 then [x] else acc x.attempt ++ [x])

/-- A command with its levies entered. -/
def postStep (x : StateMachine × Accounts) (c : Command) : StateMachine × Accounts :=
  ((x.1.apply c).1, (x.1.levies c).foldl Accounts.post x.2)

/-- A run with the levies of its commands entered. -/
def Posted (s : StateMachine) (acc : Accounts) : Prop :=
  Reach (StateMachine.default, fun _ => []) postStep (fun _ _ => True) (s, acc)

theorem Posted.reachable (h : Posted s acc) : Reachable s := by
  have hinv := Reach.invariant (fun x : StateMachine × Accounts => Reachable x.1)
    (show Reachable default from .init) (fun _ c hs _ => hs.apply c) h
  exact hinv

/-- The account of an attempt charged by intervals. -/
structure Account (a : AttemptRecord) (iv : ChargeInterval) (l : List Levy) : Prop where
  spans : Trail (· < ·) 0 (l.map fun x => (x.after, x.upTo)) iv.paid
  priced : ∀ x ∈ l, x.amount = a.priceOf iv.seconds x.after x.upTo
  amount : a.charge.amount.toNat = min (l.map fun x => x.amount.toNat).sum u64Max
  last : l.getLast?.map Levy.amount = some iv.lastTranche

/-- Every attempt charged by intervals has its account. -/
def Accounted (s : StateMachine) (acc : Accounts) : Prop :=
  ∀ id a iv, s.attempts.get? id = some a → a.charge.interval = some iv → Account a iv (acc id)

namespace Account

variable {a' : AttemptRecord} {l : List Levy}

section

variable (h : Account a iv l)

include h

theorem same (hcharge : a'.charge = a.charge) (hrate : a'.rateUcuPerSecond = a.rateUcuPerSecond)
    (hmult : a'.multiplier = a.multiplier) : Account a' iv l := by
  refine ⟨h.spans, fun x hx => ?_, by rw [hcharge]; exact h.amount, h.last⟩
  rw [h.priced x hx]
  simp [AttemptRecord.priceOf, hrate, hmult]

theorem ne_nil : l ≠ [] := by
  rintro rfl
  cases h.last

theorem paid_pos : 0 < iv.paid := by
  by_contra hzero
  have hspans := h.spans
  rw [Nat.eq_zero_of_not_pos hzero] at hspans
  obtain ⟨hnil, -⟩ := hspans.unentered fun v => Nat.not_lt_zero v
  exact h.ne_nil (map_eq_nil_iff.mp hnil)

/-- A renewal extends the account by its levy. -/
theorem pays (hr : Renews at_ s r x a iv) :
    Account (a.pays at_ x) ⟨iv.seconds, x.upTo, x.amount, a.charge.chargedAt⟩ (l ++ [x]) := by
  refine ⟨?_, fun y hy => ?_, ?_, by simp⟩
  · rw [map_append]
    have hstep : Trail (· < ·) iv.paid [(iv.paid, x.upTo)] x.upTo := .single (hr.after ▸ hr.grows)
    rw [← hr.after] at hstep
    exact (hr.after ▸ h.spans).append hstep
  · rcases mem_append.mp hy with hy | hy
    · exact h.priced y hy
    · rw [mem_singleton.mp hy]
      exact hr.amount
  · show (a.charge.amount.saturatingAdd x.amount).toNat = _
    rw [toNat_saturatingAdd, h.amount, map_append, sum_append]
    simp only [map_cons, map_nil, sum_cons, sum_nil, Nat.add_zero]
    omega

end

end Account

/-- A placement opens the account of its attempt. -/
theorem seatedAttempt_account (s : StateMachine) (at_ : Timestamp) (p : Placement)
    (spec : AllocationSpec) {j : JobRecord} (cutoff : Option Timestamp) (state : AttemptState)
    (hiv : (seatedAttempt s at_ p spec j cutoff state).charge.interval = some iv) :
    Account (seatedAttempt s at_ p spec j cutoff state) iv
      [⟨p.attempt, p.job, 0, 1, s.priceOf j⟩] := by
  -- only a job without a declared bound is charged by intervals
  cases hbound : j.spec.maxRuntime with
  | some bound =>
    simp only [seatedAttempt, pricing, hbound] at hiv
    cases hiv
  | none =>
    simp only [seatedAttempt, pricing, hbound, Option.map_some, Option.some.injEq] at hiv
    subst hiv
    simp only [seatedAttempt, priceOf, pricing, hbound, Option.map_some]
    refine ⟨.single Nat.one_pos, fun x hx => ?_, ?_, rfl⟩
    · rw [mem_singleton.mp hx]
      have hone : ofNat (1 - 0) = 1 := rfl
      simp [AttemptRecord.priceOf, hone]
    · exact (Nat.min_eq_left (toNat_le_u64Max _)).symm

/-! ## What each command does to the accounts -/

namespace StateMachine

theorem levy_st (at_ : Timestamp) (s : StateMachine) (x : Levy) :
    ∃ q, s.levy at_ x = { s with quotaEntities := q } := by
  unfold levy
  split
  · exact ⟨s.quotaEntities, rfl⟩
  · exact chargeAncestors_st s _ _ _

theorem renewOne_attempts {r : IntervalRenewal} {x : Levy} (h : renewal at_ s r = some x) :
    (renewOne at_ s r).attempts = s.attempts.modify r.attempt (AttemptRecord.pays at_ x) := by
  obtain ⟨q, hq⟩ := levy_st at_
    { s with attempts := s.attempts.modify r.attempt (AttemptRecord.pays at_ x) } x
  rw [renewOne_of_some h, hq]

/-- Renewals write the charge and nothing else of an attempt. -/
theorem renewAll_recharged (at_ : Timestamp) (l : List IntervalRenewal) (s : StateMachine) :
    OrdMap.Rel AttemptRecord.Recharged s.attempts (l.foldl (renewOne at_) s).attempts := by
  refine foldl_trans (R := fun s s' => OrdMap.Rel AttemptRecord.Recharged s.attempts s'.attempts)
    (fun _ => .refl .refl _) (Rel.trans .trans) (fun s r => ?_) l s
  cases hx : renewal at_ s r with
  | none =>
    rw [renewOne_of_none hx]
    exact .refl .refl _
  | some x =>
    rw [renewOne_attempts hx]
    exact .of_modify .refl _ fun _ _ => rfl

end StateMachine

namespace Accounted

variable {s' : StateMachine}

/-- The tariff of every attempt is what it was. -/
theorem same (h : Accounted s acc) (hatt : ∀ {id a'}, s'.attempts.get? id = some a' →
      ∃ a, s.attempts.get? id = some a ∧ a'.charge = a.charge ∧
        a'.rateUcuPerSecond = a.rateUcuPerSecond ∧ a'.multiplier = a.multiplier) :
    Accounted s' acc := by
  intro id a' iv ha' hiv
  obtain ⟨a, ha, hcharge, hrate, hmult⟩ := hatt ha'
  exact (h id a iv ha (hcharge ▸ hiv)).same hcharge hrate hmult

theorem carried (h : Accounted s acc) (hc : Carried s s') : Accounted s' acc := by
  refine h.same fun ha' => ?_
  obtain ⟨a, ha, hmove⟩ := hc.attempts ha'
  exact ⟨a, ha, by rw [hmove], by rw [hmove], by rw [hmove]⟩

/-- One renewal. -/
theorem renewOne (h : Accounted s acc) (at_ : Timestamp) (r : IntervalRenewal) :
    Accounted (renewOne at_ s r)
      ((renewal at_ s r).toList.foldl Accounts.post acc) := by
  cases hx : renewal at_ s r with
  | none =>
    rw [renewOne_of_none hx]
    exact h
  | some x =>
    obtain ⟨a, iv, hr⟩ := renewal_renews hx
    have haccount := h r.attempt a iv hr.found hr.interval
    have hafter : x.after ≠ 0 := by
      have := haccount.paid_pos
      rw [hr.after]
      omega
    intro id b iv' hb hiv'
    simp only [Option.toList_some, foldl_cons, foldl_nil, Accounts.post, hr.attempt,
      if_neg hafter, Function.update_apply]
    rw [renewOne_attempts hx, get?_modify] at hb
    by_cases hid : id = r.attempt
    · rw [if_pos hid.symm, hid, hr.found] at hb
      cases hb
      rw [hr.pays_interval] at hiv'
      cases hiv'
      rw [if_pos hid]
      exact haccount.pays hr
    · rw [if_neg (Ne.symm hid)] at hb
      rw [if_neg hid]
      exact h id b iv' hb hiv'

theorem renewals (at_ : Timestamp) (l : List IntervalRenewal) (h : Accounted s acc) :
    Accounted (l.foldl (StateMachine.renewOne at_) s)
      ((StateMachine.renewals at_ l s).foldl Accounts.post acc) := by
  induction l generalizing s acc with
  | nil => exact h
  | cons r rest ih =>
    simp only [renewals, foldl_append, foldl_cons]
    exact ih (h.renewOne at_ r)

/-- One seat. -/
theorem seat {fx : Effects} (h : Accounted fx.st acc) (at_ : Timestamp) (cutoff : Option Timestamp)
    (group : List Victim) (hf : Fresh fx p spec j) :
    Accounted (fx.seatPlacement at_ p cutoff group).st
      ((fx.st.opening p).toList.foldl Accounts.post acc) := by
  obtain ⟨fx1, heq, hatt, -, -⟩ := seatPlacement_attempts fx at_ cutoff group hf.one hf.job
  rw [heq]
  have hseated : Accounted fx1.st ((fx.st.opening p).toList.foldl Accounts.post acc) := by
    intro id a iv ha hiv
    simp only [opening, hf.job, Option.map_some, Option.toList_some, foldl_cons,
      foldl_nil, Accounts.post, if_true, Function.update_apply]
    rw [hatt, get?_insert] at ha
    split_ifs at ha with hid
    · cases ha
      rw [if_pos hid.symm]
      exact seatedAttempt_account fx.st at_ p spec cutoff _ hiv
    · rw [if_neg (Ne.symm hid)]
      exact h id a iv ha hiv
  refine hseated.same fun ha' => ?_
  obtain ⟨a, ha, hmark⟩ := (recordVictims_marked group fx1 at_ spec.node).1.back ha'
  exact ⟨a, ha, by rw [hmark], by rw [hmark], by rw [hmark]⟩

end Accounted

/-- The seats of a batch. -/
theorem SeatTrail.accounted (h : SeatTrail s revoked fx0 at_ fx ps cutoffs groups fx')
    (hacc : Accounted fx.st acc) :
    Accounted fx'.st
      ((openings at_ ps cutoffs groups fx).foldl Accounts.post acc) := by
  induction h generalizing acc with
  | nil _ => exact hacc
  | cons _ _ hf _ _ ih =>
    simp only [openings, foldl_append]
    exact ih (hacc.seat at_ _ _ hf)

namespace StateMachine

theorem commitPlacements_accounted (hC : Consistent s) (c : CommitPlacements)
    (h : Accounted s acc) :
    Accounted (s.commitPlacements c).1
      ((s.levies (.commitPlacements c)).foldl Accounts.post acc) := by
  cases hres : (s.commitPlacements c).2 with
  | error r =>
    simp only [levies, hres]
    rw [commitPlacements_refused hres]
    exact h
  | ok x =>
    have hcommit := commitPlacements_commits hres
    have hrevoke := (revocations_progressed s c).moved
    simp only [levies, hres]
    rw [hcommit.state]
    exact (hcommit.ok.trail hC).accounted (h.carried (.of_moved hrevoke))

theorem renewIntervalCharges_accounted (c : RenewIntervalCharges) (h : Accounted s acc) :
    Accounted (s.renewIntervalCharges c).1
      ((s.levies (.renewIntervalCharges c)).foldl Accounts.post acc) := by
  simp only [levies]
  unfold renewIntervalCharges
  simp only
  split_ifs with hitems hres hres
  · cases hres
  · exact h
  · exact h.renewals c.proposedAt c.renewals
  · exact absurd rfl hres

theorem recordAttemptNotified_marked (s : StateMachine) (c : RecordAttemptNotified) :
    OrdMap.Rel AttemptRecord.Marked s.attempts (s.recordAttemptNotified c).1.attempts := by
  unfold recordAttemptNotified
  repeat' split
  all_goals first
    | exact .refl .refl _
    | exact .of_modify .refl _ fun _ _ => rfl

/-- Every command keeps the accounts. -/
theorem apply_accounted (hC : Consistent s) (c : Command) (h : Accounted s acc) :
    Accounted (s.apply c).1 ((s.levies c).foldl Accounts.post acc) := by
  show Accounted (s.dispatch c).1 _
  by_cases hc : c.rewrites = true
  · cases c with
    | commitPlacements c => exact commitPlacements_accounted hC c h
    | renewIntervalCharges c => exact renewIntervalCharges_accounted c h
    | recordAttemptNotified c =>
      refine h.same fun ha' => ?_
      obtain ⟨a, ha, hmark⟩ := (s.recordAttemptNotified_marked c).back ha'
      exact ⟨a, ha, by rw [hmark], by rw [hmark], by rw [hmark]⟩
    | _ c => cases hc
  · have hnone : s.levies c = [] := by
      cases c with
      | commitPlacements c | renewIntervalCharges c => exact absurd rfl hc
      | _ c => rfl
    rw [hnone]
    exact h.carried ((s.dispatch_step _).carried (by simpa using hc))

end StateMachine

theorem Posted.accounted (h : Posted s acc) : Accounted s acc := by
  have hinv := Reach.invariant
    (fun x : StateMachine × Accounts => Reachable x.1 ∧ Accounted x.1 x.2)
    ⟨show Reachable default from .init, fun _ _ _ ha => by cases ha⟩
    (fun _ c ⟨hs, hacc⟩ _ => ⟨hs.apply c, apply_accounted hs.consistent c hacc⟩) h
  exact hinv.2

/-! ## What the quota tree is charged -/

/-- Levies are charged alike: the quota trees, the prices and the owners of jobs agree. -/
structure LeviedAlike (s t : StateMachine) : Prop where
  tree : s.quotaEntities = t.quotaEntities
  policy : s.policy = t.policy
  owner : ∀ job, s.ownerOf job = t.ownerOf job

namespace LeviedAlike

variable {t : StateMachine}

theorem levy (h : LeviedAlike s t) (at_ : Timestamp) (x : Levy) :
    LeviedAlike (s.levy at_ x) (t.levy at_ x) := by
  obtain ⟨q, hs⟩ := s.levy_st at_ x
  obtain ⟨q', ht⟩ := t.levy_st at_ x
  refine ⟨?_, by rw [hs, ht]; exact h.policy, by rw [hs, ht]; exact h.owner⟩
  unfold StateMachine.levy
  rw [h.owner]
  cases t.ownerOf x.job with
  | none => exact h.tree
  | some e => exact chargeAncestors_congr e x.amount at_ h.tree h.policy

theorem renewals (at_ : Timestamp) (l : List IntervalRenewal) (h : LeviedAlike s t) :
    (l.foldl (StateMachine.renewOne at_) s).quotaEntities =
      ((StateMachine.renewals at_ l s).foldl (StateMachine.levy at_) t).quotaEntities := by
  induction l generalizing s t with
  | nil => exact h.tree
  | cons r rest ih =>
    simp only [renewals, foldl_append, foldl_cons]
    cases hx : renewal at_ s r with
    | none =>
      rw [renewOne_of_none hx]
      exact ih h
    | some x =>
      rw [renewOne_of_some hx]
      refine ih (LeviedAlike.levy ?_ at_ x)
      exact ⟨h.tree, h.policy, h.owner⟩

/-- A seat charges its opening. -/
theorem seat (h : LeviedAlike fx.st t) (at_ : Timestamp) (cutoff : Option Timestamp)
    (group : List Victim) (hf : Fresh fx p spec j) :
    LeviedAlike (fx.seatPlacement at_ p cutoff group).st
      ((fx.st.opening p).toList.foldl (StateMachine.levy at_) t) := by
  obtain ⟨fx1, a, q, heq, -, -, -, -, hst, -, ha, hq⟩ :=
    seatPlacement_eq fx at_ cutoff group hf.one hf.job
  obtain ⟨-, -, -, hjobs⟩ := recordVictims_quiet group fx1 at_ spec.node
  have hown : fx.st.ownerOf p.job = some j.spec.quotaEntity := by
    simp [StateMachine.ownerOf, hf.job]
  have hlevied : LeviedAlike (fx.st.levy at_ ⟨p.attempt, p.job, 0, 1, fx.st.priceOf j⟩)
      (t.levy at_ ⟨p.attempt, p.job, 0, 1, fx.st.priceOf j⟩) := h.levy at_ _
  have hopen : (fx.st.opening p).toList = [⟨p.attempt, p.job, 0, 1, fx.st.priceOf j⟩] := by
    simp [StateMachine.opening, hf.job]
  rw [hopen, foldl_cons, foldl_nil]
  have hsame : LeviedAlike (fx.seatPlacement at_ p cutoff group).st
      (fx.st.levy at_ ⟨p.attempt, p.job, 0, 1, fx.st.priceOf j⟩) := by
    refine ⟨?_, ?_, fun job => ?_⟩
    · rw [heq, (recordVictims_marked group fx1 at_ spec.node).2, hst]
      simp only [StateMachine.levy, hown]
      rw [hq, ha]
      rfl
    · rw [(fx.seatPlacement_framed at_ p cutoff group).policy]
      obtain ⟨q, hlevy⟩ := fx.st.levy_st at_ ⟨p.attempt, p.job, 0, 1, fx.st.priceOf j⟩
      rw [hlevy]
    · obtain ⟨q, hlevy⟩ := fx.st.levy_st at_ ⟨p.attempt, p.job, 0, 1, fx.st.priceOf j⟩
      rw [hlevy, heq]
      simp only [StateMachine.ownerOf]
      rw [hjobs, hst]
      simp only [get?_insert]
      split_ifs with hjob
      · rw [← hjob, hf.job]
        rfl
      · rfl
  exact ⟨hsame.tree.trans hlevied.tree, hsame.policy.trans hlevied.policy,
    fun job => (hsame.owner job).trans (hlevied.owner job)⟩

end LeviedAlike

theorem SeatTrail.levied {t : StateMachine}
    (h : SeatTrail s revoked fx0 at_ fx ps cutoffs groups fx') (ht : LeviedAlike fx.st t) :
    fx'.st.quotaEntities = ((openings at_ ps cutoffs groups fx).foldl
      (levy at_) t).quotaEntities := by
  induction h generalizing t with
  | nil _ => exact ht.tree
  | cons _ _ hf _ _ ih =>
    simp only [openings, foldl_append]
    exact ih (ht.seat at_ _ _ hf)

/-! ## What an attempt has paid for -/

/-- The attempt has paid for at least as many intervals. -/
def AttemptRecord.PaysOn (a a' : AttemptRecord) : Prop :=
  ∀ iv, a.charge.interval = some iv → ∃ iv', a'.charge.interval = some iv' ∧ iv.paid ≤ iv'.paid

variable {a' : AttemptRecord}

theorem AttemptRecord.PaysOn.of_eq (h : a'.charge = a.charge) :
    a.PaysOn a' := fun iv hiv => ⟨iv, by rw [h]; exact hiv, Nat.le_refl _⟩

theorem AttemptRecord.PaysOn.trans (h : a.PaysOn b) (h' : b.PaysOn c) : a.PaysOn c := by
  intro iv hiv
  obtain ⟨iv', hiv', hle⟩ := h iv hiv
  obtain ⟨iv'', hiv'', hle'⟩ := h' iv' hiv'
  exact ⟨iv'', hiv'', hle.trans hle'⟩

/-- No attempt goes away, and each has paid on. -/
def PaidOn (s s' : StateMachine) : Prop :=
  ∀ id a, s.attempts.get? id = some a → ∃ a', s'.attempts.get? id = some a' ∧ a.PaysOn a'

namespace PaidOn

variable {s' s'' : StateMachine}

theorem trans (h : PaidOn s s') (h' : PaidOn s' s'') : PaidOn s s'' := by
  intro id a ha
  obtain ⟨a', ha', hpays⟩ := h id a ha
  obtain ⟨a'', ha'', hpays'⟩ := h' id a' ha'
  exact ⟨a'', ha'', hpays.trans hpays'⟩

theorem of_rel {R : AttemptRecord → AttemptRecord → Prop} (h : OrdMap.Rel R s.attempts s'.attempts)
    (hR : ∀ {a a'}, R a a' → a'.charge = a.charge) : PaidOn s s' := by
  intro id a ha
  obtain ⟨a', ha', hrel⟩ := h.some ha
  exact ⟨a', ha', .of_eq (hR hrel)⟩

theorem refl (s : StateMachine) : PaidOn s s := fun _ a ha => ⟨a, ha, .of_eq rfl⟩

theorem of_marked (h : OrdMap.Rel AttemptRecord.Marked s.attempts s'.attempts) : PaidOn s s' :=
  .of_rel h fun hmark => by rw [hmark]

theorem renewOne (at_ : Timestamp) (s : StateMachine) (r : IntervalRenewal) :
    PaidOn s (renewOne at_ s r) := by
  cases hx : renewal at_ s r with
  | none =>
    rw [renewOne_of_none hx]
    exact .refl s
  | some x =>
    obtain ⟨a, iv, hr⟩ := renewal_renews hx
    intro id b hb
    rw [renewOne_attempts hx, get?_modify]
    split_ifs with hid
    · rw [← hid, hr.found] at hb
      cases hb
      refine ⟨a.pays at_ x, by rw [← hid, hr.found]; rfl, fun iv' hiv' => ?_⟩
      rw [hr.interval] at hiv'
      cases hiv'
      exact ⟨_, hr.pays_interval, (hr.after ▸ hr.grows).le⟩
    · exact ⟨b, hb, .of_eq rfl⟩

theorem renewAll (at_ : Timestamp) (l : List IntervalRenewal) (s : StateMachine) :
    PaidOn s (l.foldl (StateMachine.renewOne at_) s) :=
  foldl_trans refl trans (renewOne at_) l s

end PaidOn

/-- No command takes back what an attempt has paid for. -/
theorem StateMachine.apply_paysOn (hC : Consistent s) (c : Command)
    (ha : s.attempts.get? id = some a) (ha' : (s.apply c).1.attempts.get? id = some a') :
    a.PaysOn a' := by
  have hforward : PaidOn s (s.dispatch c).1 → a.PaysOn a' := by
    intro h
    obtain ⟨b, hb, hpays⟩ := h id a ha
    have hsame : some a' = some b := ha'.symm.trans hb
    cases hsame
    exact hpays
  by_cases hc : c.rewrites = true
  · refine hforward ?_
    cases c with
    | commitPlacements c =>
      show PaidOn s (s.commitPlacements c).1
      cases hres : (s.commitPlacements c).2 with
      | error r =>
        rw [commitPlacements_refused hres]
        exact .refl s
      | ok x =>
        have hcommit := commitPlacements_commits hres
        have hrevoke := (revocations_progressed s c).moved
        rw [hcommit.state]
        refine PaidOn.trans (.of_rel hrevoke.attempts fun hmove => by rw [hmove]) ?_
        intro id a ha
        obtain ⟨a', ha', hmark⟩ := (hcommit.ok.trail hC).stays.1 ha
        exact ⟨a', ha', .of_eq (by rw [hmark])⟩
    | renewIntervalCharges c =>
      show PaidOn s (s.renewIntervalCharges c).1
      unfold renewIntervalCharges
      simp only
      split_ifs
      · exact .refl s
      · exact .renewAll c.proposedAt c.renewals s
    | recordAttemptNotified c => exact .of_marked (s.recordAttemptNotified_marked c)
    | _ c => cases hc
  · obtain ⟨b, hb, hmove⟩ := ((s.dispatch_step _).carried (by simpa using hc)).attempts ha'
    rw [ha] at hb
    cases hb
    exact .of_eq (by rw [hmove])

theorem AttemptStays.paysOn (h : Reachable s) (hrun : AttemptStays id s s')
    (ha : s.attempts.get? id = some a) (ha' : s'.attempts.get? id = some a') : a.PaysOn a' :=
  hrun.keeps h ha (.of_eq rfl)
    (fun ht hx hpays hy => hpays.trans (apply_paysOn ht.consistent _ hx hy)) ha'

/-! ## Exactly once -/

theorem toNat_span {n : Nat} (h : n * seconds.toNat ≤ u64Max) :
    ((UInt64.ofNat n).saturatingMul seconds).toNat = n * seconds.toNat := by
  rw [toNat_saturatingMul, toNat_ofNat']
  by_cases hz : seconds.toNat = 0
  · simp [hz]
  · have hn : n ≤ n * seconds.toNat := Nat.le_mul_of_pos_right n (Nat.pos_of_ne_zero hz)
    have hlt : n < 2 ^ 64 := by
      simp only [u64Max] at h
      omega
    rw [Nat.mod_eq_of_lt hlt]
    exact Nat.min_eq_left h

/-- The price of a span whose seconds fit in 64 bits. -/
theorem AttemptRecord.toNat_priceOf (a : AttemptRecord) {after upTo : Nat}
    (h : (upTo - after) * seconds.toNat ≤ u64Max) : (a.priceOf seconds after upTo).toNat =
      min ((upTo - after) *
        (seconds.toNat * a.rateUcuPerSecond.toNat * a.multiplier.toNat) / 2 ^ 32) u64Max := by
  unfold AttemptRecord.priceOf
  rw [toNat_costFromRate, toNat_span h]
  congr 2
  ac_rfl

namespace Account

variable {l : List Levy}

/-- Each interval that is paid for is in one levy. -/
theorem once (h : Account a iv l) (k : Nat) :
    l.countP (fun x => x.after < k && k ≤ x.upTo) = if 0 < k ∧ k ≤ iv.paid then 1 else 0 := by
  rw [← h.spans.countP_passing k, countP_map]
  rfl

theorem sum_spans (h : Account a iv l) : (l.map fun x => x.upTo - x.after).sum = iv.paid := by
  have hsum := h.spans.sum_rises
  rw [map_map, Nat.zero_add] at hsum
  exact hsum

/-- Rounding the levies down one by one falls short of the price of all intervals by
    less than one for each levy. -/
theorem shortfall (h : Account a iv l) (hfit : iv.paid * iv.seconds.toNat ≤ u64Max) :
    a.charge.amount.toNat ≤ (a.priceOf iv.seconds 0 iv.paid).toNat ∧
      (a.priceOf iv.seconds 0 iv.paid).toNat < a.charge.amount.toNat + l.length := by
  let unit := iv.seconds.toNat * a.rateUcuPerSecond.toNat * a.multiplier.toNat
  have hparts : (l.map fun x => x.amount.toNat) =
      (l.map fun x => (x.upTo - x.after) * unit).map fun v => min (v / 2 ^ 32) u64Max := by
    rw [map_map]
    refine map_congr_left fun x hx => ?_
    have hspan : x.upTo - x.after ≤ iv.paid := by
      rw [← h.sum_spans]
      exact le_sum_of_mem (mem_map_of_mem hx)
    rw [h.priced x hx]
    exact a.toNat_priceOf ((Nat.mul_le_mul_right _ hspan).trans hfit)
  have hwhole : (l.map fun x => (x.upTo - x.after) * unit).sum = iv.paid * unit := by
    rw [sum_map_mul_right, h.sum_spans]
  have hcapped := sum_div_capped (m := u64Max) (l.map fun x => (x.upTo - x.after) * unit)
    (show 0 < 2 ^ 32 by decide) (by simpa using h.ne_nil)
  rw [hwhole, ← hparts, ← h.amount, length_map] at hcapped
  rw [a.toNat_priceOf hfit]
  exact hcapped

end Account

/-- How attempts charged by intervals are charged, in a state with its accounts. -/
structure ChargedOnce (s : StateMachine) (acc : Accounts) : Prop where
  account : ∀ {id a iv}, s.attempts.get? id = some a → a.charge.interval = some iv →
    Account a iv (acc id)
  once : ∀ {id a iv}, s.attempts.get? id = some a → a.charge.interval = some iv → ∀ k,
    (acc id).countP (fun x => x.after < k && k ≤ x.upTo) = if 0 < k ∧ k ≤ iv.paid then 1 else 0
  shortfall : ∀ {id a iv}, s.attempts.get? id = some a → a.charge.interval = some iv →
    iv.paid * iv.seconds.toNat ≤ u64Max →
      a.charge.amount.toNat ≤ (a.priceOf iv.seconds 0 iv.paid).toNat ∧
        (a.priceOf iv.seconds 0 iv.paid).toNat < a.charge.amount.toNat + (acc id).length
  paidOn : ∀ {id a iv s' a'}, s.attempts.get? id = some a → a.charge.interval = some iv →
    AttemptStays id s s' → s'.attempts.get? id = some a' →
      ∃ iv', a'.charge.interval = some iv' ∧ iv.paid ≤ iv'.paid
  /-- a renewal that charges covers what is due beyond what is paid -/
  renews : ∀ {at_ t r x}, StateMachine.renewal at_ t r = some x → ∃ a iv, Renews at_ t r x a iv ∧
    ∃ a', (StateMachine.renewOne at_ t r).attempts.get? r.attempt = some a' ∧
      a'.charge.interval = some ⟨iv.seconds, x.upTo, x.amount, a.charge.chargedAt⟩
  skips : ∀ {at_ t r}, StateMachine.renewal at_ t r = none → StateMachine.renewOne at_ t r = t
  /-- what the accounts are charged is what the owners and their ancestors are charged -/
  renewed : ∀ {c x}, (s.apply (.renewIntervalCharges c)).2 = .ok x →
    (s.apply (.renewIntervalCharges c)).1.quotaEntities =
      ((s.levies (.renewIntervalCharges c)).foldl (StateMachine.levy c.proposedAt) s).quotaEntities
  placed : ∀ {c x}, (s.apply (.commitPlacements c)).2 = .ok x →
    (s.apply (.commitPlacements c)).1.quotaEntities =
      ((s.levies (.commitPlacements c)).foldl (StateMachine.levy c.proposedAt)
        (s.revokedEffects c).st).quotaEntities

/-- In every run every attempt charged by intervals has paid for each of its intervals
    once, whatever renewals were proposed. -/
theorem intervals_charged_once {s : StateMachine} {acc : Accounts} (h : Posted s acc) :
    ChargedOnce s acc where
  account := fun ha hiv => h.accounted _ _ _ ha hiv
  once := fun ha hiv => (h.accounted _ _ _ ha hiv).once
  shortfall := fun ha hiv => (h.accounted _ _ _ ha hiv).shortfall
  paidOn := fun ha hiv hrun ha' => hrun.paysOn h.reachable ha ha' _ hiv
  renews := by
    intro at_ t r x hx
    obtain ⟨a, iv, hr⟩ := renewal_renews hx
    refine ⟨a, iv, hr, a.pays at_ x, ?_, hr.pays_interval⟩
    rw [renewOne_attempts hx, get?_modify_self, hr.found]
    rfl
  skips := renewOne_of_none
  renewed := by
    intro c x hx
    have hok : (s.renewIntervalCharges c).2 = .ok x := hx
    have hlevies : s.levies (.renewIntervalCharges c) =
        renewals c.proposedAt c.renewals s := if_pos (by rw [hok]; rfl)
    have hstate : (s.renewIntervalCharges c).1 = c.renewals.foldl (renewOne c.proposedAt) s := by
      unfold renewIntervalCharges at hok ⊢
      simp only at hok ⊢
      split_ifs at hok with hitems
      · cases hok
      · rw [if_neg hitems]
        rfl
    rw [hlevies]
    show (s.renewIntervalCharges c).1.quotaEntities = _
    rw [hstate]
    exact LeviedAlike.renewals c.proposedAt c.renewals ⟨rfl, rfl, fun _ => rfl⟩
  placed := by
    intro c x hx
    have hok : (s.commitPlacements c).2 = .ok x := hx
    have hcommit := commitPlacements_commits hok
    simp only [levies, hok]
    show (s.commitPlacements c).1.quotaEntities = _
    rw [hcommit.state]
    exact (hcommit.ok.trail h.reachable.consistent).levied ⟨rfl, rfl, fun _ => rfl⟩

namespace Sample

/-- The state after a list of commands, with the accounts. -/
def posts (cmds : List Command) : StateMachine × Accounts :=
  cmds.foldl postStep (StateMachine.default, fun _ => [])

/-- A job without a bound runs for an hour; its renewal is proposed twice. -/
def renewing (weight n : UInt64) : List Command :=
  [.updatePolicy ⟨{ PolicyConfig.default with costWeights := ⟨weight, 0, 0⟩ }, none, epoch⟩,
    configure, register n, submit 1 n, commit [] [place 1 n], send 1, start 1,
    .renewIntervalCharges ⟨[⟨1, 1⟩, ⟨1, 1⟩], Timestamp.clamp 3600000000⟩,
    .renewIntervalCharges ⟨[⟨1, 1⟩], Timestamp.clamp 7200000000⟩]

end Sample

open Sample

theorem posted_posts (cmds : List Command) : Posted (posts cmds).1 (posts cmds).2 :=
  Reach.foldl cmds _ .init fun _ _ _ => trivial

/-- Three intervals are paid for in two levies. -/
theorem intervals_charged_once_renewing :
    ((posts (renewing 4294967296 8)).2 1).map
        (fun x => (x.after, x.upTo, x.amount)) = [(0, 1, 28800), (1, 3, 57600)] ∧
      ChargedOnce (posts (renewing 4294967296 8)).1
        (posts (renewing 4294967296 8)).2 :=
  ⟨by decide +kernel, intervals_charged_once (posted_posts _)⟩

/-- The charge of an attempt saturates: it is not always the sum of what was charged. -/
theorem charge_below_levies :
    ∃ s acc, Posted s acc ∧ ∃ id a iv, s.attempts.get? id = some a ∧ a.charge.interval = some iv ∧
      a.charge.amount.toNat ≠ ((acc id).map fun x => x.amount.toNat).sum := by
  have hrun : ((posts (renewing 18446744073709551615 4294967296)).1.attempts.get?
      1).map (fun a => (a.charge.amount.toNat, a.charge.interval.isSome)) =
        some (u64Max, true) := by
    decide +kernel
  have hsum : ((((posts (renewing 18446744073709551615 4294967296)).2 1).map
      fun x => x.amount.toNat).sum) = 2 * u64Max := by decide +kernel
  refine ⟨_, _, posted_posts (renewing 18446744073709551615 4294967296), 1, ?_⟩
  obtain ⟨a, ha, hcharge⟩ := Option.map_eq_some_iff.mp hrun
  obtain ⟨hamount, hsome⟩ := Prod.mk.inj hcharge
  obtain ⟨iv, hiv⟩ := Option.isSome_iff_exists.mp hsome
  refine ⟨a, iv, ha, hiv, ?_⟩
  rw [hamount, hsum]
  decide

end Coppice.State
