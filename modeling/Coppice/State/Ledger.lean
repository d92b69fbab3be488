/-
  Coppice.State.Ledger

  The quota tree as a ledger.  An attempt that has not settled is a debt of its
  job's entity and of every entity above it; a ledger is solvent when no entity's
  decayed usage is below what it is owed.
-/

import Coppice.Core.Decay
import Coppice.State.Confine

namespace Coppice.State

open Lib Coppice.Core StateMachine OrdMap List Option UsageState DecayPolicy

/-! ## Chains of ancestors -/

namespace StateMachine

variable {s s' : StateMachine} {owner : QuotaEntityId}

/-- No chain of ancestors is cut short by the depth cap. -/
def Forest (s : StateMachine) : Prop :=
  ∀ e q p, s.quotaEntities.get? e = some q → q.parent = some p →
    s.entityChain e = e :: s.entityChain p

@[simp] theorem entityChainFuel_none (s : StateMachine) (fuel : Nat) :
    s.entityChainFuel fuel none = [] := by
  cases fuel <;> rfl

theorem entityChain_eq (s : StateMachine) (e : QuotaEntityId) :
    s.entityChain e =
      e :: s.entityChainFuel 31 ((s.quotaEntities.get? e).bind QuotaEntity.parent) :=
  rfl

/-- The parent of an entity, as the walks see it. -/
def parentOf (s : StateMachine) (e : QuotaEntityId) : Option QuotaEntityId :=
  (s.quotaEntities.get? e).bind QuotaEntity.parent

theorem entityChainFuel_congr (h : ∀ e, s'.parentOf e = s.parentOf e) (fuel : Nat)
    (e : Option QuotaEntityId) : s'.entityChainFuel fuel e = s.entityChainFuel fuel e := by
  induction fuel generalizing e with
  | zero => rfl
  | succ fuel ih =>
    cases e with
    | none => rfl
    | some id =>
      show id :: s'.entityChainFuel fuel (s'.parentOf id) =
        id :: s.entityChainFuel fuel (s.parentOf id)
      rw [h, ih]

theorem entityChain_congr (h : ∀ e, s'.parentOf e = s.parentOf e) (e : QuotaEntityId) :
    s'.entityChain e = s.entityChain e :=
  entityChainFuel_congr h _ _

theorem Forest.congr (hF : s.Forest) (h : ∀ e, s'.parentOf e = s.parentOf e) : s'.Forest := by
  intro e q p hq hp
  have hpar : s.parentOf e = some p := by
    rw [← h]
    simp [parentOf, hq, hp]
  obtain ⟨q0, hq0, hp0⟩ := bind_eq_some_iff.mp hpar
  rw [entityChain_congr h, entityChain_congr h]
  exact hF e q0 p hq0 hp0

/-- A chain ends at a root, or goes on with the chain of the parent. -/
theorem Forest.chain_cases (hF : s.Forest) (e : QuotaEntityId) :
    s.entityChain e = [e] ∨
      ∃ p, s.parentOf e = some p ∧ s.entityChain e = e :: s.entityChain p := by
  cases hp : s.parentOf e with
  | none =>
    refine .inl ?_
    show e :: s.entityChainFuel 31 (s.parentOf e) = [e]
    rw [hp, entityChainFuel_none]
  | some p =>
    obtain ⟨q, hq, hqp⟩ := bind_eq_some_iff.mp hp
    exact .inr ⟨p, rfl, hF e q p hq hqp⟩

/-- The chain of an ancestor is no longer. -/
theorem Forest.length_le (hF : s.Forest) : ∀ (n : Nat) (e x : QuotaEntityId),
    (s.entityChain e).length = n → x ∈ s.entityChain e →
    (s.entityChain x).length ≤ (s.entityChain e).length := by
  intro n
  induction n using Nat.strong_induction_on with
  | _ n ih =>
    intro e x hn hx
    rcases hF.chain_cases e with hroot | ⟨p, -, hchain⟩
    · rw [hroot, mem_singleton] at hx
      rw [hx]
    · have hlen : (s.entityChain e).length = (s.entityChain p).length + 1 := by
        rw [hchain, length_cons]
      rw [hchain, mem_cons] at hx
      rcases hx with rfl | hx
      · exact Nat.le_refl _
      · have := ih _ (by omega) p x rfl hx
        omega

theorem Forest.nodup (hF : s.Forest) : ∀ (n : Nat) (e : QuotaEntityId),
    (s.entityChain e).length = n → (s.entityChain e).Nodup := by
  intro n
  induction n using Nat.strong_induction_on with
  | _ n ih =>
    intro e hn
    rcases hF.chain_cases e with hroot | ⟨p, -, hchain⟩
    · rw [hroot]
      exact nodup_singleton e
    · have hlen : (s.entityChain e).length = (s.entityChain p).length + 1 := by
        rw [hchain, length_cons]
      rw [hchain]
      refine nodup_cons.mpr ⟨fun hmem => ?_, ih _ (by omega) p rfl⟩
      have := hF.length_le _ p e rfl hmem
      omega

/-! ## The walk to the root -/

/-- An entity with its usage adjusted. -/
def billed (f : UsageState → UsageState) (q : QuotaEntity) : QuotaEntity :=
  { q with usage := f q.usage }

theorem parentOf_insert {e : QuotaEntityId} {q : QuotaEntity}
    (hq : s.quotaEntities.get? e = some q) (f : UsageState → UsageState) (x : QuotaEntityId) :
    ({ s with quotaEntities := s.quotaEntities.insert e (billed f q) } : StateMachine).parentOf x =
      s.parentOf x := by
  simp only [parentOf, get?_insert]
  split_ifs with hx
  · subst hx
    simp [hq, billed]
  · rfl

section

variable (f : UsageState → UsageState) (fuel : Nat) (e : Option QuotaEntityId)

/-- The walk adjusts every entity of the chain once. -/
theorem walkAncestors_get? (s : StateMachine) (hnodup : (s.entityChainFuel fuel e).Nodup)
    (x : QuotaEntityId) :
    (walkAncestors f fuel e s).quotaEntities.get? x =
      if x ∈ s.entityChainFuel fuel e then (s.quotaEntities.get? x).map (billed f)
      else s.quotaEntities.get? x := by
  induction fuel generalizing e s with
  | zero => rw [if_neg (by simp [entityChainFuel])]; rfl
  | succ fuel ih =>
    cases e with
    | none => rw [if_neg (by simp)]; rfl
    | some id =>
      have hchain : s.entityChainFuel (fuel + 1) (some id) =
          id :: s.entityChainFuel fuel (s.parentOf id) := rfl
      rw [hchain] at hnodup ⊢
      obtain ⟨hid, htail⟩ := nodup_cons.mp hnodup
      unfold walkAncestors
      cases hq : s.quotaEntities.get? id with
      | none =>
        have hpar : s.parentOf id = none := by simp [parentOf, hq]
        simp only [hpar, entityChainFuel_none, mem_singleton]
        split_ifs with hx
        · rw [hx, hq]; rfl
        · rfl
      | some q =>
        let t : StateMachine := { s with quotaEntities := s.quotaEntities.insert id (billed f q) }
        have hpar : s.parentOf id = q.parent := by simp [parentOf, hq]
        have hsame : t.entityChainFuel fuel q.parent = s.entityChainFuel fuel q.parent :=
          entityChainFuel_congr (parentOf_insert hq f) _ _
        rw [hpar] at hid htail ⊢
        have hwalk := ih q.parent t (by rw [hsame]; exact htail)
        rw [hsame] at hwalk
        show (walkAncestors f fuel q.parent t).quotaEntities.get? x = _
        rw [hwalk]
        by_cases hx : x = id
        · subst hx
          rw [if_neg hid, if_pos mem_cons_self, hq]
          exact get?_insert_self _ _ _
        · have hget : t.quotaEntities.get? x = s.quotaEntities.get? x :=
            get?_insert_of_ne _ _ (Ne.symm hx)
          simp [hget, hx]

end

/-- `s'` has the quota tree of `s` with `f` applied along the chain of `owner`. -/
def Adjusted (s : StateMachine) (owner : QuotaEntityId) (f : UsageState → UsageState)
    (s' : StateMachine) : Prop :=
  s'.quotaEntities = (walkAncestors f quotaTreeDepthCap (some owner) s).quotaEntities

variable {f : UsageState → UsageState}

theorem Adjusted.get? (h : s.Adjusted owner f s') (hF : s.Forest) (x : QuotaEntityId) :
    s'.quotaEntities.get? x =
      if x ∈ s.entityChain owner then (s.quotaEntities.get? x).map (billed f)
      else s.quotaEntities.get? x := by
  rw [h]
  exact walkAncestors_get? f _ _ s (hF.nodup _ owner rfl) x

theorem Adjusted.parentOf (h : s.Adjusted owner f s') (hF : s.Forest) (x : QuotaEntityId) :
    s'.parentOf x = s.parentOf x := by
  have hget := h.get? hF x
  simp only [StateMachine.parentOf, hget]
  split_ifs
  · cases s.quotaEntities.get? x <;> rfl
  · rfl

/-! ## Debts -/

/-- An attempt that has not settled: the entity it is charged to, and the charge. -/
structure Debt where
  owner : QuotaEntityId
  charge : ChargeRecord

section

variable (s : StateMachine)

/-- The entity a job is charged to. -/
def ownerOf (job : JobId) : Option QuotaEntityId :=
  (s.jobs.get? job).map fun j => j.spec.quotaEntity

def debtOf (a : AttemptRecord) : Option Debt :=
  if a.settlement.isSome then none
  else (s.ownerOf a.attempt.job).map fun owner => ⟨owner, a.charge⟩

def debts : OrdMap AttemptId Debt := s.attempts.filterMap fun _ a => s.debtOf a

/-- What the debts of `book` charged in the subtree of `e` leave at `t`. -/
def owedBy (book : OrdMap AttemptId Debt) (e : QuotaEntityId) (t : Timestamp) : Nat :=
  book.sumBy fun _ d =>
    if e ∈ s.entityChain d.owner then
      (s.policy.decay.decayBetween d.charge.amount d.charge.chargedAt t).toNat
    else 0

/-- What the unsettled attempts charged in the subtree of `e` leave at `t`. -/
def outstanding (e : QuotaEntityId) (t : Timestamp) : Nat := s.owedBy s.debts e t

/-- The usage of an entity, decayed to `t`. -/
def usageAt (q : QuotaEntity) (t : Timestamp) : Nat :=
  (q.usage.touch t s.policy.decay).usage.toNat

theorem debts_get? (id : AttemptId) : s.debts.get? id = (s.attempts.get? id).bind s.debtOf :=
  get?_filterMap _ _ _

/-- The part of a debt that `e` carries, as a posting. -/
def share (e : QuotaEntityId) (d : Debt) : Posting :=
  s.policy.decay.posting (if e ∈ s.entityChain d.owner then d.charge.amount else 0)
    d.charge.chargedAt

theorem share_left (e : QuotaEntityId) (d : Debt) (t : Timestamp) :
    (s.share e d).left s.policy.decay.shrink (s.policy.decay.tickIndex t) =
      if e ∈ s.entityChain d.owner then
        (s.policy.decay.decayBetween d.charge.amount d.charge.chargedAt t).toNat
      else 0 := by
  unfold share
  split_ifs
  · rw [toNat_decayBetween]
  · exact Posting.left_zero s.policy.decay.shrink_superadditive _ _

theorem owedBy_eq (book : OrdMap AttemptId Debt) (e : QuotaEntityId) (t : Timestamp) :
    s.owedBy book e t =
      owed s.policy.decay.shrink book (s.share e) (s.policy.decay.tickIndex t) :=
  sumBy_congr fun _ d _ => (s.share_left e d t).symm

theorem outstanding_eq (e : QuotaEntityId) (t : Timestamp) :
    s.outstanding e t =
      owed s.policy.decay.shrink s.debts (s.share e) (s.policy.decay.tickIndex t) :=
  s.owedBy_eq s.debts e t

end

/-- The decay and the chains determine the shares. -/
theorem share_congr (hdecay : s'.policy.decay = s.policy.decay)
    (hpar : ∀ e, s'.parentOf e = s.parentOf e) (e : QuotaEntityId) : s'.share e = s.share e := by
  funext d
  simp [share, hdecay, entityChain_congr hpar]

end StateMachine

/-! ## Solvency -/

/-- The stamp of settlement agrees with the state of the attempt. -/
def SettledRight (s : StateMachine) : Prop :=
  ∀ id a, s.attempts.get? id = some a → a.settlement.isSome = a.attempt.state.isTerminal

/-- At `now` every entity's decayed usage covers what it is owed, and nothing is
    dated later. -/
structure Solvent (s : StateMachine) (now : Timestamp) : Prop where
  tick : 0 < s.policy.decay.tick.asMicros
  forest : s.Forest
  settled : SettledRight s
  updated : ∀ e q, s.quotaEntities.get? e = some q → q.usage.lastUpdate ≤ now
  charged : ∀ id d, s.debts.get? id = some d → d.charge.chargedAt ≤ now ∧ d.charge.interval = none
  covered : ∀ e q, s.quotaEntities.get? e = some q → s.outstanding e now ≤ s.usageAt q now

namespace Solvent

variable {s : StateMachine} {now : Timestamp}

/-- Time alone does not make a ledger insolvent. -/
theorem later {t : Timestamp} (h : Solvent s now) (hle : now ≤ t) : Solvent s t := by
  refine ⟨h.tick, h.forest, h.settled, fun e q hq => le_trans (h.updated e q hq) hle,
    fun id d hd => ⟨le_trans (h.charged id d hd).1 hle, (h.charged id d hd).2⟩, fun e q hq => ?_⟩
  have hcov := h.covered e q hq
  rw [outstanding_eq, usageAt, touch, toNat_decayBetween] at hcov ⊢
  refine covers_later s.policy.decay.shrink_superadditive (fun id d hd => ?_) ?_ ?_ hcov
  · exact s.policy.decay.tickIndex_mono h.tick (h.charged id d hd).1
  · exact s.policy.decay.tickIndex_mono h.tick (h.updated e q hq)
  · exact s.policy.decay.tickIndex_mono h.tick hle

end Solvent

/-! ## Ledger steps -/

/-- The entity keeps its usage and its place in the tree. -/
structure QuotaEntity.SameUsage (q q' : QuotaEntity) : Prop where
  usage : q'.usage = q.usage
  parent : q'.parent = q.parent

theorem QuotaEntity.SameUsage.refl (q : QuotaEntity) : q.SameUsage q := ⟨rfl, rfl⟩

theorem QuotaEntity.SameUsage.trans {q : QuotaEntity} (h : q.SameUsage q') (h' : q'.SameUsage q'') :
    q.SameUsage q'' :=
  ⟨h'.usage.trans h.usage, h'.parent.trans h.parent⟩

/-- Nothing of the ledger changes. -/
structure Still (s s' : StateMachine) : Prop where
  debts : s'.debts = s.debts
  tree : OrdMap.Rel QuotaEntity.SameUsage s.quotaEntities s'.quotaEntities
  decay : s'.policy.decay = s.policy.decay
  settled : SettledRight s → SettledRight s'

/-- Adding `amount` to the usage of `owner` and of every entity above it saturates none. -/
def StateMachine.ChargeFits (s : StateMachine) (owner : QuotaEntityId) (amount : CostUnits)
    (now : Timestamp) : Prop :=
  ∀ e ∈ s.entityChain owner, ∀ q, s.quotaEntities.get? e = some q →
    s.usageAt q now + amount.toNat ≤ u64Max

instance (s : StateMachine) (owner : QuotaEntityId) (amount : CostUnits) (now : Timestamp) :
    Decidable (s.ChargeFits owner amount now) :=
  inferInstanceAs (Decidable (∀ e ∈ s.entityChain owner, ∀ q ∈ s.quotaEntities.get? e,
    s.usageAt q now + amount.toNat ≤ u64Max))

/-- One step of a command, as the ledger sees it: `P` are the charges made on the way. -/
inductive LedgerStep (P : StateMachine → QuotaEntityId → CostUnits → Prop) (now : Timestamp) :
    StateMachine → StateMachine → Prop where
  | still {s s'} : Still s s' → LedgerStep P now s s'
  | charge {s s' id owner charge} : s.debts.get? id = none →
      s'.debts = s.debts.insert id ⟨owner, charge⟩ →
      charge.chargedAt = now → charge.interval = none →
      s.Adjusted owner (fun u => u.charge charge.amount now s.policy.decay) s' →
      s'.policy.decay = s.policy.decay → (SettledRight s → SettledRight s') →
      P s owner charge.amount → LedgerStep P now s s'
  | settle {s s' id d actual retain adj} : s.debts.get? id = some d → s'.debts = s.debts.erase id →
      trueUp d.charge actual now s.policy.decay retain = adj →
      s.Adjusted d.owner (fun u => u.settle adj now s.policy.decay) s' →
      s'.policy.decay = s.policy.decay → (SettledRight s → SettledRight s') →
      (∀ amount, adj = .surcharge amount → P s d.owner amount) → LedgerStep P now s s'

/-- The way from one state to another consists of such steps. -/
def LedgerRun (P : StateMachine → QuotaEntityId → CostUnits → Prop) (now : Timestamp) :
    StateMachine → StateMachine → Prop :=
  Relation.ReflTransGen (LedgerStep P now)

namespace Solvent

variable {s s' : StateMachine} {now : Timestamp} {id : AttemptId} {d : StateMachine.Debt}
  {actual : CostUnits} {retain : Bool} {P : StateMachine → QuotaEntityId → CostUnits → Prop}

theorem still (h : Solvent s now) (hs : Still s s') : Solvent s' now := by
  have hpar e : s'.parentOf e = s.parentOf e := by
    rcases hs.tree e with ⟨hn, hn'⟩ | ⟨q, q', hq, hq', hsame⟩
    · simp [parentOf, hn, hn']
    · simp [parentOf, hq, hq', hsame.parent]
  refine ⟨hs.decay ▸ h.tick, h.forest.congr hpar, hs.settled h.settled, fun e q' hq' => ?_, ?_,
    fun e q' hq' => ?_⟩
  · obtain ⟨q, hq, hsame⟩ := hs.tree.back hq'
    rw [hsame.usage]
    exact h.updated e q hq
  · rw [hs.debts]
    exact h.charged
  · obtain ⟨q, hq, hsame⟩ := hs.tree.back hq'
    have hcov := h.covered e q hq
    rw [outstanding_eq] at hcov ⊢
    rw [usageAt] at hcov ⊢
    rw [hs.debts, hs.decay, share_congr hs.decay hpar, hsame.usage]
    exact hcov

/-- Usage moves along one chain: its entities cover what they are owed then, and nobody else is
    owed more. -/
theorem adjusted {owner : QuotaEntityId} {f : UsageState → UsageState} (h : Solvent s now)
    (hadj : s.Adjusted owner f s') (hdecay : s'.policy.decay = s.policy.decay)
    (hsettled : SettledRight s → SettledRight s')
    (hupd : ∀ u : UsageState, u.lastUpdate ≤ now → (f u).lastUpdate ≤ now)
    (hcharged : ∀ id d, s'.debts.get? id = some d →
      d.charge.chargedAt ≤ now ∧ d.charge.interval = none)
    (hin : ∀ e ∈ s.entityChain owner, ∀ q, s.quotaEntities.get? e = some q →
      s'.outstanding e now ≤ ((f q.usage).touch now s.policy.decay).usage.toNat)
    (hout : ∀ e ∉ s.entityChain owner, s'.outstanding e now ≤ s.outstanding e now) :
    Solvent s' now := by
  refine ⟨hdecay ▸ h.tick, h.forest.congr (hadj.parentOf h.forest), hsettled h.settled,
    fun e q' hq' => ?_, hcharged, fun e q' hq' => ?_⟩
  all_goals
    rw [hadj.get? h.forest] at hq'
    split_ifs at hq' with hmem
  · obtain ⟨q, hq, rfl⟩ := map_eq_some_iff.mp hq'
    exact hupd _ (h.updated e q hq)
  · exact h.updated e q' hq'
  · obtain ⟨q, hq, rfl⟩ := map_eq_some_iff.mp hq'
    rw [usageAt, hdecay]
    exact hin e hmem q hq
  · rw [usageAt, hdecay]
    exact (hout e hmem).trans (h.covered e q' hq')

/-- What a settlement gives back is covered beside what all others are owed. -/
theorem refund_covered {r : CostUnits} (h : Solvent s now) (hd : s.debts.get? id = some d)
    (hr : trueUp d.charge actual now s.policy.decay retain = .refund r) {e : QuotaEntityId}
    {q : QuotaEntity} (he : e ∈ s.entityChain d.owner) (hq : s.quotaEntities.get? e = some q) :
    s.owedBy (s.debts.erase id) e now + r.toNat ≤ s.usageAt q now := by
  have hcov := h.covered e q hq
  have hle := trueUp_refund_le (h.charged id d hd).2 hr
  have hsplit : (s.share e d).left s.policy.decay.shrink (s.policy.decay.tickIndex now) +
      owed s.policy.decay.shrink (s.debts.erase id) (s.share e) (s.policy.decay.tickIndex now) =
      owed s.policy.decay.shrink s.debts (s.share e) (s.policy.decay.tickIndex now) :=
    owed_erase hd
  rw [share_left, if_pos he, ← owedBy_eq, ← outstanding_eq]
    at hsplit
  omega

/-- A new debt is charged in full to everyone who will carry it, and a settlement gives back no
    more than is left of the debt it closes. -/
theorem step (h : Solvent s now) (hstep : LedgerStep P now s s')
    (hP : ∀ st owner amount, P st owner amount → st.ChargeFits owner amount now) :
    Solvent s' now := by
  cases hstep with
  | still hs => exact h.still hs
  | @charge id owner ch hnone hdebts hat hinterval hadj hdecay hset hp =>
    have hsum e : s'.outstanding e now = (s.share e ⟨owner, ch⟩).left s.policy.decay.shrink
        (s.policy.decay.tickIndex now) + s.outstanding e now := by
      rw [outstanding_eq, outstanding_eq, hdebts, hdecay,
        share_congr hdecay (hadj.parentOf h.forest), owed_insert hnone]
    refine h.adjusted hadj hdecay hset (fun u hu => max_le hu (le_refl now)) (fun i d hd => ?_)
      (fun e hmem q hq => ?_) fun e hmem => ?_
    · rw [hdebts, get?_insert] at hd
      split_ifs at hd with hi
      · cases hd
        exact ⟨le_of_eq hat, hinterval⟩
      · exact h.charged i d hd
    · have hcov := h.covered e q hq
      have husage := charge_now (p := s.policy.decay) (h.updated e q hq) ch.amount
        (hP _ _ _ hp e hmem q hq)
      rw [usageAt] at hcov
      rw [hsum, share_left, if_pos hmem, hat, decayBetween_self]
      dsimp only
      omega
    · rw [hsum, share_left, if_neg hmem, Nat.zero_add]
  | @settle id d actual retain adj hd hdebts hadj htree hdecay hset hp =>
    have hsum e : (s.share e d).left s.policy.decay.shrink (s.policy.decay.tickIndex now) +
        s'.outstanding e now = s.outstanding e now := by
      rw [outstanding_eq, outstanding_eq, hdebts, hdecay,
        share_congr hdecay (htree.parentOf h.forest), owed_erase hd]
    refine h.adjusted htree hdecay hset (fun u hu => ?_) (fun i d' hd' => ?_)
      (fun e hmem q hq => ?_) fun e _ => (hsum e).symm ▸ Nat.le_add_left _ _
    · rw [lastUpdate_settle]
      exact max_le hu (le_refl now)
    · exact h.charged i d' (of_get?_erase (hdebts ▸ hd')).2
    · have hcov := h.covered e q hq
      have hupd := h.updated e q hq
      rw [← hsum, share_left, if_pos hmem, usageAt] at hcov
      cases adj with
      | refund r =>
        have hle := trueUp_refund_le (h.charged id d hd).2 hadj
        have husage := refund_now (p := s.policy.decay) hupd r
        simp only [settle]
        omega
      | surcharge amount =>
        have husage := charge_now (p := s.policy.decay) hupd amount
          (hP _ _ _ (hp amount rfl) e hmem q hq)
        simp only [settle]
        omega

end Solvent

namespace LedgerRun

variable {P : StateMachine → QuotaEntityId → CostUnits → Prop} {now : Timestamp}
  {s s' s'' : StateMachine}

theorem refl (s : StateMachine) : LedgerRun P now s s := Relation.ReflTransGen.refl

theorem trans (h : LedgerRun P now s s') (h' : LedgerRun P now s' s'') : LedgerRun P now s s'' :=
  Relation.ReflTransGen.trans h h'

theorem still (h : Still s s') : LedgerRun P now s s' := .single (.still h)

theorem settled (h : LedgerRun P now s s') (hs : SettledRight s) : SettledRight s' := by
  induction h with
  | refl => exact hs
  | tail _ hstep ih =>
    cases hstep with
    | still h => exact h.settled ih
    | charge _ _ _ _ _ _ h => exact h ih
    | settle _ _ _ _ _ h => exact h ih

/-- A run whose charges all fit keeps the ledger solvent. -/
theorem solvent (h : LedgerRun P now s s') (hs : Solvent s now)
    (hP : ∀ st owner amount, P st owner amount → st.ChargeFits owner amount now) :
    Solvent s' now := by
  induction h with
  | refl => exact hs
  | tail _ hstep ih => exact ih.step hstep hP

/-- A fold, each of whose steps is taken from the fold of a proper part of the list. -/
theorem foldl {α : Type} {f : Effects → α → Effects} (l : List α) (fx : Effects)
    (hf : ∀ pre x post, l = pre ++ x :: post → LedgerRun P now fx.st (pre.foldl f fx).st →
      LedgerRun P now (pre.foldl f fx).st (f (pre.foldl f fx) x).st) :
    LedgerRun P now fx.st (l.foldl f fx).st := by
  induction l using List.reverseRecOn with
  | nil => exact .refl fx.st
  | append_singleton pre x ih =>
    rw [foldl_append]
    have hpre := ih fun p y post e => hf p y (post ++ [x]) (by rw [e]; simp)
    exact hpre.trans (hf pre x [] rfl hpre)

end LedgerRun

end Coppice.State
