/-
  Coppice.State.Booking

  What each command does to the ledger of the quota tree: it charges the
  attempts it places, settles the attempts it ends, and leaves the rest of
  the ledger alone.
-/

import Coppice.State.Ledger
import Coppice.State.Order

namespace Coppice.State

open Lib Coppice.Core StateMachine OrdMap Effects

/-! ## Steps that leave the ledger alone -/

/-- Neither the charge of the attempt nor whether it is over changes. -/
structure AttemptRecord.SameBill (a a' : AttemptRecord) : Prop where
  charge : a'.charge = a.charge
  job : a'.attempt.job = a.attempt.job
  settled : a'.settlement = a.settlement
  ended : a'.attempt.state.isTerminal = a.attempt.state.isTerminal

theorem AttemptRecord.SameBill.refl (a : AttemptRecord) : a.SameBill a := ⟨rfl, rfl, rfl, rfl⟩

variable {s : StateMachine} {P : StateMachine → QuotaEntityId → CostUnits → Prop} {id : AttemptId}

theorem StateMachine.debtOf_congr {s' : StateMachine} {a : AttemptRecord}
    (howner : s'.ownerOf a.attempt.job = s.ownerOf a.attempt.job) (h : a.SameBill a') :
    s'.debtOf a' = s.debtOf a := by
  simp [debtOf, h.settled, h.job, h.charge, howner]

/-- A pledge pass touches no bill. -/
theorem Pledged.sameBill (h : Pledged s s') :
    OrdMap.Rel AttemptRecord.SameBill s.attempts s'.attempts := by
  intro id
  rcases h.attempts id with e | ⟨a, ha, hacc, ha'⟩
  · rw [e]
    exact OrdMap.Rel.refl AttemptRecord.SameBill.refl s.attempts id
  · exact .inr ⟨a, a.readied, ha, ha', rfl, rfl, rfl, by rw [hacc]; rfl⟩

namespace Still

variable {s' s'' : StateMachine}

theorem trans (h : Still s s') (h' : Still s' s'') : Still s s'' :=
  ⟨h'.debts.trans h.debts, h.tree.trans .trans h'.tree, h'.decay.trans h.decay,
    fun hs => h'.settled (h.settled hs)⟩

/-- Attempts keep their bills, and the jobs of attempts their owners. -/
theorem of_rel (howner : ∀ id a, s.attempts.get? id = some a →
      s'.ownerOf a.attempt.job = s.ownerOf a.attempt.job)
    (hatt : OrdMap.Rel AttemptRecord.SameBill s.attempts s'.attempts)
    (htree : OrdMap.Rel QuotaEntity.SameUsage s.quotaEntities s'.quotaEntities)
    (hdecay : s'.policy.decay = s.policy.decay) : Still s s' := by
  refine ⟨ext_get? fun id => ?_, htree, hdecay, fun hs id a' ha' => ?_⟩
  · rw [s'.debts_get?, s.debts_get?]
    rcases hatt id with ⟨hn, hn'⟩ | ⟨a, a', ha, ha', hbill⟩
    · rw [hn, hn']
      rfl
    · rw [ha, ha']
      exact debtOf_congr (howner id a ha) hbill
  · obtain ⟨a, ha, hbill⟩ := hatt.back ha'
    rw [hbill.settled, hbill.ended]
    exact hs id a ha

/-- None of the four fields is touched. -/
theorem of_eq (hj : s'.jobs = s.jobs) (ha : s'.attempts = s.attempts)
    (htree : s'.quotaEntities = s.quotaEntities) (hdecay : s'.policy.decay = s.policy.decay) :
    Still s s' :=
  .of_rel (fun _ _ _ => by simp only [ownerOf, hj]) (.of_eq .refl ha)
    (.of_eq .refl htree) hdecay

theorem refl (s : StateMachine) : Still s s := .of_eq rfl rfl rfl rfl

/-- One attempt is written. -/
theorem modifyAttempt (id : AttemptId) (f : AttemptRecord → AttemptRecord)
    (hf : ∀ a, s.attempts.get? id = some a → a.SameBill (f a)) :
    Still s { s with attempts := s.attempts.modify id f } :=
  .of_rel (fun _ _ _ => rfl) (.of_modify .refl f hf) (.of_eq .refl rfl) rfl

/-- One job is written. -/
theorem modifyJob (job : JobId) (f : JobRecord → JobRecord)
    (hf : ∀ j : JobRecord, (f j).spec.quotaEntity = j.spec.quotaEntity) :
    Still s { s with jobs := s.jobs.modify job f } := by
  refine .of_rel (fun _ a _ => ?_) (.of_eq .refl rfl) (.of_eq .refl rfl) rfl
  simp only [ownerOf, get?_modify]
  split_ifs
  · cases s.jobs.get? a.attempt.job with
    | none => rfl
    | some j => exact congrArg some (hf j)
  · rfl

theorem of_pledged (h : Pledged s s') : Still s s' :=
  .of_rel (fun _ a _ => by simp only [ownerOf, h.jobs]) h.sameBill
    (.of_eq .refl (by rw [h.rest])) (by rw [h.rest])

theorem foldl {α : Type} {f : Effects → α → Effects} (hf : ∀ fx x, Still fx.st (f fx x).st)
    (l : List α) (fx : Effects) : Still fx.st (l.foldl f fx).st :=
  foldl_trans (R := fun fx fx' => Still fx.st fx'.st) (fun _ => .refl _) .trans hf l fx

end Still

theorem JobRecord.resolve_owner (outcome : AttemptOutcome) (at_ : Timestamp) (r : JobRecord) :
    (r.resolve outcome at_).spec.quotaEntity = r.spec.quotaEntity := by
  unfold JobRecord.resolve
  split_ifs
  · rfl
  · split
    · rw [(r.stampTerminal_spec at_).1]
    · rfl

/-! ## Ends -/

/-- Ending an attempt settles its debt, if it was live. -/
theorem Sound.terminateAttempt_ledger (id : AttemptId) (outcome : AttemptOutcome) (rt : Duration)
    (at_ : Timestamp) (pledge : Bool) (h : Sound skip fx) (hset : SettledRight fx.st)
    (hP : ∀ a j amount, fx.st.attempts.get? id = some a → a.attempt.state.isTerminal = false →
      fx.st.jobs.get? a.attempt.job = some j →
      trueUp a.charge (a.actualCost rt) at_ fx.st.policy.decay (a.retains outcome) =
        .surcharge amount → P fx.st j.spec.quotaEntity amount) :
    LedgerRun P at_ fx.st (fx.terminateAttempt id outcome rt at_ pledge).st := by
  rcases fx.terminateAttempt_idle_or_live id outcome rt at_ pledge with ⟨-, heq⟩ | ⟨a, ha, hlive⟩
  · rw [heq]
    exact .refl _
  obtain ⟨j, hj, -, -⟩ := h.jobs.current ha hlive
  obtain ⟨r, fx1, fx2, x, he⟩ := h.books.ends outcome rt at_ pledge ha hlive
  generalize fx.terminateAttempt id outcome rt at_ pledge = fx' at *
  have hbills : OrdMap.Rel AttemptRecord.SameBill
      (fx.st.attempts.insert id (a.endWith outcome at_)) fx2.st.attempts := by
    have hatt : fx1.st.attempts = fx.st.attempts.insert id (a.endWith outcome at_) := by
      rw [he.st1]
    rw [← hatt]
    exact he.pledged.sameBill
  have hopen : a.settlement = none := by
    have := hset id a ha
    rw [hlive] at this
    simpa using this
  have howner k : fx'.st.ownerOf k = fx.st.ownerOf k := by
    rw [ownerOf, he.st]
    simp only [ownerOf, get?_modify]
    split_ifs
    · cases fx.st.jobs.get? k with
      | none => rfl
      | some r => exact congrArg some (r.resolve_owner outcome at_)
    · rfl
  have hself : fx'.st.attempts.get? id =
      some { a.endWith outcome at_ with settlement := some x } :=
    he.self.trans (congrArg some (if_pos (by simp [AttemptRecord.endWith, hopen])))
  have hdebt : fx.st.debts.get? id = some ⟨j.spec.quotaEntity, a.charge⟩ := by
    simp [debts_get?, ha, debtOf, ownerOf, hopen, hj]
  have hdebts : fx'.st.debts = fx.st.debts.erase id := by
    refine ext_get? fun i => ?_
    rw [debts_get?, get?_erase, debts_get?]
    split_ifs with hi
    · rw [← hi, hself]
      rfl
    · rw [he.attempts_of_ne (Ne.symm hi)]
      have hrel := hbills i
      rw [get?_insert_of_ne _ _ hi] at hrel
      rcases hrel with ⟨hn, hn'⟩ | ⟨b, b', hb, hb', hbill⟩
      · rw [hn, hn']
        rfl
      · rw [hb, hb']
        exact debtOf_congr (howner _) hbill
  have hright : SettledRight fx'.st := by
    intro i b' hb'
    by_cases hi : i = id
    · rw [hi, hself] at hb'
      cases hb'
      rfl
    · rw [he.attempts_of_ne hi] at hb'
      obtain ⟨b, hb, hbill⟩ := hbills.back hb'
      rw [get?_insert_of_ne _ _ (Ne.symm hi)] at hb
      rw [hbill.settled, hbill.ended]
      exact hset i b hb
  have hadj : trueUp a.charge (a.actualCost rt) at_ fx.st.policy.decay (a.retains outcome) =
      x.trueUp := by rw [he.bill]
  have htree : fx.st.Adjusted j.spec.quotaEntity
      (fun u => u.settle x.trueUp at_ fx.st.policy.decay) fx'.st := he.quotas j hj
  have hdecay : fx'.st.policy.decay = fx.st.policy.decay := by
    rw [he.st, he.pledged.rest, he.st1]
  exact .single (.settle hdebt hdebts hadj htree hdecay (fun _ => hright) fun amount hamount =>
    hP a j amount ha hlive hj (hadj.trans hamount))

/-! ## Seats -/

/-- What a placement of the job is charged up front. -/
def StateMachine.priceOf (s : StateMachine) (j : JobRecord) : CostUnits :=
  let (runtimeS, multiplier, _, _) := Effects.pricing s.policy j (s.effectivePreemptible j.spec)
  costFromRate (resourceRate j.spec.requests s.policy.costWeights) runtimeS multiplier

theorem recordVictim_still (fx : Effects) (at_ : Timestamp) (node : NodeId) (v : Victim) :
    Still fx.st (fx.recordVictim at_ node v).st := by
  unfold recordVictim
  split
  · exact .refl _
  · exact .modifyAttempt _ _ fun _ _ => ⟨rfl, rfl, rfl, rfl⟩

/-- A seat charges its attempt to the job's entity. -/
theorem seatPlacement_ledger (at_ : Timestamp) (cutoff : Option Timestamp) (group : List Victim)
    (hf : Fresh fx p spec j) (hbound : j.spec.maxRuntime ≠ none)
    (hP : P fx.st j.spec.quotaEntity (fx.st.priceOf j)) :
    LedgerRun P at_ fx.st (fx.seatPlacement at_ p cutoff group).st := by
  obtain ⟨fx1, a, q, heq, -, hatt, hstamps, -, hst, -, ha, hq⟩ :=
    seatPlacement_eq fx at_ cutoff group hf.one hf.job
  -- a job with a declared bound is charged once
  obtain ⟨hamount, hat, hinterval⟩ : a.charge.amount = fx.st.priceOf j ∧
      a.charge.chargedAt = at_ ∧ a.charge.interval = none := by
    obtain ⟨bound, hb⟩ := Option.ne_none_iff_exists'.mp hbound
    simp only [ha, seatedBy, seatedAttempt, priceOf, pricing, hb]
    exact ⟨trivial, trivial, rfl⟩
  have hatts : fx1.st.attempts = fx.st.attempts.insert p.attempt a := by
    rw [hst]
    simp [seatRecords, hatt]
  have htree : fx.st.Adjusted j.spec.quotaEntity
      (fun u => u.charge a.charge.amount at_ fx.st.policy.decay) fx1.st := by
    rw [hst]
    exact hq
  have howner k : fx1.st.ownerOf k = fx.st.ownerOf k := by
    rw [hst]
    simp only [ownerOf, get?_insert]
    split_ifs with hk
    · rw [← hk, hf.job]
      rfl
    · rfl
  have hnone : fx.st.debts.get? p.attempt = none := by
    rw [debts_get?, hf.attempt]
    rfl
  rw [heq]
  refine LedgerRun.trans ?_
    (.still (.foldl (fun fx v => recordVictim_still fx at_ spec.node v) _ _))
  refine .single (.charge hnone ?_ (ha ▸ hat) (ha ▸ hinterval) htree (by rw [hst]; rfl) ?_
    (by rw [hamount]; exact hP))
  · refine ext_get? fun i => ?_
    rw [debts_get?, get?_insert, debts_get?, hatts, get?_insert]
    split_ifs with hi
    · simp only [Option.bind_some, debtOf, howner]
      simp [hstamps.settled, hatt, ownerOf, hf.job]
    · cases fx.st.attempts.get? i with
      | none => rfl
      | some b => exact debtOf_congr (howner b.attempt.job) (.refl b)
  · intro hs i b hb
    rw [hatts, get?_insert] at hb
    split_ifs at hb with hi
    · cases hb
      rw [hstamps.settled, hatt]
      split_ifs <;> rfl
    · exact hs i b hb

/-! ## The charges of a command -/

/-- The runtime an attempt is settled with when its node is lost. -/
def StateMachine.lostRuntime (s : StateMachine) (declaredAt : Timestamp) (id : AttemptId) :
    Duration :=
  match (s.attempts.get? id).bind AttemptRecord.startedAt with
  | none => Duration.zero
  | some started => max (declaredAt.durationSince started) Duration.zero

/-- The attempts a command ends: the effects so far, the attempt, its outcome and runtime. -/
inductive Ends (s : StateMachine) :
    Command → Effects → AttemptId → AttemptOutcome → Duration → Prop where
  | abort {c r id} : s.jobs.get? c.job = some r → r.state = .attempting id →
      Ends s (.abortJob c) (Effects.start (s.abortFlagged c.job ⟨c.reason, c.requestedAt⟩)) id
        .aborted Duration.zero
  | outcome {c} : Ends s (.recordAttemptOutcome c) (Effects.start s) c.attempt c.outcome
      c.actualRuntime
  | lose {c pre l post} : c.lost = pre ++ l :: post →
      Ends s (.reconcileNode c) (pre.foldl (StateMachine.loseOne c.observedAt)
        (s.adopting c))
        l.attempt l.outcome l.actualRuntime
  | nodeLost {c n pre v post} : s.nodes.get? c.node = some n →
      (s.losing c n).st.lostVictims c.node = pre ++ v :: post →
      Ends s (.declareNodeLost c)
        (pre.foldl (StateMachine.loseNodeAttempt c.declaredAt) (s.losing c n)) v.2 .nodeLost
        ((pre.foldl (StateMachine.loseNodeAttempt c.declaredAt) (s.losing c n)).st.lostRuntime
          c.declaredAt v.2)
  | revoke {c pre id post r} : c.revocations = pre ++ id :: post →
      (pre.foldl (Effects.revokeOne c.proposedAt)
        ⟨s, [], some s.usedCapacityMemo⟩).st.allocations.get? id = some r →
      Ends s (.commitPlacements c) (pre.foldl (Effects.revokeOne c.proposedAt)
        ⟨s, [], some s.usedCapacityMemo⟩) r.allocation.attempt .revoked Duration.zero

/-- The jobs a command places, each with the effects so far. -/
inductive Places (s : StateMachine) : Command → Effects → JobRecord → Prop where
  | seat {c pre p post j} : c.placements = pre ++ p :: post →
      (Effects.seatAll c.proposedAt pre (s.screen c).cutoffs (s.screen c).victims
        (s.revokedEffects c)).st.jobs.get? p.job = some j →
      Places s (.commitPlacements c) (Effects.seatAll c.proposedAt pre (s.screen c).cutoffs
        (s.screen c).victims (s.revokedEffects c)) j

/-- The amounts a command adds to usage: prices of placements and surcharges of ends. -/
inductive Charges (s : StateMachine) (c : Command) :
    StateMachine → QuotaEntityId → CostUnits → Prop where
  | ends {fx id outcome rt a j amount} : Ends s c fx id outcome rt →
      fx.st.attempts.get? id = some a → a.attempt.state.isTerminal = false →
      fx.st.jobs.get? a.attempt.job = some j →
      trueUp a.charge (a.actualCost rt) c.stampedAt fx.st.policy.decay (a.retains outcome) =
        .surcharge amount → Charges s c fx.st j.spec.quotaEntity amount
  | places {fx j} : Places s c fx j → Charges s c fx.st j.spec.quotaEntity (fx.st.priceOf j)

/-- What a command does to the ledger, as steps whose charges are its own. -/
abbrev Booked (s : StateMachine) (c : Command) (s' : StateMachine) : Prop :=
  LedgerRun (Charges s c) c.stampedAt s s'

/-- An end that the command makes is booked. -/
theorem Ends.booked {c : Command} {fx : Effects} {outcome : AttemptOutcome} {rt : Duration}
    {skip : Set NodeId} (he : Ends s c fx id outcome rt) (h : Sound skip fx)
    (hset : SettledRight fx.st) (pledge : Bool) :
    LedgerRun (Charges s c) c.stampedAt fx.st
      (fx.terminateAttempt id outcome rt c.stampedAt pledge).st :=
  h.terminateAttempt_ledger id outcome rt _ pledge hset fun _ _ _ ha hlive hj htrue =>
    .ends he ha hlive hj htrue

theorem Still.markAttemptRunning (fx : Effects) (at_ : Timestamp)
    (hlive : ∀ a, fx.st.attempts.get? id = some a → a.attempt.state.isTerminal = false) :
    Still fx.st (fx.markAttemptRunning id at_).st := by
  unfold Effects.markAttemptRunning
  split
  · exact .refl _
  · simp only [Effects.modifyAllocation, Effects.attemptTransition_st, Effects.modifyAttempt,
      modify_modify]
    refine .of_rel (fun _ _ _ => rfl) (.of_modify .refl _ fun b hb => ?_) (.of_eq .refl rfl) rfl
    simp only [Function.comp]
    refine ⟨?_, ?_, ?_, ?_⟩
    · split_ifs <;> rfl
    · split_ifs <;> rfl
    · split_ifs <;> rfl
    · rw [hlive b hb]
      rfl

namespace StateMachine

section

variable (h : Consistent s) (hset : SettledRight s)

include h hset

/-- The attempts adopted, and then a part of the lost ones ended. -/
theorem reconciling_booked (c : ReconcileNode) (l post : List LostAttempt)
    (e : c.lost = l ++ post) :
    Booked s (.reconcileNode c) (l.foldl (loseOne c.observedAt)
      (s.adopting c)).st := by
  have hadopt : Still s (s.adopting c).st := by
    refine .foldl (fun fx id => ?_) c.adopted (start s)
    unfold adoptOne
    split
    · exact .refl _
    · rename_i a ha
      split_ifs with hst
      · refine .markAttemptRunning fx _ fun b hb => ?_
        rw [ha] at hb
        cases hb
        rw [hst]
        rfl
      · exact .refl _
  have hstart : Booked s (.reconcileNode c)
      (s.adopting c).st := .still hadopt
  refine hstart.trans (.foldl l _ fun pre x rest e' hpre => ?_)
  have hS := (Sound.foldl (loseOne_sound c.observedAt) pre _ (adoptAll_sound h c.observedAt
    c.adopted)).1
  have hmine : c.lost = pre ++ x :: (rest ++ post) := by rw [e, e']; simp
  have hright := (hstart.trans hpre).settled hset
  unfold loseOne
  split
  · exact .refl _
  · split_ifs
    · exact .refl _
    · exact (Ends.lose hmine).booked hS hright true

/-- The node taken out, and then a part of its attempts ended. -/
theorem losing_booked (c : DeclareNodeLost) {n : NodeRecord} (hn : s.nodes.get? c.node = some n)
    (l post : List (Nat × AttemptId)) (e : (s.losing c n).st.lostVictims c.node = l ++ post) :
    Booked s (.declareNodeLost c) (l.foldl (loseNodeAttempt c.declaredAt) (s.losing c n)).st := by
  obtain ⟨-, h1, hon⟩ := losing_spec h hn
  have hstart : Booked s (.declareNodeLost c) (s.losing c n).st := .still (.of_eq rfl rfl rfl rfl)
  refine hstart.trans (.foldl l _ fun pre v rest e' hpre => ?_)
  have hmine : (s.losing c n).st.lostVictims c.node = pre ++ v :: (rest ++ post) := by
    rw [e, e']
    simp
  obtain ⟨hS, -, -⟩ := loseNodeAttempts_sound c.declaredAt c.node pre (s.losing c n)
    (h1.sound {c.node} _) fun w hw => hon w (by rw [hmine]; simp [hw])
  exact (Ends.nodeLost hn hmine).booked hS ((hstart.trans hpre).settled hset) false

/-- A part of the revocations of a batch. -/
theorem revoking_booked (c : CommitPlacements) (l post : List AllocationId)
    (e : c.revocations = l ++ post) :
    Booked s (.commitPlacements c) (l.foldl (revokeOne c.proposedAt)
      ⟨s, [], some s.usedCapacityMemo⟩).st := by
  refine .foldl l ⟨s, [], some s.usedCapacityMemo⟩ fun pre id rest e' hpre => ?_
  obtain ⟨hS, -, -⟩ := (Consistent.batchStart h).revokeAll c.proposedAt pre
  have hmine : c.revocations = pre ++ id :: (rest ++ post) := by rw [e, e']; simp
  have hright := hpre.settled hset
  unfold revokeOne
  split
  · exact .refl _
  · rename_i r hr
    exact (Ends.revoke hmine hr).booked hS hright true

end

end StateMachine

/-- The seats of a batch, as long as every job placed declares a bound. -/
theorem SeatTrail.ledger (h : SeatTrail s revoked fx0 at_ fx ps cutoffs groups fx')
    (hP : ∀ pre p post j, ps = pre ++ p :: post →
      (seatAll at_ pre cutoffs groups fx).st.jobs.get? p.job = some j →
      j.spec.maxRuntime ≠ none ∧ P (seatAll at_ pre cutoffs groups fx).st
        j.spec.quotaEntity ((seatAll at_ pre cutoffs groups fx).st.priceOf j)) :
    LedgerRun P at_ fx.st fx'.st := by
  induction h with
  | nil => exact .refl _
  | @cons _ _ p _ j ps cutoff _ group _ _ _ hf _ _ ih =>
    obtain ⟨hbound, hprice⟩ := hP [] p ps j rfl hf.job
    refine (seatPlacement_ledger at_ cutoff group hf hbound hprice).trans
      (ih fun pre p' post j' e hj' => ?_)
    exact hP (p :: pre) p' post j' (by rw [e]; rfl) hj'

namespace StateMachine

theorem commitPlacements_booked (h : Consistent s) (hset : SettledRight s) {c : CommitPlacements}
    (hitems : (s.screen c).items = [])
    (hbound : ∀ fx j, Places s (.commitPlacements c) fx j → j.spec.maxRuntime ≠ none) :
    Booked s (.commitPlacements c) (s.committing c).st := by
  have hrevoke : Booked s (.commitPlacements c) (s.revokedEffects c).st :=
    revoking_booked h hset c c.revocations [] (List.append_nil _).symm
  have hok : BatchOk s c := batchOk_of_items (List.isEmpty_iff.mpr hitems)
  refine hrevoke.trans ((hok.trail h).ledger fun pre p post j e hj => ?_)
  exact ⟨hbound _ j (.seat e hj), .places (.seat e hj)⟩

theorem abortFlagged_still (job : JobId) (q : AbortRequest) : Still s (s.abortFlagged job q) := by
  refine .modifyJob job _ fun j => ?_
  unfold JobRecord.requestAbort
  split_ifs <;> rfl

end StateMachine

end Coppice.State
