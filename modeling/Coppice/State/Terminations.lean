/-
  Coppice.State.Terminations

  The termination records of attempts over whole runs.  A record is created by a
  batch that evicts its attempt or by an agent's notice, and is only acknowledged
  and brought forward after that.
-/

import Coppice.State.Tranches

namespace Coppice.State

open Lib Coppice.Core StateMachine List Option OrdMap Effects

/-! ## What a command does to a record -/

/-- The record keeps its reason and request; an acknowledgement stands, and its deadline
    only moves forward. -/
structure RecordKept (p p' : Preemption) : Prop where
  reason : p'.reason = p.reason
  requestedAt : p'.requestedAt = p.requestedAt
  acknowledged : ∀ ack, p.acknowledged = some ack → ∃ ack', p'.acknowledged = some ack' ∧
    ack'.notifiedAt = ack.notifiedAt ∧ ack'.deadline ≤ ack.deadline

theorem RecordKept.refl (p : Preemption) : RecordKept p p :=
  ⟨rfl, rfl, fun ack h => ⟨ack, h, rfl, le_refl _⟩⟩

theorem RecordKept.trans (h : RecordKept p q) (h' : RecordKept q r) : RecordKept p r := by
  refine ⟨h'.reason.trans h.reason, h'.requestedAt.trans h.requestedAt, fun ack hack => ?_⟩
  obtain ⟨ack', hack', hat, hle⟩ := h.acknowledged ack hack
  obtain ⟨ack'', hack'', hat', hle'⟩ := h'.acknowledged ack' hack'
  exact ⟨ack'', hack'', hat'.trans hat, hle'.trans hle⟩

/-- A notice keeps the record it finds, and makes one with its own reason otherwise. -/
theorem StateMachine.notifiedPreemption_keeps {prior : Option Preemption}
    {c : RecordAttemptNotified} {next : Preemption} (h : notifiedPreemption prior c = some next) :
    (∀ p, prior = some p → RecordKept p next) ∧ (prior = none → next.reason = c.reason) := by
  unfold notifiedPreemption at h
  cases prior with
  | none =>
    cases h
    exact ⟨fun _ h => (nomatch h), fun _ => rfl⟩
  | some p =>
    refine ⟨fun q hq => ?_, fun h => (nomatch h)⟩
    cases hq
    cases hack : p.acknowledged with
    | none =>
      simp only [hack] at h
      cases h
      exact ⟨rfl, rfl, fun ack h => by rw [hack] at h; cases h⟩
    | some ack =>
      simp only [hack] at h
      split_ifs at h with hlate
      cases h
      refine ⟨rfl, rfl, fun ack' h => ?_⟩
      rw [hack] at h
      cases h
      exact ⟨_, rfl, rfl, (not_le.mp hlate).le⟩

/-- The node of the attempt and its cutoff are the same. -/
structure AttemptRecord.SameSeat (a a' : AttemptRecord) : Prop where
  node : a'.attempt.node = a.attempt.node
  cutoff : a'.drainCutoff = a.drainCutoff

/-- How the termination record of an attempt came to be after a command. -/
inductive RecordFate (s : StateMachine) (id : AttemptId) (a' : AttemptRecord) : Command → Prop where
  | kept {c a} (found : s.attempts.get? id = some a) (record : a'.preemption = a.preemption)
      (seat : a.SameSeat a') : RecordFate s id a' c
  | fresh {c} (found : s.attempts.get? id = none) (record : a'.preemption = none) :
      RecordFate s id a' c
  | noted {n a next} (found : s.attempts.get? id = some a) (at_ : n.attempt = id)
      (next_ : StateMachine.notifiedPreemption a.preemption n = some next)
      (record : a'.preemption = some next) (seat : a.SameSeat a') :
      RecordFate s id a' (.recordAttemptNotified n)
  | evicted {c : CommitPlacements} {m r a} (found : s.attempts.get? id = some a)
      (batch : StateMachine.Commits s c) (mark : m ∈ marks c.placements (s.screen c).victims)
      (evicts : Evicts s m.1 m.2 r a) (attempt : r.allocation.attempt = id)
      (record : a'.preemption = some ⟨m.2.2, c.proposedAt, none⟩) (seat : a.SameSeat a')
      (node : a.attempt.node = r.allocation.node) : RecordFate s id a' (.commitPlacements c)

/-- The victim's attempt and its allocation point at each other. -/
theorem Evicts.tied (hC : Consistent s) (h : Evicts s p v r a) :
    Ties [] r.allocation.attempt a r := by
  obtain ⟨b, hb, -, ht⟩ := hC.linked.tied h.condemned.allocation
  cases hb.symm.trans h.condemned.attempt
  exact ht

/-- A record is an old one or a mark. -/
def Recorded (owner : AllocationId → AttemptId) (at_ : Timestamp) (l : List (Placement × Victim))
    (s s' : StateMachine) : Prop :=
  ∀ id a', s'.attempts.get? id = some a' →
    a'.preemption = (s.attempts.get? id).bind AttemptRecord.preemption ∨
      ∃ m ∈ l, owner m.2.1 = id ∧ a'.preemption = some ⟨m.2.2, at_, none⟩

/-- What the victims of a batch own. -/
def Owns (owner : AllocationId → AttemptId) (s : StateMachine) (l : List (Placement × Victim)) :
    Prop :=
  ∀ m ∈ l, ∃ r, s.allocations.get? m.2.1 = some r ∧ r.allocation.attempt = owner m.2.1

variable {owner : AllocationId → AttemptId}

theorem seatPlacement_recorded (at_ : Timestamp) (cutoff : Option Timestamp) (group : List Victim)
    (hf : Fresh fx p spec j) (hown : Owns owner fx.st (group.map fun v => (p, v))) :
    Recorded owner at_ (group.map fun v => (p, v)) fx.st
      (fx.seatPlacement at_ p cutoff group).st := by
  intro id a' ha'
  obtain ⟨fx1, heq, hatt, hall, -⟩ := seatPlacement_attempts fx at_ cutoff group hf.one hf.job
  rw [heq] at ha'
  rcases recordVictims_recorded group fx1 at_ spec.node ha' with hold | ⟨v, hv, r, hr, hid, hrec⟩
  · refine .inl ?_
    rw [hold, hatt, get?_insert]
    split_ifs with hid
    · rw [← hid, hf.attempt]
      exact (seatedBy_record fx at_ p spec j cutoff).1
    · rfl
  · obtain ⟨r0, hr0, hatt0⟩ := hown (p, v) (mem_map_of_mem hv)
    have hne : spec.id ≠ v.1 := fun e => by rw [← e, hf.allocation] at hr0; cases hr0
    rw [hall, get?_insert_of_ne _ _ hne, hr0] at hr
    cases hr
    exact .inr ⟨(p, v), mem_map_of_mem hv, hatt0.symm.trans hid, hrec⟩

theorem SeatTrail.recorded (h : SeatTrail s revoked fx0 at_ fx ps cutoffs groups fx')
    (hown : Owns owner fx.st (marks ps groups)) :
    Recorded owner at_ (marks ps groups) fx.st fx'.st := by
  induction h with
  | nil _ => exact fun _ _ ha' => .inl (by rw [ha']; rfl)
  | @cons fx fx' p spec j ps cutoff _ group groups hS hsc hf hj _ ih =>
    have hstays := (SeatTrail.cons hS hsc hf hj (.nil (hS.seat at_ cutoff group hf).1)).stays
    have hlater := ih fun m hm => by
      obtain ⟨r, hr, hatt⟩ := hown m (mem_append.mpr (.inr hm))
      exact ⟨r, hstays.2 hr, hatt⟩
    intro id a' ha'
    rcases hlater id a' ha' with hold | ⟨m, hm, hid, hrec⟩
    · cases hmid : (fx.seatPlacement at_ p cutoff group).st.attempts.get? id with
      | some a1 =>
        rw [hmid] at hold
        rcases seatPlacement_recorded at_ cutoff group hf
          (fun m hm => hown m (mem_append.mpr (.inl hm))) id a1 hmid with
          hold' | ⟨m, hm, hid, hrec⟩
        · exact .inl (hold.trans hold')
        · exact .inr ⟨m, mem_append.mpr (.inl hm), hid, hold.trans hrec⟩
      | none =>
        -- an attempt that is not there now was not there before
        refine .inl ?_
        rw [hold, hmid]
        cases hfx : fx.st.attempts.get? id with
        | none => rfl
        | some a =>
          obtain ⟨b, hb, -⟩ := hstays.1 hfx
          rw [hmid] at hb
          cases hb
    · exact .inr ⟨m, mem_append.mpr (.inr hm), hid, hrec⟩

namespace StateMachine

variable {s : StateMachine} {id : AttemptId} {a' : AttemptRecord}

/-- A batch makes the records of its victims. -/
theorem commitPlacements_fate (hC : Consistent s) (hb : Commits s c)
    (ha' : (s.commitPlacements c).1.attempts.get? id = some a') :
    RecordFate s id a' (.commitPlacements c) := by
  obtain ⟨hevicts, -⟩ := hb.evicts
  have hrevoke : Moved s (s.revokedEffects c).st := (revocations_progressed s c).moved
  -- the attempt that holds an allocation before the batch
  let owner := fun al => ((s.allocations.get? al).map fun r => r.allocation.attempt).getD 0
  have hown : Owns owner (s.revokedEffects c).st
      (marks c.placements (s.screen c).victims) := by
    intro m hm
    obtain ⟨r, a, he⟩ := hevicts m hm
    obtain ⟨r', hr', hmove⟩ := hrevoke.allocations.some he.condemned.allocation
    refine ⟨r', hr', ?_⟩
    simp only [owner, he.condemned.allocation, map_some, getD_some]
    rw [hmove]
  have htrail := hb.ok.trail hC
  rw [hb.state] at ha'
  -- an attempt of the state before, with what it is after
  have hsame {a} (ha : s.attempts.get? id = some a) : a.SameSeat a' := by
    obtain ⟨b, hb', hmove⟩ := hrevoke.attempts.some ha
    obtain ⟨b', hb'', hmark⟩ := htrail.stays.1 hb'
    have hsame : some a' = some b' := ha'.symm.trans hb''
    cases hsame
    exact ⟨by rw [hmark, hmove], by rw [hmark, hmove]⟩
  rcases htrail.recorded hown id a' ha' with hold | ⟨m, hm, hid, hrec⟩
  · cases ha : s.attempts.get? id with
    | some a =>
      obtain ⟨b, hb', hmove⟩ := hrevoke.attempts.some ha
      rw [hb'] at hold
      exact .kept ha (by rw [hold]; show b.preemption = _; rw [hmove]) (hsame ha)
    | none =>
      rw [hrevoke.attempts.none_iff.mpr ha] at hold
      exact .fresh ha hold
  · obtain ⟨r, a, he⟩ := hevicts m hm
    simp only [owner, he.condemned.allocation, map_some, getD_some] at hid
    have ha := he.condemned.attempt
    rw [hid] at ha
    exact .evicted ha hb hm he hid hrec (hsame ha) (he.tied hC).node.symm

/-- How each record came to be. -/
theorem apply_fate (hC : Consistent s) {c : Command}
    (ha' : (s.apply c).1.attempts.get? id = some a') : RecordFate s id a' c := by
  by_cases hc : c.rewrites = true
  · cases c with
    | commitPlacements c =>
      have hcommit : (s.commitPlacements c).1.attempts.get? id = some a' := ha'
      cases hres : (s.commitPlacements c).2 with
      | error r =>
        rw [commitPlacements_refused hres] at hcommit
        exact .kept hcommit rfl ⟨rfl, rfl⟩
      | ok x => exact commitPlacements_fate hC (commitPlacements_commits hres) hcommit
    | recordAttemptNotified n =>
      have hnote : (s.recordAttemptNotified n).1.attempts.get? id = some a' := ha'
      obtain ⟨a, -, hmark⟩ := (s.recordAttemptNotified_marked n).back hnote
      unfold recordAttemptNotified at hnote
      cases hn : s.attempts.get? n.attempt with
      | none =>
        simp only [hn] at hnote
        exact .kept hnote rfl ⟨rfl, rfl⟩
      | some b =>
        simp only [hn] at hnote
        split_ifs at hnote
        · exact .kept hnote rfl ⟨rfl, rfl⟩
        · cases hnext : notifiedPreemption b.preemption n with
          | none =>
            simp only [hnext] at hnote
            exact .kept hnote rfl ⟨rfl, rfl⟩
          | some next =>
            simp only [hnext, finish, emit, modifyAttempt, start, get?_modify] at hnote
            split_ifs at hnote with hid
            · rw [← hid, hn] at hnote
              cases hnote
              exact .noted (hid ▸ hn) hid hnext rfl ⟨rfl, rfl⟩
            · exact .kept hnote rfl ⟨rfl, rfl⟩
    | renewIntervalCharges c =>
      have hrenew : (s.renewIntervalCharges c).1.attempts.get? id = some a' := ha'
      unfold renewIntervalCharges at hrenew
      simp only at hrenew
      split_ifs at hrenew
      · exact .kept hrenew rfl ⟨rfl, rfl⟩
      · obtain ⟨a, ha, hcharge⟩ := (renewAll_recharged c.proposedAt c.renewals s).back hrenew
        exact .kept ha (by rw [hcharge]) ⟨by rw [hcharge], by rw [hcharge]⟩
    | _ c => cases hc
  · obtain ⟨a, ha, hmove⟩ := ((s.dispatch_step _).carried (by simpa using hc)).attempts ha'
    exact .kept ha (by rw [hmove]) ⟨by rw [hmove], by rw [hmove]⟩

end StateMachine

/-! ## Guards -/

/-- An attempt on `node` is being terminated to make room for `job`. -/
def Outstanding (s : StateMachine) (node : NodeId) (job : JobId) : Prop :=
  ∃ id a p, s.attempts.get? id = some a ∧ a.preemption = some p ∧
    PreemptReason.forJob p.reason = some job ∧ a.attempt.state.isTerminal = false ∧
    a.attempt.node = node

/-- Each node has one beneficiary and each beneficiary one node. -/
def Paired (s : StateMachine) : Prop :=
  ∀ n j n' j', Outstanding s n j → Outstanding s n' j' → (n = n' ↔ j = j')

/-- The scan finds every outstanding termination. -/
theorem Outstanding.guarded (h : Outstanding s node job) : node ∈ s.preemptionLedger.guarded ∧
      job ∈ s.preemptionLedger.beneficiaries := by
  obtain ⟨id, a, p, ha, hp, hj, hlive, rfl⟩ := h
  have hmem : a ∈ s.attempts.values := mem_values.mpr ⟨id, ha⟩
  unfold preemptionLedger
  -- what is in the ledger stays, and the attempt puts both in
  generalize hf : (fun (ledger : PreemptionLedger) (record : AttemptRecord) => _) = f
  have hkeeps ledger record : (∀ n ∈ ledger.guarded, n ∈ (f ledger record).guarded) ∧ ∀ j ∈
      ledger.beneficiaries, j ∈ (f ledger record).beneficiaries := by
    rw [← hf]
    simp only
    repeat' split
    all_goals exact ⟨fun n hn => by simp [hn], fun j hj => by simp [hj]⟩
  have hputs ledger : a.attempt.node ∈ (f ledger a).guarded ∧ job ∈ (f ledger a).beneficiaries := by
    rw [← hf]
    simp only [hp, hj, hlive]
    exact ⟨mem_cons_self, mem_cons_self⟩
  obtain ⟨before, after, hsplit⟩ := append_of_mem hmem
  rw [hsplit, foldl_append, foldl_cons]
  exact foldlRecOn (motive := fun ledger => a.attempt.node ∈ ledger.guarded ∧
      job ∈ ledger.beneficiaries) after f (hputs _) fun ledger h record _ =>
    ⟨(hkeeps ledger record).1 _ h.1, (hkeeps ledger record).2 _ h.2⟩

/-- A notice with one of the scheduler's reasons is for an attempt with a record. -/
def HonestNotice (s : StateMachine) (c : Command) : Prop :=
  ∀ n, c = .recordAttemptNotified n → PreemptReason.forJob n.reason ≠ none →
    ∃ a, s.attempts.get? n.attempt = some a ∧ a.preemption ≠ none

namespace Reachable

variable {s : StateMachine} {c : Command} {j : JobId} {id : AttemptId} {a' : AttemptRecord}

/-- What is live after a command was live before it. -/
theorem live_of_live (h : Reachable s) {a : AttemptRecord} (ha : s.attempts.get? id = some a)
    (ha' : (s.apply c).1.attempts.get? id = some a') (hlive : a'.attempt.state.isTerminal = false) :
    a.attempt.state.isTerminal = false := by
  obtain ⟨states, hlife⟩ := h.attemptLife ha ha'
  cases hst : a.attempt.state with
  | terminal o =>
    rw [(hlife.terminal hst).2] at hlive
    cases hlive
  | _ => rfl

/-- An outstanding termination was there before, or the batch asked for it. -/
theorem outstanding (h : Reachable s) (hc : HonestNotice s c) {n : NodeId}
    (ho : Outstanding (s.apply c).1 n j) : Outstanding s n j ∨
      ∃ b m r a, c = .commitPlacements b ∧ StateMachine.Commits s b ∧
        m ∈ marks b.placements (s.screenBatch b).2.victims ∧ Evicts s m.1 m.2 r a ∧
        n = r.allocation.node ∧ j = m.1.job := by
  obtain ⟨id, a', p, ha', hp, hj, hlive, rfl⟩ := ho
  cases apply_fate h.consistent ha' with
  | kept ha hrec hseat =>
    exact .inl ⟨id, _, p, ha, hrec.symm.trans hp, hj, h.live_of_live ha ha' hlive, hseat.node.symm⟩
  | fresh _ hrec =>
    rw [hrec] at hp
    cases hp
  | @noted note a next ha hid hnext hrec hseat =>
    rw [hrec] at hp
    cases hp
    obtain ⟨hkeeps, hmakes⟩ := notifiedPreemption_keeps hnext
    cases hprior : a.preemption with
    | some q =>
      refine .inl ⟨id, a, q, ha, hprior, ?_, h.live_of_live ha ha' hlive, hseat.node.symm⟩
      rw [← (hkeeps q hprior).reason]
      exact hj
    | none =>
      rw [hmakes hprior] at hj
      obtain ⟨b, hb, hne⟩ := hc note rfl (by rw [hj]; exact some_ne_none j)
      rw [hid, ha] at hb
      cases hb
      exact absurd hprior hne
  | @evicted b m r a ha hb hm he hid hrec hseat hnode =>
    rw [hrec] at hp
    cases hp
    refine .inr ⟨b, m, r, a, rfl, hb, hm, he, hseat.node.trans hnode, ?_⟩
    have hfor : PreemptReason.forJob m.2.2 = some m.1.job := by
      rcases he.condemned.reason with e | e <;> rw [e] <;> rfl
    exact Option.some.inj (hj.symm.trans hfor)

/-- The pairing is kept. -/
theorem paired_apply (h : Reachable s) (hpaired : Paired s) (hc : HonestNotice s c) :
    Paired (s.apply c).1 := by
  -- a new termination is on a node and for a job that had none
  have hnew : ∀ {n j n' j'}, Outstanding s n j →
      (∃ b m r a, c = .commitPlacements b ∧ StateMachine.Commits s b ∧
        m ∈ marks b.placements (s.screenBatch b).2.victims ∧ Evicts s m.1 m.2 r a ∧
        n' = r.allocation.node ∧ j' = m.1.job) → n ≠ n' ∧ j ≠ j' := by
    rintro n j n' j' hold ⟨b, m, r, a, -, -, -, he, rfl, rfl⟩
    exact ⟨fun e => he.unguarded (e ▸ hold.guarded.1), fun e => he.undue (e ▸ hold.guarded.2)⟩
  intro n j n' j' ho ho'
  rcases h.outstanding hc ho with hold | hmark <;> rcases h.outstanding hc ho' with hold' | hmark'
  · exact hpaired n j n' j' hold hold'
  · exact ⟨fun e => absurd e (hnew hold hmark').1, fun e => absurd e (hnew hold hmark').2⟩
  · exact ⟨fun e => absurd e.symm (hnew hold' hmark).1, fun e => absurd e.symm (hnew hold' hmark).2⟩
  · obtain ⟨b, m, r, a, rfl, hb, hm, he, rfl, rfl⟩ := hmark
    obtain ⟨b', m', r', a', hc', -, hm', he', rfl, rfl⟩ := hmark'
    cases hc'
    exact hb.evicts.2 m hm m' hm' r a r' a' he he'

/-- A record for a higher class is of an attempt of a lower one. -/
theorem outranked (h : Reachable s) (hc : HonestNotice s c) {p : Preemption}
    (ha' : (s.apply c).1.attempts.get? id = some a') (hp : a'.preemption = some p)
    (hreason : p.reason = .priority j)
    (hfresh : (s.attempts.get? id).bind AttemptRecord.preemption = none) :
    ∃ a victim job, s.attempts.get? id = some a ∧ s.jobs.get? a.attempt.job = some victim ∧
      s.jobs.get? j = some job ∧ victim.spec.priority < job.spec.priority := by
  cases apply_fate h.consistent ha' with
  | kept ha hrec _ =>
    rw [ha] at hfresh
    have hnone := hrec.symm.trans hp
    exact absurd (hnone.symm.trans hfresh) (some_ne_none p)
  | fresh _ hrec =>
    rw [hrec] at hp
    cases hp
  | @noted note a next ha hid hnext hrec _ =>
    rw [ha] at hfresh
    rw [hrec] at hp
    cases hp
    rw [(notifiedPreemption_keeps hnext).2 hfresh] at hreason
    obtain ⟨b, hb, hne⟩ := hc note rfl (by rw [hreason]; exact some_ne_none j)
    rw [hid, ha] at hb
    cases hb
    exact absurd hfresh hne
  | @evicted b m r a ha hb hm he hid hrec _ _ =>
    rw [hrec] at hp
    cases hp
    have hj : m.1.job = j := by
      rcases he.condemned.reason with e | e <;> rw [e] at hreason <;> cases hreason
      rfl
    obtain ⟨victim, job, hvictim, hjob, hlt⟩ := he.condemned.outranked (by rw [hj]; exact hreason)
    exact ⟨a, victim, job, ha, by rw [← (he.tied h.consistent).job]; exact hvictim,
      by rw [← hj]; exact hjob, hlt⟩

end Reachable

/-! ## Whole runs -/

/-- A record stands for as long as its attempt does. -/
theorem AttemptStays.recordKept {s s' : StateMachine} {id : AttemptId} {a a' : AttemptRecord}
    {p : Preemption} (h : Reachable s) (hrun : AttemptStays id s s')
    (ha : s.attempts.get? id = some a) (hp : a.preemption = some p)
    (ha' : s'.attempts.get? id = some a') : ∃ p', a'.preemption = some p' ∧ RecordKept p p' := by
  refine hrun.keeps (P := fun x => ∃ q, x.preemption = some q ∧ RecordKept p q) h ha
    ⟨p, hp, .refl p⟩ ?_ ha'
  rintro t c x y ht hx ⟨q, hq, hkept⟩ hy
  cases apply_fate ht.consistent hy with
  | kept hx' hrec _ =>
    rw [hx] at hx'
    cases hx'
    exact ⟨q, hrec.trans hq, hkept⟩
  | fresh hnone _ =>
    rw [hx] at hnone
    cases hnone
  | @noted note x' next hx' _ hnext hrec _ =>
    rw [hx] at hx'
    cases hx'
    exact ⟨next, hrec, hkept.trans ((notifiedPreemption_keeps hnext).1 q hq)⟩
  | @evicted b m r x' hx' _ _ he hid _ _ _ =>
    rw [hx] at hx'
    cases hx'
    rw [he.condemned.unmarked] at hq
    cases hq

/-- A run whose agents report the scheduler's reasons only for attempts with a record. -/
def HonestRun (s : StateMachine) : Prop :=
  Reach StateMachine.default (fun s c => (s.apply c).1) HonestNotice s

theorem HonestRun.paired (h : HonestRun s) : Paired s := by
  have hboth := Reach.invariant (fun s => Reachable s ∧ Paired s)
    ⟨show Reachable default from .init, fun _ _ _ _ ho => by
      obtain ⟨_, _, _, ha, -⟩ := ho
      cases ha⟩
    (fun _ c hs hc => ⟨hs.1.apply c, hs.1.paired_apply hs.2 hc⟩) h
  exact hboth.2

/-- Termination records stand; and in runs with honest notices those of the scheduler
    pair each node with one beneficiary, and are made in the order of the classes. -/
theorem termination_records {s : StateMachine} (h : Reachable s) :
    (∀ {id a p s' a'}, s.attempts.get? id = some a → a.preemption = some p →
      AttemptStays id s s' → s'.attempts.get? id = some a' →
        ∃ p', a'.preemption = some p' ∧ RecordKept p p') ∧
      (HonestRun s → Paired s ∧
        ∀ {c id a' p j}, HonestNotice s c → (s.apply c).1.attempts.get? id = some a' →
          a'.preemption = some p → p.reason = .priority j →
          (s.attempts.get? id).bind AttemptRecord.preemption = none →
            ∃ a victim job, s.attempts.get? id = some a ∧
              s.jobs.get? a.attempt.job = some victim ∧ s.jobs.get? j = some job ∧
              victim.spec.priority < job.spec.priority) :=
  ⟨fun ha hp hrun ha' => hrun.recordKept h ha hp ha',
    fun hrun => ⟨hrun.paired, fun hc ha' hp hreason hfresh => h.outranked hc ha' hp hreason hfresh⟩⟩

/-- A job of a higher class evicts one of a lower class. -/
def Sample.evicting : List Command :=
  [configure, register 10, submitJob { job 1 (cpu 8) with preemption := ⟨true, none, .sigusr1⟩ },
    submitJob { job 2 (cpu 8) with priority := 1 }, commit [] [place 1 8], send 1, start 1,
    commit [] [⟨2, 2, 2, [⟨2, 1, cpu 8⟩], [⟨1, .priority⟩]⟩]]

open Sample

/-- Attempt 1 is terminated for job 2, and stays so. -/
theorem termination_records_evicting :
    ((run evicting).attempts.get? 1).bind AttemptRecord.preemption =
        some ⟨.priority 2, epoch, none⟩ ∧ Paired (run evicting) ∧
      ∀ s' a', AttemptStays 1 (run evicting) s' → s'.attempts.get? 1 = some a' →
        ∃ p', a'.preemption = some p' ∧ p'.reason = .priority 2 := by
  have hrec : ((run evicting).attempts.get? 1).bind AttemptRecord.preemption =
      some ⟨.priority 2, epoch, none⟩ := by decide +kernel
  have hreach : Reachable (run evicting) := reachable_run _
  have hhonest : HonestRun (run evicting) :=
    Reach.foldl evicting _ .init fun s c hc n hn => by
      subst hn
      simp [evicting, configure, register, commit, Sample.submitJob, send, Sample.start] at hc
  obtain ⟨hkept, hpaired⟩ := termination_records hreach
  refine ⟨hrec, (hpaired hhonest).1, fun s' a' hrun ha' => ?_⟩
  obtain ⟨a, ha, hp⟩ := bind_eq_some_iff.mp hrec
  obtain ⟨p', hp', hk⟩ := hkept ha hp hrun ha'
  exact ⟨p', hp', hk.reason⟩

end Coppice.State
