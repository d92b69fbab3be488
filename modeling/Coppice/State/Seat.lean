/-
  Coppice.State.Seat

  Seating one placement: a fresh attempt with a fresh allocation, funded at
  once with what is free on its node.
-/

import Coppice.State.Evict

namespace Coppice.State

open Lib Coppice.Core StateMachine OrdMap Effects List

/-! ## A fresh attempt -/

variable {id : AttemptId} {a : AttemptRecord} {j : JobRecord} {p : Placement}
  {spec : AllocationSpec}

/-- A new attempt and a new allocation that point at each other. -/
theorem Linked.insert {s s' : StateMachine} (h : Linked s []) {al : AllocationId}
    {r : AllocationRecord} (ha : s.attempts.get? id = none) (hr : s.allocations.get? al = none)
    (hid : a.attempt.id = id) (hal : r.allocation.id = al) (hgroup : a.group = a.attempt.job)
    (hallocation : a.attempt.allocation = al) (ht : Ties [] id a r) (hfr : FundedRight r)
    (hrseq : r.seq = s.nextAllocationSeq) (hnode : ∃ n, s.nodes.get? r.allocation.node = some n)
    (hfree : ∀ {i b}, s.attempts.get? i = some b → b.attempt.state.isTerminal = false →
      b.attempt.job ≠ a.attempt.job) (hatt : s'.attempts = s.attempts.insert id a)
    (hall : s'.allocations = s.allocations.insert al r)
    (hq : s'.accrualQueue = if r.allocation.state = .accruing then
      s.accrualQueue.insert (toLex (r.allocation.node, r.seq)) al else s.accrualQueue)
    (hseq : s'.nextAllocationSeq = s.nextAllocationSeq + 1) (hn : s'.nodes = s.nodes) :
    Linked s' [] := by
  have hatt' j : s'.attempts.get? j = if id = j then some a else s.attempts.get? j :=
    hatt ▸ get?_insert ..
  have hall' j : s'.allocations.get? j = if al = j then some r else s.allocations.get? j :=
    hall ▸ get?_insert ..
  have getAtt {j b} (hb : s'.attempts.get? j = some b) := updated_cases hatt' hb
  have getAll {k q} (hk : s'.allocations.get? k = some q) := updated_cases hall' hk
  have keepAll : ∀ {k q}, s.allocations.get? k = some q → s'.allocations.get? k = some q :=
    fun hk => hall ▸ get?_insert_fresh hr hk
  have keepAtt : ∀ {k b}, s.attempts.get? k = some b → s'.attempts.get? k = some b :=
    fun hk => hatt ▸ get?_insert_fresh ha hk
  have newAll : s'.allocations.get? al = some r := by rw [hall, get?_insert_self]
  have newAtt : s'.attempts.get? id = some a := by rw [hatt, get?_insert_self]
  refine ⟨forall_updated hatt' hid h.attempt_id, forall_updated hall' hal h.allocation_id,
    forall_updated hatt' hgroup h.group_eq,
    forall_updated hatt' ⟨r, hallocation ▸ newAll, ht⟩ fun hb =>
      (h.allocation_of hb).imp fun _ => And.imp_left keepAll,
    forall_updated hall' ⟨a, ht.attempt ▸ newAtt, hallocation⟩ fun hk =>
      (h.attempt_of hk).imp fun _ => And.imp_left keepAtt, ?_, forall_updated hall' hfr h.funding,
    ?_, hseq ▸ forall_updated hall' (hrseq ▸ Nat.lt_succ_self _) fun hk => (h.seq_lt hk).trans
      (Nat.lt_succ_self _), ?_,
    hn ▸ forall_updated hall' (fun _ => hnode) h.node_of⟩
  · intro i j b c hb hc hlb hlc hjob
    rcases getAtt hb with ⟨rfl, rfl⟩ | ⟨-, hb⟩ <;> rcases getAtt hc with ⟨rfl, rfl⟩ | ⟨-, hc⟩
    · rfl
    · exact absurd hjob.symm (hfree hc hlc)
    · exact absurd hjob (hfree hb hlb)
    · exact h.one_live hb hc hlb hlc hjob
  · intro node seq k
    -- the new key carries the next sequence number, which no old entry has
    have hnokey : ∀ {q}, s.allocations.get? k = some q → q.seq ≠ s.nextAllocationSeq :=
      fun hk => Nat.ne_of_lt (h.seq_lt hk)
    rw [hq]
    by_cases hacc : r.allocation.state = .accruing
    · rw [if_pos hacc, get?_insert]
      by_cases hkey : toLex (r.allocation.node, r.seq) = toLex (node, seq)
      · rw [if_pos hkey]
        have he := Prod.mk.inj (toLex.injective hkey)
        constructor
        · intro e
          cases e
          exact ⟨r, newAll, hacc, he.1, he.2⟩
        · rintro ⟨q, hk, -, -, hqs⟩
          rcases getAll hk with ⟨rfl, -⟩ | ⟨-, hk⟩
          · rfl
          · exact absurd (hqs.trans (he.2.symm.trans hrseq)) (hnokey hk)
      · rw [if_neg hkey, h.queue]
        constructor
        · rintro ⟨q, hk, hrest⟩
          exact ⟨q, keepAll hk, hrest⟩
        · rintro ⟨q, hk, hqa, hqn, hqs⟩
          rcases getAll hk with ⟨rfl, rfl⟩ | ⟨-, hk⟩
          · exact absurd (by rw [hqn, hqs]) hkey
          · exact ⟨q, hk, hqa, hqn, hqs⟩
    · rw [if_neg hacc, h.queue]
      constructor
      · rintro ⟨q, hk, hrest⟩
        exact ⟨q, keepAll hk, hrest⟩
      · rintro ⟨q, hk, hqa, hrest⟩
        rcases getAll hk with ⟨rfl, rfl⟩ | ⟨-, hk⟩
        · exact absurd hqa hacc
        · exact ⟨q, hk, hqa, hrest⟩
  · intro k k' q q' hk hk' hs
    rcases getAll hk with ⟨rfl, rfl⟩ | ⟨-, hk⟩ <;> rcases getAll hk' with ⟨rfl, rfl⟩ | ⟨-, hk'⟩
    · rfl
    · have := h.seq_lt hk'
      omega
    · have := h.seq_lt hk
      omega
    · exact h.seq_inj hk hk' hs

/-- A job that was not attempting starts a fresh attempt. -/
theorem JobLinked.seat {s' : StateMachine} (h : JobLinked s) {job : JobId}
    (f : JobRecord → JobRecord) (hj : s.jobs.get? job = some j)
    (hidle : ∀ x, j.state ≠ .attempting x) (ha : s.attempts.get? id = none)
    (hjob : a.attempt.job = job) (hlive : a.attempt.state.isTerminal = false)
    (hstate : (f j).state = .attempting id) (hlin : (f j).attempts = j.attempts ++ [id])
    (hjobs : s'.jobs = s.jobs.insert job (f j)) (hatt : s'.attempts = s.attempts.insert id a) :
    JobLinked s' := by
  have getAtt {i b} (hb : s'.attempts.get? i = some b) :=
    updated_cases (fun _ => hatt ▸ get?_insert ..) hb
  have keepAtt : ∀ {k b}, s.attempts.get? k = some b → s'.attempts.get? k = some b :=
    fun hk => hatt ▸ get?_insert_fresh ha hk
  have newAtt : s'.attempts.get? id = some a := by rw [hatt, get?_insert_self]
  have newJob : s'.jobs.get? job = some (f j) := by rw [hjobs, get?_insert_self]
  have keepJob {k} (hk : k ≠ job) : s'.jobs.get? k = s.jobs.get? k := by
    rw [hjobs, get?_insert_of_ne _ _ (Ne.symm hk)]
  refine ⟨?_, ?_, ?_, ?_⟩
  · intro k rec x hk hst
    by_cases hkj : k = job
    · subst hkj
      rw [newJob] at hk
      cases hk
      rw [hstate] at hst
      cases hst
      exact ⟨a, newAtt, hjob, hlive⟩
    · rw [keepJob hkj] at hk
      obtain ⟨b, hb, hbj, hbl⟩ := h.attempting hk hst
      exact ⟨b, keepAtt hb, hbj, hbl⟩
  · intro i b hb hbl
    rcases getAtt hb with ⟨rfl, rfl⟩ | ⟨-, hb⟩
    · exact ⟨f j, by rw [hjob]; exact newJob, hstate, by rw [hlin]; simp⟩
    · obtain ⟨rec, hrec, hst, hlast⟩ := h.current hb hbl
      have hne : b.attempt.job ≠ job := by
        intro e
        rw [e, hj] at hrec
        cases hrec
        exact hidle i hst
      exact ⟨rec, by rw [keepJob hne, hrec], hst, hlast⟩
  · intro i b hb
    rcases getAtt hb with ⟨rfl, rfl⟩ | ⟨-, hb⟩
    · exact ⟨f j, by rw [hjob]; exact newJob, by rw [hlin]; simp⟩
    · obtain ⟨rec, hrec, hmem⟩ := h.lineage hb
      by_cases hbj : b.attempt.job = job
      · rw [hbj, hj] at hrec
        cases hrec
        exact ⟨f j, by rw [hbj]; exact newJob, by rw [hlin]; simp [hmem]⟩
      · exact ⟨rec, by rw [keepJob hbj, hrec], hmem⟩
  · intro k rec i hk hi
    by_cases hkj : k = job
    · subst hkj
      rw [newJob] at hk
      cases hk
      rw [hlin, mem_append, mem_singleton] at hi
      rcases hi with hi | rfl
      · obtain ⟨b, hb, hbj⟩ := h.lineage_job hj hi
        exact ⟨b, keepAtt hb, hbj⟩
      · exact ⟨a, newAtt, hjob⟩
    · rw [keepJob hkj] at hk
      obtain ⟨b, hb, hbj⟩ := h.lineage_job hk hi
      exact ⟨b, keepAtt hb, hbj⟩

/-! ## Seating -/

/-- Recording the termination of a victim annotates one attempt. -/
theorem recordVictim_quiet (fx : Effects) (at_ : Timestamp) (node : NodeId) (v : Victim) :
    Quiet fx.st (fx.recordVictim at_ node v).st ∧ (fx.recordVictim at_ node v).used = fx.used ∧
      (fx.recordVictim at_ node v).st.nodes = fx.st.nodes ∧
      (fx.recordVictim at_ node v).st.jobs = fx.st.jobs := by
  unfold recordVictim
  split
  · exact ⟨.refl _, rfl, rfl, rfl⟩
  · exact ⟨.modifyAttempt fx.st _ _ fun _ => ⟨rfl, rfl, rfl, rfl, rfl⟩, rfl, rfl, rfl⟩

theorem recordVictims_quiet (group : List Victim) (fx : Effects) (at_ : Timestamp) (node : NodeId) :
    Quiet fx.st (group.foldl (fun fx v => fx.recordVictim at_ node v) fx).st ∧
      (group.foldl (fun fx v => fx.recordVictim at_ node v) fx).used = fx.used ∧
      (group.foldl (fun fx v => fx.recordVictim at_ node v) fx).st.nodes = fx.st.nodes ∧
      (group.foldl (fun fx v => fx.recordVictim at_ node v) fx).st.jobs = fx.st.jobs := by
  induction group generalizing fx with
  | nil => exact ⟨.refl _, rfl, rfl, rfl⟩
  | cons v rest ih =>
    obtain ⟨hq, hu, hn, hj⟩ := recordVictim_quiet fx at_ node v
    obtain ⟨hq', hu', hn', hj'⟩ := ih (fx.recordVictim at_ node v)
    exact ⟨hq.trans hq', hu'.trans hu, hn'.trans hn, hj'.trans hj⟩

theorem Sound.quiet {fx' : Effects} (h : Sound skip fx) (hq : Quiet fx.st fx'.st)
    (hu : fx'.used = fx.used) : Sound skip fx' := by
  refine ⟨⟨?_, (HoldsBounded.of_eq hq.allocations).holdsFit h.books.fit, ?_⟩, ?_, ?_⟩
  · refine h.books.linked.annotate hq.same_attempts hq.allocations hq.accrualQueue
      hq.nextAllocationSeq ?_
    intro n x hx
    obtain ⟨y, hy, -⟩ := hq.nodes.some hx
    exact ⟨y, hy⟩
  · intro memo hm n d
    rw [hu] at hm
    rw [h.books.memo memo hm, heldOn_congr hq.allocations]
  · exact h.jobs.annotate hq.jobs (hq.attempts.mono fun h => by rw [h.attempt]; exact ⟨rfl, rfl⟩)
  · exact fun n hn => ConservedOn.congr (h.conserved n hn) hq.allocations (hq.capacityOf n)

/-- The fresh records of a placement, before the job and the quotas are updated. -/
structure Fresh (fx : Effects) (p : Placement) (spec : AllocationSpec) (j : JobRecord) : Prop where
  one : p.allocations = [spec]
  group : p.group = p.job
  job : fx.st.jobs.get? p.job = some j
  idle : ∀ x, j.state ≠ .attempting x
  attempt : fx.st.attempts.get? p.attempt = none
  allocation : fx.st.allocations.get? spec.id = none
  node : ∃ n, fx.st.nodes.get? spec.node = some n

/-- What a seat does to the state. -/
structure Seats (fx fx' : Effects) (p : Placement) (spec : AllocationSpec) : Prop where
  nodes : fx'.st.nodes = fx.st.nodes
  jobs : ∀ j, j ≠ p.job → fx'.st.jobs.get? j = fx.st.jobs.get? j
  attempts : ∀ id, id ≠ p.attempt → (fx'.st.attempts.get? id = none ↔ fx.st.attempts.get? id = none)
  allocations : fx'.st.allocations = fx.st.allocations.insert spec.id (fx.seatedAllocation p spec)

/-- The attempt has neither started nor ended. -/
structure AttemptRecord.Unstamped (a : AttemptRecord) : Prop where
  started : a.startedAt = none
  ended : a.endedAt = none
  settled : a.settlement = none

theorem seatedAttempt_attempt (s : StateMachine) (at_ : Timestamp) (p : Placement)
    (spec : AllocationSpec) (j : JobRecord) (cutoff : Option Timestamp) (state : AttemptState) :
    (seatedAttempt s at_ p spec j cutoff state).attempt =
        ⟨p.attempt, p.job, spec.id, spec.node, state⟩ ∧
      (seatedAttempt s at_ p spec j cutoff state).group = p.group ∧
      (seatedAttempt s at_ p spec j cutoff state).Unstamped := by
  generalize pricing s.policy j (s.effectivePreemptible j.spec) = price
  obtain ⟨_, _, _, _⟩ := price
  exact ⟨rfl, rfl, rfl, rfl, rfl⟩

/-- The job starts its attempt and its ancestors are charged. -/
theorem startAttempt_st (fx : Effects) {job : JobId} (id : AttemptId) (entity : QuotaEntityId)
    (amount : CostUnits) (at_ : Timestamp) (hj : fx.st.jobs.get? job = some j) :
    ∃ q, (((fx.modifyJob job fun j => { j with attempts := j.attempts ++ [id] }).jobTransition job
        (.attempting id)).st.chargeAncestors entity amount at_) =
      { fx.st with
        quotaEntities := q
        jobs := fx.st.jobs.insert job
          { j with attempts := j.attempts ++ [id], state := .attempting id } } := by
  obtain ⟨q, hq⟩ := chargeAncestors_st
    ((fx.modifyJob job fun j => { j with attempts := j.attempts ++ [id] }).jobTransition job
      (.attempting id)).st entity amount at_
  refine ⟨q, ?_⟩
  rw [hq, jobTransition_st]
  simp only [modifyJob, modify_modify]
  rw [modify_of_some _ hj]
  rfl

/-- What a seat reports of its attempt and its allocation. -/
def seatEvents (fx : Effects) (p : Placement) (spec : AllocationSpec) : List Event :=
  if (fx.seatedAllocation p spec).allocation.funded = spec.requested then
    [.attemptStateChanged p.attempt p.job spec.node .ready,
      .allocationFunded spec.id p.job spec.node]
  else [.attemptStateChanged p.attempt p.job spec.node .accruing]

/-- The attempt that a placement seats. -/
def seatedBy (fx : Effects) (at_ : Timestamp) (p : Placement) (spec : AllocationSpec)
    (j : JobRecord) (cutoff : Option Timestamp) : AttemptRecord :=
  Effects.seatedAttempt fx.st at_ p spec j cutoff
    (if (fx.seatedAllocation p spec).allocation.funded = spec.requested then .ready else .accruing)

/-- The seat with the victims still unmarked. -/
theorem seatPlacement_eq (fx : Effects) (at_ : Timestamp) (cutoff : Option Timestamp)
    (group : List Victim) (hspec : p.allocations = [spec]) (hj : fx.st.jobs.get? p.job = some j) :
    ∃ (fx1 : Effects) (a : AttemptRecord) (q : OrdMap QuotaEntityId QuotaEntity),
      fx.seatPlacement at_ p cutoff group =
        group.foldl (fun fx v => fx.recordVictim at_ spec.node v) fx1 ∧
      a.group = p.group ∧ a.attempt = ⟨p.attempt, p.job, spec.id, spec.node,
        if (fx.seatedAllocation p spec).allocation.funded = spec.requested then .ready
        else .accruing⟩ ∧ a.Unstamped ∧
      fx1.events = fx.events ++ seatEvents fx p spec ++
        (if j.state ≠ .attempting p.attempt then
          [.jobStateChanged p.job j.state (.attempting p.attempt)] else []) ∧
      fx1.st = { (fx.seatRecords spec (fx.seatedAllocation p spec) a).st with
        quotaEntities := q
        jobs := fx.st.jobs.insert p.job
          { j with attempts := j.attempts ++ [p.attempt], state := .attempting p.attempt } } ∧
      (fx1.used = fx.used.map fun memo =>
        memo.add spec.node (fx.seatedAllocation p spec).allocation.funded) ∧
      a = seatedBy fx at_ p spec j cutoff ∧
      q = (fx.st.chargeAncestors j.spec.quotaEntity a.charge.amount at_).quotaEntities := by
  unfold seatPlacement seatedBy
  simp only [hspec, head?_cons, hj]
  obtain ⟨hatt, hgroup, hstamps⟩ := seatedAttempt_attempt fx.st at_ p spec j cutoff
    (if (fx.seatedAllocation p spec).allocation.funded = spec.requested then .ready
      else .accruing)
  generalize seatedAttempt fx.st at_ p spec j cutoff
    (if (fx.seatedAllocation p spec).allocation.funded = spec.requested then .ready
      else .accruing) = a at hatt hgroup hstamps ⊢
  generalize hfx0 : (if (fx.seatedAllocation p spec).allocation.funded = spec.requested then
    emit _ _ else _) = fx0
  have hst0 : fx0.st = (fx.seatRecords spec (fx.seatedAllocation p spec) a).st := by
    rw [← hfx0]
    split_ifs <;> rfl
  have hused0 : fx0.used = fx.used.map fun memo =>
      memo.add spec.node (fx.seatedAllocation p spec).allocation.funded := by
    rw [← hfx0]
    split_ifs <;> rfl
  have hev0 : fx0.events = fx.events ++ seatEvents fx p spec := by
    rw [← hfx0, seatEvents]
    split_ifs with hfull
    · simp [emit, memoAdd, seatRecords]
    · rfl
  have hj0 : fx0.st.jobs.get? p.job = some j := by rw [hst0]; exact hj
  obtain ⟨q, hq⟩ := startAttempt_st fx0 p.attempt j.spec.quotaEntity a.charge.amount at_ hj0
  refine ⟨_, a, q, rfl, hgroup, hatt, hstamps, ?_, ?_, ?_, rfl, ?_⟩
  · rw [← hev0]
    have hj1 : (fx0.modifyJob p.job fun j =>
        { j with attempts := j.attempts ++ [p.attempt] }).st.jobs.get? p.job =
          some { j with attempts := j.attempts ++ [p.attempt] } := by
      simp [modifyJob, hj0]
    simp only [jobTransition, hj1]
    split_ifs
    · rfl
    · simp [modifyJob]
  · rw [hq, hst0]
    rfl
  · simp [hused0]
  · refine (congrArg quotaEntities hq).symm.trans ?_
    refine chargeAncestors_congr _ _ _ ?_ ?_ <;>
      simp [jobTransition_st, modifyJob, hst0, seatRecords]

/-- Only the termination record differs. -/
def AttemptRecord.Marked (a a' : AttemptRecord) : Prop :=
  a' = { a with preemption := a'.preemption }

theorem AttemptRecord.Marked.refl (a : AttemptRecord) : a.Marked a := rfl

theorem AttemptRecord.Marked.trans (h : a.Marked b) (h' : b.Marked c) : a.Marked c := by
  unfold Marked at *
  rw [h', h]

section

variable (group : List Victim) (fx : Effects) (at_ : Timestamp) (node : NodeId)

theorem recordVictims_marked :
    OrdMap.Rel AttemptRecord.Marked fx.st.attempts
        (group.foldl (fun fx v => fx.recordVictim at_ node v) fx).st.attempts ∧
      (group.foldl (fun fx v => fx.recordVictim at_ node v) fx).st.quotaEntities =
        fx.st.quotaEntities := by
  refine foldl_trans (R := fun fx fx' => OrdMap.Rel AttemptRecord.Marked fx.st.attempts
      fx'.st.attempts ∧ fx'.st.quotaEntities = fx.st.quotaEntities) (fun _ => ⟨.refl .refl _, rfl⟩)
    ?_ (fun fx v => ?_) group fx
  · rintro _ _ _ ⟨h, e⟩ ⟨h', e'⟩
    exact ⟨h.trans .trans h', e'.trans e⟩
  · unfold recordVictim
    split
    · exact ⟨.refl .refl _, rfl⟩
    · exact ⟨.of_modify .refl _ fun _ _ => rfl, rfl⟩

/-- A termination record after the marks is an old one or one of the marks. -/
theorem recordVictims_recorded {a' : AttemptRecord}
    (h : (group.foldl (fun fx v => fx.recordVictim at_ node v) fx).st.attempts.get? id = some a') :
    a'.preemption = (fx.st.attempts.get? id).bind AttemptRecord.preemption ∨
      ∃ v ∈ group, ∃ r, fx.st.allocations.get? v.1 = some r ∧ r.allocation.attempt = id ∧
        a'.preemption = some ⟨v.2, at_, none⟩ := by
  induction group generalizing fx with
  | nil =>
    rw [foldl_nil] at h
    rw [h]
    exact .inl rfl
  | cons v rest ih =>
    have hall : (fx.recordVictim at_ node v).st.allocations = fx.st.allocations :=
      (recordVictim_quiet fx at_ node v).1.allocations
    rcases ih (fx.recordVictim at_ node v) h with hold | ⟨w, hw, r, hr, hid, hrec⟩
    · unfold recordVictim at hold
      cases hr : fx.st.allocations.get? v.1 with
      | none =>
        simp only [hr] at hold
        exact .inl hold
      | some r =>
        simp only [hr, emit, modifyAttempt, get?_modify] at hold
        split_ifs at hold with hid
        · cases ha : fx.st.attempts.get? id with
          | none => exact .inl (by rw [hold, ha]; rfl)
          | some a =>
            refine .inr ⟨v, mem_cons_self, r, hr, hid, ?_⟩
            rw [hold, ha]
            rfl
        · exact .inl hold
    · rw [hall] at hr
      exact .inr ⟨w, mem_cons_of_mem _ hw, r, hr, hid, hrec⟩

end

/-- A new attempt has no termination record; its cutoff is that of its placement. -/
theorem seatedBy_record (fx : Effects) (at_ : Timestamp) (p : Placement) (spec : AllocationSpec)
    (j : JobRecord) (cutoff : Option Timestamp) :
    (seatedBy fx at_ p spec j cutoff).preemption = none ∧
      (seatedBy fx at_ p spec j cutoff).drainCutoff = cutoff := by
  generalize pricing fx.st.policy j (fx.st.effectivePreemptible j.spec) = price
  obtain ⟨_, _, _, _⟩ := price
  exact ⟨rfl, rfl⟩

/-- A seat adds its attempt, charges it, and marks the victims. -/
theorem seatPlacement_attempts (fx : Effects) (at_ : Timestamp) (cutoff : Option Timestamp)
    (group : List Victim) (hspec : p.allocations = [spec]) (hj : fx.st.jobs.get? p.job = some j) :
    ∃ fx1 : Effects, fx.seatPlacement at_ p cutoff group =
        group.foldl (fun fx v => fx.recordVictim at_ spec.node v) fx1 ∧
      fx1.st.attempts = fx.st.attempts.insert p.attempt (seatedBy fx at_ p spec j cutoff) ∧
      fx1.st.allocations = fx.st.allocations.insert spec.id (fx.seatedAllocation p spec) ∧
      fx1.st.quotaEntities = (fx.st.chargeAncestors j.spec.quotaEntity
        (seatedBy fx at_ p spec j cutoff).charge.amount at_).quotaEntities := by
  obtain ⟨fx1, a, q, heq, -, hatt, -, -, hst, -, ha, hq⟩ :=
    seatPlacement_eq fx at_ cutoff group hspec hj
  refine ⟨fx1, heq, ?_, ?_, ?_⟩
  · rw [hst, ← ha]
    simp [seatRecords, hatt]
  · rw [hst]
    rfl
  · rw [hst, ← ha]
    exact hq

/-- The new hold is covered by what was free, and nothing wanted stays free. -/
theorem Sound.seat {fx : Effects} (at_ : Timestamp) (cutoff : Option Timestamp)
    (group : List Victim) (h : Sound ∅ fx) (hf : Fresh fx p spec j) :
    Sound ∅ (fx.seatPlacement at_ p cutoff group) ∧
      HoldsBounded fx.st (fx.seatPlacement at_ p cutoff group).st ∧
      Seats fx (fx.seatPlacement at_ p cutoff group) p spec := by
  obtain ⟨fx1, a, q, heq, hgroup, hatt, -, -, hst, hused, -⟩ :=
    seatPlacement_eq fx at_ cutoff group hf.one hf.job
  let r := fx.seatedAllocation p spec
  have hatts : fx1.st.attempts = fx.st.attempts.insert p.attempt a := by
    rw [hst]
    simp [seatRecords, hatt]
  have halls : fx1.st.allocations = fx.st.allocations.insert spec.id r := by rw [hst]; rfl
  have hnodes : fx1.st.nodes = fx.st.nodes := by rw [hst]; rfl
  have hfree := freeCapacity_get h.books.fit h.books.memo spec.node
  have hfunded d : r.allocation.funded.get d = min (fx.st.capacityOf spec.node d - fx.st.heldOn
      spec.node d) (spec.requested.get d) := by
    rw [← hfree d]
    exact Resources.get_componentMin _ _ d
  have hlive : r.isLive = true := by
    simp only [AllocationRecord.isLive, r, seatedAllocation]
    split_ifs <;> rfl
  -- the node's hold grows by what was funded
  have hheld n d : fx1.st.heldOn n d = (if spec.node = n then r.allocation.funded.get d else 0) +
      fx.st.heldOn n d := by
    rw [heldOn_insert hf.allocation halls]
    simp only [holdOf, hlive, and_true]
    rfl
  have hbounded : HoldsBounded fx.st fx1.st := by
    intro n d
    rw [hheld, capacityOf_congr hnodes]
    split_ifs with e
    · subst e
      have := hfunded d
      omega
    · omega
  have hfit := hbounded.holdsFit h.books.fit
  have hstate : a.attempt.state =
      if r.allocation.funded = spec.requested then .ready else .accruing := by rw [hatt]
  have hrstate : r.allocation.state =
      if r.allocation.funded = spec.requested then .funded else .accruing := rfl
  have hsound1 : Sound ∅ fx1 := by
    refine ⟨⟨?_, hfit, ?_⟩, ?_, ?_⟩
    · refine h.books.linked.insert hf.attempt hf.allocation (by rw [hatt]) rfl
        (by rw [hgroup, hf.group, hatt]) (by rw [hatt]) ?_ ?_ rfl hf.node ?_ hatts halls ?_
        (by rw [hst]; rfl) hnodes
      · refine ⟨by rw [hatt]; rfl, by rw [hatt]; rfl, rfl, fun _ => ?_, by simp⟩
        rw [hstate, hrstate]
        split_ifs <;> trivial
      · refine ⟨fun d => ?_, ?_, ?_, ?_⟩
        · rw [hfunded d]
          exact Nat.min_le_right _ _
        · intro e hfull
          rw [hrstate, if_pos (show r.allocation.funded = spec.requested from hfull)] at e
          cases e
        · intro e
          rw [hrstate] at e
          split_ifs at e with hfull
          exact hfull
        · intro e
          rw [hrstate] at e
          split_ifs at e
      · -- the job is idle, so none of its attempts is live
        intro i b hb hbl hjob
        obtain ⟨rec, hrec, hrst, -⟩ := h.jobs.current hb hbl
        rw [hjob, hatt, hf.job] at hrec
        cases hrec
        exact hf.idle i hrst
      · rw [hst]
        rfl
    · intro memo hm n d
      rw [hused] at hm
      obtain ⟨memo0, hm0, rfl⟩ := Option.map_eq_some_iff.mp hm
      rw [memo_get_add, h.books.memo memo0 hm0, hheld]
      have := hfit n d
      rw [hheld] at this
      split_ifs with e
      · rw [if_pos e] at this
        change min (_ + r.allocation.funded.get d) _ = _
        omega
      · omega
    · refine h.jobs.seat (fun j =>
        { j with attempts := j.attempts ++ [p.attempt], state := .attempting p.attempt })
        hf.job hf.idle hf.attempt (by rw [hatt]) ?_ rfl rfl (by rw [hst]) hatts
      rw [hstate]
      split_ifs <;> rfl
    · intro n hn al x hx hacc hxn d
      rw [capacityOf_congr hnodes, hheld]
      rw [halls, get?_insert] at hx
      split_ifs at hx with e
      · -- the new allocation took all that was free of what it wants
        cases hx
        have hxn' : spec.node = n := hxn
        have := hfunded d
        rw [if_pos hxn', ← hxn']
        change _ ∨ spec.requested.get d ≤ r.allocation.funded.get d
        omega
      · rcases h.conserved n hn al x hx hacc hxn d with hc | hc
        · exact .inl (by omega)
        · exact .inr hc
  obtain ⟨hq, hu, hn, hj⟩ := recordVictims_quiet group fx1 at_ spec.node
  rw [← heq] at hq hu hn hj
  refine ⟨hsound1.quiet hq hu, ?_, hn.trans hnodes, ?_, ?_, hq.allocations.trans halls⟩
  · exact hbounded.trans (.of_eq hq.allocations) hn
  · intro k hk
    rw [hj, hst]
    exact get?_insert_of_ne _ _ (Ne.symm hk)
  · intro id hid
    rw [hq.attempts.none_iff, hatts, get?_insert_of_ne _ _ (Ne.symm hid)]

end Coppice.State
