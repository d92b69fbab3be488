/-
  Coppice.State.Linked

  How jobs, attempts and allocations hang together, and the one update lemma the
  effect helpers are verified with.  `Linked` carries the list of allocations that
  are funded while their attempt is still accruing; between commands it is empty.
-/

import Coppice.State.Apply

namespace Coppice.State

open Lib Coppice.Core OrdMap

/-- Attempt state and allocation state belong together. -/
def InStep : AttemptState → AllocationState → Prop
  | .accruing, .accruing => True
  | .ready, .funded => True
  | .dispatching, .funded => True
  | .running, .active => True
  | .finalizing, .active => True
  | .terminal _, .released => True
  | _, _ => False

/-- Never more is funded than requested; all of it exactly when the state says so. -/
structure FundedRight (r : AllocationRecord) : Prop where
  le : ∀ d, r.allocation.funded.get d ≤ r.allocation.requested.get d
  accruing : r.allocation.state = .accruing → r.allocation.funded ≠ r.allocation.requested
  funded : r.allocation.state = .funded → r.allocation.funded = r.allocation.requested
  active : r.allocation.state = .active → r.allocation.funded = r.allocation.requested

/-- An attempt and the allocation it names point at each other. -/
structure Ties (newly : List AllocationId) (id : AttemptId) (a : AttemptRecord)
    (r : AllocationRecord) : Prop where
  job : r.allocation.job = a.attempt.job
  node : r.allocation.node = a.attempt.node
  attempt : r.allocation.attempt = id
  step : a.attempt.allocation ∉ newly → InStep a.attempt.state r.allocation.state
  funding : a.attempt.allocation ∈ newly →
    a.attempt.state = .accruing ∧ r.allocation.state = .funded

/-- Attempts, allocations and the accrual queue are consistent. -/
structure Linked (s : StateMachine) (newly : List AllocationId) : Prop where
  attempt_id : ∀ {id a}, s.attempts.get? id = some a → a.attempt.id = id
  allocation_id : ∀ {al r}, s.allocations.get? al = some r → r.allocation.id = al
  group_eq : ∀ {id a}, s.attempts.get? id = some a → a.group = a.attempt.job
  allocation_of : ∀ {id a}, s.attempts.get? id = some a →
    ∃ r, s.allocations.get? a.attempt.allocation = some r ∧ Ties newly id a r
  attempt_of : ∀ {al r}, s.allocations.get? al = some r →
    ∃ a, s.attempts.get? r.allocation.attempt = some a ∧ a.attempt.allocation = al
  one_live : ∀ {i j a b}, s.attempts.get? i = some a → s.attempts.get? j = some b →
    a.attempt.state.isTerminal = false → b.attempt.state.isTerminal = false →
    a.attempt.job = b.attempt.job → i = j
  funding : ∀ {al r}, s.allocations.get? al = some r → FundedRight r
  queue : ∀ {node seq al}, s.accrualQueue.get? (toLex (node, seq)) = some al ↔
    ∃ r, s.allocations.get? al = some r ∧ r.allocation.state = .accruing ∧
      r.allocation.node = node ∧ r.seq = seq
  seq_lt : ∀ {al r}, s.allocations.get? al = some r → r.seq < s.nextAllocationSeq
  seq_inj : ∀ {al al' r r'}, s.allocations.get? al = some r → s.allocations.get? al' = some r' →
    r.seq = r'.seq → al = al'
  node_of : ∀ {al r}, s.allocations.get? al = some r → r.isLive = true →
    ∃ n, s.nodes.get? r.allocation.node = some n

/-- Jobs and attempts are consistent. -/
structure JobLinked (s : StateMachine) : Prop where
  /-- An attempting job names a live attempt of its own. -/
  attempting : ∀ {j rec id}, s.jobs.get? j = some rec → rec.state = .attempting id →
    ∃ a, s.attempts.get? id = some a ∧ a.attempt.job = j ∧ a.attempt.state.isTerminal = false
  /-- A live attempt is the one its job is attempting, and the last of its lineage. -/
  current : ∀ {id a}, s.attempts.get? id = some a → a.attempt.state.isTerminal = false →
    ∃ rec, s.jobs.get? a.attempt.job = some rec ∧ rec.state = .attempting id ∧
      rec.attempts.getLast? = some id
  /-- Every attempt is in its job's lineage. -/
  lineage : ∀ {id a}, s.attempts.get? id = some a →
    ∃ rec, s.jobs.get? a.attempt.job = some rec ∧ id ∈ rec.attempts
  /-- A lineage holds only attempts of its job. -/
  lineage_job : ∀ {j rec id}, s.jobs.get? j = some rec → id ∈ rec.attempts →
    ∃ a, s.attempts.get? id = some a ∧ a.attempt.job = j

theorem AllocationRecord.isLive_iff {r : AllocationRecord} :
    r.isLive = true ↔ r.allocation.state ≠ .released := by
  simp [isLive]

variable {a : AttemptState} {r : AllocationState}

theorem InStep.terminal_iff (h : InStep a r) : a.isTerminal = true ↔ r = .released := by
  cases a <;> cases r <;> simp_all [InStep, AttemptState.isTerminal]

theorem InStep.accruing_iff (h : InStep a r) : a = .accruing ↔ r = .accruing := by
  cases a <;> cases r <;> simp_all [InStep]

namespace Linked

variable {s s' : StateMachine} {newly newly' : List AllocationId}

/-- Fields of attempts beyond the attempt itself and its group do not matter. -/
theorem annotate (h : Linked s newly)
    (hatt : Rel (fun a a' => a'.attempt = a.attempt ∧ a'.group = a.group)
      s.attempts s'.attempts)
    (hall : s'.allocations = s.allocations) (hq : s'.accrualQueue = s.accrualQueue)
    (hseq : s'.nextAllocationSeq = s.nextAllocationSeq)
    (hn : ∀ {n x}, s.nodes.get? n = some x → ∃ y, s'.nodes.get? n = some y) :
    Linked s' newly := by
  refine ⟨?_, ?_, ?_, ?_, ?_, ?_, ?_, ?_, ?_, ?_, ?_⟩
  · intro id a' ha'
    obtain ⟨a, ha, hsame, -⟩ := hatt.back ha'
    rw [hsame]
    exact h.attempt_id ha
  · rw [hall]
    exact h.allocation_id
  · intro id a' ha'
    obtain ⟨a, ha, hsame, hgroup⟩ := hatt.back ha'
    rw [hsame, hgroup]
    exact h.group_eq ha
  · intro id a' ha'
    obtain ⟨a, ha, hsame, -⟩ := hatt.back ha'
    obtain ⟨r, hr, ht⟩ := h.allocation_of ha
    rw [hall, hsame]
    exact ⟨r, hr, by rw [hsame]; exact ht.job, by rw [hsame]; exact ht.node, ht.attempt,
      by rw [hsame]; exact ht.step, by rw [hsame]; exact ht.funding⟩
  · intro al r hr
    rw [hall] at hr
    obtain ⟨a, ha, hal⟩ := h.attempt_of hr
    obtain ⟨a', ha', hsame, -⟩ := hatt.some ha
    exact ⟨a', ha', by rw [hsame, hal]⟩
  · intro i j a' b' ha' hb' hla hlb hjob
    obtain ⟨a, ha, hsa, -⟩ := hatt.back ha'
    obtain ⟨b, hb, hsb, -⟩ := hatt.back hb'
    rw [hsa] at hla hjob
    rw [hsb] at hlb hjob
    exact h.one_live ha hb hla hlb hjob
  · rw [hall]
    exact h.funding
  · rw [hall, hq]
    exact h.queue
  · rw [hall, hseq]
    exact h.seq_lt
  · rw [hall]
    exact h.seq_inj
  · intro al r hr hlive
    rw [hall] at hr
    obtain ⟨x, hx⟩ := h.node_of hr hlive
    exact hn hx

/-- The invariant reads five fields only. -/
theorem congr (h : Linked s newly) (hatt : s'.attempts = s.attempts)
    (hall : s'.allocations = s.allocations) (hq : s'.accrualQueue = s.accrualQueue)
    (hseq : s'.nextAllocationSeq = s.nextAllocationSeq) (hn : s'.nodes = s.nodes) :
    Linked s' newly :=
  h.annotate (Rel.of_eq (fun _ => ⟨rfl, rfl⟩) hatt) hall hq hseq fun hx => ⟨_, hn ▸ hx⟩

theorem newly_congr (h : Linked s newly) (hm : ∀ al, al ∈ newly' ↔ al ∈ newly) :
    Linked s newly' := by
  refine ⟨h.attempt_id, h.allocation_id, h.group_eq, ?_, h.attempt_of, h.one_live, h.funding,
    h.queue, h.seq_lt, h.seq_inj, h.node_of⟩
  intro id a ha
  obtain ⟨r, hr, ht⟩ := h.allocation_of ha
  exact ⟨r, hr, ht.job, ht.node, ht.attempt, fun hn => ht.step fun hin => hn ((hm _).mpr hin),
    fun hin => ht.funding ((hm _).mp hin)⟩

variable {al : AllocationId} {r : AllocationRecord}

/-- The queue key of an allocation that is not accruing is unused. -/
theorem queue_none (h : Linked s newly) (hr : s.allocations.get? al = some r)
    (hst : r.allocation.state ≠ .accruing) :
    s.accrualQueue.get? (toLex (r.allocation.node, r.seq)) = none := by
  cases hq : s.accrualQueue.get? (toLex (r.allocation.node, r.seq)) with
  | none => rfl
  | some al' =>
    obtain ⟨r', hr', hacc, -, hseq⟩ := h.queue.mp hq
    have heq : al' = al := h.seq_inj hr' hr hseq
    subst heq
    rw [hr] at hr'
    cases hr'
    exact absurd hacc hst

/-- The attempt that an allocation is tied to. -/
theorem tied (h : Linked s newly) (hr : s.allocations.get? al = some r) :
    ∃ a, s.attempts.get? r.allocation.attempt = some a ∧ a.attempt.allocation = al ∧
      Ties newly r.allocation.attempt a r := by
  obtain ⟨a, ha, hal⟩ := h.attempt_of hr
  obtain ⟨r', hr', ht⟩ := h.allocation_of ha
  rw [hal, hr] at hr'
  cases hr'
  exact ⟨a, ha, hal, ht⟩

variable {a b : AttemptRecord}

/-- Attempts naming one allocation are equal. -/
theorem attempt_unique (h : Linked s newly) {i j : AttemptId} (ha : s.attempts.get? i = some a)
    (hb : s.attempts.get? j = some b) (hal : a.attempt.allocation = b.attempt.allocation) :
    i = j := by
  obtain ⟨r, hr, ht⟩ := h.allocation_of ha
  obtain ⟨r', hr', ht'⟩ := h.allocation_of hb
  rw [hal, hr'] at hr
  cases hr
  rw [← ht.attempt, ← ht'.attempt]

/-- Fields of an attempt that no transition touches. -/
structure SameAttempt (a a' : AttemptRecord) : Prop where
  id : a'.attempt.id = a.attempt.id
  job : a'.attempt.job = a.attempt.job
  allocation : a'.attempt.allocation = a.attempt.allocation
  node : a'.attempt.node = a.attempt.node
  group : a'.group = a.group

/-- Fields of an allocation that no transition touches. -/
structure SameAllocation (r r' : AllocationRecord) : Prop where
  id : r'.allocation.id = r.allocation.id
  job : r'.allocation.job = r.allocation.job
  attempt : r'.allocation.attempt = r.allocation.attempt
  node : r'.allocation.node = r.allocation.node
  requested : r'.allocation.requested = r.allocation.requested
  seq : r'.seq = r.seq

theorem SameAttempt.refl (a : AttemptRecord) : SameAttempt a a := ⟨rfl, rfl, rfl, rfl, rfl⟩

theorem SameAllocation.refl (r : AllocationRecord) : SameAllocation r r :=
  ⟨rfl, rfl, rfl, rfl, rfl, rfl⟩

theorem SameAttempt.trans (h : SameAttempt a b) (h' : SameAttempt b c) : SameAttempt a c :=
  ⟨h'.id.trans h.id, h'.job.trans h.job, h'.allocation.trans h.allocation, h'.node.trans h.node,
    h'.group.trans h.group⟩

theorem SameAllocation.trans {a b : AllocationRecord} (h : SameAllocation a b)
    (h' : SameAllocation b c) : SameAllocation a c :=
  ⟨h'.id.trans h.id, h'.job.trans h.job, h'.attempt.trans h.attempt, h'.node.trans h.node,
    h'.requested.trans h.requested, h'.seq.trans h.seq⟩

/-- Moving one attempt and its allocation on, with the queue following. -/
theorem update (h : Linked s newly) {id : AttemptId} (a' : AttemptRecord) (r' : AllocationRecord)
    (ha : s.attempts.get? id = some a) (hr : s.allocations.get? a.attempt.allocation = some r)
    (hsa : SameAttempt a a') (hsr : SameAllocation r r')
    (hatt : ∀ j, s'.attempts.get? j = if id = j then some a' else s.attempts.get? j)
    (hall : ∀ j, s'.allocations.get? j =
      if a.attempt.allocation = j then some r' else s.allocations.get? j)
    (hq : ∀ k, s'.accrualQueue.get? k =
      if r'.allocation.state = .accruing then s.accrualQueue.get? k
      else (s.accrualQueue.erase (toLex (r.allocation.node, r.seq))).get? k)
    (hseq : s'.nextAllocationSeq = s.nextAllocationSeq) (hn : s'.nodes = s.nodes)
    (hstep : a.attempt.allocation ∉ newly' → InStep a'.attempt.state r'.allocation.state)
    (hfund : a.attempt.allocation ∈ newly' →
      a'.attempt.state = .accruing ∧ r'.allocation.state = .funded)
    (hnew : ∀ al, al ≠ a.attempt.allocation → (al ∈ newly' ↔ al ∈ newly))
    (hterm : a.attempt.state.isTerminal = true → a'.attempt.state.isTerminal = true)
    (hfr : FundedRight r') (hacc : r'.allocation.state = .accruing → r.allocation.state = .accruing)
    (hlive : r'.isLive = true → r.isLive = true) : Linked s' newly' := by
  obtain ⟨r0, hr0, ht⟩ := h.allocation_of ha
  rw [hr] at hr0
  cases hr0
  -- lookups in the new maps, split on whether they hit the updated entry
  have getAtt {j b} (hb : s'.attempts.get? j = some b) := updated_cases hatt hb
  have getAll {al q} (hq : s'.allocations.get? al = some q) := updated_cases hall hq
  refine ⟨forall_updated hatt (hsa.id.trans (h.attempt_id ha)) h.attempt_id,
    forall_updated hall (hsr.id.trans (h.allocation_id hr)) h.allocation_id,
    forall_updated hatt (by rw [hsa.group, hsa.job, h.group_eq ha]) h.group_eq, ?_, ?_, ?_,
    forall_updated hall hfr h.funding, ?_,
    hseq ▸ forall_updated hall (hsr.seq ▸ h.seq_lt hr) h.seq_lt, ?_,
    hn ▸ forall_updated hall (hsr.node ▸ fun hl => h.node_of hr (hlive hl)) h.node_of⟩
  · intro j b hb
    rcases getAtt hb with ⟨rfl, rfl⟩ | ⟨hj, hb⟩
    · refine ⟨r', by rw [hsa.allocation, hall, if_pos rfl], ?_⟩
      exact ⟨by rw [hsr.job, hsa.job, ht.job], by rw [hsr.node, hsa.node, ht.node],
        by rw [hsr.attempt, ht.attempt], by rw [hsa.allocation]; exact hstep,
        by rw [hsa.allocation]; exact hfund⟩
    · obtain ⟨q, hq', htq⟩ := h.allocation_of hb
      have hne : b.attempt.allocation ≠ a.attempt.allocation :=
        fun e => hj (h.attempt_unique hb ha e)
      refine ⟨q, by rw [hall, if_neg (Ne.symm hne)]; exact hq', ?_⟩
      exact ⟨htq.job, htq.node, htq.attempt,
        fun hn' => htq.step fun hm => hn' ((hnew _ hne).mpr hm),
        fun hm => htq.funding ((hnew _ hne).mp hm)⟩
  · intro al q hq'
    rcases getAll hq' with ⟨rfl, rfl⟩ | ⟨hal, hq'⟩
    · exact ⟨a', by rw [hsr.attempt, ht.attempt, hatt, if_pos rfl], hsa.allocation⟩
    · obtain ⟨b, hb, hbal⟩ := h.attempt_of hq'
      have hne : id ≠ q.allocation.attempt := by
        intro e
        rw [← e, ha] at hb
        cases hb
        exact hal hbal.symm
      exact ⟨b, by rw [hatt, if_neg hne]; exact hb, hbal⟩
  · intro i j b1 b2 h1 h2 hl1 hl2 hjob
    have old {k b} (hb : s'.attempts.get? k = some b) : ∃ b0, s.attempts.get? k = some b0 ∧
        b0.attempt.job = b.attempt.job ∧
        (b.attempt.state.isTerminal = false → b0.attempt.state.isTerminal = false) := by
      apply forall_updated hatt ?_ ?_ hb
      · exact ⟨a, ha, hsa.job.symm, fun hl => Bool.eq_false_iff.mpr (mt hterm (by simp [hl]))⟩
      · exact fun hb => ⟨_, hb, rfl, fun hl => hl⟩
    obtain ⟨c1, hc1, hj1, hlc1⟩ := old h1
    obtain ⟨c2, hc2, hj2, hlc2⟩ := old h2
    exact h.one_live hc1 hc2 (hlc1 hl1) (hlc2 hl2) (by rw [hj1, hj2, hjob])
  · intro node seq al
    rw [hq]
    by_cases hst : r'.allocation.state = .accruing
    · rw [if_pos hst, h.queue]
      constructor
      · rintro ⟨q, hq', hqa, hqn, hqs⟩
        by_cases hal : a.attempt.allocation = al
        · subst hal
          rw [hr] at hq'
          cases hq'
          exact ⟨r', by rw [hall, if_pos rfl], hst, by rw [hsr.node, hqn], by rw [hsr.seq, hqs]⟩
        · exact ⟨q, by rw [hall, if_neg hal]; exact hq', hqa, hqn, hqs⟩
      · rintro ⟨q, hq', hqa, hqn, hqs⟩
        rcases getAll hq' with ⟨rfl, rfl⟩ | ⟨-, hq'⟩
        · exact ⟨r, hr, hacc hst, by rw [← hsr.node, hqn], by rw [← hsr.seq, hqs]⟩
        · exact ⟨q, hq', hqa, hqn, hqs⟩
    · rw [if_neg hst, get?_erase]
      constructor
      · intro hk
        split_ifs at hk with hkey
        obtain ⟨q, hq', hqa, hqn, hqs⟩ := h.queue.mp hk
        have hal : a.attempt.allocation ≠ al := by
          rintro rfl
          rw [hr] at hq'
          cases hq'
          exact hkey (by rw [hqn, hqs])
        exact ⟨q, by rw [hall, if_neg hal]; exact hq', hqa, hqn, hqs⟩
      · rintro ⟨q, hq', hqa, hqn, hqs⟩
        rcases getAll hq' with ⟨rfl, rfl⟩ | ⟨hal, hq'⟩
        · exact absurd hqa hst
        · have hkey : toLex (r.allocation.node, r.seq) ≠ toLex (node, seq) := by
            intro e
            have he := toLex.injective e
            exact hal (h.seq_inj hq' hr (by rw [hqs, (Prod.mk.inj he).2]))
          rw [if_neg hkey]
          exact h.queue.mpr ⟨q, hq', hqa, hqn, hqs⟩
  · intro al al' q q' hq' hq'' hs
    have old {k x} (hx : s'.allocations.get? k = some x) :
        ∃ y, s.allocations.get? k = some y ∧ y.seq = x.seq := by
      apply forall_updated hall ?_ ?_ hx
      · exact ⟨r, hr, hsr.seq.symm⟩
      · exact fun hx => ⟨_, hx, rfl⟩
    obtain ⟨y, hy, hys⟩ := old hq'
    obtain ⟨y', hy', hys'⟩ := old hq''
    exact h.seq_inj hy hy' (by rw [hys, hys', hs])

end Linked

namespace JobLinked

variable {s s' : StateMachine}

/-- Only what a job attempts and its lineage, and the job and the liveness of an
    attempt matter. -/
theorem annotate (h : JobLinked s)
    (hjobs : Rel (fun j j' => (∀ id, j'.state = .attempting id ↔ j.state = .attempting id) ∧
      j'.attempts = j.attempts) s.jobs s'.jobs)
    (hatt : Rel (fun a a' => a'.attempt.job = a.attempt.job ∧
      a'.attempt.state.isTerminal = a.attempt.state.isTerminal) s.attempts s'.attempts) :
    JobLinked s' := by
  refine ⟨?_, ?_, ?_, ?_⟩
  · intro j rec' id hj' hst
    obtain ⟨rec, hj, hstate, -⟩ := hjobs.back hj'
    obtain ⟨a, ha, hjob, hlive⟩ := h.attempting hj ((hstate id).mp hst)
    obtain ⟨a', ha', hjob', hlive'⟩ := hatt.some ha
    exact ⟨a', ha', by rw [hjob', hjob], by rw [hlive', hlive]⟩
  · intro id a' ha' hlive
    obtain ⟨a, ha, hjob, hterm⟩ := hatt.back ha'
    obtain ⟨rec, hj, hst, hlast⟩ := h.current ha (by rw [← hterm, hlive])
    obtain ⟨rec', hj', hstate, hlin⟩ := hjobs.some hj
    exact ⟨rec', by rw [hjob, hj'], (hstate id).mpr hst, by rw [hlin, hlast]⟩
  · intro id a' ha'
    obtain ⟨a, ha, hjob, -⟩ := hatt.back ha'
    obtain ⟨rec, hj, hmem⟩ := h.lineage ha
    obtain ⟨rec', hj', -, hlin⟩ := hjobs.some hj
    exact ⟨rec', by rw [hjob, hj'], by rw [hlin]; exact hmem⟩
  · intro j rec' id hj' hid
    obtain ⟨rec, hj, -, hlin⟩ := hjobs.back hj'
    obtain ⟨a, ha, hjob⟩ := h.lineage_job hj (hlin ▸ hid)
    obtain ⟨a', ha', hjob', -⟩ := hatt.some ha
    exact ⟨a', ha', by rw [hjob', hjob]⟩

/-- An attempt ends and its job leaves the attempting state. -/
theorem ended (h : JobLinked s) {id : AttemptId} {a : AttemptRecord} (f : JobRecord → JobRecord)
    (ha : s.attempts.get? id = some a) (hlive : a.attempt.state.isTerminal = false)
    (hjobs : s'.jobs = s.jobs.modify a.attempt.job f) (hlin : ∀ r, (f r).attempts = r.attempts)
    (hf : ∀ r x, (f r).state ≠ .attempting x)
    (hatt : Rel (fun a a' => a'.attempt.job = a.attempt.job) s.attempts s'.attempts)
    (hend : ∀ {b}, s'.attempts.get? id = some b → b.attempt.state.isTerminal = true)
    (hothers : ∀ {i b b'}, i ≠ id → s.attempts.get? i = some b → s'.attempts.get? i = some b' →
      b'.attempt.state.isTerminal = b.attempt.state.isTerminal) : JobLinked s' := by
  have hrel : Rel (fun j j' => j'.attempts = j.attempts) s.jobs s'.jobs := by
    rw [hjobs]
    exact Rel.of_modify (R := fun (j j' : JobRecord) => j'.attempts = j.attempts)
      (fun _ => rfl) f fun r _ => hlin r
  have hother {j} (hj : j ≠ a.attempt.job) : s'.jobs.get? j = s.jobs.get? j := by
    rw [hjobs, get?_modify_of_ne _ _ (Ne.symm hj)]
  refine ⟨?_, ?_, ?_, ?_⟩
  · intro j rec' x hj' hst
    have hne : j ≠ a.attempt.job := by
      rintro rfl
      rw [hjobs, get?_modify_self] at hj'
      obtain ⟨rec, -, rfl⟩ := Option.map_eq_some_iff.mp hj'
      exact hf rec x hst
    rw [hother hne] at hj'
    obtain ⟨b, hb, hjob, hbl⟩ := h.attempting hj' hst
    obtain ⟨b', hb', hjob'⟩ := hatt.some hb
    have hx : x ≠ id := by
      rintro rfl
      rw [ha] at hb
      cases hb
      exact hne hjob.symm
    exact ⟨b', hb', by rw [hjob', hjob], by rw [hothers hx hb hb', hbl]⟩
  · intro i b' hb' hbl
    have hi : i ≠ id := by
      rintro rfl
      rw [hend hb'] at hbl
      cases hbl
    obtain ⟨b, hb, hjob⟩ := hatt.back hb'
    obtain ⟨rec, hj, hst, hlast⟩ := h.current hb (by rw [← hothers hi hb hb', hbl])
    have hne : b.attempt.job ≠ a.attempt.job := by
      intro e
      obtain ⟨rec', hj', hst', -⟩ := h.current ha hlive
      rw [← e, hj] at hj'
      cases hj'
      rw [hst] at hst'
      cases hst'
      exact hi rfl
    exact ⟨rec, by rw [hjob, hother hne, hj], hst, hlast⟩
  · intro i b' hb'
    obtain ⟨b, hb, hjob⟩ := hatt.back hb'
    obtain ⟨rec, hj, hmem⟩ := h.lineage hb
    obtain ⟨rec', hj', hl⟩ := hrel.some hj
    exact ⟨rec', by rw [hjob, hj'], by rw [hl]; exact hmem⟩
  · intro j rec' i hj' hi
    obtain ⟨rec, hj, hl⟩ := hrel.back hj'
    obtain ⟨b, hb, hjob⟩ := h.lineage_job hj (hl ▸ hi)
    obtain ⟨b', hb', hjob'⟩ := hatt.some hb
    exact ⟨b', hb', by rw [hjob', hjob]⟩

end JobLinked

end Coppice.State
