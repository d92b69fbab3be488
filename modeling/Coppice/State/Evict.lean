/-
  Coppice.State.Evict

  The two evictions.  Only finished work is removed: a terminal job takes its
  attempts and their released allocations with it, a drained node holds
  nothing live.
-/

import Coppice.State.Lifecycle

namespace Coppice.State

open Lib Coppice.Core OrdMap AllocationRecord

/-! ## Terminal jobs -/

/-- A finished attempt and its released allocation can go. -/
theorem Linked.evict {s s' : StateMachine} (h : Linked s []) {id : AttemptId} {a : AttemptRecord}
    (ha : s.attempts.get? id = some a) (hterm : a.attempt.state.isTerminal = true)
    (hatt : s'.attempts = s.attempts.erase id)
    (hall : s'.allocations = s.allocations.erase a.attempt.allocation)
    (hq : s'.accrualQueue = s.accrualQueue) (hseq : s'.nextAllocationSeq = s.nextAllocationSeq)
    (hn : s'.nodes = s.nodes) : Linked s' [] := by
  obtain ⟨r, hr, ht⟩ := h.allocation_of ha
  have hrel : r.allocation.state = .released := (ht.step (by simp)).terminal_iff.mp hterm
  have getAtt {j b} (hb : s'.attempts.get? j = some b) := of_get?_erase (hatt ▸ hb)
  have getAll {al q} (hq : s'.allocations.get? al = some q) := of_get?_erase (hall ▸ hq)
  refine ⟨?_, ?_, ?_, ?_, ?_, ?_, ?_, ?_, ?_, ?_, ?_⟩
  · exact fun hb => h.attempt_id (getAtt hb).2
  · exact fun hq' => h.allocation_id (getAll hq').2
  · exact fun hb => h.group_eq (getAtt hb).2
  · intro j b hb
    obtain ⟨hj, hb⟩ := getAtt hb
    obtain ⟨q, hq', htq⟩ := h.allocation_of hb
    refine ⟨q, ?_, htq⟩
    rw [hall, get?_erase_of_ne _ fun e => hj (h.attempt_unique hb ha e.symm), hq']
  · intro al q hq'
    obtain ⟨hal, hq'⟩ := getAll hq'
    obtain ⟨b, hb, hbal⟩ := h.attempt_of hq'
    refine ⟨b, ?_, hbal⟩
    rw [hatt, get?_erase_of_ne _ fun e => ?_, hb]
    rw [← e, ha] at hb
    cases hb
    exact hal hbal.symm
  · exact fun hb hc => h.one_live (getAtt hb).2 (getAtt hc).2
  · exact fun hq' => h.funding (getAll hq').2
  · intro node seq al
    rw [hq, h.queue]
    constructor
    · rintro ⟨q, hq', hacc, hqn, hqs⟩
      refine ⟨q, ?_, hacc, hqn, hqs⟩
      rw [hall, get?_erase_of_ne _ fun e => ?_, hq']
      rw [← e, hr] at hq'
      cases hq'
      simp [hrel] at hacc
    · rintro ⟨q, hq', hrest⟩
      exact ⟨q, (getAll hq').2, hrest⟩
  · rw [hseq]
    exact fun hq' => h.seq_lt (getAll hq').2
  · exact fun hq' hq'' => h.seq_inj (getAll hq').2 (getAll hq'').2
  · rw [hn]
    exact fun hq' => h.node_of (getAll hq').2

/-- What the removal of finished work leaves behind. -/
structure Swept (s s' : StateMachine) : Prop where
  nodes : s'.nodes = s.nodes
  held : ∀ n d, s'.heldOn n d = s.heldOn n d
  allocations : ∀ al r, s'.allocations.get? al = some r → s.allocations.get? al = some r

theorem Swept.refl (s : StateMachine) : Swept s s := ⟨rfl, fun _ _ => rfl, fun _ _ h => h⟩

theorem Swept.trans (h : Swept s s') (h' : Swept s' s'') : Swept s s'' :=
  ⟨h'.nodes.trans h.nodes, fun n d => (h'.held n d).trans (h.held n d),
    fun al r hr => h.allocations al r (h'.allocations al r hr)⟩

theorem Swept.kept (hsw : Swept s s') (h' : Consistent s') : Kept s s' :=
  ⟨h', .of_le fun n d => le_of_eq (hsw.held n d),
    fun al r hr hacc => ⟨r, hsw.allocations al r hr, hacc, .refl r⟩⟩

namespace StateMachine

/-- Removing one attempt, if it is there. -/
theorem evictAttempt_spec {s : StateMachine} (h : Linked s []) (id : AttemptId)
    (hterm : ∀ a, s.attempts.get? id = some a → a.attempt.state.isTerminal = true) :
    Linked (s.evictAttempt id) [] ∧ Swept s (s.evictAttempt id) ∧
      (s.evictAttempt id).jobs = s.jobs ∧
      (s.evictAttempt id).attempts = s.attempts.erase id := by
  unfold evictAttempt
  cases ha : s.attempts.get? id with
  | none => exact ⟨h, .refl s, rfl, (erase_eq_self ha).symm⟩
  | some a =>
    obtain ⟨r, hr, ht⟩ := h.allocation_of ha
    have hrel : r.allocation.state = .released := (ht.step (by simp)).terminal_iff.mp (hterm a ha)
    -- the queue has no key of a released allocation
    have hqueue : s.accrualQueue.erase (toLex (r.allocation.node, r.seq)) = s.accrualQueue :=
      erase_eq_self (h.queue_none hr (by simp [hrel]))
    simp only [hr]
    refine ⟨h.evict ha (hterm a ha) rfl rfl hqueue rfl rfl, ⟨rfl, ?_, ?_⟩, trivial, trivial⟩
    · intro n d
      have hsum := sumBy_erase_of_some (fun _ r => holdOf n d r) hr
      have hzero : holdOf n d r = 0 := by simp [holdOf, isLive, hrel]
      simp only [hzero, Nat.zero_add] at hsum
      exact hsum
    · exact fun al q hq => (of_get?_erase hq).2

theorem evictAttempts_spec (l : List AttemptId) {s : StateMachine} (h : Linked s [])
    (hterm : ∀ id ∈ l, ∀ a, s.attempts.get? id = some a → a.attempt.state.isTerminal = true) :
    Linked (l.foldl evictAttempt s) [] ∧ Swept s (l.foldl evictAttempt s) ∧
      (l.foldl evictAttempt s).jobs = s.jobs ∧
      ∀ id, (l.foldl evictAttempt s).attempts.get? id =
        if id ∈ l then none else s.attempts.get? id := by
  induction l generalizing s with
  | nil => exact ⟨h, .refl s, rfl, by simp⟩
  | cons x rest ih =>
    obtain ⟨h1, hs1, hj1, hatt1⟩ := evictAttempt_spec h x (hterm x (by simp))
    obtain ⟨h2, hs2, hj2, hatt2⟩ := ih h1 (by
      intro id hid a ha
      rw [hatt1] at ha
      exact hterm id (List.mem_cons_of_mem _ hid) a (of_get?_erase ha).2)
    refine ⟨h2, hs1.trans hs2, hj2.trans hj1, fun id => ?_⟩
    rw [List.foldl_cons, hatt2, hatt1, get?_erase]
    by_cases hx : x = id
    · simp [hx]
    · have : id ≠ x := Ne.symm hx
      simp [hx, this]

end StateMachine

/-- A finished job goes with its whole lineage. -/
theorem JobLinked.evict {s' : StateMachine} (h : JobLinked s) {job : JobId} {rec : JobRecord}
    (hj : s.jobs.get? job = some rec) (hjobs : s'.jobs = s.jobs.erase job)
    (hatt : ∀ id, s'.attempts.get? id =
      if id ∈ rec.attempts then none else s.attempts.get? id) : JobLinked s' := by
  have getAtt {id a} (ha : s'.attempts.get? id = some a) : id ∉ rec.attempts ∧ s.attempts.get? id =
      some a := by
    rw [hatt] at ha
    split_ifs at ha with e
    exact ⟨e, ha⟩
  have getJob {j x} (hx : s'.jobs.get? j = some x) := of_get?_erase (hjobs ▸ hx)
  -- an attempt outside the lineage belongs to another job
  have other {id a} (hid : id ∉ rec.attempts) (ha : s.attempts.get? id = some a) : s'.jobs.get?
      a.attempt.job = s.jobs.get? a.attempt.job := by
    rw [hjobs, get?_erase_of_ne]
    rintro rfl
    obtain ⟨x, hx, hmem⟩ := h.lineage ha
    rw [hj] at hx
    cases hx
    exact hid hmem
  have stays {j id a} (hne : j ≠ job) (ha : s.attempts.get? id = some a) (hjob : a.attempt.job = j)
      : s'.attempts.get? id = some a := by
    rw [hatt, if_neg, ha]
    intro hmem
    obtain ⟨b, hb, hbj⟩ := h.lineage_job hj hmem
    rw [ha] at hb
    cases hb
    exact hne (hjob.symm.trans hbj)
  refine ⟨?_, ?_, ?_, ?_⟩
  · intro j x id hx hst
    obtain ⟨hne, hx⟩ := getJob hx
    obtain ⟨a, ha, hjob, hlive⟩ := h.attempting hx hst
    exact ⟨a, stays hne ha hjob, hjob, hlive⟩
  · intro id a ha hlive
    obtain ⟨hid, ha⟩ := getAtt ha
    rw [other hid ha]
    exact h.current ha hlive
  · intro id a ha
    obtain ⟨hid, ha⟩ := getAtt ha
    rw [other hid ha]
    exact h.lineage ha
  · intro j x id hx hid
    obtain ⟨hne, hx⟩ := getJob hx
    obtain ⟨a, ha, hjob⟩ := h.lineage_job hx hid
    exact ⟨a, stays hne ha hjob, hjob⟩

namespace StateMachine

/-- Removing one finished job, if it is there. -/
theorem evictJob_spec {fx : Effects} (h : Consistent fx.st) (job : JobId)
    (hterm : ∀ r, fx.st.jobs.get? job = some r → r.state.isTerminal = true) :
    Consistent (evictJob fx job).st ∧ Swept fx.st (evictJob fx job).st ∧
      (evictJob fx job).st.jobs = fx.st.jobs.erase job := by
  unfold evictJob
  cases hj : fx.st.jobs.get? job with
  | none => exact ⟨h, .refl _, (erase_eq_self hj).symm⟩
  | some rec =>
    simp only [Effects.emit_st]
    let s1 : StateMachine := { fx.st with jobs := fx.st.jobs.erase job }
    have hL1 : Linked s1 [] := h.linked.congr rfl rfl rfl rfl rfl
    -- the attempts of a finished job are finished
    have hends : ∀ id ∈ rec.attempts, ∀ a, s1.attempts.get? id = some a →
        a.attempt.state.isTerminal = true := by
      intro id hid a ha
      obtain ⟨b, hb, hbj⟩ := h.jobs.lineage_job hj hid
      have hab : b = a := Option.some.inj (hb.symm.trans ha)
      subst hab
      cases hl : b.attempt.state.isTerminal with
      | true => rfl
      | false =>
        obtain ⟨x, hx, hst, -⟩ := h.jobs.current hb hl
        rw [hbj, hj] at hx
        cases hx
        have := hterm rec hj
        rw [hst] at this
        cases this
    obtain ⟨hL, hsw, hjobs, hatt⟩ := evictAttempts_spec rec.attempts hL1 hends
    have hb : HoldsBounded fx.st (rec.attempts.foldl evictAttempt s1) :=
      .of_le fun n d => le_of_eq (hsw.held n d)
    refine ⟨⟨hL, ?_, hb.holdsFit h.fit, ?_⟩, ⟨hsw.nodes, hsw.held, hsw.allocations⟩, hjobs⟩
    · exact h.jobs.evict hj hjobs hatt
    · intro n al r hr hacc hnode d
      rw [capacityOf_congr hsw.nodes, hsw.held]
      exact h.conserved n al r (hsw.allocations al r hr) hacc hnode d

theorem evictJobs_spec (l : List JobId) (fx : Effects) (h : Consistent fx.st)
    (hterm : ∀ j ∈ l, ∀ r, fx.st.jobs.get? j = some r → r.state.isTerminal = true) :
    Consistent (l.foldl evictJob fx).st ∧ Swept fx.st (l.foldl evictJob fx).st := by
  induction l generalizing fx with
  | nil => exact ⟨h, .refl _⟩
  | cons x rest ih =>
    obtain ⟨h1, hs1, hj1⟩ := evictJob_spec h x (hterm x (by simp))
    obtain ⟨h2, hs2⟩ := ih (evictJob fx x) h1 (by
      intro j hj r hr
      rw [hj1] at hr
      exact hterm j (List.mem_cons_of_mem _ hj) r (of_get?_erase hr).2)
    exact ⟨h2, hs1.trans hs2⟩

variable {s : StateMachine}

/-! ## Nodes -/

/-- Nothing live is on the node. -/
def Vacant (s : StateMachine) (node : NodeId) : Prop :=
  ∀ al r, s.allocations.get? al = some r → r.allocation.node = node → r.isLive = false

/-- Removing a vacant node, if it is there. -/
theorem evictNode_kept (h : Consistent s) (hv : s.Vacant node) :
    Kept s (s.evictNode node) ∧ (s.evictNode node).allocations = s.allocations := by
  unfold evictNode
  cases hn : s.nodes.get? node with
  | none => exact ⟨h.kept_self, rfl⟩
  | some n =>
    -- no queue key names a vacant node
    have hqueue : (s.accrualQueue.filter fun k _ => (ofLex k).1 ≠ node) = s.accrualQueue := by
      apply ext_get?
      intro k
      rw [get?_filter]
      cases hk : s.accrualQueue.get? k with
      | none => rfl
      | some al =>
        obtain ⟨r, hr, hacc, hrn, -⟩ := h.linked.queue.mp hk
        have hne : (ofLex k).1 ≠ node := by
          rintro rfl
          have := hv al r hr hrn
          simp [isLive, hacc] at this
        simp [hne]
    have hlive : ∀ {al r}, s.allocations.get? al = some r → r.isLive = true →
        node ≠ r.allocation.node := by
      intro al r hr hl e
      rw [hv al r hr e.symm] at hl
      cases hl
    refine ⟨⟨⟨?_, ?_, h.fit, ?_⟩, .of_eq rfl, .of_eq rfl⟩, rfl⟩
    · have hL := h.linked
      refine ⟨hL.attempt_id, hL.allocation_id, hL.group_eq, hL.allocation_of, hL.attempt_of,
        hL.one_live, hL.funding, ?_, hL.seq_lt, hL.seq_inj, ?_⟩
      · simp only [hqueue]
        exact hL.queue
      · intro al r hr hl
        obtain ⟨x, hx⟩ := hL.node_of hr hl
        exact ⟨x, by rw [← hx]; exact get?_erase_of_ne _ (hlive hr hl)⟩
    · exact ⟨h.jobs.attempting, h.jobs.current, h.jobs.lineage, h.jobs.lineage_job⟩
    · intro m al r hr hacc hnode d
      have hne : node ≠ m := by
        rw [← hnode]
        exact hlive hr (by simp [isLive, hacc])
      have hcap : StateMachine.capacityOf { s with
          nodes := s.nodes.erase node
          accrualQueue := s.accrualQueue.filter fun k _ => (ofLex k).1 ≠ node } m d =
          s.capacityOf m d := by
        unfold capacityOf
        simp [get?_erase_of_ne _ hne]
      rw [hcap]
      exact h.conserved m al r hr hacc hnode d

theorem evictNodes_fold (l : List NodeId) {s : StateMachine} (h : Consistent s)
    (hv : ∀ n ∈ l, s.nodes.get? n ≠ none → s.Vacant n) :
    Consistent (l.foldl evictNode s) ∧ (l.foldl evictNode s).allocations = s.allocations := by
  induction l generalizing s with
  | nil => exact ⟨h, rfl⟩
  | cons x rest ih =>
    obtain ⟨h1, ha1, hn1⟩ : Consistent (s.evictNode x) ∧
        (s.evictNode x).allocations = s.allocations ∧
        ∀ n, (s.evictNode x).nodes.get? n ≠ none → s.nodes.get? n ≠ none := by
      cases hx : s.nodes.get? x with
      | none =>
        have heq : s.evictNode x = s := by
          unfold evictNode
          rw [hx]
        rw [heq]
        exact ⟨h, rfl, fun _ h => h⟩
      | some n =>
        obtain ⟨hk, ha⟩ := evictNode_kept h (hv x (by simp) (by simp [hx]))
        refine ⟨hk.consistent, ha, fun m hm => ?_⟩
        unfold evictNode at hm
        simp only [hx, get?_erase] at hm
        split_ifs at hm
        · exact absurd rfl hm
        · exact hm
    obtain ⟨h2, ha2⟩ := ih h1 (by
      intro n hn hne al r hr
      rw [ha1] at hr
      exact hv n (List.mem_cons_of_mem _ hn) (hn1 n hne) al r hr)
    exact ⟨h2, ha2.trans ha1⟩

theorem evictNodes_kept (h : Consistent s) {nodes : List NodeId}
    (hv : ∀ n ∈ nodes, s.nodes.get? n ≠ none → s.Vacant n) : Kept s (nodes.foldl evictNode s) := by
  obtain ⟨h', ha⟩ := evictNodes_fold nodes h hv
  exact ⟨h', .of_eq ha, .of_eq ha⟩

end StateMachine

end Coppice.State
