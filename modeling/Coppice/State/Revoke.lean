/-
  Coppice.State.Revoke

  The revocations of a batch, exactly: in the end the accruals of a node that stay
  have been served, in queue order, with what the node advertises beyond the holds
  that stay.
-/

import Coppice.State.Fill
import Coppice.State.Local

namespace Coppice.State

open Lib Lib.Pour Coppice.Core StateMachine OrdMap List AllocationRecord

/-! ## One revocation -/

/-- What revoking the live allocation `id` does. -/
structure Revokes (fx fx' : Effects) (id : AllocationId) (r : AllocationRecord) : Prop where
  reach : Local r.allocation.node fx.st fx'.st
  /-- what was free and what was freed is handed to the rest of the queue -/
  fills : ∀ d, ∃ a, fx'.st.needsOf d ((fx.st.nodeQueue r.allocation.node).filter (·.2 ≠ id)) =
    fill (fx.st.needsOf d ((fx.st.nodeQueue r.allocation.node).filter (·.2 ≠ id))) a
  others : ∀ al q, al ≠ id → fx.st.allocations.get? al = some q →
    ∃ q', fx'.st.allocations.get? al = some q' ∧ q.Served q'
  held : ∀ n d, fx'.st.heldOn n d ≤ max (fx.st.capacityOf n d) (fx.st.heldOn n d - holdOf n d r)

variable {fx fx' : Effects} {id x : AllocationId} {r : AllocationRecord} {s : StateMachine}
  {ids : List AllocationId} {n : NodeId}

theorem Sound.revokes (at_ : Timestamp) (h : Sound ∅ fx) (hr : fx.st.allocations.get? id = some r)
    (hrl : r.allocation.state ≠ .released) : Revokes fx (Effects.revokeOne at_ fx id) id r := by
  obtain ⟨a, ha, hal, ht⟩ := h.books.linked.tied hr
  have hlive : a.attempt.state.isTerminal = false := by
    rw [← Bool.not_eq_true, (ht.step (by simp)).terminal_iff]
    exact hrl
  obtain ⟨r', fx1, fx2, x, he⟩ := h.books.ends .revoked Duration.zero at_ true ha hlive
  have hrev : Effects.revokeOne at_ fx id =
      fx.terminateAttempt r.allocation.attempt .revoked Duration.zero at_ true := by
    unfold Effects.revokeOne
    rw [hr]
  have hreach : Local r.allocation.node fx.st (Effects.revokeOne at_ fx id).st := by
    rw [hrev]
    refine h.books.terminateAttempt_local _ _ _ _ fun b hb => ?_
    rw [ha] at hb
    cases hb
    exact ht.node.symm
  rw [← hrev] at he
  generalize Effects.revokeOne at_ fx id = fx' at *
  cases (hal ▸ he.allocation).symm.trans hr
  have hget1 al (hne : al ≠ id) : fx1.st.allocations.get? al = fx.st.allocations.get? al :=
    he.allocations_of_ne (hal ▸ hne)
  -- the queue loses the revoked member
  have hqueue1 : fx1.st.nodeQueue r.allocation.node =
      (fx.st.nodeQueue r.allocation.node).filter (·.2 ≠ id) := by
    refine nodeQueue_eq_filter fun e => ?_
    rw [he.books1.linked.mem_queue, h.books.linked.mem_queue, decide_eq_true_eq]
    constructor
    · rintro ⟨p, hp, hpacc, hpn, hps⟩
      have hne : e.2 ≠ id := by
        intro heq
        rw [heq, he.st1, hal] at hp
        simp only [get?_insert_self, Option.some.injEq] at hp
        rw [← hp] at hpacc
        simp [freed] at hpacc
      rw [hget1 _ hne] at hp
      exact ⟨⟨p, hp, hpacc, hpn, hps⟩, hne⟩
    · rintro ⟨⟨p, hp, hrest⟩, hne⟩
      exact ⟨p, by rw [hget1 _ hne, hp], hrest⟩
  obtain ⟨-, -, hset2, -⟩ := he.books1.pledgeIf true r.allocation.node
  rw [← he.second] at hset2
  refine ⟨hreach, fun d => ?_, fun al p hne hp => he.survives (hal ▸ hne) hp, fun n d => ?_⟩
  · have hfill := pledgeNode_fills he.books1 r.allocation.node d
    rw [hqueue1] at hfill
    refine ⟨fx1.st.capacityOf r.allocation.node d - fx1.st.heldOn r.allocation.node d, ?_⟩
    rw [needsOf_congr (s := (fx1.pledgeNode r.allocation.node).st)
      fun e _ => by rw [he.allocations, he.second]; rfl, hfill,
      needsOf_congr fun e hm => hget1 e.2 ?_]
    simpa using (mem_filter.mp hm).2
  · have hup := he.heldOn n d
    have hcap : fx2.st.capacityOf n d = fx.st.capacityOf n d :=
      capacityOf_congr (he.settles1.trans hset2).advances.nodes n d
    have hb := hset2.bounded n d
    have heq : fx'.st.heldOn n d = fx2.st.heldOn n d := heldOn_congr he.allocations n d
    omega

/-! ## All revocations -/

/-- What the listed allocations hold on a node. -/
def revokedHold (s : StateMachine) (ids : List AllocationId) (node : NodeId) (d : Dim) : Nat :=
  (ids.map fun id =>
    match s.allocations.get? id with
    | none => 0
    | some r => if r.allocation.node = node then r.allocation.funded.get d else 0).sum

theorem revokedHold_cons_of_some (hr : s.allocations.get? x = some r) (ids : List AllocationId)
    (n : NodeId) (d : Dim) :
    revokedHold s (x :: ids) n d =
      (if r.allocation.node = n then r.allocation.funded.get d else 0) + revokedHold s ids n d := by
  simp [revokedHold, hr]

theorem revokedHold_cons_of_none (hx : s.allocations.get? x = none) (ids : List AllocationId)
    (n : NodeId) (d : Dim) : revokedHold s (x :: ids) n d = revokedHold s ids n d := by
  simp [revokedHold, hx]

theorem revokedHold_cons (hr : s.allocations.get? x = some r) (hlive : r.isLive = true)
    (ids : List AllocationId) (n : NodeId) (d : Dim) :
    revokedHold s (x :: ids) n d = holdOf n d r + revokedHold s ids n d := by
  simp [revokedHold_cons_of_some hr, holdOf, hlive]

theorem revokedHold_mono {s' : StateMachine} {d : Dim}
    (h : ∀ id ∈ ids, ∀ r, s.allocations.get? id = some r → ∃ r',
      s'.allocations.get? id = some r' ∧ r'.allocation.node = r.allocation.node ∧
        r.allocation.funded.get d ≤ r'.allocation.funded.get d) :
    revokedHold s ids n d ≤ revokedHold s' ids n d := by
  refine sum_le_sum fun id hid => ?_
  cases hr : s.allocations.get? id with
  | none => exact Nat.zero_le _
  | some r =>
    obtain ⟨r', hr', hn, hle⟩ := h id hid r hr
    simp only [hr', hn]
    split_ifs
    · exact hle
    · exact Nat.le_refl 0

/-- What revoking all of `ids` does to everything else. -/
structure RevokesAll (fx fx' : Effects) (ids : List AllocationId) : Prop where
  /-- accruals that stay are served in queue order -/
  fills : ∀ (keep : Nat × AllocationId → Bool), (∀ e, e.2 ∈ ids → keep e = false) → ∀ n d,
    ∃ a, fx'.st.needsOf d ((fx.st.nodeQueue n).filter keep) =
      fill (fx.st.needsOf d ((fx.st.nodeQueue n).filter keep)) a
  others : ∀ al q, al ∉ ids → fx.st.allocations.get? al = some q →
    ∃ q', fx'.st.allocations.get? al = some q' ∧ q.Served q'
  held : ∀ n d, fx'.st.heldOn n d ≤
    max (fx.st.capacityOf n d) (fx.st.heldOn n d - revokedHold fx.st ids n d)

/-- Revocation reaches the queue of its own node; elsewhere nothing is handed out. -/
theorem Revokes.fills_all (h : Revokes fx fx' id r) (hL : Linked fx.st [])
    {keep : Nat × AllocationId → Bool} (hkeep : ∀ e, e.2 = id → keep e = false) (n : NodeId)
    (d : Dim) :
    ∃ a, fx'.st.needsOf d ((fx.st.nodeQueue n).filter keep) =
      fill (fx.st.needsOf d ((fx.st.nodeQueue n).filter keep)) a := by
  by_cases hn : r.allocation.node = n
  · subst hn
    obtain ⟨a, ha⟩ := h.fills d
    obtain ⟨b, hb⟩ := fill_restrict keep ha
    have hsub : ((fx.st.nodeQueue r.allocation.node).filter (·.2 ≠ id)).filter keep =
        (fx.st.nodeQueue r.allocation.node).filter keep := by
      rw [filter_filter]
      refine filter_congr fun e _ => ?_
      cases hk : keep e with
      | false => simp
      | true =>
        have hne : e.2 ≠ id := by
          intro he
          rw [hkeep e he] at hk
          cases hk
        simp [hne]
    rw [hsub] at hb
    exact ⟨b, hb⟩
  · refine ⟨0, ?_⟩
    rw [fill_zero]
    refine needsOf_congr (fun e he => ?_) d
    obtain ⟨q, hq, -, hqn, -⟩ := hL.mem_queue.mp (mem_of_mem_filter he)
    rw [hq]
    exact h.reach.allocation_eq hq (by rw [hqn]; exact Ne.symm hn)

/-- An allocation that stays keeps what it was given. -/
theorem RevokesAll.funded_le (h : RevokesAll fx fx' ids) (hL : Linked fx.st []) {al : AllocationId}
    {q q' : AllocationRecord} (hal : al ∉ ids) (hq : fx.st.allocations.get? al = some q)
    (hq' : fx'.st.allocations.get? al = some q') (d : Dim) :
    q.allocation.funded.get d ≤ q'.allocation.funded.get d := by
  obtain ⟨p, hp, hsame, hst⟩ := h.others al q hal hq
  rw [hq'] at hp
  cases hp
  rcases hst with rfl | ⟨hacc, -⟩
  · exact Nat.le_refl _
  · -- its need did not grow
    obtain ⟨a, ha⟩ := h.fills (fun e => !ids.contains e.2) (by simp) q.allocation.node d
    have hmem : (q.seq, al) ∈ (fx.st.nodeQueue q.allocation.node).filter
        fun e => !ids.contains e.2 := by
      rw [mem_filter]
      exact ⟨hL.mem_queue.mpr ⟨q, hq, hacc, rfl, rfl⟩, by simpa using hal⟩
    have hle := fill_le ha _ hmem
    rw [needAt_of_some hq, needAt_of_some hq', q.need_get, q'.need_get, hsame.requested] at hle
    have h1 := (hL.funding hq).le d
    omega

theorem Revokes.all (h : Revokes fx fx' id r) (hL : Linked fx.st [])
    (hr : fx.st.allocations.get? id = some r) (hlive : r.isLive = true) :
    RevokesAll fx fx' [id] := by
  refine ⟨fun keep hkeep n d => h.fills_all hL (fun e he => hkeep e (by simp [he])) n d,
    fun al q hal hq => h.others al q (by simpa using hal) hq, fun n d => ?_⟩
  rw [revokedHold_cons hr hlive]
  simpa [revokedHold] using h.held n d

/-- A revocation and the revocations after it. -/
theorem RevokesAll.cons {fx1 : Effects} (h1 : RevokesAll fx fx1 [id]) (h' : RevokesAll fx1 fx' ids)
    (hL : Linked fx.st []) (hL1 : Linked fx1.st []) (hnodes : fx1.st.nodes = fx.st.nodes)
    (hno : NoNewAccrual fx.st fx1.st) (hr : fx.st.allocations.get? id = some r)
    (hlive : r.isLive = true) (hnot : id ∉ ids) : RevokesAll fx fx' (id :: ids) := by
  refine ⟨fun keep hkeep n d => ?_, fun al q hal hq => ?_, fun n d => ?_⟩
  · obtain ⟨a, ha⟩ := h1.fills keep (fun e he => hkeep e (by simp_all)) n d
    obtain ⟨b, hb⟩ := h'.fills keep (fun e he => hkeep e (by simp [he])) n d
    refine ⟨a + b, ?_⟩
    rw [← fill_fill, ← ha]
    -- members that were funded meanwhile have left the queue and need nothing
    have hqueue : fx1.st.nodeQueue n =
        (fx.st.nodeQueue n).filter fun e => (fx1.st.nodeQueue n).contains e := by
      refine nodeQueue_eq_filter fun e => ?_
      rw [contains_iff_mem]
      refine ⟨fun he => ⟨?_, he⟩, fun he => he.2⟩
      obtain ⟨q, hq, hacc, hn, hseq⟩ := hL1.mem_queue.mp he
      obtain ⟨q0, hq0, hacc0, hsame⟩ := hno e.2 q hq hacc
      exact hL.mem_queue.mpr ⟨q0, hq0, hacc0, hsame.node ▸ hn, hsame.seq ▸ hseq⟩
    have hsub : (fx1.st.nodeQueue n).filter keep = ((fx.st.nodeQueue n).filter keep).filter
        fun e => (fx1.st.nodeQueue n).contains e := by
      conv_lhs => rw [hqueue]
      rw [filter_comm]
    rw [hsub] at hb
    refine (fill_filter hb.symm fun e he hgone => ?_).symm
    obtain ⟨hmem, hk⟩ := mem_filter.mp he
    obtain ⟨q, hq, hacc, hn, hseq⟩ := hL.mem_queue.mp hmem
    have hne : e.2 ∉ id :: ids := by
      intro hin
      rw [hkeep e hin] at hk
      cases hk
    rw [mem_cons, not_or] at hne
    obtain ⟨q1, hq1, hsame, hst⟩ := h1.others e.2 q (by simpa using hne.1) hq
    have hfunded : q1.allocation.state = .funded := by
      have hout : q1.allocation.state ≠ .accruing := by
        intro hacc1
        have hin := hL1.mem_queue.mpr ⟨q1, hq1, hacc1, hsame.node.trans hn, hsame.seq.trans hseq⟩
        simp [hin] at hgone
      rcases hst with rfl | ⟨-, hst | hst⟩
      · exact absurd hacc hout
      · exact absurd hst hout
      · exact hst
    have hzero : (fx1.st.needAt e.2).get d = 0 := by
      have hmet := (hL1.funding hq1).funded hfunded
      rw [needAt_of_some hq1, q1.need_get, hmet, Nat.sub_self]
    obtain ⟨q', hq', -, hst'⟩ := h'.others e.2 q1 hne.2 hq1
    have hsame' : fx'.st.allocations.get? e.2 = fx1.st.allocations.get? e.2 := by
      rcases hst' with rfl | ⟨hacc', -⟩
      · rw [hq', hq1]
      · rw [hfunded] at hacc'
        cases hacc'
    exact ⟨hzero, by rw [needAt_congr hsame', hzero]⟩
  · rw [mem_cons, not_or] at hal
    obtain ⟨q1, hq1, hsame1, hst1⟩ := h1.others al q (by simpa using hal.1) hq
    obtain ⟨q', hq', hsame', hst'⟩ := h'.others al q1 hal.2 hq1
    refine ⟨q', hq', hsame1.trans hsame', ?_⟩
    rcases hst' with rfl | ⟨hacc1, hst'⟩
    · exact hst1
    · rcases hst1 with rfl | ⟨hacc, -⟩
      · exact .inr ⟨hacc1, hst'⟩
      · exact .inr ⟨hacc, hst'⟩
  · have hheld1 := h1.held n d
    have hheld' := h'.held n d
    have hmono : revokedHold fx.st ids n d ≤ revokedHold fx1.st ids n d := by
      refine revokedHold_mono fun al hal q hq => ?_
      have hne : al ∉ [id] := by
        rw [mem_singleton]
        exact fun e => hnot (e ▸ hal)
      obtain ⟨q1, hq1, hsame, -⟩ := h1.others al q hne hq
      exact ⟨q1, hq1, hsame.node, h1.funded_le hL hne hq hq1 d⟩
    have hcap := capacityOf_congr hnodes n d
    have hsum := revokedHold_cons hr hlive ids n d
    have hsum1 := revokedHold_cons hr hlive [] n d
    have hnil : revokedHold fx.st [] n d = 0 := rfl
    omega

theorem Sound.revokesAll (at_ : Timestamp) (ids : List AllocationId) (h : Sound ∅ fx)
    (hnd : ids.Nodup)
    (hlive : ∀ id ∈ ids, ∃ r, fx.st.allocations.get? id = some r ∧ r.isLive = true) :
    RevokesAll fx (ids.foldl (Effects.revokeOne at_) fx) ids := by
  induction ids generalizing fx with
  | nil =>
    refine ⟨fun keep _ n d => ⟨0, by rw [fill_zero]; rfl⟩, fun al q _ hq =>
      ⟨q, hq, .refl q, .inl rfl⟩, fun n d => ?_⟩
    simp [revokedHold]
  | cons x rest ih =>
    obtain ⟨r, hr, hrl⟩ := hlive x (by simp)
    obtain ⟨hnot, hnd'⟩ := nodup_cons.mp hnd
    have hone := (h.revokes at_ hr (isLive_iff.mp hrl)).all h.books.linked hr hrl
    obtain ⟨h1, hset1, -⟩ := h.revokeOne at_ x
    refine hone.cons (ih h1 hnd' fun id hid => ?_) h.books.linked h1.books.linked
      hset1.advances.nodes hset1.advances.noNewAccrual hr hrl hnot
    obtain ⟨q, hq, hql⟩ := hlive id (mem_cons_of_mem _ hid)
    have hne : id ∉ [x] := by
      rw [mem_singleton]
      exact fun e => hnot (e ▸ hid)
    obtain ⟨q', hq', -, hst⟩ := hone.others id q hne hq
    refine ⟨q', hq', ?_⟩
    rcases hst with rfl | ⟨-, hst | hst⟩
    · exact hql
    · simp [isLive, hst]
    · simp [isLive, hst]

/-! ## What the staying accruals get -/

/-- The queue of a node without the allocations that are revoked. -/
def StateMachine.staying (s : StateMachine) (ids : List AllocationId) (n : NodeId) :
    List (Nat × AllocationId) :=
  (s.nodeQueue n).filter fun e => !ids.contains e.2

/-- What a node advertises beyond the holds that are not revoked. -/
def StateMachine.room (s : StateMachine) (ids : List AllocationId) (n : NodeId) (d : Dim) : Nat :=
  s.capacityOf n d - (s.heldOn n d - revokedHold s ids n d)

theorem Linked.mem_staying {t : StateMachine} (h : Linked t []) {e : Nat × AllocationId} :
    e ∈ t.staying ids n ↔ e.2 ∉ ids ∧ ∃ r, t.allocations.get? e.2 = some r ∧
      r.allocation.state = .accruing ∧ r.allocation.node = n ∧ r.seq = e.1 := by
  rw [staying, mem_filter, h.mem_queue]
  simp only [Bool.not_eq_true', contains_eq_mem, decide_eq_false_iff_not]
  exact and_comm

section

variable (hnd : ids.Nodup)
  (hlive : ∀ id ∈ ids, ∃ r, s.allocations.get? id = some r ∧ r.isLive = true) (n : NodeId) (d : Dim)

include hnd hlive

/-- The revoked holds are part of what the node holds. -/
theorem revokedHold_eq_sumBy : revokedHold s ids n d =
      s.allocations.sumBy fun al r => if al ∈ ids then holdOf n d r else 0 := by
  rw [sumBy_eq_sum_map hnd fun al r _ hne => ?_, revokedHold]
  · congr 1
    refine map_congr_left fun id hid => ?_
    obtain ⟨r, hr, hrl⟩ := hlive id hid
    simp [hr, hid, holdOf, hrl]
  · by_contra hnot
    exact hne (if_neg hnot)

theorem revokedHold_le_heldOn : revokedHold s ids n d ≤ s.heldOn n d := by
  have hsplit : s.heldOn n d = s.allocations.sumBy (fun al r =>
      (if al ∈ ids then holdOf n d r else 0) + if al ∈ ids then 0 else holdOf n d r) := by
    refine sumBy_congr fun al r _ => ?_
    split_ifs
    · rfl
    · exact (Nat.zero_add _).symm
  rw [hsplit, sumBy_add, ← revokedHold_eq_sumBy hnd hlive]
  exact Nat.le_add_right _ _

end

/-- The needs of the queue members of a node, as a sum over the allocations. -/
theorem Linked.sum_needsOf {t : StateMachine} (h : Linked s []) {l : List (Nat × AllocationId)}
    (hl : l.Sublist (s.nodeQueue n)) (d : Dim) :
    (t.needsOf d l).sum =
      t.allocations.sumBy fun al r => if al ∈ l.map Prod.snd then r.need.get d else 0 := by
  have hnd : (l.map Prod.snd).Nodup := (h.queued n).nodup.sublist (hl.map _)
  rw [sumBy_eq_sum_map hnd fun al r _ hne => ?_]
  · rw [needsOf, map_map]
    congr 1
    refine map_congr_left fun e he => ?_
    have hmem : e.2 ∈ l.map Prod.snd := mem_map_of_mem he
    cases hr : t.allocations.get? e.2 with
    | none =>
      simp [needAt, hr]
    | some r =>
      simp only [Function.comp_apply, hr, Option.elim_some, if_pos hmem]
      rw [needAt_of_some hr]
  · by_contra hnot
    exact hne (if_neg hnot)

/-- Revoking moves amounts between holds and needs of what stays, and only drops
    the holds of what goes. -/
theorem RevokesAll.balance (h : RevokesAll fx fx' ids) (hL : Linked fx.st [])
    (hL' : Linked fx'.st [])
    (hkeys : ∀ al, fx'.st.allocations.get? al = none ↔ fx.st.allocations.get? al = none)
    (hrel : ∀ id ∈ ids, ∀ r, fx'.st.allocations.get? id = some r →
      r.allocation.state = .released) (hnd : ids.Nodup)
    (hlive : ∀ id ∈ ids, ∃ r, fx.st.allocations.get? id = some r ∧ r.isLive = true) (n : NodeId)
    (d : Dim) :
    fx'.st.heldOn n d + (fx'.st.needsOf d (fx.st.staying ids n)).sum + revokedHold fx.st ids n d =
      fx.st.heldOn n d + (fx.st.needsOf d (fx.st.staying ids n)).sum := by
  have hsub : (fx.st.staying ids n).Sublist (fx.st.nodeQueue n) := filter_sublist
  rw [hL.sum_needsOf hsub, hL.sum_needsOf hsub, revokedHold_eq_sumBy hnd hlive,
    heldOn, heldOn, ← sumBy_add, ← sumBy_add]
  have hmem {al : AllocationId} : al ∈ (fx.st.staying ids n).map Prod.snd ↔ al ∉ ids ∧ ∃ r,
      fx.st.allocations.get? al = some r ∧ r.allocation.state = .accruing ∧ r.allocation.node = n :=
      by
    rw [mem_map]
    constructor
    · rintro ⟨e, he, rfl⟩
      obtain ⟨hout, r, hr, hacc, hn, -⟩ := hL.mem_staying.mp he
      exact ⟨hout, r, hr, hacc, hn⟩
    · rintro ⟨hout, r, hr, hacc, hn⟩
      exact ⟨(r.seq, al), hL.mem_staying.mpr ⟨hout, r, hr, hacc, hn, rfl⟩, rfl⟩
  have hafter : (fx'.st.allocations.sumBy fun al r => holdOf n d r +
        if al ∈ (fx.st.staying ids n).map Prod.snd then r.need.get d else 0) =
      fx.st.allocations.sumBy fun al r => if al ∈ ids then 0 else holdOf n d r +
        if al ∈ (fx.st.staying ids n).map Prod.snd then r.need.get d else 0 := by
    refine sumBy_congr_of_keys hkeys fun al r' r hr' hr => ?_
    by_cases hid : al ∈ ids
    · have hgone : holdOf n d r' = 0 := by
        simp [holdOf, isLive, hrel al hid r' hr']
      have hout : al ∉ (fx.st.staying ids n).map Prod.snd := fun hin => (hmem.mp hin).1 hid
      rw [if_pos hid, if_neg hout, hgone]
    · rw [if_neg hid]
      obtain ⟨q, hq, hsame, hst⟩ := h.others al r hid hr
      rw [hr'] at hq
      cases hq
      rcases hst with rfl | ⟨hacc, hst⟩
      · rfl
      · have hrl : r.isLive = true := by simp [isLive, hacc]
        have hrl' : r'.isLive = true := by
          rcases hst with hst | hst <;> simp [isLive, hst]
        by_cases hn : r.allocation.node = n
        · have hin : al ∈ (fx.st.staying ids n).map Prod.snd := hmem.mpr ⟨hid, r, hr, hacc, hn⟩
          have hle := (hL.funding hr).le d
          have hle' := (hL'.funding hr').le d
          rw [if_pos hin, if_pos hin, r.need_get, r'.need_get, hsame.requested]
          rw [hsame.requested] at hle'
          simp only [holdOf, hsame.node, hn, hrl, hrl', and_self, if_true]
          omega
        · have hout : al ∉ (fx.st.staying ids n).map Prod.snd := by
            intro hin
            obtain ⟨-, q, hq, -, hqn⟩ := hmem.mp hin
            rw [hr] at hq
            cases hq
            exact hn hqn
          rw [if_neg hout, if_neg hout]
          simp [holdOf, hsame.node, hn]
  rw [hafter, ← sumBy_add]
  refine sumBy_congr fun al r _ => ?_
  split_ifs with hid hin
  · exact absurd hid (hmem.mp hin).1
  · rw [Nat.zero_add, Nat.add_zero]
  · rfl
  · rfl

/-- After all revocations the accruals that stay have been served with the room
    their node has, and what they do not need is free. -/
theorem Sound.revokeAll_exact (at_ : Timestamp) (h : Sound ∅ fx) (hnd : ids.Nodup)
    (hlive : ∀ id ∈ ids, ∃ r, fx.st.allocations.get? id = some r ∧ r.isLive = true) (n : NodeId)
    (d : Dim) :
    (ids.foldl (Effects.revokeOne at_) fx).st.needsOf d (fx.st.staying ids n) =
        fill (fx.st.needsOf d (fx.st.staying ids n)) (fx.st.room ids n d) ∧
      (ids.foldl (Effects.revokeOne at_) fx).st.capacityOf n d -
          (ids.foldl (Effects.revokeOne at_) fx).st.heldOn n d =
        fx.st.room ids n d - (fx.st.needsOf d (fx.st.staying ids n)).sum := by
  have hall := h.revokesAll at_ ids hnd hlive
  obtain ⟨h', hset, hrel⟩ := h.revokeAll at_ ids
  generalize ids.foldl (Effects.revokeOne at_) fx = fx' at hall h' hset hrel
  have hL := h.books.linked
  have hL' := h'.books.linked
  have hbalance := hall.balance hL hL' (fun al => hset.advances.allocations.none_iff) hrel hnd
    hlive n d
  have hpart := revokedHold_le_heldOn hnd hlive n d
  have hheld := hall.held n d
  have hcap := capacityOf_congr hset.advances.nodes n d
  obtain ⟨x, hx⟩ := hall.fills (fun e => !ids.contains e.2) (by simp) n d
  have hfilled : fx'.st.needsOf d (fx.st.staying ids n) =
      fill (fx.st.needsOf d (fx.st.staying ids n)) x := hx
  have hsum : (fx'.st.needsOf d (fx.st.staying ids n)).sum =
      (fx.st.needsOf d (fx.st.staying ids n)).sum - x := by
    rw [hfilled, sum_fill]
  -- a need that is left keeps the node full
  have hfull : (fx'.st.needsOf d (fx.st.staying ids n)).sum ≠ 0 →
      fx'.st.capacityOf n d ≤ fx'.st.heldOn n d := by
    intro hne
    by_contra hfree
    refine hne (sum_eq_zero fun w hw => ?_)
    obtain ⟨e, he, rfl⟩ := mem_map.mp hw
    obtain ⟨hout, q, hq, hacc, hn, -⟩ := hL.mem_staying.mp he
    obtain ⟨q', hq', hsame, hst⟩ := hall.others e.2 q hout hq
    rw [needAt_of_some hq', q'.need_get]
    have hst' : q'.allocation.state = .accruing ∨ q'.allocation.state = .funded := by
      rcases hst with rfl | ⟨-, hst⟩
      · exact .inl hacc
      · exact hst
    rcases hst' with hst' | hst'
    · rcases h'.conserved n (Set.notMem_empty n) e.2 q' hq' hst' (hsame.node.trans hn) d with
        hc | hc
      · exact absurd hc hfree
      · omega
    · rw [(hL'.funding hq').funded hst', Nat.sub_self]
  have hmin : min x (fx.st.needsOf d (fx.st.staying ids n)).sum =
      min (fx.st.room ids n d) (fx.st.needsOf d (fx.st.staying ids n)).sum := by
    unfold room
    omega
  refine ⟨hfilled.trans (fill_congr hmin), ?_⟩
  unfold room at hmin ⊢
  omega

end Coppice.State
