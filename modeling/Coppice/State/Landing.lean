/-
  Coppice.State.Landing

  The effects of a batch: they serve the demands from the room that the
  revocations leave, so a demand is funded when it is met and accrues when it is
  not.
-/

import Coppice.State.Demands

namespace Coppice.State

open Lib Lib.Pour Coppice.Core StateMachine List OrdMap Effects Resources Serve

/-- The state after serving `l`: what the batch does not touch is as in `s`, and
    a demand is funded when it is met and accrues when it is not. -/
structure Lands (pool : NodeId → Dim → Nat) (s : StateMachine) (touched : List NodeId)
    (l : List Demand) (t : StateMachine) : Prop where
  free : ∀ n ∈ touched, ∀ d, t.capacityOf n d - t.heldOn n d = drawn pool l n d
  accrues : ∀ n j, AccruesOn t n j ↔ (n ∉ touched ∧ AccruesOn s n j) ∨
    ∃ x, (x, false) ∈ served pool l ∧ x.node = n ∧ x.job = j
  verdict : ∀ x b, (x, b) ∈ served pool l → ∃ r, t.allocations.get? x.allocation = some r ∧
    r.allocation.state = if b = true then .funded else .accruing

section Revocations

variable {s : StateMachine} {ids : List AllocationId} {fx0 : Effects}

/-- What the revocations of an accepted batch lead to. -/
structure Revoked (s : StateMachine) (ids : List AllocationId) (fx₀ : Effects) : Prop where
  linked : Linked s []
  linked' : Linked fx₀.st []
  conserved : ∀ n, ConservedOn s n
  nodes : fx₀.st.nodes = s.nodes
  noNew : NoNewAccrual s fx₀.st
  released : ∀ id ∈ ids, ∀ r, fx₀.st.allocations.get? id = some r → r.allocation.state = .released
  others : ∀ al q, al ∉ ids → s.allocations.get? al = some q →
    ∃ q', fx₀.st.allocations.get? al = some q' ∧ q.Served q'
  fills : ∀ n d, fx₀.st.needsOf d (s.staying ids n) =
    fill (s.needsOf d (s.staying ids n)) (s.room ids n d)
  free : ∀ n d, fx₀.st.capacityOf n d - fx₀.st.heldOn n d =
    s.room ids n d - (s.needsOf d (s.staying ids n)).sum
  part : ∀ n d, revokedHold s ids n d ≤ s.heldOn n d

theorem Consistent.revoked (h : Consistent s) (at_ : Timestamp) (hnd : ids.Nodup)
    (hlive : ∀ id ∈ ids, ∃ r, s.allocations.get? id = some r ∧ r.allocation.state = .accruing) :
    Revoked s ids (ids.foldl (revokeOne at_) ⟨s, [], some s.usedCapacityMemo⟩) := by
  have hS := StateMachine.Consistent.batchStart h
  have hlive' : ∀ id ∈ ids, ∃ r, s.allocations.get? id = some r ∧ r.isLive = true := by
    intro id hid
    obtain ⟨r, hr, hacc⟩ := hlive id hid
    exact ⟨r, hr, by simp [AllocationRecord.isLive, hacc]⟩
  obtain ⟨hS0, hset, hrel⟩ := hS.revokeAll at_ ids
  have hexact := fun n d => hS.revokeAll_exact at_ hnd hlive' n d
  exact ⟨h.linked, hS0.books.linked, h.conserved, hset.advances.nodes, hset.advances.noNewAccrual,
    hrel, (hS.revokesAll at_ ids hnd hlive').others, fun n d => (hexact n d).1,
    fun n d => (hexact n d).2, fun n d => revokedHold_le_heldOn hnd hlive' n d⟩

namespace Revoked

variable {n : NodeId} {x : Demand}

section

variable (h : Revoked s ids fx0)

include h

/-- A demand that stays is met when the revocations leave it without a need. -/
theorem mem_served {b : Bool} :
    (x, b) ∈ served (s.room ids) (s.waits ids n) ↔
      x ∈ s.waits ids n ∧ b = decide (∀ d, (fx0.st.needAt x.allocation).get d = 0) := by
  have hfill d : ((s.waits ids n).map fun x => (fx0.st.needAt x.allocation).get d) = fill ((s.waits
      ids n).map fun x => x.amount d) (s.room ids n d) := by
    rw [waits, map_map, map_map]
    exact h.fills n d
  exact mem_serve_of_fill (node_of_mem_waits n) hfill b

/-- The allocation of a demand that stays goes on accruing while it needs
    something. -/
theorem verdict {b : Bool} (hx : (x, b) ∈ served (s.room ids) (s.waits ids n)) :
    ∃ r, fx0.st.allocations.get? x.allocation = some r ∧ r.allocation.node = n ∧
      r.allocation.job = x.job ∧ r.allocation.state = if b = true then .funded else .accruing := by
  obtain ⟨hmem, rfl⟩ := h.mem_served.mp hx
  obtain ⟨hnot, q, hq, hacc, hn, hxe⟩ := h.linked.mem_waits.mp hmem
  obtain ⟨q', hq', hsame, hst⟩ := h.others x.allocation q hnot hq
  have hjob : x.job = q.allocation.job := by rw [hxe]
  refine ⟨q', hq', hsame.node.trans hn, hsame.job.trans hjob.symm, ?_⟩
  have hfund := h.linked'.funding hq'
  have hneed : (∀ d, (fx0.st.needAt x.allocation).get d = 0) ↔
      q'.allocation.funded = q'.allocation.requested := by
    rw [needAt_of_some hq']
    constructor
    · intro hzero
      refine ext_get fun d => ?_
      have hd := hzero d
      have hle := hfund.le d
      rw [q'.need_get] at hd
      omega
    · intro heq d
      rw [q'.need_get, heq, Nat.sub_self]
  have hstate : q'.allocation.state = .accruing ∨ q'.allocation.state = .funded := by
    rcases hst with rfl | ⟨-, hst⟩
    · exact .inl hacc
    · exact hst
  rcases hstate with hst | hst
  · rw [decide_eq_false fun hall => hfund.accruing hst (hneed.mp hall), hst]
    rfl
  · have hall := hneed.mpr (by rw [hfund.funded hst])
    rw [decide_eq_true hall, hst]
    rfl

/-- What accrues after the revocations is what stays unmet. -/
theorem accruesOn {j : JobId} :
    AccruesOn fx0.st n j ↔ ∃ x, (x, false) ∈ served (s.room ids) (s.waits ids n) ∧ x.job = j := by
  constructor
  · rintro ⟨al, q', hq', hacc', hn, hj⟩
    have hal : al ∉ ids := by
      intro hid
      rw [h.released al hid q' hq'] at hacc'
      cases hacc'
    obtain ⟨q, hq, hacc, hsame⟩ := h.noNew al q' hq' hacc'
    have hx : (⟨al, n, q.allocation.job, q.need⟩ : Demand) ∈ s.waits ids n :=
      h.linked.mem_waits.mpr ⟨hal, q, hq, hacc, hsame.node.symm.trans hn, rfl⟩
    obtain ⟨b, hb⟩ := exists_mem_serve (s.room ids) hx
    refine ⟨⟨al, n, q.allocation.job, q.need⟩, ?_, hsame.job.symm.trans hj⟩
    obtain ⟨r, hr, -, -, hst⟩ := h.verdict hb
    rw [hq'] at hr
    cases hr
    cases b with
    | false => exact hb
    | true =>
      rw [hacc'] at hst
      cases hst
  · rintro ⟨x, hx, hj⟩
    obtain ⟨r, hr, hn, hjob, hst⟩ := h.verdict hx
    exact ⟨x.allocation, r, hr, hst, hn, hjob.trans hj⟩

/-- On a node without revocations nothing is met. -/
theorem unmet_of_untouched
    (hn : ∀ id ∈ ids, ∀ r, s.allocations.get? id = some r → r.allocation.node ≠ n)
    (hx : x ∈ s.waits ids n) : (x, false) ∈ served (s.room ids) (s.waits ids n) := by
  obtain ⟨-, q, hq, hacc, hqn, -⟩ := h.linked.mem_waits.mp hx
  have hneed := (h.linked.funding hq).accruing hacc
  -- the dimension it lacks is full
  have hlack : ∃ d, q.allocation.funded.get d < q.allocation.requested.get d := by
    by_contra hnone
    push Not at hnone
    exact hneed (ext_get fun d => le_antisymm ((h.linked.funding hq).le d) (hnone d))
  obtain ⟨d, hd⟩ := hlack
  have hzero : revokedHold s ids n d = 0 := by
    unfold revokedHold
    rw [sum_eq_zero_iff]
    intro x hx
    obtain ⟨id, hid, rfl⟩ := mem_map.mp hx
    cases hr : s.allocations.get? id with
    | none => rfl
    | some r => simp only [if_neg (hn id hid r hr)]
  have hroom : s.room ids n d = 0 := by
    rcases h.conserved n x.allocation q hq hacc hqn d with hc | hc
    · unfold room
      omega
    · omega
  have hsame := h.fills n d
  rw [hroom, fill_zero] at hsame
  refine h.mem_served.mpr ⟨hx, (decide_eq_false fun hall => ?_).symm⟩
  obtain ⟨e, he, rfl⟩ := mem_map.mp hx
  have hd' := hall d
  simp only [demandOf] at hd' hq
  rw [map_inj_left.mp hsame e he, needAt_of_some hq, q.need_get] at hd'
  omega

/-- The state after the revocations. -/
theorem lands {touched : List NodeId} (hnd : touched.Nodup)
    (hall : ∀ id ∈ ids, ∀ r, s.allocations.get? id = some r → r.allocation.node ∈ touched) :
    Lands (s.room ids) s touched (touched.flatMap (s.waits ids)) fx0.st := by
  have hmem : ∀ e : Demand × Bool, e ∈ served (s.room ids) (touched.flatMap (s.waits ids)) ↔
      ∃ n ∈ touched, e ∈ served (s.room ids) (s.waits ids n) := fun _ =>
    mem_serve_flatMap (s.room ids) hnd node_of_mem_waits
  refine ⟨fun n hn d => ?_, fun n j => ?_, fun x b hx => ?_⟩
  · have hown : (s.waits ids n).filter (fun x => x.node = n) = s.waits ids n :=
      filter_eq_self.mpr fun x hx => by simpa using node_of_mem_waits n x hx
    rw [h.free, drawn, foldl_draw_flatMap _ hnd node_of_mem_waits hn,
      foldl_draw, hown, waits, map_map]
    rfl
  · rw [h.accruesOn]
    constructor
    · rintro ⟨x, hx, hj⟩
      have hxm := mem_of_mem_serve hx
      by_cases hn : n ∈ touched
      · exact .inr ⟨x, (hmem _).mpr ⟨n, hn, hx⟩, node_of_mem_waits n x hxm, hj⟩
      · obtain ⟨-, r, hr, hacc, hrn, hxe⟩ := h.linked.mem_waits.mp hxm
        rw [hxe] at hj
        exact .inl ⟨hn, x.allocation, r, hr, hacc, hrn, hj⟩
    · rintro (⟨hn, al, r, hr, hacc, hrn, hj⟩ | ⟨x, hx, hxn, hj⟩)
      · have hal : al ∉ ids := fun hid => hn (hrn ▸ hall al hid r hr)
        have hx : (⟨al, n, r.allocation.job, r.need⟩ : Demand) ∈ s.waits ids n :=
          h.linked.mem_waits.mpr ⟨hal, r, hr, hacc, hrn, rfl⟩
        refine ⟨⟨al, n, r.allocation.job, r.need⟩, h.unmet_of_untouched ?_ hx, hj⟩
        intro id hid q hq hqn
        exact hn (hqn ▸ hall id hid q hq)
      · obtain ⟨m, -, hx⟩ := (hmem _).mp hx
        have hm := node_of_mem_waits m x (mem_of_mem_serve hx)
        rw [← hm, hxn] at hx
        exact ⟨x, hx, hj⟩
  · obtain ⟨n, -, hx⟩ := (hmem _).mp hx
    obtain ⟨r, hr, -, -, hst⟩ := h.verdict hx
    exact ⟨r, hr, hst⟩

end

end Revoked

end Revocations

variable {fx fx' : Effects} {p : Placement} {spec : AllocationSpec}

section

variable (hs : Seats fx fx' p spec) (hfresh : fx.st.allocations.get? spec.id = none) (n : NodeId)

include hs hfresh

/-- What accrues after a seat. -/
theorem Seats.accruesOn (j : JobId) :
    AccruesOn fx'.st n j ↔ AccruesOn fx.st n j ∨
      (spec.node = n ∧ p.job = j ∧
        (fx.st.freeCapacity spec.node fx.used).componentMin spec.requested ≠ spec.requested) := by
  have hstate : (fx.seatedAllocation p spec).allocation.state = .accruing ↔
      (fx.st.freeCapacity spec.node fx.used).componentMin spec.requested ≠ spec.requested := by
    simp only [seatedAllocation]
    split_ifs with h <;> simp [h]
  constructor
  · rintro ⟨al, r, hr, hacc, hn, hj⟩
    rw [hs.allocations, get?_insert] at hr
    split_ifs at hr with e
    · cases hr
      exact .inr ⟨hn, hj, hstate.mp hacc⟩
    · exact .inl ⟨al, r, hr, hacc, hn, hj⟩
  · rintro (⟨al, r, hr, hrest⟩ | ⟨hn, hj, hne⟩)
    · refine ⟨al, r, ?_, hrest⟩
      rw [hs.allocations, get?_insert_of_ne _ _ fun e => by simp [← e, hfresh] at hr, hr]
    · exact ⟨spec.id, fx.seatedAllocation p spec, by rw [hs.allocations, get?_insert_self],
        hstate.mpr hne, hn, hj⟩

/-- What a node holds after a seat. -/
theorem Seats.heldOn (d : Dim) :
    fx'.st.heldOn n d = (if spec.node = n then
      ((fx.st.freeCapacity spec.node fx.used).componentMin spec.requested).get d else 0) +
        fx.st.heldOn n d := by
  rw [heldOn_insert hfresh hs.allocations]
  have hlive : (fx.seatedAllocation p spec).isLive = true := by
    simp only [AllocationRecord.isLive, seatedAllocation]
    split_ifs <;> rfl
  simp only [holdOf, hlive, and_true]
  rfl

end

/-- Seating a placement serves its demand. -/
theorem Lands.seat {pool : NodeId → Dim → Nat} {s : StateMachine} {touched : List NodeId}
    {l : List Demand} (h : Lands pool s touched l fx.st) (hS : Sound ∅ fx) (hf : Fresh fx p spec j)
    (hs : Seats fx fx' p spec) (htouched : spec.node ∈ touched) :
    Lands pool s touched (l ++ p.demands) fx'.st := by
  have hdemands : p.demands = [⟨spec.id, spec.node, p.job, spec.requested⟩] := by
    simp [Placement.demands, hf.one]
  have hreal : ∀ d, (fx.st.freeCapacity spec.node fx.used).get d = drawn pool l spec.node d :=
    fun d => (freeCapacity_get hS.books.fit hS.books.memo spec.node d).trans (h.free _ htouched d)
  have hverdict : (∀ d, Demand.amount ⟨spec.id, spec.node, p.job, spec.requested⟩ d ≤
      drawn pool l spec.node d) ↔
      (fx.st.freeCapacity spec.node fx.used).componentMin spec.requested = spec.requested := by
    rw [componentMin_eq_right_iff]
    simp [Demand.amount, hreal]
  have hcap := capacityOf_congr hs.nodes
  rw [hdemands]
  refine ⟨fun n hn d => ?_, fun n k => ?_, fun x b hx => ?_⟩
  · rw [hcap, hs.heldOn hf.allocation, drawn_snoc, ← h.free n hn d]
    by_cases e : spec.node = n
    · subst e
      have hd := hreal d
      have hfree := h.free _ htouched d
      rw [if_pos rfl, if_pos rfl, get_componentMin, hd, ← hfree]
      simp only [Demand.amount]
      omega
    · rw [if_neg e, if_neg (Ne.symm e)]
      omega
  · rw [hs.accruesOn hf.allocation, h.accrues, or_assoc, served_snoc]
    refine or_congr_right ?_
    simp only [mem_append, mem_singleton, Prod.mk.injEq, or_and_right, exists_or]
    refine or_congr_right ?_
    rw [eq_comm (a := false), decide_eq_false_iff_not, hverdict]
    constructor
    · rintro ⟨hn, hk, hne⟩
      exact ⟨_, ⟨rfl, hne⟩, hn, hk⟩
    · rintro ⟨x, ⟨rfl, hne⟩, hn, hk⟩
      exact ⟨hn, hk, hne⟩
  · rw [served_snoc, mem_append, mem_singleton, Prod.mk.injEq] at hx
    rw [hs.allocations, get?_insert]
    rcases hx with hx | ⟨rfl, rfl⟩
    · obtain ⟨r, hr, hst⟩ := h.verdict x b hx
      rw [if_neg fun e => by rw [← e, hf.allocation] at hr; cases hr]
      exact ⟨r, hr, hst⟩
    · refine ⟨_, if_pos rfl, ?_⟩
      simp only [seatedAllocation, decide_eq_true_eq]
      split_ifs with h1 h2 h2
      · rfl
      · exact absurd (hverdict.mpr h1) h2
      · exact absurd (hverdict.mp h2) h1
      · rfl

section Trail

variable {s : StateMachine} {revoked : List AllocationId} {fx0 : Effects} {at_ : Timestamp}
  {ps : List Placement} {cutoffs : List (Option Timestamp)} {groups : List (List Victim)}
  {touched : List NodeId} {l : List Demand} {pool : NodeId → Dim → Nat}

/-- Seating the whole batch. -/
theorem SeatTrail.lands (h : SeatTrail s revoked fx0 at_ fx ps cutoffs groups fx')
    (htouched : ∀ p ∈ ps, ∀ spec ∈ p.allocations, spec.node ∈ touched)
    (hl : Lands pool s touched l fx.st) :
    Lands pool s touched (l ++ ps.flatMap Placement.demands) fx'.st := by
  induction h generalizing l with
  | nil => simpa using hl
  | @cons _ _ p spec _ _ cutoff _ group _ hS _ hf _ _ ih =>
    obtain ⟨-, -, hs⟩ := hS.seat at_ cutoff group hf
    have hspec : spec.node ∈ touched := htouched p (by simp) spec (by rw [hf.one]; simp)
    have hrest := ih (fun q hq => htouched q (mem_cons_of_mem _ hq))
      (hl.seat hS hf hs hspec)
    rwa [append_assoc, ← flatMap_cons] at hrest

end Trail

namespace StateMachine

variable {s : StateMachine} {c : CommitPlacements}

/-- The effects of a batch whose items pass serve the demands from the room there
    is. -/
theorem commitEffects_lands (hC : Consistent s) (hok : BatchOk s c) :
    Lands (s.room c.revocations) s (s.touchedNodes c c.revocations).keys (s.demands c)
      (s.committing c).st := by
  have hrev : Revoked s c.revocations (s.revokedEffects c) :=
    State.Consistent.revoked hC c.proposedAt hok.nodup hok.accruing
  exact (hok.trail hC).lands BatchOk.touched (hrev.lands (keys_nodup _)
    fun id hid r hr => mem_touchedNodes.mpr (.inl ⟨id, hid, r, hr, rfl⟩))

end StateMachine

end Coppice.State
