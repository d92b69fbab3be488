/-
  Coppice.State.Index

  The accrual queue and the capacity memo are indexes, trusted without a scan.  The
  queue lists exactly the accruing allocations, and the memo of a batch is the sum a
  scan would give wherever it is read.
-/

import Coppice.State.Order

namespace Coppice.State

open Lib Coppice.Core Option StateMachine Effects

/-! ## A batch keeps its memo -/

namespace Effects

variable (fx : Effects)

theorem pledgeOne_used_isSome (node : NodeId) (seq : Nat) (id : AllocationId) (free : Resources) :
    (pledgeOne node seq id fx free).1.used.isSome = fx.used.isSome := by
  unfold pledgeOne
  split
  · rfl
  · simp only
    split_ifs
    · rfl
    · exact isSome_map
    · exact isSome_map

theorem pledgeLoop_used_isSome (node : NodeId) (queue : List (Nat × AllocationId))
    (free : Resources) : (pledgeLoop node queue fx free).1.used.isSome = fx.used.isSome := by
  induction queue generalizing fx free with
  | nil => rfl
  | cons head rest ih =>
    obtain ⟨seq, id⟩ := head
    have hone := fx.pledgeOne_used_isSome node seq id free
    unfold pledgeLoop
    split
    · rfl
    · split
      · rename_i heq
        rw [heq] at hone
        exact (ih _ _).trans hone
      · rename_i heq
        rw [heq] at hone
        exact (ih _ _).trans hone

theorem checkReadyBarrier_used (id : AttemptId) : (fx.checkReadyBarrier id).used = fx.used := by
  unfold checkReadyBarrier
  split
  · rfl
  · simp only
    split_ifs
    · refine foldl_keeps (fun fx id => ?_) _ fx
      split
      · rfl
      · split_ifs
        · exact attemptTransition_used fx id .ready
        · rfl
    · rfl

theorem pledgeNode_used_isSome (node : NodeId) :
    (fx.pledgeNode node).used.isSome = fx.used.isSome := by
  unfold pledgeNode
  simp only
  split
  · rfl
  · refine (congrArg Option.isSome (foldl_keeps (fun fx id => ?_) _ _)).trans
      (fx.pledgeLoop_used_isSome node _ _)
    split
    · rfl
    · exact fx.checkReadyBarrier_used _

theorem releaseAllocation_used_isSome (al : AllocationId) (pledge : Bool) :
    (fx.releaseAllocation al pledge).used.isSome = fx.used.isSome := by
  unfold releaseAllocation
  split
  · rfl
  · split_ifs
    · rfl
    · exact (pledgeNode_used_isSome _ _).trans isSome_map
    · exact isSome_map

theorem revokeOne_used_isSome (at_ : Timestamp) (id : AllocationId) :
    (revokeOne at_ fx id).used.isSome = fx.used.isSome := by
  unfold revokeOne
  split
  · rfl
  · unfold terminateAttempt
    split
    · rfl
    · split_ifs
      · rfl
      · simp only [resolveJob_used]
        split <;> simp only [modifyAttempt_used, releaseAllocation_used_isSome,
          attemptTransition_used]

theorem revokeAll_used_isSome (at_ : Timestamp) (ids : List AllocationId) :
    (ids.foldl (revokeOne at_) fx).used.isSome = fx.used.isSome :=
  foldl_keeps (p := (·.used.isSome)) (fun fx id => fx.revokeOne_used_isSome at_ id) ids fx

end Effects

variable {s : StateMachine} {fx : Effects}

/-- At each seat of a batch the books are exact and the memo is there. -/
theorem SeatTrail.at_seat (h : SeatTrail s revoked fx0 at_ fx ps cutoffs groups fx')
    (hmemo : fx.used.isSome = true) {pre post : List Placement} {p : Placement}
    (hps : ps = pre ++ p :: post) :
    Sound ∅ (seatAll at_ pre cutoffs groups fx) ∧
      (seatAll at_ pre cutoffs groups fx).used.isSome = true := by
  induction h generalizing pre with
  | nil => cases pre <;> cases hps
  | @cons fx _ q _ _ _ cutoff _ group _ hS _ hf _ _ ih =>
    cases pre with
    | nil => exact ⟨hS, hmemo⟩
    | cons x pre =>
      obtain ⟨rfl, rfl⟩ := List.cons.inj hps
      refine ih ?_ rfl
      obtain ⟨fx1, a, q, heq, -, -, -, -, -, hused, -⟩ :=
        seatPlacement_eq fx at_ cutoff group hf.one hf.job
      rw [heq, (recordVictims_quiet group fx1 at_ _).2.1, hused, isSome_map]
      exact hmemo

/-! ## Reads -/

/-- Where a batch reads the memo: for any node while it is screened, for the node of what a
    revocation releases, and for the node of a placement when it is seated. -/
inductive MemoRead (s : StateMachine) (c : CommitPlacements) : Effects → NodeId → Prop where
  | screen {node} : MemoRead s c ⟨s, [], some s.usedCapacityMemo⟩ node
  | revoke {fx node} : Pass s (.commitPlacements c) fx node → MemoRead s c fx node
  | seat {pre p post spec} : (s.commitPlacements c).2.isOk = true →
      c.placements = pre ++ p :: post → p.allocations.head? = some spec →
      MemoRead s c (seatAll c.proposedAt pre (s.screen c).cutoffs
        (s.screen c).victims (s.revokedEffects c)) spec.node

variable {c : CommitPlacements} {node : NodeId}

theorem Pass.used_isSome (h : Pass s (.commitPlacements c) fx node) : fx.used.isSome = true := by
  cases h with
  | revoke _ _ he =>
    obtain ⟨a, r, ha, hlive, hr, -, rfl, -⟩ := he
    obtain ⟨-, hused, -⟩ := ending_spec _ .revoked c.proposedAt ha hlive hr
    rw [hused, isSome_map, revokeAll_used_isSome]
    rfl

/-- Every read finds exact books and a memo. -/
theorem MemoRead.books (h : Consistent s) (hread : MemoRead s c fx node) :
    Books fx ∧ fx.used.isSome = true := by
  cases hread with
  | screen => exact ⟨(Consistent.batchStart h).books, rfl⟩
  | revoke hp => exact ⟨hp.books h, hp.used_isSome⟩
  | seat hok hps _ =>
    have hbatch : BatchOk s c := by
      refine batchOk_of_items ?_
      by_contra hitems
      unfold commitPlacements at hok
      simp only at hok
      rw [if_pos (by simpa using hitems)] at hok
      cases hok
    have hmemo : (s.revokedEffects c).used.isSome = true :=
      revokeAll_used_isSome ⟨s, [], some s.usedCapacityMemo⟩ c.proposedAt c.revocations
    obtain ⟨hS, hsome⟩ := (hbatch.trail h).at_seat hmemo hps
    exact ⟨hS.books, hsome⟩

/-! ## Every reachable state -/

/-- The accrual queue is the index of the accruing allocations by node and sequence number,
    and the sequence numbers identify the allocations. -/
structure Indexed (s : StateMachine) : Prop where
  queue : ∀ node seq al, s.accrualQueue.get? (toLex (node, seq)) = some al ↔
    ∃ r, s.allocations.get? al = some r ∧ r.allocation.state = .accruing ∧
      r.allocation.node = node ∧ r.seq = seq
  seq_lt : ∀ al r, s.allocations.get? al = some r → r.seq < s.nextAllocationSeq
  seq_inj : ∀ al al' r r', s.allocations.get? al = some r → s.allocations.get? al' = some r' →
    r.seq = r'.seq → al = al'
  nodes : ∀ node seq al, s.accrualQueue.get? (toLex (node, seq)) = some al →
    ∃ n, s.nodes.get? node = some n

theorem Consistent.indexed (h : Consistent s) : Indexed s where
  queue _ _ _ := h.linked.queue
  seq_lt _ _ := h.linked.seq_lt
  seq_inj _ _ _ _ := h.linked.seq_inj
  nodes node seq al hal := by
    obtain ⟨r, hr, hacc, rfl, -⟩ := h.linked.queue.mp hal
    exact h.linked.node_of hr (by simp [AllocationRecord.isLive, hacc])

/-- In every reachable state the queue is the index of the accruing allocations, and in every
    batch the memo is what a scan of the allocations gives wherever it is read; the sum does
    not saturate. -/
theorem index_exact {s : StateMachine} (h : Reachable s) : Indexed s ∧
    ∀ c fx node, MemoRead s c fx node → ∃ memo, fx.used = some memo ∧
      (memo.get? node).getD .zero = fx.st.usedHere node ∧
      ∀ d, ((memo.get? node).getD .zero).get d = fx.st.heldOn node d := by
  have hC := h.consistent
  refine ⟨hC.indexed, fun c fx node hread => ?_⟩
  obtain ⟨hB, hsome⟩ := hread.books hC
  obtain ⟨memo, hmemo⟩ := isSome_iff_exists.mp hsome
  have hheld : ∀ d, ((memo.get? node).getD .zero).get d = fx.st.heldOn node d :=
    hB.memo memo hmemo node
  refine ⟨memo, hmemo, Resources.ext_get fun d => ?_, hheld⟩
  rw [hheld, fx.st.usedHere_get]
  exact (Nat.min_eq_left (hB.fit node d)).symm

open Sample

/-- Take the accrual of the third job back and seat the job anew. -/
def Sample.seatAnew : CommitPlacements := ⟨0, [3], [⟨3, 4, 3, [⟨4, 1, cpu 5⟩], []⟩], epoch⟩

/-- The job is seated beside the one that is ready. -/
theorem index_exact_reseat :
    MemoRead (run busy) seatAnew
      ((run busy).revokedEffects seatAnew) 1 ∧
    ∃ memo, ((run busy).revokedEffects seatAnew).used = some memo ∧
      ((memo.get? 1).getD .zero).get .cpuMillis = 8 := by
  have hok : ((run busy).commitPlacements seatAnew).2.isOk = true := by
    decide +kernel
  have hread : MemoRead (run busy) seatAnew
      ((run busy).revokedEffects seatAnew) 1 :=
    @MemoRead.seat _ _ [] _ [] _ hok rfl rfl
  obtain ⟨memo, hmemo, -, hheld⟩ := (index_exact (reachable_run busy)).2 _ _ _ hread
  refine ⟨hread, memo, hmemo, (hheld .cpuMillis).trans ?_⟩
  decide +kernel

end Coppice.State
