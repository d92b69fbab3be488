/-
  Coppice.State.Steps

  The invariant of the replicated state, and what every command except a scheduling
  batch does to it.  Most commands are quiet; the rest move attempts along their
  life cycle (`Sound.advance`, `Sound.terminateAttempt`).
-/

import Coppice.Lib.Run
import Coppice.State.Inversion
import Coppice.State.Terminate

namespace Coppice.State

open Lib Coppice.Core OrdMap

/-- The invariant of the replicated state between commands. -/
structure Consistent (s : StateMachine) : Prop where
  linked : Linked s []
  jobs : JobLinked s
  fit : HoldsFit s
  conserved : ∀ n, ConservedOn s n

/-- Every accruing allocation was accruing before. -/
def NoNewAccrual (s s' : StateMachine) : Prop :=
  ∀ al r', s'.allocations.get? al = some r' → r'.allocation.state = .accruing →
    ∃ r, s.allocations.get? al = some r ∧ r.allocation.state = .accruing ∧
      Linked.SameAllocation r r'

/-- What a command other than a scheduling batch guarantees. -/
structure Kept (s s' : StateMachine) : Prop where
  consistent : Consistent s'
  bounded : HoldsBounded s s'
  accruing : NoNewAccrual s s'

variable {s s' : StateMachine} {fx : Effects}

theorem NoNewAccrual.of_eq (h : s'.allocations = s.allocations) : NoNewAccrual s s' :=
  fun _ _ hr hacc => ⟨_, h ▸ hr, hacc, .refl _⟩

theorem Consistent.kept_self (h : Consistent s) : Kept s s := ⟨h, .refl s, .of_eq rfl⟩

theorem Consistent.sound (h : Consistent s) (skip : Set NodeId) (events : List Event) :
    Sound skip ⟨s, events, none⟩ :=
  ⟨⟨h.linked, h.fit, memoExact_none s events⟩, h.jobs, fun n _ => h.conserved n⟩

theorem Sound.consistent (h : Sound ∅ fx) : Consistent fx.st :=
  ⟨h.books.linked, h.jobs, h.books.fit, fun n => h.conserved n (Set.notMem_empty n)⟩

theorem Advances.noNewAccrual (h : Advances s s') : NoNewAccrual s s' := by
  intro al r' hr' hacc
  obtain ⟨r, hr, hadv⟩ := h.allocations.back hr'
  exact ⟨r, hr, hadv.accruing hacc, hadv.same⟩

theorem Sound.kept (h : Sound ∅ fx) (hs : Settles s fx.st) : Kept s fx.st :=
  ⟨h.consistent, hs.bounded, hs.advances.noNewAccrual⟩

/-! ## Quiet commands -/

/-- Neither the state nor a stamp of the attempt changes. -/
structure AttemptRecord.Noted (a a' : AttemptRecord) : Prop where
  attempt : a'.attempt = a.attempt
  group : a'.group = a.group
  started : a'.startedAt = a.startedAt
  ended : a'.endedAt = a.endedAt
  settled : a'.settlement = a.settlement

theorem AttemptRecord.Noted.refl (a : AttemptRecord) : a.Noted a := ⟨rfl, rfl, rfl, rfl, rfl⟩

theorem AttemptRecord.Noted.trans {a : AttemptRecord} (h : a.Noted b) (h' : b.Noted c) :
    a.Noted c :=
  ⟨h'.attempt.trans h.attempt, h'.group.trans h.group, h'.started.trans h.started,
    h'.ended.trans h.ended, h'.settled.trans h.settled⟩

/-- No attempt or allocation moves and no job starts or stops attempting. -/
structure Quiet (s s' : StateMachine) : Prop where
  jobs : Rel (fun j j' => (∀ id, j'.state = .attempting id ↔ j.state = .attempting id) ∧
    j'.attempts = j.attempts) s.jobs s'.jobs
  attempts : Rel AttemptRecord.Noted s.attempts s'.attempts
  allocations : s'.allocations = s.allocations
  accrualQueue : s'.accrualQueue = s.accrualQueue
  nextAllocationSeq : s'.nextAllocationSeq = s.nextAllocationSeq
  nodes : Rel (fun n n' => n'.node.capacity = n.node.capacity) s.nodes s'.nodes

namespace Quiet

variable {s'' : StateMachine}

/-- None of the six fields is touched. -/
theorem of_eq (hj : s'.jobs = s.jobs) (ha : s'.attempts = s.attempts)
    (hal : s'.allocations = s.allocations) (hq : s'.accrualQueue = s.accrualQueue)
    (hseq : s'.nextAllocationSeq = s.nextAllocationSeq) (hn : s'.nodes = s.nodes) : Quiet s s' :=
  ⟨.of_eq (fun _ => ⟨fun _ => .rfl, rfl⟩) hj, .of_eq .refl ha, hal, hq, hseq,
    .of_eq (fun _ => rfl) hn⟩

theorem refl (s : StateMachine) : Quiet s s := of_eq rfl rfl rfl rfl rfl rfl

theorem trans (h : Quiet s s') (h' : Quiet s' s'') : Quiet s s'' where
  jobs := h.jobs.trans (fun ⟨e, l⟩ ⟨e', l'⟩ => ⟨fun id => (e' id).trans (e id), l'.trans l⟩) h'.jobs
  attempts := h.attempts.trans .trans h'.attempts
  allocations := h'.allocations.trans h.allocations
  accrualQueue := h'.accrualQueue.trans h.accrualQueue
  nextAllocationSeq := h'.nextAllocationSeq.trans h.nextAllocationSeq
  nodes := h.nodes.trans (fun e e' => Eq.trans e' e) h'.nodes

theorem foldl {α : Type} {f : StateMachine → α → StateMachine} (hf : ∀ s x, Quiet s (f s x))
    (l : List α) (s : StateMachine) : Quiet s (l.foldl f s) :=
  foldl_trans refl trans hf l s

theorem modifyJob (s : StateMachine) (job : JobId) (f : JobRecord → JobRecord)
    (hf : ∀ j, s.jobs.get? job = some j →
      (∀ id, (f j).state = .attempting id ↔ j.state = .attempting id) ∧
        (f j).attempts = j.attempts) : Quiet s { s with jobs := s.jobs.modify job f } :=
  { refl s with
    jobs := .of_modify (fun _ => ⟨fun _ => .rfl, rfl⟩) f hf }

theorem modifyAttempt (s : StateMachine) (id : AttemptId) (f : AttemptRecord → AttemptRecord)
    (hf : ∀ a : AttemptRecord, a.Noted (f a)) :
    Quiet s { s with attempts := s.attempts.modify id f } :=
  { refl s with
    attempts := .of_modify .refl f fun a _ => hf a }

theorem modifyNode (s : StateMachine) (node : NodeId) (f : NodeRecord → NodeRecord)
    (hf : ∀ n, (f n).node.capacity = n.node.capacity) :
    Quiet s { s with nodes := s.nodes.modify node f } :=
  { refl s with
    nodes := .of_modify (R := fun (n n' : NodeRecord) => n'.node.capacity = n.node.capacity)
      (fun _ => rfl) f fun n _ => hf n }

theorem same_attempts (h : Quiet s s') :
    Rel (fun a a' => a'.attempt = a.attempt ∧ a'.group = a.group) s.attempts s'.attempts :=
  h.attempts.mono fun h => ⟨h.attempt, h.group⟩

theorem capacityOf (h : Quiet s s') (node : NodeId) (d : Dim) :
    s'.capacityOf node d = s.capacityOf node d := by
  unfold StateMachine.capacityOf
  rcases h.nodes node with ⟨hn, hn'⟩ | ⟨n, n', hn, hn', hcap⟩
  · rw [hn, hn']
  · rw [hn, hn']
    simp [hcap]

/-- Quiet commands keep the invariant. -/
theorem kept (h : Quiet s s') (hs : Consistent s) : Kept s s' := by
  refine ⟨⟨?_, ?_, ?_, ?_⟩, .of_eq h.allocations, .of_eq h.allocations⟩
  · refine hs.linked.annotate h.same_attempts h.allocations h.accrualQueue h.nextAllocationSeq ?_
    intro n x hx
    obtain ⟨y, hy, -⟩ := h.nodes.some hx
    exact ⟨y, hy⟩
  · exact hs.jobs.annotate h.jobs (h.attempts.mono fun h => by rw [h.attempt]; exact ⟨rfl, rfl⟩)
  · exact (HoldsBounded.of_eq h.allocations).holdsFit hs.fit
  · exact fun n => ConservedOn.congr (hs.conserved n) h.allocations (h.capacityOf n)

/-- What is kept after a quiet step is kept from before it. -/
theorem then_kept (h : Quiet s s') (hk : Kept s' s'') : Kept s s'' := by
  refine ⟨hk.consistent, ?_, ?_⟩
  · intro n d
    rw [← StateMachine.heldOn_congr h.allocations]
    exact hk.bounded n d
  · intro al r hr hacc
    rw [← h.allocations]
    exact hk.accruing al r hr hacc

end Quiet

namespace StateMachine

variable (s : StateMachine)

theorem walkAncestors_quiet (f : UsageState → UsageState) (fuel : Nat) (e : Option QuotaEntityId) :
    Quiet s (walkAncestors f fuel e s) := by
  obtain ⟨q, hq⟩ := walkAncestors_st f fuel e s
  rw [hq]
  exact .of_eq rfl rfl rfl rfl rfl rfl

theorem recordAttemptNotified_quiet (c : RecordAttemptNotified) :
    Quiet s (s.recordAttemptNotified c).1 := by
  unfold recordAttemptNotified
  split
  · exact .refl s
  · split_ifs
    · exact .refl s
    · split
      · exact .refl s
      · exact .modifyAttempt s _ _ fun a => ⟨rfl, rfl, rfl, rfl, rfl⟩

theorem setDrainRecord_quiet (node : NodeId) (drain : Option Drain) :
    Quiet s (s.setDrainRecord node drain) :=
  .modifyNode s _ _ fun _ => rfl

theorem renewOne_quiet (at_ : Timestamp) (r : IntervalRenewal) : Quiet s (renewOne at_ s r) := by
  unfold renewOne
  split
  · exact .refl s
  · split_ifs
    · exact .refl s
    · split
      · simp only
        split_ifs
        · exact .refl s
        · exact .refl s
        · -- the charge is written first, then the ancestors are billed
          split
          · exact .modifyAttempt s _ _ fun _ => ⟨rfl, rfl, rfl, rfl, rfl⟩
          · refine Quiet.trans ?_ (walkAncestors_quiet _ _ _ _)
            exact .modifyAttempt s _ _ fun _ => ⟨rfl, rfl, rfl, rfl, rfl⟩
      · exact .refl s

theorem renewAll_quiet (at_ : Timestamp) (l : List IntervalRenewal) :
    Quiet s (l.foldl (renewOne at_) s) :=
  Quiet.foldl (fun s r => s.renewOne_quiet at_ r) l s

theorem renewIntervalCharges_quiet (c : RenewIntervalCharges) :
    Quiet s (s.renewIntervalCharges c).1 := by
  unfold renewIntervalCharges
  simp only
  split_ifs
  · exact .refl s
  · exact s.renewAll_quiet c.proposedAt c.renewals

end StateMachine

end Coppice.State
