/-
  Coppice.State.Signals

  What the state machine asks of the agents, and what it remembers of it: an abort
  as the job's flag, a preemption as the attempt's record until it is acknowledged.
  `Signals s evs s'` says that what is owed in `s'` is what the events make of what
  was owed in `s`.
-/

import Coppice.State.Lifespan

namespace Coppice.State

open Lib Coppice.Core StateMachine List OrdMap

/-! ## Requests and acknowledgements -/

/-- The preemption that the attempt's agent has not acknowledged. -/
def AttemptRecord.owed (a : AttemptRecord) : Option PreemptReason :=
  a.preemption.bind fun p => if p.acknowledged.isNone then some p.reason else none

/-- What is owed to an attempt after an event. -/
def Event.owing (id : AttemptId) (o : Option PreemptReason) : Event → Option PreemptReason
  | .preemptRequested i _ _ _ reason _ => if i = id then some reason else o
  | .attemptNotified i _ _ => if i = id then none else o
  | _ => o

def owing (id : AttemptId) (evs : List Event) (o : Option PreemptReason) : Option PreemptReason :=
  evs.foldl (Event.owing id) o

/-- The event asks nothing of an agent and acknowledges nothing. -/
def Event.Mute : Event → Prop
  | .stopRequested .. | .preemptRequested .. | .attemptNotified .. => False
  | _ => True

/-- A preemption that makes room for another job. -/
def Scheduled (reason : PreemptReason) : Prop :=
  ∃ job, reason = .priority job ∨ reason = .relocation job

theorem owing_append (id : AttemptId) (evs evs' : List Event) (o : Option PreemptReason) :
    owing id (evs ++ evs') o = owing id evs' (owing id evs o) :=
  foldl_append

variable {evs : List Event} {s s' : StateMachine} {group : List Victim}

theorem owing_mute (h : ∀ e ∈ evs, e.Mute) (id : AttemptId) (o : Option PreemptReason) :
    owing id evs o = o := by
  induction evs generalizing o with
  | nil => rfl
  | cons e rest ih =>
    have hone : e.owing id o = o := by
      have hm := h e (by simp)
      cases e <;> first | exact hm.elim | rfl
    show owing id rest (e.owing id o) = o
    rw [hone]
    exact ih (fun x hx => h x (mem_cons_of_mem _ hx)) o

def StateMachine.owedTo (s : StateMachine) (id : AttemptId) : Option PreemptReason :=
  (s.attempts.get? id).bind AttemptRecord.owed

def StateMachine.abortOf (s : StateMachine) (job : JobId) : Option AbortRequest :=
  (s.jobs.get? job).bind fun r => r.spec.abortRequested

/-- What is owed is what the events make of it, and no abort flag moves. -/
structure Signals (s : StateMachine) (evs : List Event) (s' : StateMachine) : Prop where
  owed : ∀ id, s'.owedTo id = owing id evs (s.owedTo id)
  flags : ∀ j, s'.abortOf j = s.abortOf j
  stops : ∀ n al j, Event.stopRequested n al j ∉ evs
  reasons : ∀ i al j n reason notice, Event.preemptRequested i al j n reason notice ∈ evs →
    Scheduled reason

theorem Signals.trans (h : Signals s evs s') (h' : Signals s' evs' s'') :
    Signals s (evs ++ evs') s'' where
  owed id := by rw [owing_append, ← h.owed id, h'.owed id]
  flags j := (h'.flags j).trans (h.flags j)
  stops n al j hmem := (mem_append.mp hmem).elim (h.stops n al j) (h'.stops n al j)
  reasons i al j n reason notice hmem :=
    (mem_append.mp hmem).elim (h.reasons i al j n reason notice)
      (h'.reasons i al j n reason notice)

theorem Signals.mute (hm : ∀ e ∈ evs, e.Mute) (ha : ∀ id, s'.owedTo id = s.owedTo id)
    (hj : ∀ j, s'.abortOf j = s.abortOf j) : Signals s evs s' where
  owed id := by rw [owing_mute hm, ha]
  flags := hj
  stops n al j hmem := hm _ hmem
  reasons i al j n reason notice hmem := (hm _ hmem).elim

/-- What the effects have signalled so far, and since. -/
def Signalled (fx fx' : Effects) : Prop :=
  ∃ evs, fx'.events = fx.events ++ evs ∧ Signals fx.st evs fx'.st

namespace Signalled

variable {fx fx' fx'' : Effects}

theorem trans (h : Signalled fx fx') (h' : Signalled fx' fx'') : Signalled fx fx'' := by
  obtain ⟨evs, hevs, hs⟩ := h
  obtain ⟨evs', hevs', hs'⟩ := h'
  exact ⟨evs ++ evs', by rw [hevs', hevs, append_assoc], hs.trans hs'⟩

theorem of_eq (he : fx'.events = fx.events) (ha : fx'.st.attempts = fx.st.attempts)
    (hj : fx'.st.jobs = fx.st.jobs) : Signalled fx fx' :=
  ⟨[], by rw [he, append_nil], .mute (by simp)
    (fun id => by rw [owedTo, ha, owedTo])
    (fun j => by rw [abortOf, hj, abortOf])⟩

theorem refl (fx : Effects) : Signalled fx fx := of_eq rfl rfl rfl

theorem emit (fx : Effects) {e : Event} (he : e.Mute) : Signalled fx (fx.emit e) :=
  ⟨[e], rfl, .mute (by simpa using he) (fun _ => rfl) fun _ => rfl⟩

theorem modifyJob (fx : Effects) (job : JobId) {f : JobRecord → JobRecord}
    (hf : ∀ r, (f r).spec.abortRequested = r.spec.abortRequested) :
    Signalled fx (fx.modifyJob job f) := by
  refine ⟨[], (append_nil _).symm, .mute (by simp) (fun _ => rfl) fun j => ?_⟩
  show ((fx.st.jobs.modify job f).get? j).bind _ = (fx.st.jobs.get? j).bind _
  rw [get?_modify]
  split
  · cases fx.st.jobs.get? j with
    | none => rfl
    | some r => exact hf r
  · rfl

end Signalled

variable {fx fx' : Effects}

/-- Work that moves signals nothing: its preemptions and abort flags are as they were. -/
theorem Progressed.signalled (h : Progressed fx fx') : Signalled fx fx' := by
  obtain ⟨evs, hevs, hp⟩ := h.events
  refine ⟨evs, hevs, .mute (fun e he => ?_) (fun id => ?_) fun j => ?_⟩
  · have := hp e he
    cases e <;> first | exact this.elim | trivial
  · unfold owedTo
    rcases h.moved.attempts id with ⟨hn, hn'⟩ | ⟨a, a', ha, ha', hmove⟩
    · rw [hn, hn']
    · rw [ha, ha', hmove]
      rfl
  · unfold abortOf
    rcases h.moved.jobs j with ⟨hn, hn'⟩ | ⟨r, r', hr, hr', hmove⟩
    · rw [hn, hn']
    · rw [hr, hr', hmove]
      rfl

/-! ## The effect helpers -/

theorem walkAncestors_work (f : UsageState → UsageState) (fuel : Nat) (e : Option QuotaEntityId)
    (s : StateMachine) : (walkAncestors f fuel e s).attempts = s.attempts ∧
      (walkAncestors f fuel e s).jobs = s.jobs := by
  induction fuel generalizing e s with
  | zero => exact ⟨rfl, rfl⟩
  | succ fuel ih =>
    cases e with
    | none => exact ⟨rfl, rfl⟩
    | some id =>
      unfold walkAncestors
      split
      · exact ⟨rfl, rfl⟩
      · exact ih _ _

namespace Effects

variable (fx : Effects) {p : Placement}

theorem billed_signalled (f : UsageState → UsageState) (fuel : Nat) (e : Option QuotaEntityId)
    (hs : s' = walkAncestors f fuel e fx.st) : Signalled fx { fx with st := s' } := by
  obtain ⟨ha, hj⟩ := walkAncestors_work f fuel e fx.st
  exact .of_eq rfl (by rw [hs]; exact ha) (by rw [hs]; exact hj)

theorem seatPlacement_signalled (at_ : Timestamp) (cutoff : Option Timestamp)
    (hfresh : fx.st.attempts.get? p.attempt = none) :
    Signalled fx (fx.seatPlacement at_ p cutoff []) := by
  unfold seatPlacement
  split
  · rename_i spec j _ _
    refine Signalled.trans ?_ (billed_signalled _ _ _ _ rfl)
    refine Signalled.trans (Signalled.trans ?_ (.modifyJob _ p.job ?_))
      (jobTransition_progressed _ _ _).signalled
    · -- the new attempt owes nothing
      have hseat (r : AllocationRecord) (a : AttemptRecord) (hid : a.attempt.id = p.attempt)
          (howed : a.owed = none) : Signalled fx ((fx.seatRecords spec r a).memoAdd spec.node
          r.allocation.funded) := by
        refine ⟨[], (append_nil _).symm, .mute (by simp) (fun i => ?_) fun _ => rfl⟩
        show ((fx.st.attempts.insert a.attempt.id a).get? i).bind _ = (fx.st.attempts.get? i).bind _
        rw [hid, get?_insert]
        split
        · next hi =>
            rw [← hi, hfresh]
            exact howed
        · rfl
      split_ifs
      · refine Signalled.trans (Signalled.trans (hseat _ _ ?_ ?_) (.emit _ ?_)) (.emit _ ?_)
        all_goals first | rfl | trivial
      · refine Signalled.trans (hseat _ _ ?_ ?_) (.emit _ ?_)
        all_goals first | rfl | trivial
    · exact fun _ => rfl
  · exact .refl fx

end Effects

/-- Every allocation has its attempt. -/
def Backed (s : StateMachine) : Prop :=
  ∀ al r, s.allocations.get? al = some r → ∃ a, s.attempts.get? r.allocation.attempt = some a

/-- A victim's record and its event go together. -/
theorem Backed.recordVictim (h : Backed fx.st) (at_ : Timestamp) (node : NodeId) {v : Victim}
    (hv : Scheduled v.2) :
    Signalled fx (fx.recordVictim at_ node v) ∧ Backed (fx.recordVictim at_ node v).st := by
  unfold Effects.recordVictim
  split
  · exact ⟨.refl fx, h⟩
  · rename_i r hr
    obtain ⟨a, ha⟩ := h v.1 r hr
    refine ⟨⟨_, rfl, ?_, fun _ => rfl, by simp, ?_⟩, fun al r' hr' => ?_⟩
    · intro id
      show ((fx.st.attempts.modify r.allocation.attempt _).get? id).bind _ = _
      rw [get?_modify]
      simp only [owing, foldl_cons, foldl_nil, Event.owing]
      split
      · next hid =>
          rw [← hid, ha]
          rfl
      · rfl
    · intro i al j n reason notice hmem
      cases mem_singleton.mp hmem
      exact hv
    · obtain ⟨b, hb⟩ := h al r' hr'
      show ∃ x, (fx.st.attempts.modify r.allocation.attempt _).get? r'.allocation.attempt = some x
      rw [get?_modify, hb]
      split <;> exact ⟨_, rfl⟩

theorem Backed.recordVictims (h : Backed fx.st) (at_ : Timestamp) (node : NodeId)
    (hgroup : ∀ v ∈ group, Scheduled v.2) :
    Signalled fx (group.foldl (fun fx v => fx.recordVictim at_ node v) fx) := by
  induction group generalizing fx with
  | nil => exact .refl fx
  | cons v rest ih =>
    obtain ⟨hone, hnext⟩ := h.recordVictim at_ node (hgroup v (by simp))
    exact hone.trans (ih hnext fun w hw => hgroup w (mem_cons_of_mem _ hw))

theorem Sound.seat_signalled (at_ : Timestamp) (cutoff : Option Timestamp) (h : Sound ∅ fx)
    (hf : Fresh fx p spec j) (hgroup : ∀ v ∈ group, Scheduled v.2) :
    Signalled fx (fx.seatPlacement at_ p cutoff group) := by
  obtain ⟨hS, -, -⟩ := h.seat at_ cutoff [] hf
  have hbacked : Backed (fx.seatPlacement at_ p cutoff []).st := by
    intro al r hr
    obtain ⟨a, ha, -⟩ := hS.books.linked.attempt_of hr
    exact ⟨a, ha⟩
  have hseat : fx.seatPlacement at_ p cutoff group = group.foldl
      (fun fx v => fx.recordVictim at_ spec.node v) (fx.seatPlacement at_ p cutoff []) := by
    simp [Effects.seatPlacement, hf.one, hf.job]
  rw [hseat]
  exact (fx.seatPlacement_signalled at_ cutoff hf.attempt).trans
    (hbacked.recordVictims at_ spec.node hgroup)

theorem SeatTrail.signalled (h : SeatTrail s revoked fx0 at_ fx ps cutoffs groups fx')
    (hgroups : ∀ group ∈ groups, ∀ v ∈ group, Scheduled v.2) : Signalled fx fx' := by
  induction h with
  | nil => exact .refl _
  | @cons _ _ _ _ _ _ cutoff _ group _ hS _ hf _ _ ih =>
    have hone := hS.seat_signalled at_ cutoff hf (hgroups group (by simp))
    exact hone.trans (ih fun g hg => hgroups g (mem_cons_of_mem _ hg))

end Coppice.State
