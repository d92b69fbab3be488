/-
  Coppice.State.Chronicle

  Every accepted command tells what it does: the effect helpers keep the
  stamps and report what they change, and so do the commands built from them.
-/

import Coppice.State.Trace
import Coppice.State.Reachable

namespace Coppice.State

open Lib Coppice.Core OrdMap List Effects

/-! ## The end of an attempt -/

variable {fx : Effects} {id : AttemptId} {a : AttemptRecord} {s' : StateMachine}

/-- What ending a live attempt does to the records, and that it is told. -/
theorem Sound.terminateAttempt_told (outcome : AttemptOutcome) (rt : Duration) (at_ : Timestamp)
    (pledge : Bool) (h : Sound skip fx) (hl : Lived {a.attempt.job} fx.st)
    (ha : fx.st.attempts.get? id = some a) (hlive : a.attempt.state.isTerminal = false) :
    Lived ∅ (fx.terminateAttempt id outcome rt at_ pledge).st ∧
      Told fx (fx.terminateAttempt id outcome rt at_ pledge) ∧
      ∃ r, fx.st.jobs.get? a.attempt.job = some r ∧ r.state = .attempting id ∧
        (fx.terminateAttempt id outcome rt at_ pledge).st.jobs =
          fx.st.jobs.insert a.attempt.job (r.resolve outcome at_) := by
  obtain ⟨r, hr, hrst, -⟩ := h.jobs.current ha hlive
  obtain ⟨al, fx1, fx2, x, he⟩ := h.books.ends outcome rt at_ pledge ha hlive
  generalize fx.terminateAttempt id outcome rt at_ pledge = fx' at *
  obtain ⟨evs2, hev2, -, ht2, hf2⟩ : ∃ evs, fx2.events = fx1.events ++ evs ∧
      (∀ j, jobSteps j evs = []) ∧ Traced fx1.st evs fx2.st ∧ FundsTold evs fx2.st := by
    rw [he.second]
    cases pledge with
    | false => exact ⟨[], by simp, by simp, .refl _, .nil _⟩
    | true => exact pledgeNode_told _ he.books1
  have hjobs : fx'.st.jobs = fx.st.jobs.insert a.attempt.job (r.resolve outcome at_) := by
    rw [he.st, modify_of_some _ hr]
  have hjobs2 : fx2.st.jobs = fx.st.jobs := by rw [he.pledged.jobs, he.st1]
  have hendst : ((a.endWith outcome at_).settleWith x).attempt.state = .terminal outcome := by
    rw [((a.endWith outcome at_).settleWith_attempt x).1]
    rfl
  refine ⟨⟨?_, ?_, ?_⟩, ?_, r, hr, hrst, hjobs⟩
  · intro j r' hr'
    rw [hjobs, get?_insert] at hr'
    split_ifs at hr' with hj
    · cases hr'
      exact (hl.jobs hr).resolve outcome at_ hrst
    · exact hl.jobs hr'
  · intro i b hb
    by_cases hi : i = id
    · rw [hi, he.self] at hb
      cases hb
      exact (hl.attempts ha).ends hlive outcome at_ x
    · rcases he.elsewhere hi with e | ⟨c, hc, hacc, hc'⟩
      · exact hl.attempts (e ▸ hb)
      · rw [hc'] at hb
        cases hb
        exact (hl.attempts hc).readied hacc
  · -- another job's attempt: a pending abort keeps it out of the pass
    intro j r' i b _ hr' habort hst' hb
    rw [hjobs, get?_insert] at hr'
    split_ifs at hr' with hj
    · cases hr'
      exact absurd hst' (r.resolve_state outcome at_ i)
    · obtain ⟨c, hc, hcj, -⟩ := h.jobs.attempting hr' hst'
      have hne : i ≠ id := by
        rintro rfl
        rw [ha] at hc
        cases hc
        exact hj hcj
      obtain ⟨hnacc, hnready⟩ := hl.aborts (by simpa using Ne.symm hj) hr' habort hst' hc
      rcases he.elsewhere hne with e | ⟨c', hc', hacc, -⟩
      · rw [e, hc] at hb
        cases hb
        exact ⟨hnacc, hnready⟩
      · rw [hc] at hc'
        cases hc'
        exact absurd hacc hnacc
  · -- the transition, the pass, the settlement and the resolution, in this order
    obtain ⟨hne, hlife⟩ := JobLife.resolves at_ hrst he.self hendst
    have t1 : Traced fx.st
        [.attemptStateChanged id a.attempt.job a.attempt.node (.terminal outcome)] fx1.st :=
      .of_attempt ha (.ends hlive outcome at_) (by rw [he.st1]) (by rw [he.st1]) (fun _ => rfl)
        fun i => attemptSteps_changed i id _ _ _
    have t3 : Traced fx2.st [] { fx'.st with jobs := fx2.st.jobs } :=
      .of_attempt he.ended (.settles _ x) rfl (by rw [he.st]) (fun _ => rfl) fun i => by simp
    have t4 : Traced { fx'.st with jobs := fx2.st.jobs }
        [.jobStateChanged a.attempt.job r.state (r.resolve outcome at_).state] fx'.st :=
      .of_job (by rw [hjobs2, hr]) hlife rfl (by rw [hjobs, hjobs2])
        (fun j => jobSteps_changed j _ _ _) fun _ => rfl
    refine ⟨_, ?_, ((t1.trans ht2).trans t3).trans t4, ?_⟩
    · rw [he.events r hr (by rw [hrst]; rfl) hne, hev2, he.events1]
      simp
    · refine ⟨fun k q' hq' => ?_, fun k hk => ?_⟩
      · rw [he.allocations] at hq'
        have hready : (attemptSteps q'.allocation.attempt [.attemptStateChanged id a.attempt.job
            a.attempt.node (.terminal outcome)]).count .ready = 0 := by
          rw [attemptSteps_changed]
          split_ifs <;> simp
        simp only [fundings_append, attemptSteps_append, count_append, hready, hf2.ready k q' hq']
        rfl
      · rw [he.allocations] at hk
        simp only [fundings_append, hf2.absent k hk]
        rfl

/-! ## Forward moves of one attempt -/

/-- One attempt moves past the barrier, and the move is reported. -/
theorem Lived.move {fx' : Effects} {x : AttemptState} (a' : AttemptRecord) (job : JobId)
    (node : NodeId) (h : Lived ∅ fx.st) (ha : fx.st.attempts.get? id = some a)
    (hlife : AttemptLife a [x] a') (hstamp : a'.Stamped) (hx : a'.attempt.state = x)
    (hacc : x ≠ .accruing) (hready : x ≠ .ready) (hjobs : fx'.st.jobs = fx.st.jobs)
    (hatt : fx'.st.attempts = fx.st.attempts.insert id a')
    (hev : fx'.events = fx.events ++ [.attemptStateChanged id job node x]) :
    Lived ∅ fx'.st ∧ Told fx fx' := by
  refine ⟨⟨?_, ?_, ?_⟩, _, hev, .of_attempt ha hlife hjobs hatt (fun _ => rfl)
    (fun i => attemptSteps_changed i id job node x), fun al r _ => ?_, fun _ _ => rfl⟩
  · intro j r hr
    exact h.jobs (hjobs ▸ hr)
  · intro i b hb
    rw [hatt, get?_insert] at hb
    split_ifs at hb with hi
    · cases hb
      exact hstamp
    · exact h.attempts hb
  · intro j r i b hj hr habort hst hb
    rw [hatt, get?_insert] at hb
    split_ifs at hb with hi
    · cases hb
      rw [hx]
      exact ⟨hacc, hready⟩
    · exact h.aborts hj (hjobs ▸ hr) habort hst hb
  · rw [attemptSteps_changed]
    split_ifs
    · rw [count_cons_of_ne (by simpa using hready)]
      rfl
    · rfl

/-- Dispatch and exit. -/
theorem Lived.attemptTransition (to_ : AttemptState) (h : Lived ∅ fx.st)
    (ha : fx.st.attempts.get? id = some a) (hstate : a.attempt.state = .ready ∧ to_ = .dispatching ∨
      a.attempt.state = .running ∧ to_ = .finalizing) :
    Lived ∅ (fx.attemptTransition id to_).st ∧ Told fx (fx.attemptTransition id to_) := by
  have hs := h.attempts ha
  obtain ⟨hne, hedge, hlive, hlive', hacc, hready⟩ : a.attempt.state ≠ to_ ∧
      a.attempt.state.mayTransitionTo to_ = true ∧ a.attempt.state.isTerminal = false ∧
      to_.isTerminal = false ∧ to_ ≠ .accruing ∧ to_ ≠ .ready := by
    rcases hstate with ⟨e, rfl⟩ | ⟨e, rfl⟩ <;> rw [e] <;> decide
  refine Lived.move { a with attempt := { a.attempt with state := to_ } }
    a.attempt.job a.attempt.node h ha
    ⟨⟨[(a.attempt.state, to_)], rfl, .single hedge⟩, ⟨rfl, rfl, rfl, rfl, rfl⟩, fun _ h => h,
      fun _ h => h, fun _ h => h⟩ ⟨?_, ?_, ?_⟩ rfl hacc hready ?_ ?_
    (fx.attemptTransition_events ha hne)
  · rw [hs.ended, hlive, hlive']
  · rw [hs.settled, hlive, hlive']
  · rintro hto
    rcases hstate with ⟨-, e'⟩ | ⟨e, -⟩
    · simp [e'] at hto
    · exact hs.started (.inl e)
  · rw [fx.attemptTransition_st]
  · rw [fx.attemptTransition_st, modify_of_some _ ha]

/-- A start is stamped once. -/
theorem Lived.markAttemptRunning (at_ : Timestamp) (h : Lived ∅ fx.st)
    (ha : fx.st.attempts.get? id = some a) (hstate : a.attempt.state = .dispatching) :
    Lived ∅ (fx.markAttemptRunning id at_).st ∧ Told fx (fx.markAttemptRunning id at_) := by
  have hs := h.attempts ha
  let started : AttemptRecord := if a.startedAt.isNone then { a with startedAt := some at_ } else a
  have hsome : started.startedAt.isSome = true := by
    simp only [started]
    split_ifs with hn
    · rfl
    · simpa [Option.isSome_iff_ne_none] using hn
  have hkeep : started.attempt = a.attempt ∧ started.group = a.group ∧
      started.endedAt = a.endedAt ∧ started.settlement = a.settlement ∧
      ∀ t, a.startedAt = some t → started.startedAt = some t := by
    simp only [started]
    split_ifs with hn
    · exact ⟨rfl, rfl, rfl, rfl, fun t ht => by simp [ht] at hn⟩
    · exact ⟨rfl, rfl, rfl, rfl, fun _ h => h⟩
  obtain ⟨hatt, hgroup, hended, hsettled, honce⟩ := hkeep
  have hget : (fx.modifyAttempt id fun a =>
      if a.startedAt.isNone then { a with startedAt := some at_ } else a).st.attempts.get? id =
        some started := by
    simp [modifyAttempt, ha, started]
  refine Lived.move { started with attempt := { started.attempt with state := .running } }
    a.attempt.job a.attempt.node h ha
    ⟨⟨[(a.attempt.state, .running)], rfl, .single (by rw [hstate]; rfl)⟩,
      ⟨by simp [hatt], by simp [hatt], by simp [hatt], by simp [hatt], hgroup⟩, honce,
      fun t ht => by simp [hended, ht], fun x hx => by simp [hsettled, hx]⟩
    ⟨?_, ?_, fun _ => hsome⟩ rfl (by simp) (by simp) ?_ ?_ ?_
  · rw [hended, hs.ended, hstate]
    rfl
  · rw [hsettled, hs.settled, hstate]
    rfl
  · unfold Effects.markAttemptRunning
    simp only [ha, modifyAllocation, attemptTransition_st]
    rfl
  · unfold Effects.markAttemptRunning
    simp only [ha, modifyAllocation, attemptTransition_st, modifyAttempt, modify_modify]
    rw [modify_of_some _ ha]
    rfl
  · unfold Effects.markAttemptRunning
    simp only [ha]
    have hne : started.attempt.state ≠ .running := by simp [hatt, hstate]
    have hev := attemptTransition_events _ hget hne
    rw [hatt] at hev
    exact hev

/-! ## Annotations -/

theorem AttemptLife.noted (h : a.Noted a') : AttemptLife a [] a' := by
  refine ⟨⟨[], rfl, by rw [h.attempt]; exact .nil _⟩, ⟨by rw [h.attempt], by rw [h.attempt],
    by rw [h.attempt], by rw [h.attempt], h.group⟩, ?_, ?_, ?_⟩
  · exact fun t ht => h.started.trans ht
  · exact fun t ht => h.ended.trans ht
  · exact fun x hx => h.settled.trans hx

theorem Lived.annotate (h : Lived skip s) (hjobs : s'.jobs = s.jobs)
    (hatt : OrdMap.Rel AttemptRecord.Noted s.attempts s'.attempts) : Lived skip s' := by
  refine ⟨fun hr => h.jobs (hjobs ▸ hr), fun {id a'} ha' => ?_,
    fun {j r id a'} hj hr habort hst ha' => ?_⟩
  · obtain ⟨a, ha, hn⟩ := hatt.back ha'
    have hs := h.attempts ha
    exact ⟨by rw [hn.ended, hn.attempt, hs.ended], by rw [hn.settled, hn.attempt, hs.settled],
      by rw [hn.started, hn.attempt]; exact hs.started⟩
  · obtain ⟨a, ha, hn⟩ := hatt.back ha'
    rw [hn.attempt]
    exact h.aborts hj (hjobs ▸ hr) habort hst ha

theorem Traced.annotate {s : StateMachine} {evs : List Event} (hjobs : s'.jobs = s.jobs)
    (hatt : OrdMap.Rel AttemptRecord.Noted s.attempts s'.attempts) (hevs : ∀ e ∈ evs, e.Silent) :
    Traced s evs s' := by
  refine ⟨fun j => ?_, fun id => ?_⟩
  · rw [hjobs, jobSteps_silent hevs]
    exact .refl s' _
  · rw [attemptSteps_silent hevs]
    rcases hatt id with ⟨h1, h2⟩ | ⟨a, a', h1, h2, hn⟩
    · rw [h1, h2]
      exact .absent
    · rw [h1, h2]
      exact .goes (.noted hn)

theorem FundsTold.silent {evs : List Event} (hevs : ∀ e ∈ evs, e.Silent) (s : StateMachine) :
    FundsTold evs s :=
  ⟨fun al r _ => by rw [fundings_silent hevs, attemptSteps_silent hevs]; rfl,
    fun al _ => fundings_silent hevs al⟩

/-- Marking victims reports no state. -/
theorem recordVictims_silent (group : List Victim) (fx : Effects) (at_ : Timestamp)
    (node : NodeId) :
    ∃ evs, (group.foldl (fun fx v => fx.recordVictim at_ node v) fx).events = fx.events ++ evs ∧
      ∀ e ∈ evs, e.Silent := by
  induction group generalizing fx with
  | nil => exact ⟨[], by simp, by simp⟩
  | cons v rest ih =>
    obtain ⟨evs, hevs, hsil⟩ := ih (fx.recordVictim at_ node v)
    obtain ⟨evs0, hevs0, hsil0⟩ :
        ∃ evs, (fx.recordVictim at_ node v).events = fx.events ++ evs ∧ ∀ e ∈ evs, e.Silent := by
      unfold recordVictim
      split
      · exact ⟨[], by simp, by simp⟩
      · exact ⟨_, rfl, by simp [Event.Silent]⟩
    refine ⟨evs0 ++ evs, ?_, ?_⟩
    · rw [foldl_cons, hevs, hevs0, append_assoc]
    · intro e he
      rcases mem_append.mp he with he | he
      · exact hsil0 e he
      · exact hsil e he

/-! ## Seats -/

theorem AttemptRecord.Unstamped.stamped (h : a.Unstamped)
    (hst : a.attempt.state = .accruing ∨ a.attempt.state = .ready) : a.Stamped := by
  rcases hst with e | e <;> exact ⟨by rw [h.ended, e]; rfl, by rw [h.settled, e]; rfl, by simp [e]⟩

/-- The job of a seat goes from the queue to its new attempt. -/
theorem JobLife.seats {j : JobRecord} (id : AttemptId) (hst : j.state = .queued) :
    JobLife s' j [(.queued, .attempting id)]
      { j with attempts := j.attempts ++ [id], state := .attempting id } := by
  refine ⟨?_, ⟨by simp [hst, JobState.isTerminal], fun _ h => h, rfl⟩, by simp, ?_, by simp⟩
  · rw [hst]
    exact .single rfl
  · simp [StateMachine.chargedStep]

/-- A seat is told, and its records start out without stamps. -/
theorem Sound.seat_told (at_ : Timestamp) (cutoff : Option Timestamp) (group : List Victim)
    (h : Sound ∅ fx) (hl : Lived ∅ fx.st) (hf : Fresh fx p spec j) (hst : j.state = .queued) :
    Lived ∅ (fx.seatPlacement at_ p cutoff group).st ∧
      Told fx (fx.seatPlacement at_ p cutoff group) := by
  obtain ⟨fx1, a, q, heq, -, hatt, hun, hev, hst1, -, -⟩ :=
    seatPlacement_eq fx at_ cutoff group hf.one hf.job
  have hne : j.state ≠ .attempting p.attempt := by rw [hst]; simp
  rw [if_pos hne, hst] at hev
  let full : Prop := (fx.seatedAllocation p spec).allocation.funded = spec.requested
  have hast : a.attempt.state = .accruing ∨ a.attempt.state = .ready := by
    rw [hatt]
    split_ifs <;> simp
  have hatts : fx1.st.attempts = fx.st.attempts.insert p.attempt a := by
    rw [hst1]
    simp [seatRecords, hatt]
  have hjobs : fx1.st.jobs = fx.st.jobs.insert p.job
      { j with attempts := j.attempts ++ [p.attempt], state := .attempting p.attempt } := by
    rw [hst1]
  have halls : fx1.st.allocations =
      fx.st.allocations.insert spec.id (fx.seatedAllocation p spec) := by rw [hst1]; rfl
  have hstates i : attemptSteps i (seatEvents fx p spec ++ [.jobStateChanged p.job .queued
      (.attempting p.attempt)]) = if p.attempt = i then [a.attempt.state] else [] := by
    rw [attemptSteps_append, hatt, seatEvents]
    split_ifs with hfull hi hi <;> simp [attemptSteps, hi]
  have hsteps k : jobSteps k (seatEvents fx p spec ++ [.jobStateChanged p.job .queued (.attempting
      p.attempt)]) = if p.job = k then [(.queued, .attempting p.attempt)] else [] := by
    rw [jobSteps_append, jobSteps_changed]
    have hnil : jobSteps k (seatEvents fx p spec) = [] := by
      unfold seatEvents
      split_ifs <;> rfl
    rw [hnil, nil_append]
  have hl1 : Lived ∅ fx1.st := by
    refine ⟨fun {k r} hr => ?_, fun {i b} hb => ?_, fun {k r i b} hk hr habort hrst hb => ?_⟩
    · rw [hjobs, get?_insert] at hr
      split_ifs at hr
      · cases hr
        have hs := hl.jobs hf.job
        have hnone := hs.terminalAt
        rw [hst] at hnone
        exact ⟨hnone, by simp, hs.retries⟩
      · exact hl.jobs hr
    · rw [hatts, get?_insert] at hb
      split_ifs at hb
      · cases hb
        exact hun.stamped hast
      · exact hl.attempts hb
    · rw [hjobs, get?_insert] at hr
      split_ifs at hr
      · -- a job with a pending abort is not in the queue
        cases hr
        exact absurd hst ((hl.jobs hf.job).abort habort)
      · obtain ⟨c, hc, -, -⟩ := h.jobs.attempting hr hrst
        rw [hatts, get?_insert_of_ne _ _ (ne_of_get? hf.attempt hc)] at hb
        exact hl.aborts hk hr habort hrst hb
  have ht1 : Traced fx.st (seatEvents fx p spec ++
      [.jobStateChanged p.job .queued (.attempting p.attempt)]) fx1.st := by
    refine ⟨fun k => ?_, fun i => ?_⟩
    · rw [hsteps, hjobs, get?_insert]
      split_ifs with hk
      · rw [← hk, hf.job]
        exact .goes (.seats p.attempt hst)
      · exact .refl _ _
    · rw [hstates, hatts, get?_insert]
      split_ifs with hi
      · rw [← hi, hf.attempt]
        exact .placed hast (.refl a)
      · exact .refl _
  have hfund al : fundings al (seatEvents fx p spec ++ [.jobStateChanged p.job .queued (.attempting
      p.attempt)]) = if spec.id = al ∧ full then 1 else 0 := by
    simp only [seatEvents, full]
    split_ifs with h1 h2 h2 <;> simp_all [fundings]
  have hf1 : FundsTold (seatEvents fx p spec ++
      [.jobStateChanged p.job .queued (.attempting p.attempt)]) fx1.st := by
    refine ⟨fun al r hr => ?_, fun al hal => ?_⟩
    · rw [hfund, hstates]
      rw [halls, get?_insert] at hr
      by_cases hal : spec.id = al
      · rw [if_pos hal] at hr
        cases hr
        have hown : (fx.seatedAllocation p spec).allocation.attempt = p.attempt := rfl
        rw [hown, if_pos rfl, hatt]
        by_cases hfull : full
        · rw [if_pos ⟨hal, hfull⟩, if_pos hfull]
          rfl
        · rw [if_neg (fun e => hfull e.2), if_neg hfull]
          rfl
      · -- an older allocation has an older attempt
        rw [if_neg hal] at hr
        obtain ⟨c, hc, -⟩ := h.books.linked.attempt_of hr
        rw [if_neg (fun e => hal e.1), if_neg (ne_of_get? hf.attempt hc)]
        rfl
    · rw [hfund]
      rw [halls, get?_insert] at hal
      split_ifs at hal with e
      rw [if_neg (fun h => e h.1)]
  -- the victims are marked last
  obtain ⟨evs, hevs, hsil⟩ := recordVictims_silent group fx1 at_ spec.node
  obtain ⟨hq, -, -, hj⟩ := recordVictims_quiet group fx1 at_ spec.node
  rw [← heq] at hevs hq hj
  refine ⟨hl1.annotate hj hq.attempts, _, ?_, ht1.trans (.annotate hj hq.attempts hsil), ?_⟩
  · rw [hevs, hev, append_assoc, append_assoc, append_assoc]
  · refine ⟨fun al r hr => ?_, fun al hal => ?_⟩
    · rw [hq.allocations] at hr
      rw [fundings_append, attemptSteps_append, count_append, fundings_silent hsil,
        attemptSteps_silent hsil, hf1.ready al r hr]
      rfl
    · rw [hq.allocations] at hal
      rw [fundings_append, fundings_silent hsil, hf1.absent al hal]

end Coppice.State
