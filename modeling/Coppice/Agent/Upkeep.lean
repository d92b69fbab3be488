/-
  Coppice.Agent.Upkeep

  Every handler of the agent keeps it live.  The one that queues a start leaves it
  `Loaded`, and handing over the queue makes it live again.
-/

import Coppice.Agent.Steady

namespace Coppice.Agent

open Lib Coppice.Core Storage Protocol OrdMap Entry Session

variable {m : Bool} {w : JournalWire} {a : Process} {alloc : AllocationId} {s : Session}
  {reason : PreemptReason}
  {result answer : Except ExecutorError StopOutcome} {o : AttemptOutcome} {runtime : Duration}

/-! ## Notices -/

theorem InFlightRanged.refreshLaunchBound (h : s.InFlightRanged) (intent : IntentRec)
    (now : Timestamp) : (s.refreshLaunchBound intent now).InFlightRanged := by
  unfold Session.refreshLaunchBound
  split
  · exact h
  · next bound hbound =>
      refine ⟨h.deferred, fun b x hx r hr => ?_⟩
      have hold := h.bounds _ bound hbound
      simp only [get?_insert] at hx
      split at hx
      · cases hx
        split at hr
        · next terms hterms =>
            split at hr
            · exact hold r hr
            · cases hr
              exact planTerms_reason hterms
        · exact hold r hr
      · exact h.bounds b x hx r hr

/-- Moving one launch bound. -/
theorem Session.agrees_refreshLaunchBound (s : Session) (intent : IntentRec) (now : Timestamp) :
    s.Agrees (s.refreshLaunchBound intent now) := by
  have hin : s.InFlightRanged → (s.refreshLaunchBound intent now).InFlightRanged :=
    fun h => InFlightRanged.refreshLaunchBound h intent now
  unfold refreshLaunchBound at hin ⊢
  split at hin <;> exact agrees_of rfl rfl rfl rfl hin

theorem Session.Agrees.trans (h1 : s.Agrees t) (h2 : t.Agrees u) : s.Agrees u :=
  ⟨⟨h2.intents.trans h1.intents, h2.tombstones.trans h1.tombstones, h2.notices.trans h1.notices,
    h2.journal.trans h1.journal, h2.starts.trans h1.starts, h2.watermark.trans h1.watermark,
    fun h => h2.inFlight (h1.inFlight h)⟩, h2.lastSeq.trans h1.lastSeq⟩

theorem Session.agrees_refreshLaunchBounds (s : Session) (now : Timestamp) :
    s.Agrees (s.refreshLaunchBounds now) := by
  unfold refreshLaunchBounds
  generalize s.starting.keys.filterMap s.state.intents.get? = intents
  induction intents generalizing s with
  | nil => exact agrees_of rfl rfl rfl rfl fun h => h
  | cons intent rest ih => exact (s.agrees_refreshLaunchBound intent now).trans (ih _)

theorem Live.setPlan (h : Live m w a) (plan : DrainPlanRec) (now : Timestamp) :
    Steady m w (setPlan w plan now) a :=
  (h.note (.drainPlan plan) trivial trivial).bind fun _ b hb =>
    hb.update (b.session.agrees_refreshLaunchBounds now)

theorem Live.signalAndMark (h : Live m w a) (stopAt now : Timestamp) :
    Steady m w (signalAndMark w alloc stopAt now) a := by
  refine steady_session ?_
  split
  · exact h.pure _
  · next intent hi =>
      refine (h.note (.noticeMark alloc _) (h.ranged.alloc_lt hi) trivial).bind fun _ b hb => ?_
      exact steady_session (hb.pure _)

section

variable (h : Live m w a)

include h

theorem Live.notify (halloc : alloc < 2 ^ 128) (hreason : InRange.ReasonInRange reason)
    (stopAt now : Timestamp) : Steady m w (notify w alloc reason stopAt now) a :=
  (h.note (.noticeIntent alloc reason) ⟨halloc, hreason⟩ trivial).bind fun _ _ hb =>
    hb.signalAndMark stopAt now

theorem Live.shortenMark (halloc : alloc < 2 ^ 128) (intent : IntentRec) (mark : NoticeMarkRec)
    (now : Timestamp) : Steady m w (shortenMark w alloc intent mark now) a := by
  refine steady_session ?_
  split
  · exact h.pure _
  · split
    · exact h.pure _
    · refine (h.note (.noticeMark alloc _) halloc trivial).bind fun _ b hb => ?_
      exact steady_session (hb.pure _)

theorem Live.notifyUnderPlan (now : Timestamp) : Steady m w (notifyUnderPlan w alloc now) a := by
  refine steady_session ?_
  split
  · exact h.pure _
  · next intent hi =>
      have halloc := h.ranged.alloc_lt hi
      split
      · exact h.pure _
      · split
        · exact h.pure _
        · next terms hterms =>
            split
            · split
              · exact h.pure _
              · exact h.notify halloc (planTerms_reason hterms) _ _
            · exact h.signalAndMark _ _
            · exact h.shortenMark halloc _ _ _

theorem Live.beginDueNotices (now : Timestamp) : Steady m w (beginDueNotices w now) a :=
  steady_session (.gather (fun _ _ hb => hb.notifyUnderPlan now) h)

theorem Live.onDrain (drain : Protocol.Drain) (now : Timestamp) :
    Steady m w (onDrain w drain now) a := by
  have haccept target : Steady m w (onDrain.accept w drain now target) a := by
    refine steady_session ?_
    split
    · exact h.pure _
    · exact (h.setPlan _ now).bind fun _ _ hb => hb.beginDueNotices now
  unfold Agent.onDrain
  split
  · exact haccept none
  · split
    · exact h.pure _
    · exact haccept _

theorem Live.onInterruption (deadline now : Timestamp) :
    Steady m w (onInterruption w deadline now) a := by
  refine steady_session ?_
  split
  · refine (h.setPlan _ now).bind fun _ b hb => steady_session ?_
    exact .gather (fun _ _ hc => hc.notifyUnderPlan now) hb
  · exact h.pure _

theorem Live.preemptJob {pj : PreemptJobPb}
    (hpj : ∀ r, pj.reason = some r → InRange.ReasonInRange r) (now : Timestamp) :
    Steady m w (preemptJob w pj now) a := by
  unfold Agent.preemptJob
  split
  · next alloc reason _ hreason =>
      refine steady_session ?_
      split
      · exact h.pure _
      · next intent hi =>
          split
          · exact h.pure _
          · dsimp only
            split
            · exact h.pure _
            · exact h.signalAndMark _ _
            · exact h.notify (h.ranged.alloc_lt hi) (hpj reason hreason) _ _
  · exact h.pure _

theorem Live.resumeNotice (now : Timestamp) : Steady m w (resumeNotice w alloc now) a := by
  refine steady_session ?_
  split
  · exact h.pure _
  · split
    · exact h.signalAndMark _ _
    · exact h.pure _

theorem Live.retireInterruption (now : Timestamp) : Steady m w (retireInterruption w now) a := by
  refine steady_session ?_
  split
  · exact h.setPlan _ now
  · exact h.pure _

theorem Live.resumeNotices (now : Timestamp) : Steady m w (resumeNotices w now) a := by
  refine steady_session ((Steady.gather (fun alloc b hb => ?_) h).bind fun reports b hb => ?_)
  · split
    · exact hb.notifyUnderPlan now
    · exact hb.resumeNotice now
  · exact (hb.retireInterruption now).bind fun _ _ hc => hc.pure _

end

/-! ## Stops -/

theorem Session.agrees_queueStop (s : Session) (alloc : AllocationId) (grace : Duration) :
    s.Agrees (s.queueStop alloc grace) :=
  agrees_of rfl rfl rfl rfl fun h => ⟨h.deferred, h.bounds⟩

theorem Live.tombstoneOnce (h : Live m w a) (halloc : alloc < 2 ^ 128) :
    Steady m w (tombstoneOnce w alloc) a := by
  refine steady_session ?_
  split
  · exact h.pure _
  · refine h.note (.tombstone alloc _) ⟨halloc, ?_⟩ trivial
    rintro r ⟨⟩
    exact h.ranged.stopReason alloc

theorem Live.beginStop (h : Live m w a) (halloc : alloc < 2 ^ 128) :
    Steady m w (beginStop w alloc) a :=
  (h.tombstoneOnce halloc).bind fun _ b hb => hb.update (b.session.agrees_queueStop _ _)

theorem alloc_lt_of_mem_dueBy (h : s.Ranged) {now : Timestamp}
    (ha : alloc ∈ dueBy now s.stopCandidates) : alloc < 2 ^ 128 := by
  obtain ⟨⟨b, t⟩, hmem, rfl⟩ := List.mem_map.mp ha
  obtain ⟨k, hk, hcand⟩ := List.mem_filterMap.mp (List.mem_filter.mp hmem).1
  split at hcand
  · cases hcand
  · obtain ⟨due, -, heq⟩ := Option.map_eq_some_iff.mp hcand
    cases heq
    obtain ⟨rec, hrec⟩ := mem_keys.mp hk
    exact h.alloc_lt hrec

theorem Live.beginDueStops (h : Live m w a) (now : Timestamp) :
    Steady m w (beginDueStops w now) a := by
  refine steady_session ?_
  have hall : ∀ b ∈ dueBy now a.session.stopCandidates, b < 2 ^ 128 :=
    fun b hb => alloc_lt_of_mem_dueBy h.ranged hb
  refine (Eff.wp_forM (fun rest t => Live m w t ∧ ∀ b ∈ rest, b < 2 ^ 128) ?_ ⟨h, hall⟩).imp
    fun _ _ ht => ht.1
  rintro b rest t ⟨ht, hrest⟩
  refine (ht.beginStop (hrest b (by simp))).imp fun _ u hu => ?_
  exact ⟨hu, fun c hc => hrest c (List.mem_cons_of_mem _ hc)⟩

/-- The executor's answer to a stop is in range. -/
def AnswerInRange (answer : Except ExecutorError StopOutcome) : Prop :=
  ∀ stopped, answer = .ok stopped → stopped.InRange

theorem classifyFinished_inRange (h : s.Ranged) (hresult : AnswerInRange result)
    (ho : s.classifyFinished alloc (s.deferredExits.get? alloc) result = some (o, runtime)) :
    OutcomeInRange o := by
  have hkill : OutcomeInRange (classifyFinished.kill s alloc) := by
    unfold classifyFinished.kill
    cases ht : s.state.tombstones.get? alloc with
    | some r => exact outcomeInRange_tombstone (h.tombstones ht)
    | none => exact ⟨by simp [TombstoneReason.outcome], by simp [TombstoneReason.outcome]⟩
  have hx := h.attribution alloc
  have hdeferred {p}
      (hp : (s.deferredExits.get? alloc).map (fun exit =>
        (classifyExit exit (s.state.attribution alloc), exit.runtime)) = some p)
      : OutcomeInRange p.1 := by
    obtain ⟨info, hinfo, rfl⟩ := Option.map_eq_some_iff.mp hp
    exact classifyExit_inRange (h.inFlight.deferred _ _ hinfo) hx
  unfold classifyFinished at ho
  split at ho
  · exact classifyStop_inRange (hresult _ rfl) hkill hx ho
  · exact classifyStop_inRange (hresult _ rfl) hkill hx ho
  · exact hdeferred ho
  · exact hdeferred ho

theorem Live.journalExit (h : Live m w a) {attempt : AttemptId} {job : JobId}
    (hr : (exit ⟨alloc, attempt, job, o, runtime⟩).InRange) :
    Steady m w (journalExit w alloc attempt job o runtime) a :=
  h.note _ hr trivial

theorem Live.finishStop (h : Live m w a) (hresult : AnswerInRange result) (now : Timestamp) :
    Steady m w (finishStop w alloc result now) a := by
  refine steady_session ((h.update ?_).bind fun _ b hb => ?_)
  · refine agrees_of rfl rfl rfl rfl fun hin => ⟨fun k info hinfo => ?_, hin.bounds⟩
    simp only [get?_erase] at hinfo
    split at hinfo
    · cases hinfo
    · exact hin.deferred k info hinfo
  · split
    · exact hb.pure _
    · split
      · exact hb.pure _
      · next intent hi =>
          split
          · refine (hb.update ?_).bind fun _ c hc => hc.pure _
            unfold unresolvedStop
            split <;> exact agrees_of rfl rfl rfl rfl fun hin => ⟨hin.deferred, hin.bounds⟩
          · next o runtime ho =>
              have ho' := classifyFinished_inRange h.ranged hresult ho
              refine (hb.journalExit (h.ranged.exit hi ho' runtime)).bind fun _ c hc => ?_
              refine (hc.update ?_).bind fun _ d hd => steady_session (hd.pure _)
              exact agrees_of rfl rfl rfl rfl fun hin => ⟨hin.deferred, hin.bounds⟩

/-! ## Finished starts -/

theorem planRefusal_inRange {b : StartBound}
    (hb : ∀ r, b.planReason = some r → InRange.ReasonInRange r) {e : StartError}
    (h : b.planRefusal e = some reason) : InRange.ReasonInRange reason := by
  unfold StartBound.planRefusal at h
  split at h
  · split at h
    · cases h
    · cases h
      cases hp : b.planReason with
      | none => trivial
      | some r => exact hb r hp
  · cases h

section

variable (h : Live m w a)

include h

/-- A failed start's outcome, and the tombstone of one the plan refused. -/
theorem Live.refusedOutcome (halloc : alloc < 2 ^ 128) {bound : Option StartBound}
    (hbound : ∀ b, bound = some b → ∀ r, b.planReason = some r → InRange.ReasonInRange r)
    (e : StartError) :
    Eff.wp m never (Live true w) (refusedOutcome w alloc bound e)
      (fun o b => Live m w b ∧ OutcomeInRange o) a := by
  unfold Agent.refusedOutcome
  split
  · next reason hreason =>
      obtain ⟨b, hb, href⟩ := Option.bind_eq_some_iff.mp hreason
      have hr := planRefusal_inRange (hbound b hb) href
      have hentry : (tombstone alloc (.preempt reason)).InRange := by
        refine ⟨halloc, ?_⟩
        rintro r ⟨⟩
        exact hr
      rw [Eff.wp_bind]
      refine Eff.wp.imp (h.note _ hentry trivial) fun _ c hc => ?_
      exact Eff.wp_pure.mpr ⟨hc, outcomeInRange_preempted hr⟩
  · exact Eff.wp_pure.mpr ⟨h, e.outcome_inRange⟩

theorem Live.startedUnderPlan (intent : IntentRec) (now : Timestamp) :
    Steady m w (startedUnderPlan w alloc intent now) a := by
  refine steady_session ?_
  split
  · exact (h.update (a.session.agrees_queueStop _ _)).bind fun _ _ hb => hb.pure _
  · split
    · exact h.pure _
    · exact h.notifyUnderPlan now

theorem Live.finishStart (result : Except StartError Unit) (clock : Clock) :
    Steady m w (finishStart w alloc result clock) a := by
  refine steady_session ((h.update ?_).bind fun _ b hb => ?_)
  · refine agrees_of rfl rfl rfl rfl fun hin => ⟨hin.deferred, fun k x hx => ?_⟩
    simp only [get?_erase] at hx
    split at hx
    · cases hx
    · exact hin.bounds k x hx
  · split
    · exact hb.pure _
    · split
      · exact hb.pure _
      · next intent hi =>
          split
          · refine (hb.update ?_).bind fun _ c hc => steady_session ?_
            · exact agrees_of rfl rfl rfl rfl fun hin => ⟨hin.deferred, hin.bounds⟩
            · exact (hc.startedUnderPlan _ _).bind fun _ _ hd => hd.pure _
          · next e =>
              have hbound := fun x hx => h.ranged.inFlight.bounds alloc x hx
              refine Eff.wp_bind.mpr
                ((hb.refusedOutcome (h.ranged.alloc_lt hi) hbound e).imp ?_)
              rintro o c ⟨hc, ho⟩
              exact (hc.journalExit (h.ranged.exit hi ho _)).bind fun _ _ hd =>
                steady_session (hd.pure _)

/-! ## Stops, watchdogs and exits -/

theorem Live.stopJob {sp : StopJob} (hsp : ∀ b, sp.allocation = some b → b < 2 ^ 128) :
    Steady m w (stopJob w sp) a := by
  unfold Agent.stopJob
  split
  · exact h.pure _
  · next alloc halloc =>
      refine (h.note (.tombstone alloc .abort) ⟨hsp alloc halloc, by simp⟩ trivial).bind
        fun _ b hb => steady_session ?_
      split
      · exact hb.pure _
      · split
        · exact (hb.update (b.session.agrees_queueStop _ _)).bind fun _ _ hc => hc.pure _
        · exact hb.pure _

end

theorem Live.stopAndClassify (h : Live m w a) {intent : IntentRec}
    (hi : a.session.state.intents.get? alloc = some intent) (hkill : OutcomeInRange kill)
    (hanswer : AnswerInRange answer) :
    Steady m w (stopAndClassify w alloc intent kill answer) a := by
  refine steady_session ?_
  split
  · exact h.pure _
  · split
    · exact h.pure _
    · next stopped o runtime ho =>
        have ho' := classifyStop_inRange (hanswer _ rfl) hkill (h.ranged.attribution alloc) ho
        refine (h.journalExit (h.ranged.exit hi ho' runtime)).bind fun _ b hb => ?_
        refine (hb.update ?_).bind fun _ c hc => steady_session (hc.pure _)
        exact agrees_of rfl rfl rfl rfl fun hin => ⟨hin.deferred, hin.bounds⟩

theorem Live.triggerMaxRuntime (h : Live m w a) (hanswer : AnswerInRange answer) :
    Steady m w (triggerMaxRuntime w alloc answer) a := by
  refine steady_session ?_
  split
  · exact h.pure _
  · split
    · exact h.pure _
    · next intent hi => exact h.stopAndClassify hi ⟨by simp, by simp⟩ hanswer

theorem Live.handleObservedExit (h : Live m w a) {info : ExitInfo} (hinfo : info.InRange) :
    Steady m w (handleObservedExit w alloc info) a := by
  refine steady_session ?_
  split
  · exact h.pure _
  · split
    · exact h.pure _
    · next intent hi =>
        split
        · refine (h.update ?_).bind fun _ b hb => hb.pure _
          refine agrees_of rfl rfl rfl rfl fun hin => ⟨fun k x hx => ?_, hin.bounds⟩
          simp only [get?_insert] at hx
          split at hx
          · cases hx
            exact hinfo
          · exact hin.deferred k x hx
        · have ho := classifyExit_inRange hinfo (h.ranged.attribution alloc)
          refine (h.update ?_).bind fun _ b hb => ?_
          · exact agrees_of rfl rfl rfl rfl fun hin => ⟨hin.deferred, hin.bounds⟩
          · refine (hb.journalExit (h.ranged.exit hi ho _)).bind fun _ c hc => ?_
            refine (hc.update ?_).bind fun _ d hd => steady_session (hd.pure _)
            exact agrees_of rfl rfl rfl rfl fun hin => ⟨hin.deferred, hin.bounds⟩

end Coppice.Agent
