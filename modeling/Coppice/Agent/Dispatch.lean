/-
  Coppice.Agent.Dispatch

  One turn of the agent's loop: the fencing check, the durable watermark, the
  journaled intent of a StartJob and its hand-over.  Every turn keeps the agent
  live.
-/

import Coppice.Agent.Upkeep

namespace Coppice.Agent

open Lib Coppice.Core Storage Protocol List Entry Session Eff

section Commands

variable {m : Bool} {w : JournalWire} {a : Process} {alloc : AllocationId} {ids : StartIds}
  {token : FencingToken} {seq : UInt64} {s : Session}

section

variable (h : Live m w a)

include h

/-- Light deeds may always follow. -/
theorem Live.light {more : List Deed} (hmore : ∀ d ∈ more, d.Light) :
    Live m w { a with deeds := a.deeds ++ more } :=
  ⟨h.logged, h.ranged, h.covers.append hmore, h.proper.append fun d hd => (hmore d hd).plain,
    fun t q ht heq =>
      h.recent t q (freshSince_append_subset (fun d hd => (hmore d hd).plain) ht) heq, h.idle⟩

/-! ## A queued start -/

/-- Live, but for a start in the queue that nothing came before. -/
structure Loaded (m : Bool) (w : JournalWire) (a : Process) : Prop where
  live : Live m w { a with session := { a.session with pendingStarts := [] } }
  queued : a.session.pendingStarts = [] ∨ ∃ spec rec, a.session.pendingStarts = [spec] ∧
    a.session.state.intents.get? spec.allocation = some rec ∧
    (rec.attempt = spec.attempt ∧ rec.job = spec.job) ∧
    Deed.tombstoned spec.allocation ∉ a.deeds ∧
    ∀ spec', Deed.start spec' ∈ a.deeds → spec'.allocation ≠ spec.allocation

theorem Live.loaded : Loaded m w a :=
  ⟨h.agrees (agrees_of rfl rfl h.idle.symm rfl fun hin => ⟨hin.deferred, hin.bounds⟩), .inl h.idle⟩

theorem Live.queue {spec : StartSpec} {rec : IntentRec}
    (hrec : a.session.state.intents.get? spec.allocation = some rec)
    (hids : rec.attempt = spec.attempt ∧ rec.job = spec.job)
    (htomb : Deed.tombstoned spec.allocation ∉ a.deeds)
    (hstart : ∀ spec', Deed.start spec' ∈ a.deeds → spec'.allocation ≠ spec.allocation) :
    Loaded m w { a with
      session := { a.session with pendingStarts := a.session.pendingStarts ++ [spec] } } := by
  refine ⟨h.loaded.live, .inr ⟨spec, rec, ?_, hrec, hids, htomb, hstart⟩⟩
  rw [h.idle, nil_append]

theorem Live.tombstoned_notMem (htomb : a.session.state.tombstones.get? alloc = none)
    : Deed.tombstoned alloc ∉ a.deeds := by
  intro hmem
  obtain ⟨r, hr⟩ := h.covers.tombstones _ hmem
  rw [htomb] at hr
  cases hr

theorem Live.start_notMem (hnone : a.session.state.intents.get? alloc = none) :
    ∀ spec, Deed.start spec ∈ a.deeds → spec.allocation ≠ alloc := by
  rintro spec hspec rfl
  obtain ⟨rec, hrec, -⟩ := h.covers.starts spec hspec
  rw [hnone] at hrec
  cases hrec

end

/-- From `a`, the computation leaves the process loaded. -/
def Loads {α : Type} (m : Bool) (w : JournalWire) (x : Act α) (a : Process) : Prop :=
  Eff.wp m never (Live true w) x (fun _ b => Loaded m w b) a

theorem Steady.loads {α : Type} {x : Act α} (h : Steady m w x a) : Loads m w x a :=
  h.imp fun _ _ hb => hb.loaded

theorem Steady.bind_loads {α β : Type} {x : Act α} {f : α → Act β} (h : Steady m w x a)
    (hf : ∀ v b, Live m w b → Loads m w (f v) b) : Loads m w (x >>= f) a :=
  wp_bind.mpr (h.imp hf)

/-- The queue handed over: the start becomes a deed. -/
theorem Loaded.started (h : Loaded m w a) :
    Live m w { a with
      session := { a.session with pendingStarts := [] }
      deeds := a.deeds ++ a.session.pendingStarts.map Deed.start } := by
  have hlive := h.live
  rcases h.queued with hnil | ⟨spec, rec, hspec, hrec, ⟨hattempt, hjob⟩, htomb, hstart⟩
  · rw [hnil, map_nil, append_nil]
    exact hlive
  · rw [hspec]
    refine ⟨hlive.logged, hlive.ranged, hlive.covers.start hrec hattempt hjob,
      hlive.proper.start htomb hstart, fun t q ht heq => ?_, rfl⟩
    rw [map_singleton, freshSince_snoc] at ht
    exact hlive.recent t q ht heq

theorem Loaded.spawn (h : Loaded m w a) : Steady m w spawn a := by
  have hstops : ∀ d ∈ a.session.pendingStops.map Deed.stop, d.Light := by
    intro d hd
    obtain ⟨r, -, rfl⟩ := mem_map.mp hd
    trivial
  refine wp_modify.mpr ((h.started.light hstops).agrees ?_)
  exact agrees_of rfl rfl rfl rfl fun hin => ⟨hin.deferred, hin.bounds⟩

/-! ## StartJob -/

theorem agrees_openLaunchBound (s : Session) (intent : IntentRec) (latest : Option Timestamp)
    (now : Timestamp) : s.Agrees (s.openLaunchBound intent latest now) := by
  refine Agrees.trans ?_ (agrees_refreshLaunchBound _ intent now)
  refine agrees_of rfl rfl rfl rfl fun hin => ⟨hin.deferred, fun k x hx r hr => ?_⟩
  simp only [OrdMap.get?_insert] at hx
  split at hx
  · cases hx
    cases hr
  · exact hin.bounds k x hx r hr

/-- The ids of a command are those of the source's types. -/
structure StartIds.InRange (ids : StartIds) : Prop where
  allocation : ids.allocation < 2 ^ 128
  attempt : ids.attempt < 2 ^ 128
  job : ids.job < 2 ^ 128

section

variable (h : Live m w a) (sj : StartJob) (hids : ids.InRange)
  (hnone : a.session.state.intents.get? ids.allocation = none)
  (htomb : a.session.state.tombstones.get? ids.allocation = none) (env : TextMap)
  (identity : ResumptionIdentity) (latest : Option Timestamp) (clock : Clock)

include h hids hnone htomb

theorem Live.launch : Loads m w (launch w sj ids env identity latest clock) a := by
  have hnovel : (intent (startIntent sj ids a.session.epoch)).Novel a.session.state := hnone
  have hrange : (intent (startIntent sj ids a.session.epoch)).InRange :=
    ⟨hids.allocation, hids.attempt, hids.job⟩
  refine wp_session.mpr (wp_bind.mpr ((h.journalled hrange hnovel).imp ?_))
  rintro _ b ⟨hb, hsession, hdeeds⟩
  have hdeeds' : b.deeds = a.deeds := hdeeds.trans (append_nil _)
  have hopen := agrees_openLaunchBound b.session (startIntent sj ids a.session.epoch) latest
    clock.now
  have hintent : (b.session.openLaunchBound (startIntent sj ids a.session.epoch) latest
      clock.now).state.intents.get? ids.allocation = some (startIntent sj ids a.session.epoch) := by
    rw [hopen.intents, hsession]
    exact OrdMap.get?_insert_self _ _ _
  have hc := hb.agrees (s := { b.session.openLaunchBound (startIntent sj ids a.session.epoch) latest
      clock.now with starting := (b.session.openLaunchBound (startIntent sj ids a.session.epoch)
        latest clock.now).starting.insert ids.allocation () })
    ⟨⟨hopen.intents, hopen.tombstones, hopen.notices, hopen.journal, hopen.starts, hopen.watermark,
      fun hin => ⟨(hopen.inFlight hin).deferred, (hopen.inFlight hin).bounds⟩⟩, hopen.lastSeq⟩
  refine wp_bind.mpr (wp_update.mpr ?_)
  split
  · exact (hc.finishStart _ clock).loads
  · refine wp_bind.mpr (wp_update.mpr (wp_pure.mpr (hc.queue hintent ⟨rfl, rfl⟩ ?_ ?_)))
    · rw [hdeeds']
      exact h.tombstoned_notMem htomb
    · rw [hdeeds']
      exact h.start_notMem hnone

theorem Live.admitStart : Loads m w (admitStart w sj ids env identity latest clock) a := by
  refine wp_session.mpr ?_
  dsimp only
  split
  · next refusal _ =>
      have hentry : (tombstone ids.allocation (.preempt refusal.reason)).InRange := by
        refine ⟨hids.allocation, ?_⟩
        rintro r ⟨⟩
        cases refusal <;> trivial
      exact ((h.note _ hentry trivial).bind fun _ b hb => steady_session (hb.pure _)).loads
  · exact h.launch sj hids hnone htomb env identity latest clock

end

/-- The ids a StartJob names are in range. -/
def StartJobInRange (sj : StartJob) : Prop := ∀ ids, startIds sj = some ids → ids.InRange

theorem Live.startJob (h : Live m w a) (hsj : StartJobInRange sj) (clock : Clock) :
    Loads m w (startJob w sj clock) a := by
  unfold Agent.startJob
  split
  · exact (h.pure _).loads
  · next ids hids =>
      refine wp_session.mpr ?_
      split
      · exact (h.pure _).loads
      · next htomb =>
          split
          · split
            · exact (h.pure _).loads
            · exact (h.pure _).loads
          · next hcontains =>
              have hnone : a.session.state.intents.get? ids.allocation = none := by
                simpa [OrdMap.contains_eq_false_iff] using hcontains
              split
              · exact h.admitStart sj (hsj ids hids) hnone htomb _ _ _ clock
              · exact (h.pure _).loads

/-! ## One turn of the loop -/

@[simp] theorem wp_log {quiet : Bool} {E : IoError → Process → Prop} {C : Process → Prop} {d : Deed}
    {Q : Unit → Process → Prop} :
    Eff.wp quiet E C (Act.log d) Q a ↔ Q () { a with deeds := a.deeds ++ [d] } := by
  simp [Act.log]

theorem max_eq_of_ge {x y : UInt64} (h : y ≤ x) : max x y = x := by
  show (if x ≤ y then y else x) = x
  split
  · next hle => exact UInt64.le_antisymm h hle
  · rfl

/-- A token that is not stale becomes the watermark. -/
theorem Live.raiseWatermark (h : Live m w a)
    (hterm : a.session.state.watermark.leaderTerm ≤ token.leaderTerm)
    (hepoch : a.session.state.watermark.nodeEpoch ≤ token.nodeEpoch) :
    Eff.wp m never (Live true w) (raiseWatermark w token)
      (fun _ b => Live m w b ∧
        b.session.state.watermark = ⟨token.leaderTerm, token.nodeEpoch⟩) a := by
  refine wp_session.mpr ?_
  simp only [max_eq_of_ge hterm, max_eq_of_ge hepoch]
  split
  · next hraise =>
      have hbelow : a.session.state.watermark.Below ⟨token.leaderTerm, token.nodeEpoch⟩ := by
        refine ⟨hterm, hepoch, fun heq => ?_⟩
        rw [heq] at hraise
        rcases hraise with hlt | hlt
        · exact UInt64.lt_irrefl _ hlt
        · exact UInt64.lt_irrefl _ hlt
      have hnovel : (fencing ⟨token.leaderTerm, token.nodeEpoch⟩).Novel a.session.state := hbelow
      have hrange : (fencing ⟨token.leaderTerm, token.nodeEpoch⟩).InRange := trivial
      refine wp_bind.mpr ((h.journalled hrange hnovel).imp ?_)
      rintro _ b ⟨hb, hsession, hdeeds⟩
      have hdeeds' : b.deeds = a.deeds := hdeeds.trans (append_nil _)
      have hwm : b.session.state.watermark = ⟨token.leaderTerm, token.nodeEpoch⟩ := by
        rw [hsession]
        exact congrArg JournalState.watermark (note_fencing hbelow)
      refine wp_update.mpr ⟨hb.akin ⟨rfl, rfl, rfl, rfl, rfl, hwm.symm, fun hin => ?_⟩ ?_, rfl⟩
      · exact ⟨hin.deferred, hin.bounds⟩
      · intro t q ht heq
        rw [hdeeds'] at ht
        exact absurd heq (h.beyond hbelow ht)
  · next hsame =>
      refine wp_pure.mpr ⟨h, ?_⟩
      obtain ⟨hge, hge'⟩ := not_or.mp hsame
      exact Watermark.ext (UInt64.le_antisymm hterm (UInt64.not_lt.mp hge))
        (UInt64.le_antisymm hepoch (UInt64.not_lt.mp hge'))

section

variable (h : Live m w a) (hwm : a.session.state.watermark = ⟨token.leaderTerm, token.nodeEpoch⟩)

include h hwm

/-- Admitting a command under the watermark's own token. -/
theorem Live.admitted {fresh : Bool} (hfresh : fresh = true → (token, seq) ∉ freshSince a.deeds)
    (hseq : fresh = true → a.session.lastSeq = some seq) :
    Live m w { a with deeds := a.deeds ++ [.admitted token seq fresh] } := by
  have hold t q f (ht : Deed.admitted t q f ∈ a.deeds) : t.leaderTerm ≤ token.leaderTerm ∧
      t.nodeEpoch ≤ token.nodeEpoch := by
    have hc := h.covers.admitted t q f ht
    rwa [hwm] at hc
  have hcover : a.session.state.watermark.Covers token := by
    rw [hwm]
    exact ⟨UInt64.le_refl _, UInt64.le_refl _⟩
  refine ⟨h.logged, h.ranged, h.covers.admitted_snoc hcover seq fresh,
    h.proper.admitted hold hfresh,
    fun t q ht heq => ?_, h.idle⟩
  rw [freshSince_snoc] at ht
  cases fresh with
  | false => exact h.recent t q ht heq
  | true =>
    rcases mem_append.mp ht with ht | ht
    · exact h.recent t q ht heq
    · cases mem_singleton.mp ht
      exact ⟨seq, hseq rfl, UInt64.le_refl _⟩

/-- A fresh sequence number under the watermark's own token was not used since the reset. -/
theorem Live.unused (hseq : ∀ last, a.session.lastSeq = some last → ¬ seq ≤ last) :
    (token, seq) ∉ freshSince a.deeds := by
  intro hmem
  obtain ⟨last, hlast, hle⟩ := h.recent token seq hmem hwm
  exact hseq last hlast hle

end

section

variable (h : Live m w a)

include h

/-- The last sequence number may only go up. -/
theorem Live.advance (hseq : ∀ last, a.session.lastSeq = some last → ¬seq ≤ last) :
    Live m w { a with session := { a.session with lastSeq := some seq } } := by
  refine h.akin ⟨rfl, rfl, rfl, rfl, rfl, rfl, fun hin => ⟨hin.deferred, hin.bounds⟩⟩ ?_
  intro t q ht heq
  obtain ⟨last, hlast, hle⟩ := h.recent t q ht heq
  have hlt : last < seq := UInt64.not_le.mp (hseq last hlast)
  exact ⟨seq, rfl, UInt64.le_trans hle (UInt64.le_of_lt hlt)⟩

theorem Live.admitHeader (header : CommandHeader) : Steady m w (admitHeader w header) a := by
  refine steady_session ?_
  dsimp only
  split
  · exact h.pure _
  · next hstale =>
      obtain ⟨hterm, hepoch⟩ := not_or.mp hstale
      refine wp_bind.mpr
        ((h.raiseWatermark (UInt64.not_lt.mp hterm) (UInt64.not_lt.mp hepoch)).imp ?_)
      rintro _ b ⟨hb, hwm⟩
      refine wp_session.mpr ?_
      split
      · refine wp_bind.mpr (wp_log.mpr (Live.pure (hb.admitted hwm ?_ ?_) _))
        · simp
        · simp
      · next hnew =>
          have hseq : ∀ last, b.session.lastSeq = some last → ¬ header.commandSeq ≤ last := by
            intro last hlast hle
            rw [hlast] at hnew
            exact hnew (by simpa using hle)
          refine wp_bind.mpr (wp_update.mpr (wp_bind.mpr (wp_log.mpr ?_)))
          refine Live.pure ((hb.advance hseq).admitted hwm (fun _ => ?_) fun _ => rfl) _
          exact hb.unused hwm hseq

theorem Live.registerAccepted (observed : Observation) (clock : Clock) :
    Steady m w (registerAccepted observed clock) a := by
  refine steady_session ((h.update ?_).bind fun _ b hb => hb.pure _)
  exact agrees_of rfl rfl rfl rfl fun hin => ⟨hin.deferred, hin.bounds⟩

/-- The ids of a command are those of the source's types. -/
def BodyInRange : CommandBody → Prop
  | .startJob sj => StartJobInRange sj
  | .stopJob sp => ∀ alloc, sp.allocation = some alloc → alloc < 2 ^ 128
  | .preemptJob pj => ∀ r, pj.reason = some r → InRange.ReasonInRange r
  | _ => True

theorem Live.handleFresh (hbody : BodyInRange body) (clock : Clock) :
    Loads m w (handleFresh w body clock) a := by
  cases body with
  | startJob sj => exact h.startJob hbody clock
  | stopJob sp => exact (h.stopJob hbody).loads
  | preemptJob pj => exact (h.preemptJob hbody clock.now).loads
  | drain d => exact (h.onDrain d clock.now).loads
  | _ => exact (h.pure _).loads

theorem Live.handleCommand {cmd : AgentCommand}
    (hcmd : ∀ body, cmd.body = some body → BodyInRange body) (observed : Observation)
    (clock : Clock) : Loads m w (handleCommand w cmd observed clock) a := by
  unfold Agent.handleCommand
  split
  · refine (h.admitHeader _).bind_loads fun v b hb => ?_
    cases v with
    | reject => exact (hb.pure _).loads
    | duplicate => exact (hb.registerAccepted observed clock).loads
    | fresh => exact (hb.registerAccepted observed clock).loads
  · next header body _ _ hbody =>
      refine wp_session.mpr ?_
      split
      · refine (h.admitHeader _).bind_loads fun v b hb => ?_
        cases v with
        | reject => exact (hb.pure _).loads
        | duplicate => exact (steady_session (hb.pure _)).loads
        | fresh => exact hb.handleFresh (hcmd body hbody) clock
      · exact (h.pure _).loads
  · exact (h.pure _).loads

end

/-- The ids and exit codes of an event are those of the source's types. -/
def Event.InRange : Event → Prop
  | .command cmd _ _ => ∀ body, cmd.body = some body → BodyInRange body
  | .stopDone _ result _ => AnswerInRange result
  | .exit _ info => info.InRange
  | .watchdog _ answer => AnswerInRange answer
  | _ => True

/-- A handler, and then the hand-over of what it queued. -/
theorem Loads.spawn (h : Loads m w x a) :
    Steady m w (do let reports ← x; spawn; return reports) a :=
  wp_bind.mpr (h.imp fun _ _ hb => hb.spawn.bind fun _ _ hc => hc.pure _)

theorem Live.reaps (h : Live m w a) (hs : a.session.Agrees s) (reaps : List AllocationId) :
    Live m w { a with session := s, deeds := a.deeds ++ reaps.map Deed.reap } := by
  refine (h.agrees hs).light fun d hd => ?_
  obtain ⟨r, -, rfl⟩ := mem_map.mp hd
  trivial

/-- The session begins anew. -/
def Process.reconnected (a : Process) : Process :=
  { a with session := a.session.reset, deeds := a.deeds ++ [.reset] }

/-- A reset forgets which commands were fresh. -/
theorem Live.reconnected (h : Live m w a) : Live m w a.reconnected := by
  have hlight : ∀ d ∈ [Deed.reset], d.Light := by simp [Deed.Light]
  have hakin : a.session.Akin a.session.reset :=
    ⟨rfl, rfl, rfl, rfl, rfl, rfl, fun hin => ⟨hin.deferred, hin.bounds⟩⟩
  refine (h.light hlight).akin hakin fun t q ht _ => ?_
  rw [freshSince_snoc] at ht
  cases ht

/-- Bytes that no sync covers are in the journal: a failed append left them. -/
def Process.torn (a : Process) : Bool := !(a.fs.files a.session.journal).journal.isEmpty

/-- The disk tells whether a part of a frame was left. -/
theorem Live.exact (h : Live m w a) : Live a.torn w a := by
  have hclean (h : Live false w a) : Live a.torn w a := by
    obtain ⟨es, hlogged, -⟩ := h.logged
    have htorn : a.torn = false := by simp [Process.torn, Logged.synced hlogged |>.journal]
    rwa [htorn]
  cases m with
  | false => exact hclean h
  | true =>
    obtain ⟨es, ⟨d₀, e, k, hlogged, -, -, hd⟩, hbacks⟩ := h.logged
    by_cases hpart : (encodeFrame w e.record).take k = []
    · have hsame : tear w a.session.journal e k d₀ = d₀ := by
        simp [tear, Disk.onFile, FileNode.append, hpart]
      exact hclean { h with logged := ⟨es, (hd.trans hsame).symm ▸ hlogged, hbacks⟩ }
    · have htorn : a.torn = true := by
        simp [Process.torn, hd, tear, Disk.onFile, FileNode.append, hpart]
      rwa [htorn]

/-- One turn of the loop keeps the agent live. -/
theorem Live.handle (h : Live m w a) {ev : Event} (hev : ev.InRange) :
    Steady m w (handle w ev) a := by
  cases ev with
  | resume now => exact (h.resumeNotices now).bind fun _ _ hb => hb.pure _
  | command cmd observed clock => exact (h.handleCommand hev observed clock).spawn
  | interruption deadline now => exact (h.onInterruption deadline now).loads.spawn
  | timersDue now =>
    refine (h.beginDueNotices now).bind fun _ b hb => ?_
    refine (hb.beginDueStops now).bind fun _ c hc => ?_
    exact hc.loaded.spawn.bind fun _ _ hd => hd.pure _
  | startDone alloc result clock => exact (h.finishStart result clock).loads.spawn
  | stopDone alloc result now => exact (h.finishStop hev now).loads.spawn
  | exit alloc info => exact h.handleObservedExit hev
  | watchdog alloc answer => exact h.triggerMaxRuntime hev
  | heartbeat observed => exact steady_session (h.pure _)
  | janitor observed now bound =>
    refine Steady.bind (wp_modify.mpr (h.reaps ?_ _)) fun _ b hb => hb.pure _
    exact agrees_of rfl rfl rfl rfl fun hin => hin
  | housekeeping =>
    refine Steady.bind (wp_modify.mpr (h.reaps ?_ _)) fun _ b hb => hb.pure _
    exact agrees_of rfl rfl rfl rfl fun hin => ⟨hin.deferred, hin.bounds⟩
  | shutdown =>
    refine (h.update ?_).bind fun _ b hb => hb.pure _
    exact agrees_of rfl rfl rfl rfl fun hin => ⟨hin.deferred, hin.bounds⟩
  | disconnected =>
    exact wp_bind.mpr (wp_update.mpr (wp_bind.mpr (wp_log.mpr (h.reconnected.pure _))))

end Commands

end Coppice.Agent
