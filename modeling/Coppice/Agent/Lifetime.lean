/-
  Coppice.Agent.Lifetime

  Whole histories of a node: processes that recover the journal, take events in any
  order, go on after a failed append, and end or crash at any point.  As long as no
  append follows a failed one that left bytes, an allocation is handed over at most
  once, with a durable intent and never after its tombstone, and the tokens acted on
  never fall.
-/

import Coppice.Agent.Codec
import Coppice.Agent.Dispatch

namespace Coppice.Agent

open Lib Coppice.Core Storage Protocol Entry Option Codec

/-! ## Histories -/

/-- A node: its data directory, the session of its process if one runs, and all deeds of all
    its processes. -/
structure World where
  fs : DataDir := {}
  session : Option Session := none
  deeds : List Deed := []

namespace World

/-- How the run loop goes on after an I/O error.  An event of a connection ends it and resets the
    session, with the journal still open; a background event between connections is only logged;
    an error before the first connection ends the process. -/
def Fallout : Event → Process → Process → Prop
  | .resume _, _, _ => False
  | .interruption _ _, t, u | .timersDue _, t, u | .startDone _ _ _, t, u | .stopDone _ _ _, t, u =>
      u = t ∨ u = t.reconnected
  | _, t, u => u = t.reconnected

/-- One event of a node; `ok` bounds what the loop of a process may be woken by.  An I/O error can
    end a handler at each of its crash points. -/
inductive Step (w : JournalWire) (ok : Process → Event → Prop) : World → World → Prop where
  | opened {x : World} {node : NodeId} {file : Nat} {s : JournalState} (hx : x.session = none)
      (hopen : (openJournal w x.fs).result = .ok (file, s)) :
      Step w ok x ⟨(openJournal w x.fs).state, some (Session.new node file s), x.deeds ++ [.reset]⟩
  | cutOpen {x : World} {t fs : DataDir} (hx : x.session = none)
      (ht : t ∈ (openJournal w).points x.fs) (hfs : t.Halt fs) :
      Step w ok x { x with fs := fs }
  | handled {x : World} {s : Session} {ev : Event} {reports : List AgentReport}
      (hx : x.session = some s) (hev : ok ⟨x.fs, s, x.deeds⟩ ev)
      (hrun : (handle w ev ⟨x.fs, s, x.deeds⟩).result = .ok reports) :
      Step w ok x ⟨(handle w ev ⟨x.fs, s, x.deeds⟩).state.fs,
        some (handle w ev ⟨x.fs, s, x.deeds⟩).state.session,
        (handle w ev ⟨x.fs, s, x.deeds⟩).state.deeds⟩
  | failed {x : World} {s : Session} {ev : Event} {t u : Process} (hx : x.session = some s)
      (hev : ok ⟨x.fs, s, x.deeds⟩ ev) (ht : t ∈ (handle w ev ⟨x.fs, s, x.deeds⟩).trace)
      (hu : Fallout ev t u) :
      Step w ok x ⟨u.fs, some u.session, u.deeds⟩
  | cut {x : World} {s : Session} {ev : Event} {t : Process} {fs : DataDir}
      (hx : x.session = some s) (hev : ok ⟨x.fs, s, x.deeds⟩ ev)
      (ht : t ∈ (handle w ev).points ⟨x.fs, s, x.deeds⟩) (hfs : t.fs.Halt fs) :
      Step w ok x ⟨fs, none, t.deeds⟩
  | ended {x : World} {s : Session} {fs : DataDir} (hx : x.session = some s)
      (hfs : x.fs.Halt fs) :
      Step w ok x ⟨fs, none, x.deeds⟩

/-- The states of the histories that start with an empty data directory. -/
def Reached (w : JournalWire) (ok : Process → Event → Prop) (x : World) : Prop :=
  Relation.ReflTransGen (Step w ok) {} x

/-- No append follows a failed one that left bytes: while the journal has bytes that no sync
    covers, a turn appends nothing. -/
def Careful (w : JournalWire) (a : Process) (ev : Event) : Prop :=
  ev.InRange ∧ (a.torn = true → (handle w ev a).trace = [])

variable {w : JournalWire} {x y : World} {fs : DataDir} {file : Nat} {s : JournalState}

/-- The invariant of a node, between and during its processes. -/
structure Sound (w : JournalWire) (x : World) : Prop where
  down : x.session = none → x.fs.locked = false ∧
    x.fs.Holds journalPath (Filed w fun es => Covers x.deeds (foldEntries es)) ∧ Proper x.deeds
  up : ∀ s, x.session = some s → Live (Process.torn ⟨x.fs, s, x.deeds⟩) w ⟨x.fs, s, x.deeds⟩

theorem sound_initial : Sound w {} where
  down _ := by
    have hcover : Covers [] (foldEntries []) := ⟨by simp, by simp, by simp⟩
    exact ⟨rfl, Disk.Holds.initial ⟨[], by simp, hcover, frames_nil⟩, proper_nil⟩
  up := by simp

theorem Sound.of_recoverable (h : Recoverable w t) (hfs : t.fs.Halt fs) :
    Sound w ⟨fs, none, t.deeds⟩ where
  down _ := ⟨hfs.unlocked, h.filed.halt hfs, h.proper⟩
  up := by simp

/-- Recovery while the node is down. -/
theorem Sound.open_spec (hw : w.Lawful) (h : x.Sound w) (hx : x.session = none) :
    Eff.wp false
      (fun _ d => d.Holds journalPath (Filed w fun es => Covers x.deeds (foldEntries es)))
      (fun d => d.Holds journalPath (Filed w fun es => Covers x.deeds (foldEntries es)))
      (openJournal w)
      (fun r d => Logged w d r.1 r.2.canonicalEntries ∧ r.2.Tidy ∧ Covers x.deeds r.2) x.fs := by
  obtain ⟨hfree, hfiled, -⟩ := h.down hx
  refine (openJournal_spec hw hfiled ?_ hfree).mono (fun _ _ hd => hd.1) (fun _ hd => hd) ?_
  · intro es hsound hcover
    rw [foldEntries_canonical (tidy_foldEntries hsound)]
    exact hcover
  · rintro ⟨file, s⟩ d ⟨hlogged, es, hsound, hcover, rfl⟩
    exact ⟨hlogged, tidy_foldEntries hsound, hcover⟩

theorem Sound.opened (hw : w.Lawful) (h : x.Sound w) (hx : x.session = none) {node : NodeId}
    (hopen : (openJournal w x.fs).result = .ok (file, s)) :
    Sound w ⟨(openJournal w x.fs).state, some (Session.new node file s), x.deeds ++ [.reset]⟩ := by
  obtain ⟨hlogged, htidy, hcover⟩ := (h.open_spec hw hx).ok hopen
  refine ⟨by simp, ?_⟩
  rintro _ ⟨⟩
  refine Live.exact (m := false) ⟨⟨_, hlogged, ?_⟩, ⟨fun hi => ?_, fun ht => ?_, fun hn => ?_, ?_⟩,
    hcover.append (by simp [Deed.Light]), (h.down hx).2.2.plain trivial, fun t q ht _ => ?_, rfl⟩
  · rw [foldEntries_canonical htidy]
    exact Backs.refl s
  · exact ⟨(htidy.intents hi).1, (htidy.intents hi).2.2.2⟩
  · exact (htidy.tombstones ht).2.2
  · exact (htidy.noticeIntents hn).2.2
  · exact ⟨fun k info hinfo => (by cases hinfo), fun k b hb => (by cases hb)⟩
  · rw [freshSince_snoc] at ht
    cases ht

theorem Sound.cutOpen (hw : w.Lawful) (h : x.Sound w) (hx : x.session = none) {t : DataDir}
    (ht : t ∈ (openJournal w).points x.fs) (hfs : t.Halt fs) : Sound w { x with fs := fs } := by
  have hspec := h.open_spec hw hx
  have hpoint : t.Holds journalPath (Filed w fun es => Covers x.deeds (foldEntries es)) := by
    refine hspec.point (fun _ _ hd => hd) ?_ ht
    rintro ⟨file, s⟩ d ⟨hlogged, htidy, hcover⟩
    refine (hlogged.holds hw).mono fun c hc => hc.mono ?_
    rintro l - rfl
    rw [foldEntries_canonical htidy]
    exact hcover
  refine ⟨fun _ => ⟨hfs.unlocked, hpoint.halt hfs, (h.down hx).2.2⟩, fun s hs => ?_⟩
  exact absurd (hx.symm.trans hs) (by simp)

/-- A process that is up. -/
theorem Sound.of_live (h : Live m w a) : Sound w ⟨a.fs, some a.session, a.deeds⟩ := by
  refine ⟨by simp, ?_⟩
  rintro _ ⟨⟩
  exact h.exact

theorem Sound.step (hw : w.Lawful) (h : x.Sound w) (hstep : Step w (Careful w) x y) :
    y.Sound w := by
  cases hstep with
  | opened hx hopen => exact h.opened hw hx hopen
  | cutOpen hx ht hfs => exact h.cutOpen hw hx ht hfs
  | handled hx hev hrun =>
    exact .of_live ((((h.up _ hx).handle hev.1).loud hev.2).ok hrun)
  | @failed s ev t u hx hev ht hu =>
    -- at a crash point, with a part of a frame behind
    have hcut := (((h.up _ hx).handle hev.1).loud hev.2).crash ht
    have hfallout : u = t ∨ u = t.reconnected := by
      unfold Fallout at hu
      split at hu <;> tauto
    rcases hfallout with rfl | rfl
    · exact .of_live hcut
    · exact .of_live hcut.reconnected
  | cut hx hev ht hfs =>
    have hrun := ((h.up _ hx).handle hev.1).loud hev.2
    rcases List.mem_append.mp ht with ht | ht
    · exact .of_recoverable ((hrun.crash ht).recoverable hw) hfs
    · obtain ⟨reports, -, hlive⟩ := hrun.total
      rw [List.mem_singleton.mp ht] at hfs ⊢
      exact .of_recoverable (hlive.recoverable hw) hfs
  | ended hx hfs => exact .of_recoverable ((h.up _ hx).recoverable hw) hfs

theorem Reached.sound (hw : w.Lawful) (h : Reached w (Careful w) x) : x.Sound w := by
  induction h with
  | refl => exact sound_initial
  | tail _ hstep ih => exact ih.step hw hstep

/-! ## What any crash leaves -/

/-- An intent of the folded state was journaled, under the same ids. -/
theorem intent_of_foldEntries {es : List Entry} {alloc : AllocationId} {rec : IntentRec}
    (h : (foldEntries es).intents.get? alloc = some rec) :
    ∃ rec', intent rec' ∈ es ∧ rec'.allocation = alloc ∧ rec'.attempt = rec.attempt ∧
      rec'.job = rec.job := by
  induction es using List.reverseRecOn with
  | nil => cases h
  | append_singleton rest e ih =>
    have hold : (foldEntries rest).intents.get? alloc = some rec →
        ∃ rec', intent rec' ∈ rest ++ [e] ∧ rec'.allocation = alloc ∧
          rec'.attempt = rec.attempt ∧ rec'.job = rec.job := by
      intro hrest
      obtain ⟨rec', hmem, hids⟩ := ih hrest
      exact ⟨rec', List.mem_append_left _ hmem, hids⟩
    rw [foldEntries_append] at h
    cases e with
    | intent r =>
      have hget : ((foldEntries rest).intents.insert r.allocation _).get? alloc = some rec := h
      rw [OrdMap.get?_insert] at hget
      split at hget
      · next heq =>
          cases hget
          exact ⟨r, by simp, heq, rfl, rfl⟩
      · exact hold hget
    | _ => exact hold h

/-- Whatever a crash leaves, the journal's entries cover the deeds. -/
theorem Sound.halted (hw : w.Lawful) (h : x.Sound w) (hfs : x.fs.Halt fs) :
    Sound w ⟨fs, none, x.deeds⟩ := by
  cases hx : x.session with
  | none =>
    obtain ⟨-, hfiled, hproper⟩ := h.down hx
    exact .of_recoverable (t := ⟨x.fs, Session.new 0 0 {}, x.deeds⟩)
      ⟨hfiled, hproper⟩ hfs
  | some s => exact .of_recoverable ((h.up s hx).recoverable hw) hfs

theorem Sound.proper (h : x.Sound w) : Proper x.deeds := by
  cases hx : x.session with
  | none => exact (h.down hx).2.2
  | some s => exact (h.up s hx).proper

/-- What an open finds after a crash covers the deeds. -/
theorem Sound.recovers (hw : w.Lawful) (h : x.Sound w) (hfs : x.fs.Halt fs)
    (hopen : (openJournal w fs).result = .ok (file, s)) : Covers x.deeds s :=
  (((h.halted hw hfs).open_spec hw rfl).ok hopen).2.2

/-- The intent of a start is in the journal that a crash leaves. -/
theorem Sound.intent_durable (hw : w.Lawful) (h : x.Sound w) {spec : StartSpec}
    (hspec : Deed.start spec ∈ x.deeds) (hfs : x.fs.Halt fs) :
    ∃ bytes rec, fs.read journalPath = some bytes ∧
      w.encode (intent rec).record ∈ frames w.crc32c bytes ∧
      rec.allocation = spec.allocation ∧ rec.attempt = spec.attempt ∧ rec.job = spec.job := by
  obtain ⟨-, hholds, -⟩ := (h.halted hw hfs).down rfl
  obtain ⟨es, -, hcover, hframes⟩ := hholds.read
  obtain ⟨rec, hrec, hattempt, hjob⟩ := hcover.starts spec hspec
  obtain ⟨rec', hmem, halloc, hattempt', hjob'⟩ := intent_of_foldEntries hrec
  have hpayload : w.encode (intent rec').record ∈ payloads w es := List.mem_map_of_mem hmem
  rw [← hframes] at hpayload
  have hids := And.intro halloc (And.intro (hattempt'.trans hattempt) (hjob'.trans hjob))
  cases hread : fs.read journalPath with
  | none =>
    rw [hread, getD_none, frames_nil] at hpayload
    cases hpayload
  | some bytes =>
    rw [hread, getD_some] at hpayload
    exact ⟨bytes, rec', rfl, hpayload, hids⟩

/-! ## Whole turns -/

/-- The world after one whole turn of the loop. -/
def turn (w : JournalWire) (ev : Event) (x : World) : World :=
  match x.session with
  | none => x
  | some s =>
    let run := handle w ev ⟨x.fs, s, x.deeds⟩
    match run.result with
    | .ok _ => ⟨run.state.fs, some run.state.session, run.state.deeds⟩
    | .error _ => x

/-- The world after a turn that an error ended at its `k`-th crash point, and a reconnection. -/
def fail (w : JournalWire) (ev : Event) (k : Nat) (x : World) : World :=
  match x.session with
  | none => x
  | some s =>
    match (handle w ev ⟨x.fs, s, x.deeds⟩).trace[k]? with
    | some t => ⟨t.fs, some t.session.reset, t.deeds ++ [.reset]⟩
    | none => x

/-- The world after a new process has recovered the journal. -/
def boot (w : JournalWire) (node : NodeId) (x : World) : World :=
  match (openJournal w x.fs).result with
  | .ok (file, s) =>
    ⟨(openJournal w x.fs).state, some (Session.new node file s), x.deeds ++ [.reset]⟩
  | .error _ => x

/-- The world after the death of the process. -/
def kill (x : World) : World := ⟨{ x.fs with locked := false }, none, x.deeds⟩

section Reached

variable {ok : Process → Event → Prop} {ev : Event} (h : Reached w ok x)

include h

theorem Reached.turn (hev : ∀ s, x.session = some s → ok ⟨x.fs, s, x.deeds⟩ ev) :
    Reached w ok (x.turn w ev) := by
  unfold World.turn
  split
  · exact h
  · next s hx =>
      dsimp only
      split
      · next hrun => exact h.tail (Step.handled hx (hev s hx) hrun)
      · exact h

theorem Reached.fail (hev : ∀ s, x.session = some s → ok ⟨x.fs, s, x.deeds⟩ ev)
    (hfall : ∀ t, Fallout ev t t.reconnected) (k : Nat) : Reached w ok (x.fail w ev k) := by
  unfold World.fail
  split
  · exact h
  · next s hx =>
      split
      · next t ht =>
          exact h.tail (Step.failed hx (hev s hx) (List.mem_of_getElem? ht) (hfall t))
      · exact h

theorem Reached.boot (hx : x.session = none) (node : NodeId) : Reached w ok (x.boot w node) := by
  unfold World.boot
  split
  · next hopen => exact h.tail (Step.opened hx hopen)
  · exact h

theorem Reached.kill (hx : x.session ≠ none) : Reached w ok x.kill := by
  obtain ⟨s, hs⟩ := ne_none_iff_exists'.mp hx
  exact h.tail (Step.ended hs (.inr rfl))

end Reached

def sampleRegister (token : FencingToken) (seq : UInt64) : Event :=
  .command ⟨some ⟨some token, seq⟩, some .registerAccepted⟩ (.ok []) ⟨Timestamp.unixEpoch, 0⟩

def sampleStart (token : FencingToken) (seq : UInt64) : Event :=
  .command ⟨some ⟨some token, seq⟩, some (.startJob {
    allocation := some 7, attempt := some 5, job := some 3, image := "img", limits := none,
    maxRuntimeUs := none, command := [], entrypoint := none, env := [], attemptIndex := 0,
    previousAttempt := none, previousAttemptOutcome := none, preemptible := false,
    noticeSignal := some .sigusr1, noticeUs := 0, abortGraceUs := 0, latestStartUs := none,
    drainCleanupMarginUs := 0 })⟩ (.ok []) ⟨Timestamp.unixEpoch, 0⟩

/-- A process takes a registration and a StartJob. -/
def sampleFirst : World :=
  let opened := World.boot Codec.wire 1 {}
  (opened.turn Codec.wire (sampleRegister ⟨1, 1⟩ 1)).turn Codec.wire (sampleStart ⟨1, 1⟩ 2)

/-- It dies, and the next one gets both again, under a higher epoch. -/
def sampleRun : World :=
  let reopened := sampleFirst.kill.boot Codec.wire 1
  (reopened.turn Codec.wire (sampleRegister ⟨1, 2⟩ 1)).turn Codec.wire (sampleStart ⟨1, 2⟩ 2)

theorem inRange_sampleRegister (token : FencingToken) (seq : UInt64) :
    (sampleRegister token seq).InRange := by
  rintro _ ⟨⟩
  trivial

theorem inRange_sampleStart (token : FencingToken) (seq : UInt64) :
    (sampleStart token seq).InRange := by
  rintro _ ⟨⟩ ids hids
  cases hids
  exact ⟨by decide, by decide, by decide⟩

/-- Nothing was left behind by a failed append. -/
def whole (x : World) : Bool := x.session.all fun s => !Process.torn ⟨x.fs, s, x.deeds⟩

theorem careful_of_whole (hx : x.whole = true) {ev : Event} (hev : ev.InRange) :
    ∀ s, x.session = some s → Careful w ⟨x.fs, s, x.deeds⟩ ev := by
  intro s hs
  rw [whole, hs, all_some] at hx
  exact ⟨hev, fun htorn => by simp [htorn] at hx⟩

theorem reached_sampleRun : Reached Codec.wire (Careful Codec.wire) sampleRun := by
  have hempty : Reached wire (Careful wire) {} := .refl
  have hopened := hempty.boot rfl 1
  have hfirst := (hopened.turn (careful_of_whole (by decide +kernel)
    (inRange_sampleRegister ⟨1, 1⟩ 1))).turn (careful_of_whole (by decide +kernel)
      (inRange_sampleStart ⟨1, 1⟩ 2))
  have halive : sampleFirst.session.isSome := by decide +kernel
  have hreopened := (hfirst.kill (isSome_iff_ne_none.mp halive)).boot rfl 1
  exact (hreopened.turn (careful_of_whole (by decide +kernel)
    (inRange_sampleRegister ⟨1, 2⟩ 1))).turn (careful_of_whole (by decide +kernel)
      (inRange_sampleStart ⟨1, 2⟩ 2))

/-! ## Starts -/

/-- As long as no append follows a failed one that left bytes: at most one start of an allocation
    over all of a node's history, none after its tombstone, and each with an intent that every crash
    leaves and every later recovery finds. -/
theorem start_at_most_once (hw : w.Lawful) (h : Reached w (Careful w) x) :
    Orderly x.deeds ∧ ∀ spec, Deed.start spec ∈ x.deeds → ∀ fs, x.fs.Halt fs →
      (∃ bytes rec, fs.read journalPath = some bytes ∧
        w.encode (intent rec).record ∈ frames w.crc32c bytes ∧
        rec.allocation = spec.allocation ∧ rec.attempt = spec.attempt ∧ rec.job = spec.job) ∧
      ∀ file s, (openJournal w fs).result = .ok (file, s) →
        ∃ rec, s.intents.get? spec.allocation = some rec ∧ rec.attempt = spec.attempt ∧
          rec.job = spec.job := by
  have hsound := h.sound hw
  refine ⟨hsound.proper.orderly, fun spec hspec fs hfs => ⟨hsound.intent_durable hw hspec hfs, ?_⟩⟩
  intro file s hopen
  exact (hsound.recovers hw hfs hopen).starts spec hspec

/-- The StartJob sent twice is handed over once. -/
theorem start_at_most_once_sampleRun :
    sampleRun.deeds.countP (·.starts 7) = 1 ∧
      Orderly sampleRun.deeds ∧ ∀ spec, Deed.start spec ∈ sampleRun.deeds → ∀ fs,
        sampleRun.fs.Halt fs →
        (∃ bytes rec, fs.read journalPath = some bytes ∧
          Codec.wire.encode (intent rec).record ∈ frames Codec.wire.crc32c bytes ∧
          rec.allocation = spec.allocation ∧ rec.attempt = spec.attempt ∧ rec.job = spec.job) ∧
        ∀ file s, (openJournal Codec.wire fs).result = .ok (file, s) →
          ∃ rec, s.intents.get? spec.allocation = some rec ∧ rec.attempt = spec.attempt ∧
            rec.job = spec.job :=
  ⟨by decide +kernel, start_at_most_once lawful_wire reached_sampleRun⟩

/-- The append of the watermark fails after one byte, and the session goes on: the watermark and
    the intent are acknowledged behind that byte.  The process dies, and the next one gets the same
    commands under a higher epoch. -/
def sampleTorn : World :=
  let failed := World.fail Codec.wire (sampleRegister ⟨1, 1⟩ 1) 1
    (World.boot Codec.wire 1 {})
  let first := (failed.turn Codec.wire (sampleRegister ⟨1, 1⟩ 1)).turn Codec.wire
    (sampleStart ⟨1, 1⟩ 2)
  let reopened := first.kill.boot Codec.wire 1
  (reopened.turn Codec.wire (sampleRegister ⟨1, 2⟩ 1)).turn Codec.wire (sampleStart ⟨1, 2⟩ 2)

/-- Recovery does not find the intent, and the allocation is handed over twice. -/
theorem torn_journal_starts_twice :
    Reached Codec.wire (fun _ ev => ev.InRange) sampleTorn ∧
      sampleTorn.deeds.countP (·.starts 7) = 2 ∧ ¬Orderly sampleTorn.deeds := by
  have hcount : sampleTorn.deeds.countP (·.starts 7) = 2 := by decide +kernel
  refine ⟨?_, hcount, fun h => absurd (h.countP_starts_le 7) (by omega)⟩
  have hempty : Reached wire (fun _ ev => ev.InRange) {} := .refl
  have hfailed := (hempty.boot rfl 1).fail
    (fun _ _ => inRange_sampleRegister ⟨1, 1⟩ 1) (fun _ => rfl) 1
  have hfirst := (hfailed.turn fun _ _ => inRange_sampleRegister ⟨1, 1⟩ 1).turn
    fun _ _ => inRange_sampleStart ⟨1, 1⟩ 2
  have hreopened := (hfirst.kill (isSome_iff_ne_none.mp (by decide +kernel))).boot rfl 1
  exact (hreopened.turn fun _ _ => inRange_sampleRegister ⟨1, 2⟩ 1).turn
    fun _ _ => inRange_sampleStart ⟨1, 2⟩ 2

/-! ## Fencing -/

/-- The tokens of the commands acted on never fall, every recovered watermark is above each of
    them, and no command is fresh twice within one session. -/
theorem fencing (hw : w.Lawful) (h : Reached w (Careful w) x) :
    Fenced x.deeds ∧
      (∀ t q f, Deed.admitted t q f ∈ x.deeds → ∀ fs, x.fs.Halt fs → ∀ file s,
        (openJournal w fs).result = .ok (file, s) → s.watermark.Covers t) ∧
      ∀ before between after t q,
        x.deeds = before ++ .admitted t q true :: (between ++ .admitted t q true :: after) →
          Deed.reset ∈ between := by
  have hsound := h.sound hw
  refine ⟨hsound.proper.fenced, fun t q f ht fs hfs file s hopen => ?_, fun _ _ _ _ _ hds => ?_⟩
  · exact (hsound.recovers hw hfs hopen).admitted t q f ht
  · exact hsound.proper.unrepeated.reset_between hds

/-- Both processes act on two commands, and a recovery finds the second one's token. -/
theorem fencing_sampleRun :
    sampleRun.deeds.filter (fun d => match d with | .admitted _ _ _ => true | _ => false) =
        [.admitted ⟨1, 1⟩ 1 true, .admitted ⟨1, 1⟩ 2 true, .admitted ⟨1, 2⟩ 1 true,
          .admitted ⟨1, 2⟩ 2 true] ∧
      (∃ file s, (openJournal Codec.wire sampleRun.kill.fs).result = .ok (file, s) ∧
        s.watermark = ⟨1, 2⟩) ∧
      Fenced sampleRun.deeds ∧
      (∀ t q f, Deed.admitted t q f ∈ sampleRun.deeds → ∀ fs, sampleRun.fs.Halt fs → ∀ file s,
        (openJournal Codec.wire fs).result = .ok (file, s) → s.watermark.Covers t) ∧
      ∀ before between after t q, sampleRun.deeds =
          before ++ .admitted t q true :: (between ++ .admitted t q true :: after) →
        Deed.reset ∈ between := by
  refine ⟨by decide +kernel, ?_, fencing lawful_wire reached_sampleRun⟩
  have hopen : ((openJournal wire sampleRun.kill.fs).result.toOption.map
      fun r => r.2.watermark) = some ⟨1, 2⟩ := by
    decide +kernel
  obtain ⟨⟨file, s⟩, hok, hwm⟩ := map_eq_some_iff.mp hopen
  cases hr : (openJournal wire sampleRun.kill.fs).result with
  | error e =>
    rw [hr] at hok
    cases hok
  | ok r =>
    rw [hr] at hok
    cases hok
    exact ⟨file, s, rfl, hwm⟩

end World

end Coppice.Agent
