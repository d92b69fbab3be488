/-
  Coppice.Agent.FailedAppend

  A journal that goes on after a failed append, as the run loop does.  Recovery
  returns every acknowledged record as long as none is appended behind part of a
  frame; what stands behind one is hidden.
-/

import Coppice.Agent.CrashSafe

namespace Coppice.Agent

open Lib Storage List

/-- How a call of `Journal::append` ends: acknowledged, or with an error and the first bytes
    of its frame in the file; all of them when it is the sync that failed. -/
inductive Call where
  | acked (e : Entry)
  | failed (e : Entry) (written : Nat)

namespace Call

def entry : Call → Entry
  | acked e | failed e _ => e

def acked? : Call → Option Entry
  | acked e => some e
  | failed _ _ => none

/-- What the call adds to the file. -/
def bytes (w : JournalWire) : Call → Bytes
  | acked e => encodeFrame w e.record
  | failed e written => (encodeFrame w e.record).take written

def run (w : JournalWire) (file : Nat) (d : DataDir) : Call → DataDir
  | acked e => (appendEntry w file e d).state
  | failed e written => tear w file e written d

/-- A failure leaves nothing behind. -/
def Clean : Call → Prop
  | acked _ => True
  | failed _ written => written = 0

end Call

section

variable {w : JournalWire} {d : DataDir} {file : Nat} {log : List Entry}

theorem Call.run_lookup (d : DataDir) (c : Call) :
    (c.run w file d).lookup journalPath = d.lookup journalPath := by
  cases c <;> rfl

theorem Call.run_visible (d : DataDir) (c : Call) :
    ((c.run w file d).files file).visible = (d.files file).visible ++ c.bytes w := by
  cases c <;>
    simp [Call.run, Call.bytes, appendEntry, Bind.bind, Eff.bind, Eff.act, Eff.gradual, tear,
    Fs.append, Fs.syncData, Disk.onFile, FileNode.sync]

theorem Call.foldl_run (calls : List Call) (d : DataDir) :
    (calls.foldl (Call.run w file) d).lookup journalPath = d.lookup journalPath ∧
      ((calls.foldl (Call.run w file) d).files file).visible =
        (d.files file).visible ++ calls.flatMap (Call.bytes w) := by
  induction calls generalizing d with
  | nil => simp
  | cons c rest ih =>
    obtain ⟨hlook, hvis⟩ := ih (c.run w file d)
    rw [foldl_cons, hlook, hvis, Call.run_lookup, Call.run_visible, append_assoc, flatMap_cons]
    exact ⟨rfl, rfl⟩

theorem loadJournal_of_visible {i : Nat} {s : JournalState} (hlook : d.lookup journalPath = some i)
    (hscan : scanFrames w (d.files i).visible = .ok s) : (loadJournal w d).result = .ok s := by
  have hread : d.read journalPath = some (d.files i).visible := by simp [Disk.read, hlook]
  have hspec : Eff.wp false never (fun _ => True) (loadJournal w) (fun s' _ => s' = s) d := by
    rw [loadJournal, Eff.wp_bind, wp_exists, hlook]
    refine ⟨trivial, ?_⟩
    simp only [Option.isSome_some, if_true]
    rw [Eff.wp_bind, wp_readToVec hread, Eff.wp_ofExcept_ok hscan]
    exact ⟨trivial, rfl⟩
  obtain ⟨s', hs', rfl⟩ := hspec.total
  exact hs'

namespace Site

section

variable (h : Kept w d file (foldEntries log)) {calls : List Call}

include h

theorem Kept.clean {c : Call} (hc : c.Clean) (he : c.entry.Sound) :
    Kept w (c.run w file d) file (foldEntries (log ++ c.acked?.toList)) := by
  obtain ⟨es, hlogged, hsound, hfold⟩ := h
  cases c with
  | acked e =>
    refine ⟨es ++ [e], (appendEntry_spec hlogged he.2).ok rfl, forall_mem_snoc hsound he, ?_⟩
    rw [foldEntries_append, hfold]
    exact (foldEntries_append log e).symm
  | failed e written =>
    obtain rfl : written = 0 := hc
    refine ⟨es, ⟨hlogged.settled, hlogged.below, hlogged.inRange, ?_⟩, hsound,
      by simpa [Call.acked?] using hfold⟩
    simpa [Call.run, tear, Disk.onFile, FileNode.append] using hlogged.synced

theorem Kept.cleans (hc : ∀ c ∈ calls, c.Clean) (he : ∀ c ∈ calls, c.entry.Sound) :
    Kept w (calls.foldl (Call.run w file) d) file
      (foldEntries (log ++ calls.filterMap Call.acked?)) := by
  induction calls generalizing d log with
  | nil => simpa using h
  | cons c rest ih =>
    have hacked : (c :: rest).filterMap Call.acked? =
        c.acked?.toList ++ rest.filterMap Call.acked? := by
      cases hac : c.acked? <;> simp [hac]
    rw [forall_mem_cons] at hc he
    rw [foldl_cons, hacked, ← append_assoc]
    exact ih (h.clean hc.1 he.1) hc.2 he.2

variable (hw : w.Lawful)

include hw

/-- What a failed append leaves is read as nothing or as its record. -/
theorem Kept.failed {e : Entry} (he : e.Sound) (written : Nat) :
    ((Call.failed e written).run w file d).Holds journalPath (Filed w fun es =>
      (∀ e ∈ es, e.Sound) ∧ (foldEntries es = foldEntries log ∨
        foldEntries es = foldEntries (log ++ [e]))) := by
  obtain ⟨es, hlogged, hsound, hfold⟩ := h
  refine (hlogged.tear_holds hw he.2 written).mono fun c hc => hc.mono ?_
  rintro l - (rfl | rfl)
  · exact ⟨hsound, .inl hfold⟩
  · refine ⟨forall_mem_snoc hsound he, .inr ?_⟩
    rw [foldEntries_append, foldEntries_append, hfold]

/-- Bytes that begin no frame hide what is behind them. -/
theorem Kept.hidden (hsplit : splitFrame w.crc32c (calls.flatMap (Call.bytes w)) = none) :
    (loadJournal w (calls.foldl (Call.run w file) d)).result = .ok (foldEntries log) := by
  obtain ⟨es, hlogged, hsound, hfold⟩ := h
  obtain ⟨hlook, hvis⟩ := @Call.foldl_run w file calls d
  refine loadJournal_of_visible (hlook.trans hlogged.settled.visible) ?_
  rw [hvis, hlogged.synced.visible, encodeRecords_map, ← hfold,
    ← replay_eq fun e he => (hsound e he).1]
  refine scanFrames_eq_replay hw hlogged.inRange ?_
  rw [frames_flatMap _ (fits_payloads hw hlogged.inRange), frames_of_none hsplit, append_nil]

end

end Site

end

open Site in
/-- On a journal that any history has opened: as long as no append follows a failed one that
    left bytes behind, every later open returns a fold of the acknowledged records, in order,
    with at most the failed one after them.  If one does follow, and the bytes left do not
    begin a frame by chance, recovery returns the records before the failure and no others. -/
theorem failed_append_recovers {w : JournalWire} {x : Site} {file : Nat} (hw : w.Lawful)
    (h : Reached w Entry.Sound x) (hx : x.handle = some file) {calls : List Call}
    (hsound : ∀ c ∈ calls, c.entry.Sound) :
    ((∀ c ∈ calls.dropLast, c.Clean) →
      ∀ fs, (calls.foldl (Call.run w file) x.fs).Halt fs →
        ∃ file' s rest, (openJournal w fs).result = .ok (file', s) ∧
          replay (x.log ++ calls.filterMap Call.acked? ++ rest) = .ok s ∧
          (rest = [] ∨ ∃ e written, calls.getLast? = some (.failed e written) ∧ rest = [e])) ∧
    ∀ before e written after, calls = before ++ .failed e written :: after →
      (∀ c ∈ before, c.Clean) →
      splitFrame w.crc32c ((encodeFrame w e.record).take written ++ after.flatMap (Call.bytes w)) =
        none →
      ∃ s, (loadJournal w (calls.foldl (Call.run w file) x.fs)).result = .ok s ∧
        replay (x.log ++ before.filterMap Call.acked?) = .ok s := by
  obtain ⟨-, hkept⟩ := (h.safe hw).running file hx
  have hreplay (l : List Call) (rest : List Entry) (hl : (∀ c ∈ l, c ∈ calls))
      (hrest : (∀ e ∈ rest, e.Sound)) : replay (x.log ++ l.filterMap Call.acked? ++ rest) = .ok
      (foldEntries (x.log ++ l.filterMap Call.acked? ++ rest)) := by
    refine replay_eq fun e he => ?_
    rcases mem_append.mp he with he | he
    · rcases mem_append.mp he with he | he
      · exact ((h.safe hw).log e he).1
      · obtain ⟨c, hc, hce⟩ := mem_filterMap.mp he
        cases c with
        | acked e' =>
          cases hce
          exact (hsound _ (hl _ hc)).1
        | failed => cases hce
    · exact (hrest e he).1
  refine ⟨fun hclean fs hfs => ?_, ?_⟩
  · by_cases hlast : ∀ c ∈ calls, c.Clean
    · obtain ⟨file', hopen⟩ := (hkept.cleans hlast hsound).reopen hw hfs
      exact ⟨file', _, [], hopen, by simpa using hreplay _ [] (fun c hc => hc) (by simp), .inl rfl⟩
    · obtain ⟨init, last, rfl⟩ : ∃ init last, calls = init ++ [last] := by
        rcases eq_nil_or_concat' calls with rfl | hsnoc
        · exact absurd (by simp) hlast
        · exact hsnoc
      rw [dropLast_concat] at hclean
      have hinit : ∀ c ∈ init, c ∈ init ++ [last] := fun c hc => mem_append_left _ hc
      cases last with
      | acked e =>
        exact absurd (forall_mem_snoc hclean (show Call.Clean (.acked e) from trivial)) hlast
      | failed e written =>
        have he : e.Sound := hsound (.failed e written) (by simp)
        have hbefore := hkept.cleans hclean fun c hc => hsound c (hinit c hc)
        rw [foldl_append] at hfs
        have hspec := openJournal_sound (P := fun s =>
          s = foldEntries (x.log ++ init.filterMap Call.acked?) ∨
            s = foldEntries (x.log ++ init.filterMap Call.acked? ++ [e])) hw
          ((hbefore.failed hw he written).halt hfs) hfs.unlocked
        obtain ⟨⟨file', s⟩, hopen, hs, -⟩ := hspec.total
        have hacked : (init ++ [Call.failed e written]).filterMap Call.acked? =
            init.filterMap Call.acked? := by simp [Call.acked?]
        rw [hacked]
        rcases hs with rfl | rfl
        · refine ⟨file', _, [], hopen, ?_, .inl rfl⟩
          rw [hreplay _ _ hinit (by simp), append_nil]
        · refine ⟨file', _, [e], hopen, ?_, .inr ⟨e, written, by simp, rfl⟩⟩
          rw [hreplay _ _ hinit (by simpa using he)]
  · rintro before e written after rfl hclean hsplit
    have hbefore : ∀ c ∈ before, c ∈ before ++ .failed e written :: after :=
      fun c hc => mem_append_left _ hc
    have hat := hkept.cleans hclean fun c hc => hsound c (hbefore c hc)
    refine ⟨_, ?_, by simpa using hreplay _ [] hbefore (by simp)⟩
    rw [foldl_append]
    exact hat.hidden hw hsplit

/-- The second call fails before it has written anything, the fourth after five bytes. -/
def sampleCalls : List Call :=
  [.acked (.fencing ⟨3, 5⟩), .failed (.tombstone 7 .abort) 0, .acked (.tombstone 8 .abort),
    .failed (.tombstone 9 .abort) 5]

open Site in
/-- The process dies behind the five bytes; both acknowledged records are recovered. -/
theorem failed_append_recovers_clean : ∃ file' s rest,
    (openJournal Codec.wire { sampleCalls.foldl (Call.run Codec.wire 1) founded.fs with
      locked := false }).result = .ok (file', s) ∧
      replay ([.fencing ⟨3, 5⟩, .tombstone 8 .abort] ++ rest) = .ok s ∧
      (rest = [] ∨ rest = [.tombstone 9 .abort]) := by
  have hsound : ∀ c ∈ sampleCalls, c.entry.Sound := by
    simp only [sampleCalls, forall_mem_cons, not_mem_nil, false_implies, implies_true, and_true]
    exact ⟨⟨trivial, trivial⟩, ⟨trivial, by decide, by simp⟩, ⟨trivial, by decide, by simp⟩,
      trivial, by decide, by simp⟩
  obtain ⟨file', s, rest, hopen, hreplay, hrest⟩ :=
    (failed_append_recovers Codec.lawful_wire (reached_founded Entry.Sound) rfl hsound).1
      (by simp [sampleCalls, Call.Clean]) _ (.inr rfl)
  refine ⟨file', s, rest, hopen, hreplay, hrest.imp_right ?_⟩
  rintro ⟨e, written, hlast, rfl⟩
  cases hlast
  rfl

open Site in
/-- One byte of a watermark's frame, and then an acknowledged tombstone: the next open does not
    return the tombstone. -/
theorem failed_append_hides :
    Reached Codec.wire Entry.Sound founded ∧
      ((openJournal Codec.wire
        { [Call.failed (.fencing ⟨3, 5⟩) 1, .acked (.tombstone 7 .abort)].foldl
            (Call.run Codec.wire 1) founded.fs with locked := false }).result.map
          fun r => r.2.tombstones.get? 7) = .ok none :=
  ⟨reached_founded _, by decide +kernel⟩

end Coppice.Agent
