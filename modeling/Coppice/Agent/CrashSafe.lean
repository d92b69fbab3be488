/-
  Coppice.Agent.CrashSafe

  Whole histories of the journal: opens, appends, clean exits, and crashes at any
  filesystem operation. At every point the next open folds the acknowledged records,
  with or without the one a crash cut short, and so does every later open.
-/

import Coppice.Agent.Codec

namespace Coppice.Agent

open Lib Storage Entry Codec

/-! ## Histories -/

/-- The data directory, the open journal's file if a process runs, the acknowledged
    records, and the record whose append was cut short. -/
structure Site where
  fs : DataDir := {}
  handle : Option Nat := none
  log : List Entry := []
  pending : Option Entry := none

namespace Site

/-- The records an open that returned `s` has settled on. -/
def settle (x : Site) (s : JournalState) : List Entry :=
  match replay (x.log ++ x.pending.toList) with
  | .ok t => if t = s then x.log ++ x.pending.toList else x.log
  | .error _ => x.log

/-- One event at a site; `ok` bounds the records that may be appended. -/
inductive Step (w : JournalWire) (ok : Entry → Prop) : Site → Site → Prop where
  | opened {x : Site} {file : Nat} {s : JournalState} (hx : x.handle = none)
      (hopen : (openJournal w x.fs).result = .ok (file, s)) :
      Step w ok x ⟨(openJournal w x.fs).state, some file, x.settle s, none⟩
  | cutOpen {x : Site} {t fs : DataDir} (hx : x.handle = none)
      (ht : t ∈ (openJournal w).points x.fs) (hfs : t.Halt fs) :
      Step w ok x { x with fs := fs }
  | appended {x : Site} {file : Nat} {e : Entry} (hx : x.handle = some file) (he : ok e)
      (happend : (appendEntry w file e x.fs).result = .ok ()) :
      Step w ok x { x with fs := (appendEntry w file e x.fs).state, log := x.log ++ [e] }
  | cutAppend {x : Site} {file : Nat} {e : Entry} {t fs : DataDir} (hx : x.handle = some file)
      (he : ok e) (ht : t ∈ (appendEntry w file e).points x.fs) (hfs : t.Halt fs) :
      Step w ok x ⟨fs, none, x.log, some e⟩
  | closed {x : Site} {file : Nat} {fs : DataDir} (hx : x.handle = some file)
      (hfs : x.fs.Halt fs) :
      Step w ok x { x with fs := fs, handle := none }

/-- The sites of the histories that start with an empty data directory. -/
def Reached (w : JournalWire) (ok : Entry → Prop) (x : Site) : Prop :=
  Relation.ReflTransGen (Step w ok) {} x

end Site

/-! ## The invariant -/

namespace Site

variable {w : JournalWire} {x y : Site} {s : JournalState} {d fs : DataDir} {file : Nat}

/-- The states the next open may return. -/
def Candidate (x : Site) (s : JournalState) : Prop :=
  s = foldEntries x.log ∨ s = foldEntries (x.log ++ x.pending.toList)

/-- The entries that may be found in the file of an idle site. -/
def Found (x : Site) (es : List Entry) : Prop := (∀ e ∈ es, e.Sound) ∧ x.Candidate (foldEntries es)

/-- The open file holds entries that fold as the acknowledged ones do. -/
def Kept (w : JournalWire) (d : DataDir) (file : Nat) (s : JournalState) : Prop :=
  ∃ es, Logged w d file es ∧ (∀ e ∈ es, e.Sound) ∧ foldEntries es = s

structure Safe (w : JournalWire) (x : Site) : Prop where
  log : ∀ e ∈ x.log, e.Sound
  pending : ∀ e ∈ x.pending, e.Sound
  idle : x.handle = none → x.fs.locked = false ∧ x.fs.Holds journalPath (Filed w x.Found)
  running : ∀ file, x.handle = some file → x.pending = none ∧ Kept w x.fs file (foldEntries x.log)

theorem Safe.both (h : x.Safe w) : ∀ e ∈ x.log ++ x.pending.toList, e.Sound := by
  intro e he
  rcases List.mem_append.mp he with he | he
  · exact h.log e he
  · exact h.pending e (Option.mem_toList.mp he)

/-- The settled records are sound and fold to what the open returned. -/
theorem Safe.settle (h : x.Safe w) (hs : x.Candidate s) :
    (∀ e ∈ x.settle s, e.Sound) ∧ foldEntries (x.settle s) = s := by
  simp only [Site.settle, replay_eq fun e he => (h.both e he).1]
  split
  · next heq => exact ⟨h.both, heq⟩
  · next hne =>
      rcases hs with rfl | rfl
      · exact ⟨h.log, rfl⟩
      · exact absurd rfl hne

theorem safe_initial : Safe w {} where
  log := by simp
  pending := by simp
  idle _ := by
    exact ⟨rfl, Disk.Holds.initial ⟨[], by simp, ⟨by simp, .inl rfl⟩, frames_nil⟩⟩
  running := by simp

/-! ### Opening -/

section

variable (hw : w.Lawful)

include hw

/-- Recovery of a file that holds only sound entries: it succeeds, and what it returns is
    the fold of what was there. -/
theorem openJournal_sound {P : JournalState → Prop}
    (h : d.Holds journalPath (Filed w fun es => (∀ e ∈ es, e.Sound) ∧ P (foldEntries es)))
    (hfree : d.locked = false) :
    Eff.wp false never
      (fun x => x.Holds journalPath (Filed w fun es => (∀ e ∈ es, e.Sound) ∧ P (foldEntries es)))
      (openJournal w) (fun r x => P r.2 ∧ Kept w x r.1 r.2) d := by
  refine (openJournal_spec hw h ?_ hfree).mono ?_ (fun _ hx => hx) ?_
  · rintro es hsound ⟨-, hP⟩
    have htidy := tidy_foldEntries hsound
    rw [foldEntries_canonical htidy]
    exact ⟨fun e he => (htidy.entries e he).2, hP⟩
  · rintro err x ⟨-, es, ⟨hsound, -⟩, hbad⟩
    exact hbad fun e he => (hsound e he).1
  · rintro ⟨file, s⟩ x ⟨hlogged, es, hsound, ⟨-, hP⟩, rfl⟩
    have htidy := tidy_foldEntries hsound
    exact ⟨hP, _, hlogged, fun e he => (htidy.entries e he).2, foldEntries_canonical htidy⟩

theorem Kept.holds (h : Kept w d file s) :
    d.Holds journalPath (Filed w fun es => (∀ e ∈ es, e.Sound) ∧ foldEntries es = s) := by
  obtain ⟨es, hlogged, hsound, hfold⟩ := h
  refine (hlogged.holds hw).mono fun c hc => hc.mono ?_
  rintro l - rfl
  exact ⟨hsound, hfold⟩

theorem Safe.open_spec (h : x.Safe w) (hx : x.handle = none) :
    Eff.wp false never (fun d => d.Holds journalPath (Filed w x.Found)) (openJournal w)
      (fun r d => x.Candidate r.2 ∧ Kept w d r.1 r.2) x.fs :=
  openJournal_sound hw (h.idle hx).2 (h.idle hx).1

theorem Safe.opens (h : x.Safe w) (hx : x.handle = none) :
    ∃ file s, (openJournal w x.fs).result = .ok (file, s) ∧ x.Candidate s ∧
      Kept w (openJournal w x.fs).state file s := by
  obtain ⟨⟨file, s⟩, hopen, hcand, hkept⟩ := (h.open_spec hw hx).total
  exact ⟨file, s, hopen, hcand, hkept⟩

theorem Safe.opened (h : x.Safe w) (hx : x.handle = none)
    (hopen : (openJournal w x.fs).result = .ok (file, s)) :
    Safe w ⟨(openJournal w x.fs).state, some file, x.settle s, none⟩ := by
  obtain ⟨hcand, hkept⟩ := (h.open_spec hw hx).ok hopen
  obtain ⟨hsound, hfold⟩ := h.settle hcand
  refine ⟨hsound, by simp, by simp, ?_⟩
  rintro f ⟨⟩
  refine ⟨rfl, ?_⟩
  rw [hfold]
  exact hkept

end

section

variable (hw : w.Lawful) (h : x.Safe w)

include hw h

theorem Safe.cutOpen (hx : x.handle = none) {t : DataDir} (ht : t ∈ (openJournal w).points x.fs)
    (hfs : t.Halt fs) : Safe w { x with fs := fs } := by
  have hpoint : t.Holds journalPath (Filed w x.Found) := by
    refine (h.open_spec hw hx).point (fun _ _ hf => hf.elim) ?_ ht
    rintro ⟨file, s⟩ d ⟨hcand, hkept⟩
    refine (hkept.holds hw).mono fun c hc => hc.mono ?_
    rintro es - ⟨hsound, rfl⟩
    exact ⟨hsound, hcand⟩
  refine ⟨h.log, h.pending, fun _ => ⟨hfs.unlocked, hpoint.halt hfs⟩, fun file hf => ?_⟩
  exact absurd (hx.symm.trans hf) (by simp)

/-! ### Appending and ending -/

omit hw in
theorem Safe.appended {e : Entry} (hx : x.handle = some file) (he : e.Sound)
    (happend : (appendEntry w file e x.fs).result = .ok ()) :
    Safe w { x with fs := (appendEntry w file e x.fs).state, log := x.log ++ [e] } := by
  obtain ⟨hpending, es, hlogged, hsound, hfold⟩ := h.running file hx
  have hdone := (appendEntry_spec hlogged he.2).ok happend
  refine ⟨forall_mem_snoc h.log he, h.pending, fun hnone => ?_, fun f hf => ?_⟩
  · exact absurd (hx.symm.trans hnone) (by simp)
  · cases hx.symm.trans hf
    refine ⟨hpending, es ++ [e], hdone, forall_mem_snoc hsound he, ?_⟩
    rw [foldEntries_append, foldEntries_append, hfold]

theorem Safe.cutAppend {e : Entry} {t : DataDir} (hx : x.handle = some file) (he : e.Sound)
    (ht : t ∈ (appendEntry w file e).points x.fs) (hfs : t.Halt fs) :
    Safe w ⟨fs, none, x.log, some e⟩ := by
  obtain ⟨-, es, hlogged, hsound, hfold⟩ := h.running file hx
  have hpoint : t.Holds journalPath (Filed w fun l => l = es ∨ l = es ++ [e]) := by
    rcases List.mem_append.mp ht with ht | ht
    · obtain ⟨k, rfl⟩ := (appendEntry_spec hlogged he.2).crash ht
      exact hlogged.tear_holds hw he.2 k
    · rw [List.mem_singleton.mp ht]
      have hdone := (appendEntry_spec hlogged he.2).ok rfl
      exact (hdone.holds hw).mono fun c hc => hc.mono fun l _ hl => .inr hl
  have hfound : t.Holds journalPath (Filed w (Found ⟨fs, none, x.log, some e⟩)) := by
    refine hpoint.mono fun c hc => hc.mono ?_
    rintro l - (rfl | rfl)
    · exact ⟨hsound, .inl hfold⟩
    · refine ⟨forall_mem_snoc hsound he, .inr ?_⟩
      show foldEntries (es ++ [e]) = foldEntries (x.log ++ [e])
      rw [foldEntries_append, foldEntries_append, hfold]
  refine ⟨h.log, ?_, fun _ => ⟨hfs.unlocked, hfound.halt hfs⟩, by simp⟩
  rintro e' ⟨⟩
  exact he

theorem Safe.closed (hx : x.handle = some file) (hfs : x.fs.Halt fs) :
    Safe w { x with fs := fs, handle := none } := by
  obtain ⟨-, hkept⟩ := h.running file hx
  refine ⟨h.log, h.pending, fun _ => ⟨hfs.unlocked, ?_⟩, by simp⟩
  refine ((hkept.holds hw).halt hfs).mono fun c hc => hc.mono ?_
  rintro es - ⟨hsound, hfold⟩
  exact ⟨hsound, .inl hfold⟩

theorem Safe.step (hstep : Step w Sound x y) : y.Safe w := by
  cases hstep with
  | opened hx hopen => exact h.opened hw hx hopen
  | cutOpen hx ht hfs => exact h.cutOpen hw hx ht hfs
  | appended hx he happend => exact h.appended hx he happend
  | cutAppend hx he ht hfs => exact h.cutAppend hw hx he ht hfs
  | closed hx hfs => exact h.closed hw hx hfs

end

theorem Reached.safe (hw : w.Lawful) (h : Reached w Sound x) : x.Safe w := by
  induction h with
  | refl => exact safe_initial
  | tail _ hstep ih => exact ih.step hw hstep

/-- What an open returned is what every later open returns, however the process ended. -/
theorem Kept.reopen (hw : w.Lawful) (h : Kept w d file s) (hfs : d.Halt fs) :
    ∃ file', (openJournal w fs).result = .ok (file', s) := by
  have hspec := openJournal_sound (P := (· = s)) hw ((h.holds hw).halt hfs) (hfs.unlocked)
  obtain ⟨⟨file', s'⟩, hopen, hs, -⟩ := hspec.total
  cases hs
  exact ⟨file', hopen⟩

/-- The next open succeeds, returns the fold of the acknowledged records, with or without the
    one in flight, and every later open returns the same. -/
theorem next_open_recovers (hw : w.Lawful) (h : Reached w Sound x) (hx : x.handle = none) :
    ∃ file s, (openJournal w x.fs).result = .ok (file, s) ∧
      (replay x.log = .ok s ∨ replay (x.log ++ x.pending.toList) = .ok s) ∧
      ∀ fs, (openJournal w x.fs).state.Halt fs →
        ∃ file', (openJournal w fs).result = .ok (file', s) := by
  have hsafe := h.safe hw
  obtain ⟨file, s, hopen, hcand, hkept⟩ := hsafe.opens hw hx
  refine ⟨file, s, hopen, ?_, fun fs hfs => hkept.reopen hw hfs⟩
  rw [replay_eq fun e he => (hsafe.log e he).1, replay_eq fun e he => (hsafe.both e he).1]
  rcases hcand with rfl | rfl
  · exact .inl rfl
  · exact .inr rfl

/-- The first open of an empty data directory. -/
def founded : Site := ⟨(openJournal Codec.wire {}).state, some 1, [], none⟩

theorem reached_founded (ok : Entry → Prop) : Reached Codec.wire ok founded := by
  have hopen : (openJournal wire {}).result = .ok (1, {}) := by decide +kernel
  exact .single (Step.opened (x := {}) rfl hopen)

/-- A crash loses an append that was not synced; the acknowledged record is recovered. -/
theorem next_open_recovers_cut_append :
    ∃ x : Site, Reached Codec.wire Sound x ∧ x.handle = none ∧ x.log = [.fencing ⟨3, 5⟩] ∧
      x.pending = some (.tombstone 7 .abort) ∧
      ∃ file s, (openJournal Codec.wire x.fs).result = .ok (file, s) ∧
        (replay x.log = .ok s ∨ replay (x.log ++ x.pending.toList) = .ok s) ∧
        ∀ fs, (openJournal Codec.wire x.fs).state.Halt fs →
          ∃ file', (openJournal Codec.wire fs).result = .ok (file', s) := by
  have happend : (appendEntry wire 1 (.fencing ⟨3, 5⟩) founded.fs).result = .ok () := by
    decide +kernel
  have hlogged := (reached_founded Sound).tail
    (Step.appended (e := .fencing ⟨3, 5⟩) rfl ⟨trivial, trivial⟩ happend)
  have hsound : (tombstone 7 .abort).Sound := ⟨trivial, by decide, by simp⟩
  have hcut := hlogged.tail (Step.cutAppend rfl hsound
    (List.mem_append_right _ List.mem_cons_self) (.inr rfl))
  exact ⟨_, hcut, rfl, rfl, rfl, next_open_recovers lawful_wire hcut rfl⟩

/-- An acknowledged exit with a negative runtime: no later open succeeds. -/
theorem negative_runtime_unreadable :
    Codec.wire.Lawful ∧ ∃ x : Site, Reached Codec.wire InRange x ∧ x.handle = none ∧
      x.pending = none ∧
      (openJournal Codec.wire x.fs).result = .error (corrupt "ObservedExit.runtime_us") := by
  have hrange : (exit ⟨1, 2, 3, .exited 0, I64.clamp (-1)⟩).InRange := by
    refine ⟨by decide, by simp, ?_⟩
    rintro code ⟨⟩
    decide
  have happend : (appendEntry wire 1 (.exit ⟨1, 2, 3, .exited 0, I64.clamp (-1)⟩)
      founded.fs).result = .ok () := by
    decide +kernel
  have hlogged := (reached_founded InRange).tail (Step.appended rfl hrange happend)
  have hclosed := hlogged.tail (Step.closed rfl (.inr rfl))
  exact ⟨lawful_wire, _, hclosed, rfl, rfl, by decide +kernel⟩

end Site

end Coppice.Agent
