/-
  Coppice.Agent.Durable

  The journal survives any crash.  Recovery keeps `Filed` at each of its crash
  points and ends with the live set on the disk for good, or refuses a record
  (`openJournal_spec`); an append moves from one durable list to the next
  (`appendEntry_spec`), and what a cut or failed one leaves reads as one of the two
  (`Logged.tear_holds`).
-/

import Coppice.Agent.Replay
import Coppice.Lib.Holds

namespace Coppice.Agent

open Lib Storage List Entry Option Eff JournalState Disk

/-! ## An atomic swap over a path that need not be settled -/

section Swap

variable {E : IoError → DataDir → Prop} {C : DataDir → Prop} {d x : DataDir}
  {P : Option Bytes → Prop} {dir : Dir} {path tmp : Name} {file : Nat} {bytes : Bytes}

/-- A fresh file at `tmp`, bound to no other path of the directory. -/
structure Scratch (dir : Dir) (path tmp : Name) (P : Option Bytes → Prop) (file : Nat)
    (bytes : Bytes) (x : DataDir) : Prop where
  holds : x.Holds (dir, path) P
  clear : x.Clear (dir, path) file
  lookup : x.lookup (dir, tmp) = some file
  below : file < x.next
  visible : (x.files file).visible = bytes

theorem Scratch.append (h : Scratch dir path tmp P file bytes x) (b : Bytes) :
    Scratch dir path tmp P file (bytes ++ b) (x.onFile file (·.append b)) where
  holds := h.holds.onFile h.clear _
  clear := h.clear
  lookup := h.lookup
  below := h.below
  visible := by simp [onFile, h.visible]

theorem Scratch.sync (h : Scratch dir path tmp P file bytes x) :
    Scratch dir path tmp P file bytes (x.onFile file FileNode.sync) ∧
      ((x.onFile file FileNode.sync).files file).Synced bytes := by
  have hsync : ((x.onFile file FileNode.sync).files file).Synced bytes := by
    have hf := FileNode.synced_sync (x.files file)
    rw [h.visible] at hf
    simpa [onFile] using hf
  exact ⟨⟨h.holds.onFile h.clear _, h.clear, h.lookup, h.below, hsync.visible⟩, hsync⟩

theorem createFresh_scratch (h : d.Holds (dir, path) P) (htmp : tmp ≠ path)
    (hC : ∀ x : DataDir, x.Holds (dir, path) P → C x) :
    Eff.wp false E C (createFresh (dir, tmp)) (Scratch dir path tmp P · []) d := by
  have hne : (dir, tmp) ≠ (dir, path) := fun he => htmp (Prod.ext_iff.mp he).2
  have hcreate (x : DataDir) (hx : x.Holds (dir, path) P) (hnone : x.lookup (dir, tmp) = none) :
      wp false E C (Fs.createNew (dir, tmp)) (Scratch dir path tmp P · []) x := by
    obtain ⟨hholds, hclear⟩ := hx.create hne
    rw [wp_createNew hnone]
    exact ⟨hC x hx, hholds, hclear, lookup_create hnone, Nat.lt_succ_self _, by simp [create]⟩
  rw [createFresh, wp_bind, wp_exists]
  refine ⟨hC d h, ?_⟩
  cases hl : d.lookup (dir, tmp) with
  | none => simpa using hcreate d h hl
  | some i =>
    simp only [isSome_some, if_true]
    rw [wp_bind, wp_removeFile hl]
    exact ⟨hC d h, hcreate _ (h.push fun _ hname => htmp hname) (lookup_push_remove hl)⟩

/-- Renaming a synced scratch file over the path, and syncing the directory. -/
theorem Scratch.swap (h : Scratch dir path tmp P file bytes x) (hsync : (x.files file).Synced bytes)
    (hbytes : P (some bytes)) (hC : ∀ x : DataDir, x.Holds (dir, path) P → C x) :
    Eff.wp false E C (do Fs.rename dir tmp path; Fs.syncDir dir)
      (fun _ y => ∃ file, (y.dirs dir).Settled path (some file) ∧ file < y.next ∧
        (y.files file).Synced bytes) x := by
  have hrenamed : (x.push dir (.rename tmp path file)).Holds (dir, path) P :=
    h.holds.rename rfl h.below fun c hc => by
      rw [hsync.contents hc]
      exact hbytes
  have hvis : (x.push dir (.rename tmp path file)).lookup (dir, path) = some file :=
    lookup_push_rename h.lookup
  have hsettled : (((x.push dir (.rename tmp path file)).syncDir dir).dirs dir).Settled path
      (some file) := by
    have hd := DirNode.settled_sync ((x.push dir (.rename tmp path file)).dirs dir) path
    have hl : ((x.push dir (.rename tmp path file)).dirs dir).visible.lookup path = some file :=
      hvis
    rw [hl] at hd
    simpa [syncDir] using hd
  rw [wp_bind, wp_rename h.lookup]
  refine ⟨hC _ h.holds, ?_⟩
  rw [wp_syncDir]
  exact ⟨hC _ hrenamed, file, hsettled, h.below, hsync⟩

/-- An atomic swap keeps what holds of a path and leaves the new content there for good. -/
theorem writeAtomic_holds (h : d.Holds (dir, path) P) (htmp : tmp ≠ path) (hbytes : P (some bytes))
    (hC : ∀ x : DataDir, x.Holds (dir, path) P → C x) :
    Eff.wp false E C (writeAtomic dir path tmp bytes)
      (fun _ x => ∃ file, (x.dirs dir).Settled path (some file) ∧ file < x.next ∧
        (x.files file).Synced bytes) d := by
  rw [writeAtomic, wp_bind]
  refine (createFresh_scratch h htmp hC).imp fun file x hx => ?_
  have hwritten := hx.append bytes
  obtain ⟨hdraft, hsync⟩ := hwritten.sync
  rw [wp_bind, wp_append]
  refine ⟨fun k _ => hC _ (hx.append (bytes.take k)).holds, ?_⟩
  rw [wp_bind, wp_syncData]
  exact ⟨hC _ hwritten.holds, hdraft.swap hsync hbytes hC⟩

end Swap

/-! ## Reading the file -/

/-- What the libraries document: a record in range decodes back, and is short. -/
structure JournalWire.Lawful (w : JournalWire) : Prop where
  decode : ∀ e : Entry, e.InRange → w.decode (w.encode e.record) = some e.record
  fits : ∀ e : Entry, e.InRange → (w.encode e.record).length < 2 ^ 32

/-- A record the journal's types and its readers accept. -/
def Entry.Sound (e : Entry) : Prop := e.Writable ∧ e.InRange

/-- The payloads of a list of entries. -/
def payloads (w : JournalWire) (es : List Entry) : List Bytes := es.map fun e => w.encode e.record

/-- The intact frames of the content are those of a list of entries of `Q`. -/
def Filed (w : JournalWire) (Q : List Entry → Prop) (c : Option Bytes) : Prop :=
  ∃ es, (∀ e ∈ es, e.InRange) ∧ Q es ∧ frames w.crc32c (c.getD []) = payloads w es

section Scan

variable {w : JournalWire} {es : List Entry}

theorem Filed.mono {Q Q' : List Entry → Prop} (h : Filed w Q c)
    (hQ : ∀ es, (∀ e ∈ es, e.InRange) → Q es → Q' es) : Filed w Q' c := by
  obtain ⟨es, hr, hq, hf⟩ := h
  exact ⟨es, hr, hQ es hr hq, hf⟩

theorem encodeRecords_map (w : JournalWire) (es : List Entry) :
    encodeRecords w (es.map record) = (payloads w es).flatMap (frame w.crc32c) := by
  simp [encodeRecords, encodeFrame, payloads, flatMap_map]

section

variable (hw : w.Lawful) (h : ∀ e ∈ es, e.InRange)

include hw h

theorem fits_payloads : ∀ p ∈ payloads w es, p.length < 2 ^ 32 := by
  intro p hp
  obtain ⟨e, he, rfl⟩ := mem_map.mp hp
  exact hw.fits e (h e he)

/-- Payloads of written entries fold as their records do. -/
theorem foldlM_payloads (s : JournalState) :
    (payloads w es).foldlM (applyPayload w) s =
      es.foldlM (fun s e => s.applyRecord e.record) s := by
  rw [payloads, foldlM_map]
  induction es generalizing s with
  | nil => rfl
  | cons e rest ih =>
    have hstep : applyPayload w s (w.encode e.record) = s.applyRecord e.record := by
      rw [applyPayload, hw.decode e (h e (by simp))]
    rw [foldlM_cons, foldlM_cons, hstep]
    congr 1
    funext t
    exact ih (fun x hx => h x (mem_cons_of_mem _ hx)) t

theorem scanFrames_eq_replay {bytes : Bytes} (hf : frames w.crc32c bytes = payloads w es) :
    scanFrames w bytes = replay es := by
  rw [scanFrames, hf, foldlM_payloads hw h]
  rfl

theorem frames_encodeRecords :
    frames w.crc32c (encodeRecords w (es.map record)) = payloads w es := by
  have hframes := frames_flatMap w.crc32c (fits_payloads hw h) []
  rw [append_nil, frames_nil, append_nil] at hframes
  rw [encodeRecords_map, hframes]

/-- A torn last record does not count; a whole one does. -/
theorem frames_encodeRecords_torn {e : Entry} (hr : e.InRange) (k : Nat) :
    frames w.crc32c (encodeRecords w (es.map record) ++ (encodeFrame w e.record).take k) =
        payloads w es ∨
      frames w.crc32c (encodeRecords w (es.map record) ++ (encodeFrame w e.record).take k) =
        payloads w (es ++ [e]) := by
  have hsnoc : payloads w (es ++ [e]) = payloads w es ++ [w.encode e.record] := by simp [payloads]
  rw [encodeRecords_map, encodeFrame, hsnoc]
  exact frames_torn w.crc32c (fits_payloads hw h) (hw.fits e hr) k

end

end Scan

/-! ## Opening and appending -/

/-- The open journal's file holds the entries for good. -/
structure Logged (w : JournalWire) (d : DataDir) (file : Nat) (es : List Entry) : Prop where
  settled : (d.dirs .root).Settled JOURNAL (some file)
  below : file < d.next
  inRange : ∀ e ∈ es, e.InRange
  synced : (d.files file).Synced (encodeRecords w (es.map record))

section Specs

variable {w : JournalWire} {d : DataDir} {file : Nat} {s : JournalState} {es : List Entry}
  {Q : List Entry → Prop}

theorem Logged.holds (hw : w.Lawful) (h : Logged w d file es) :
    d.Holds journalPath (Filed w (· = es)) := by
  refine .of_settled h.settled h.below fun b hb => ?_
  rw [h.synced.contents hb]
  exact ⟨es, h.inRange, rfl, frames_encodeRecords hw h.inRange⟩

/-- What is read is the fold of a list of `Q`; it fails only on a record that cannot be read. -/
theorem loadJournal_spec (hw : w.Lawful) (h : d.Holds journalPath (Filed w Q)) :
    Eff.wp false (fun _ x => x = d ∧ ∃ es, Q es ∧ ¬∀ e ∈ es, e.Writable)
      (fun x => x.Holds journalPath (Filed w Q)) (loadJournal w)
      (fun s x => x = d ∧ ∃ es, (∀ e ∈ es, e.Sound) ∧ Q es ∧ s = foldEntries es) d := by
  obtain ⟨es, hr, hQ, hframes⟩ := h.read
  rw [loadJournal, wp_bind, wp_exists]
  refine ⟨h, ?_⟩
  cases hread : d.read journalPath with
  | none =>
    have hl : d.lookup journalPath = none := by
      simpa [Disk.read] using hread
    have hes : es = [] := by simpa [hread, payloads] using hframes
    subst hes
    simp only [hl, isSome_none, Bool.false_eq_true, if_false, wp_pure, true_and]
    exact ⟨[], by simp, hQ, rfl⟩
  | some bytes =>
    obtain ⟨i, hi, -⟩ := map_eq_some_iff.mp hread
    rw [hread] at hframes
    have hscan : scanFrames w bytes = replay es := scanFrames_eq_replay hw hr hframes
    simp only [hi, isSome_some, if_true]
    rw [wp_bind, wp_readToVec hread]
    refine ⟨h, ?_⟩
    by_cases hwr : ∀ e ∈ es, e.Writable
    · rw [wp_ofExcept_ok (hscan.trans (replay_eq hwr))]
      exact ⟨rfl, es, fun e he => ⟨hwr e he, hr e he⟩, hQ, rfl⟩
    · obtain ⟨err, herr⟩ := replay_error hwr
      rw [wp_ofExcept_error (hscan.trans herr)]
      exact ⟨rfl, es, hQ, hwr⟩

theorem tidy_foldEntries (h : ∀ e ∈ es, e.Sound) : (foldEntries es).Tidy := by
  have hfold : ∀ s : JournalState, s.Tidy → (es.foldl (fun s e => s.note e.settled) s).Tidy := by
    induction es with
    | nil => exact fun s hs => hs
    | cons e rest ih =>
      intro s hs
      obtain ⟨hw, hr⟩ := h e (by simp)
      exact ih (fun x hx => h x (mem_cons_of_mem _ hx)) _
        (hs.note (faithful_settled hw hr))
  exact hfold {} tidy_default

section

variable (hw : w.Lawful) (h : d.Holds journalPath (Filed w Q))
  (hQ : ∀ es, (∀ e ∈ es, e.Sound) → Q es → Q (foldEntries es).canonicalEntries)

include hw h hQ

/-- Recovery: every crash point is still filed under `Q`, and so is a refusal; otherwise the
    live set of what was read is on the disk for good. -/
theorem openLocked_spec :
    Eff.wp false (fun _ x => x.Holds journalPath (Filed w Q) ∧ ∃ es, Q es ∧ ¬∀ e ∈ es, e.Writable)
      (fun x => x.Holds journalPath (Filed w Q)) (openLocked w)
      (fun r x => Logged w x r.1 r.2.canonicalEntries ∧
        ∃ es, (∀ e ∈ es, e.Sound) ∧ Q es ∧ r.2 = foldEntries es) d := by
  rw [openLocked, wp_bind]
  refine (loadJournal_spec hw h).mono ?_ (fun _ hx => hx) ?_
  · rintro _ x ⟨rfl, hbad⟩
    exact ⟨h, hbad⟩
  rintro s x ⟨rfl, es, hsound, hes, rfl⟩
  have htidy := tidy_foldEntries hsound
  have hrange : ∀ e ∈ (foldEntries es).canonicalEntries, e.InRange :=
    fun e he => (htidy.entries e he).2.2
  have hcanonical : Filed w Q (some (encodeRecords w (foldEntries es).canonicalRecords)) := by
    refine ⟨_, hrange, hQ es hsound hes, ?_⟩
    rw [getD_some, canonicalRecords_eq_map, frames_encodeRecords hw hrange]
  rw [wp_bind]
  refine (writeAtomic_holds h (by decide) hcanonical fun _ hx => hx).imp ?_
  rintro - y ⟨file, hsettled, hbelow, hsync⟩
  rw [canonicalRecords_eq_map] at hsync
  have hlogged : Logged w y file (foldEntries es).canonicalEntries :=
    ⟨hsettled, hbelow, hrange, hsync⟩
  have hlook : y.lookup journalPath = some file := hsettled.visible
  rw [wp_bind, wp_openAppend hlook]
  refine ⟨(hlogged.holds hw).mono fun c hc => hc.mono ?_, ?_⟩
  · rintro _ - rfl
    exact hQ es hsound hes
  · rw [wp_pure]
    exact ⟨hlogged, es, hsound, hes, rfl⟩

/-- `openLocked_spec`, with the lock taken first. -/
theorem openJournal_spec (hfree : d.locked = false) :
    Eff.wp false (fun _ x => x.Holds journalPath (Filed w Q) ∧ ∃ es, Q es ∧ ¬∀ e ∈ es, e.Writable)
      (fun x => x.Holds journalPath (Filed w Q)) (openJournal w)
      (fun r x => Logged w x r.1 r.2.canonicalEntries ∧
        ∃ es, (∀ e ∈ es, e.Sound) ∧ Q es ∧ r.2 = foldEntries es) d := by
  rw [openJournal, wp_bind, lockDataDir, wp_lock hfree]
  refine ⟨h, openLocked_spec hw (Disk.Holds.setLocked ?_ true) hQ⟩
  split
  · exact h
  · exact (h.create (by decide)).1

end

/-- The first `k` bytes of an entry's frame behind what is in the file: what an append that is cut
    short, or fails, leaves. -/
def tear (w : JournalWire) (file : Nat) (e : Entry) (k : Nat) (d : DataDir) : DataDir :=
  d.onFile file (·.append ((encodeFrame w e.record).take k))

theorem forall_mem_snoc {α : Type} {P : α → Prop} {l : List α} {a : α} (hl : ∀ x ∈ l, P x)
    (ha : P a) : ∀ x ∈ l ++ [a], P x :=
  forall_mem_append.mpr ⟨hl, forall_mem_singleton.mpr ha⟩

variable {e : Entry}

/-- A part of a frame is read as nothing, or as its entry. -/
theorem Logged.tear_holds (hw : w.Lawful) (h : Logged w d file es) (hr : e.InRange) (k : Nat) :
    (tear w file e k d).Holds journalPath (Filed w fun l => l = es ∨ l = es ++ [e]) := by
  refine .of_settled h.settled h.below fun b hb => ?_
  have hb' : b ∈ ((d.files file).append ((encodeFrame w e.record).take k)).contents := by
    simpa [tear, onFile] using hb
  obtain ⟨j, rfl⟩ := h.synced.contents_append hb'
  rw [take_take]
  rcases frames_encodeRecords_torn hw h.inRange hr (min j k) with hf | hf
  · exact ⟨es, h.inRange, .inl rfl, hf⟩
  · exact ⟨es ++ [e], forall_mem_snoc h.inRange hr, .inr rfl, hf⟩

/-- An append leaves a part of its frame wherever it is cut short, and the entry in the end. -/
theorem appendEntry_spec (h : Logged w d file es) (hr : e.InRange) :
    Eff.wp false never (fun x => ∃ k, x = tear w file e k d) (appendEntry w file e)
      (fun _ x => Logged w x file (es ++ [e])) d := by
  have hbytes : encodeRecords w ((es ++ [e]).map record) =
      encodeRecords w (es.map record) ++ encodeFrame w e.record := by
    simp [encodeRecords]
  rw [appendEntry, wp_bind, wp_append]
  refine ⟨fun k _ => ⟨k, rfl⟩, ?_⟩
  rw [wp_syncData]
  refine ⟨⟨(encodeFrame w e.record).length, by rw [tear, take_length]⟩, h.settled, h.below,
    forall_mem_snoc h.inRange hr, ?_⟩
  have hvis : ((d.files file).append (encodeFrame w e.record)).visible =
      encodeRecords w ((es ++ [e]).map record) := by
    rw [FileNode.visible_append, h.synced.visible, hbytes]
  have hdone := FileNode.synced_sync ((d.files file).append (encodeFrame w e.record))
  rw [hvis] at hdone
  simpa [onFile] using hdone

end Specs

end Coppice.Agent
