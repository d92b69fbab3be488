/-
  Coppice.Agent.Replay

  What the records of a journal fold to.  A written record reads back as `settled`,
  an exit with a negative runtime not at all (`Writable`); the live set of a state
  folds back to the state (`foldEntries_canonical`).
-/

import Coppice.Agent.Journal

namespace Coppice.Agent

open Lib Coppice.Core Storage OrdMap List Entry JournalState Duration

/-! ## Spans and instants on the wire -/

section

variable (d : Duration)

/-- A span cut to zero from below. -/
def nonneg : Duration := max d Duration.zero

theorem val_nonneg : (nonneg d).val = max d.val 0 := by
  unfold nonneg
  rcases le_total d zero with h | h
  · have hval : d.val ≤ 0 := h
    rw [max_eq_right h]
    show (0 : Int) = _
    omega
  · have hval : 0 ≤ d.val := h
    rw [max_eq_left h]
    omega

theorem nonneg_nonneg : nonneg (nonneg d) = nonneg d := by
  apply Bounded.ext
  rw [val_nonneg, val_nonneg]
  omega

theorem toNat_microsOrZero : ((microsOrZero d).toNat : Int) = max d.val 0 := by
  have hle := d.property.2
  simp only [i64Max] at hle
  have hlt : d.val.toNat < 2 ^ 64 := by omega
  have hnat : (microsOrZero d).toNat = d.val.toNat := by
    exact Nat.mod_eq_of_lt hlt
  omega

theorem ofMicros_microsOrZero : Duration.ofMicros (microsOrZero d).toNat = nonneg d := by
  have h := d.property
  simp only [i64Min, i64Max] at h
  apply Bounded.ext
  rw [val_nonneg, ofMicros, I64.val_clamp, toNat_microsOrZero]
  simp only [i64Min, i64Max]
  omega

theorem tryDuration_microsOrZero (field : String) :
    tryDuration (microsOrZero d) field = .ok (nonneg d) := by
  have h := d.property.2
  have hle : ((microsOrZero d).toNat : Int) ≤ i64Max := by
    rw [toNat_microsOrZero]
    simp only [i64Max] at h ⊢
    omega
  rw [tryDuration, if_pos hle, ofMicros_microsOrZero]

end

theorem microsCast_eq_microsOrZero {d : Duration} (h : 0 ≤ d.val) :
    microsCast d = microsOrZero d := by
  have hle := d.property.2
  simp only [i64Max] at hle
  have hmod : (d.asMicros % 2 ^ 64).toNat = d.asMicros.toNat := by
    simp only [asMicros]
    omega
  simp only [microsCast, microsOrZero, UInt64.ofInt, hmod]

theorem tryTimestamp_timestampUs (t : Timestamp) (field : String) :
    tryTimestamp (timestampUs t) field = .ok t := by
  have h := t.property
  have hval : (timestampUs t).val = t.val := by
    simp only [timestampUs, Timestamp.asMicros, I64.val_clamp, i64Min, i64Max]
    simp only [minMicros, maxMicros] at h
    omega
  rw [tryTimestamp, hval, Timestamp.ofMicros, dif_pos h]
  rfl

/-! ## One record -/

/-- The entry as it reads back: spans cut to zero from below. -/
def Entry.settled : Entry → Entry
  | .intent rec => .intent { rec with
      maxRuntime := rec.maxRuntime.map nonneg
      notice := nonneg rec.notice
      abortGrace := nonneg rec.abortGrace
      cleanupMargin := nonneg rec.cleanupMargin }
  | .noticeMark allocation mark =>
    .noticeMark allocation { mark with shortfall := nonneg mark.shortfall }
  | .drainPlan plan => .drainPlan { plan with
      operator := plan.operator.map fun o => { o with noticeWindow := nonneg o.noticeWindow } }
  | e => e

/-- The record can be read back. -/
def Entry.Writable : Entry → Prop
  | .exit rec => 0 ≤ rec.runtime.val
  | _ => True

/-- The entry's values are those of the source's types: ids are UUIDs, exit codes 32-bit. -/
def Entry.InRange : Entry → Prop
  | .fencing _ | .drainPlan _ => True
  | .intent rec => rec.allocation < 2 ^ 128 ∧ rec.attempt < 2 ^ 128 ∧ rec.job < 2 ^ 128
  | .tombstone allocation reason =>
    allocation < 2 ^ 128 ∧ ∀ r, reason = .preempt r → ReasonInRange r
  | .noticeIntent allocation reason => allocation < 2 ^ 128 ∧ ReasonInRange reason
  | .noticeMark allocation _ => allocation < 2 ^ 128
  | .exit rec => (rec.allocation < 2 ^ 128 ∧ rec.attempt < 2 ^ 128 ∧ rec.job < 2 ^ 128) ∧
      (∀ r, rec.outcome = .preempted r → ReasonInRange r) ∧
      ∀ code, rec.outcome = .exited code → -2 ^ 31 ≤ code ∧ code < 2 ^ 31
where
  ReasonInRange : PreemptReason → Prop
    | .priority job | .relocation job => job < 2 ^ 128
    | .drain | .interruption => True

/-- The entry is written and read back as it stands. -/
def Entry.Faithful (e : Entry) : Prop := e.settled = e ∧ e.Writable ∧ e.InRange

variable {e : Entry} {p : DrainPlan}

theorem Entry.faithful_settled (hw : e.Writable) (hr : e.InRange) : e.settled.Faithful := by
  refine ⟨?_, ?_, ?_⟩
  · cases e with
    | intent rec =>
      simp only [settled, nonneg_nonneg, Option.map_map]
      congr 2
      exact congrArg (fun f => rec.maxRuntime.map f) (funext nonneg_nonneg)
    | noticeMark a m => simp only [settled, nonneg_nonneg]
    | drainPlan plan =>
      simp only [settled, Option.map_map]
      congr 2
      refine congrArg (fun f => plan.operator.map f) (funext fun o => ?_)
      simp only [Function.comp_apply, nonneg_nonneg]
    | _ => rfl
  · cases e <;> exact hw
  · cases e <;> exact hr

/-- Fold one entry into the state. -/
def JournalState.note (s : JournalState) : Entry → JournalState
  | .fencing w => { s with
      watermark :=
        ⟨max s.watermark.leaderTerm w.leaderTerm, max s.watermark.nodeEpoch w.nodeEpoch⟩ }
  | .intent rec => { s with intents := s.intents.insert rec.allocation rec }
  | .tombstone allocation reason => { s with tombstones := s.tombstones.insert allocation reason }
  | .noticeIntent allocation reason =>
    { s with noticeIntents := s.noticeIntents.insert allocation reason }
  | .noticeMark allocation mark => { s with marks := s.marks.insert allocation mark }
  | .drainPlan plan => { s with plan := plan }
  | .exit rec => { s with exits := s.exits.insert rec.allocation rec }

theorem operatorFromPb_record (plan : DrainPlanRec)
    (h : (recordDrainPlan plan).body = some (.drainPlan p)) :
    operatorFromPb p = .ok (plan.operator.map fun o =>
      { o with noticeWindow := nonneg o.noticeWindow }) := by
  cases h
  cases plan.operator with
  | none => rfl
  | some o =>
    simp only [operatorFromPb, Option.map_some, Option.getD_some, tryTimestamp_timestampUs,
      tryDuration_microsOrZero]
    rfl

theorem interruptionFromPb_record (plan : DrainPlanRec)
    (h : (recordDrainPlan plan).body = some (.drainPlan p)) :
    interruptionFromPb p = .ok plan.interruption := by
  cases h
  cases plan.interruption with
  | none => rfl
  | some t =>
    simp only [interruptionFromPb, Option.map_some, tryTimestamp_timestampUs]
    rfl

/-- What was written reads back. -/
theorem applyRecord_record (s : JournalState) (h : e.Writable) :
    s.applyRecord e.record = .ok (s.note e.settled) := by
  cases e with
  | fencing w => rfl
  | intent rec =>
    have hmax : (rec.maxRuntime.map microsOrZero).map (fun us => ofMicros us.toNat) =
        rec.maxRuntime.map nonneg := by
      rw [Option.map_map]
      congr 1
      funext d
      exact ofMicros_microsOrZero d
    simp only [record, recordIntent, applyRecord, startIntentFromPb, require,
      tryDuration_microsOrZero, hmax]
    rfl
  | tombstone allocation reason => cases reason <;> rfl
  | noticeIntent allocation reason => rfl
  | noticeMark allocation mark =>
    simp only [record, recordNoticeMark, applyRecord, noticeMarkFromPb, require,
      tryDuration_microsOrZero, tryTimestamp_timestampUs]
    rfl
  | drainPlan plan =>
    have hop := operatorFromPb_record plan rfl
    have hint := interruptionFromPb_record plan rfl
    simp only [record, recordDrainPlan, applyRecord, drainPlanFromPb]
    simp only [hop, hint]
    rfl
  | exit rec =>
    have hcut : nonneg rec.runtime = rec.runtime := by
      apply Bounded.ext
      rw [val_nonneg]
      exact max_eq_left h
    simp only [record, recordExit, applyRecord, observedExitFromPb, require,
      outcomeFromPb, microsCast_eq_microsOrZero h, tryDuration_microsOrZero, hcut]
    rfl

/-! ## The live set -/

theorem DrainPlanRec.eq_of_isEmpty {plan : DrainPlanRec} (h : plan.isEmpty = true) : plan = {} := by
  obtain ⟨operator, interruption⟩ := plan
  simpa [DrainPlanRec.isEmpty] using h

namespace JournalState

/-- The live set as entries, in the order it is written. -/
def canonicalEntries (s : JournalState) : List Entry :=
  .fencing s.watermark ::
    (s.intents.values.map .intent ++
      (s.tombstones.entries.map (fun e => .tombstone e.1 e.2) ++
        (s.noticeIntents.entries.map (fun e => .noticeIntent e.1 e.2) ++
          (s.marks.entries.map (fun e => .noticeMark e.1 e.2) ++
            ((if s.plan.isEmpty then [] else [.drainPlan s.plan]) ++ s.exits.values.map .exit)))))

theorem canonicalRecords_eq_map (s : JournalState) :
    s.canonicalRecords = s.canonicalEntries.map record := by
  unfold canonicalRecords canonicalEntries
  split_ifs <;> simp [record, Function.comp_def]

/-- A state that can be written and read back: records stand under their own allocation,
    and are as they read back. -/
structure Tidy (s : JournalState) : Prop where
  intents : ∀ {a rec}, s.intents.get? a = some rec → rec.allocation = a ∧ (intent rec).Faithful
  tombstones : ∀ {a r}, s.tombstones.get? a = some r → (tombstone a r).Faithful
  noticeIntents : ∀ {a r}, s.noticeIntents.get? a = some r → (noticeIntent a r).Faithful
  marks : ∀ {a m}, s.marks.get? a = some m → (noticeMark a m).Faithful
  plan : (drainPlan s.plan).Faithful
  exits : ∀ {a rec}, s.exits.get? a = some rec → rec.allocation = a ∧ (exit rec).Faithful

theorem tidy_default : Tidy {} where
  intents h := by cases h
  tombstones h := by cases h
  noticeIntents h := by cases h
  marks h := by cases h
  plan := ⟨rfl, trivial, trivial⟩
  exits h := by cases h

/-- A property of every binding of a map, after one more is written. -/
theorem forall_insert {V : Type} {m : OrdMap AllocationId V} {P : AllocationId → V → Prop}
    (h : ∀ {a v}, m.get? a = some v → P a v) {w : V} (hw : P b w) :
    ∀ {a v}, (m.insert b w).get? a = some v → P a v := by
  intro a v hv
  rw [get?_insert] at hv
  split_ifs at hv with hab
  · cases hv
    exact hab ▸ hw
  · exact h hv

variable {s : JournalState}

theorem Tidy.note (h : s.Tidy) {e : Entry} (he : e.Faithful) : (s.note e).Tidy := by
  cases e with
  | fencing w => exact ⟨h.intents, h.tombstones, h.noticeIntents, h.marks, h.plan, h.exits⟩
  | intent rec =>
    exact ⟨forall_insert h.intents ⟨rfl, he⟩, h.tombstones, h.noticeIntents, h.marks, h.plan,
      h.exits⟩
  | tombstone a r =>
    exact ⟨h.intents, forall_insert h.tombstones he, h.noticeIntents, h.marks, h.plan, h.exits⟩
  | noticeIntent a r =>
    exact ⟨h.intents, h.tombstones, forall_insert h.noticeIntents he, h.marks, h.plan, h.exits⟩
  | noticeMark a m =>
    exact ⟨h.intents, h.tombstones, h.noticeIntents, forall_insert h.marks he, h.plan, h.exits⟩
  | drainPlan plan =>
    exact ⟨h.intents, h.tombstones, h.noticeIntents, h.marks, he, h.exits⟩
  | exit rec =>
    exact ⟨h.intents, h.tombstones, h.noticeIntents, h.marks, h.plan,
      forall_insert h.exits ⟨rfl, he⟩⟩

theorem Tidy.entries (h : s.Tidy) : ∀ e ∈ s.canonicalEntries, e.Faithful := by
  intro e he
  simp only [canonicalEntries, mem_cons, mem_append, mem_map, mem_values,
    Prod.exists, mem_entries] at he
  rcases he with rfl | ⟨rec, ⟨a, ha⟩, rfl⟩ | ⟨a, r, ha, rfl⟩ | ⟨a, r, ha, rfl⟩ | ⟨a, m, ha, rfl⟩ |
    he | ⟨rec, ⟨a, ha⟩, rfl⟩
  · exact ⟨rfl, trivial, trivial⟩
  · exact (h.intents ha).2
  · exact h.tombstones ha
  · exact h.noticeIntents ha
  · exact h.marks ha
  · split_ifs at he
    · cases he
    · cases mem_singleton.mp he
      exact h.plan
  · exact (h.exits ha).2

/-! ### Folding the live set -/

theorem foldl_note_intents (l : List IntentRec) (s : JournalState) :
    (l.map intent).foldl note s =
      { s with intents := l.foldl (fun m rec => m.insert rec.allocation rec) s.intents } := by
  induction l generalizing s with
  | nil => rfl
  | cons _ _ ih => exact ih _

theorem foldl_note_exits (l : List ExitRec) (s : JournalState) :
    (l.map exit).foldl note s =
      { s with exits := l.foldl (fun m rec => m.insert rec.allocation rec) s.exits } := by
  induction l generalizing s with
  | nil => rfl
  | cons _ _ ih => exact ih _

theorem foldl_note_tombstones (l : List (AllocationId × TombstoneReason)) (s : JournalState) :
    (l.map fun e => tombstone e.1 e.2).foldl note s =
      { s with tombstones := l.foldl (fun m e => m.insert e.1 e.2) s.tombstones } := by
  induction l generalizing s with
  | nil => rfl
  | cons _ _ ih => exact ih _

theorem foldl_note_noticeIntents (l : List (AllocationId × PreemptReason)) (s : JournalState) :
    (l.map fun e => noticeIntent e.1 e.2).foldl note s =
      { s with noticeIntents := l.foldl (fun m e => m.insert e.1 e.2) s.noticeIntents } := by
  induction l generalizing s with
  | nil => rfl
  | cons _ _ ih => exact ih _

theorem foldl_note_marks (l : List (AllocationId × NoticeMarkRec)) (s : JournalState) :
    (l.map fun e => noticeMark e.1 e.2).foldl note s =
      { s with marks := l.foldl (fun m e => m.insert e.1 e.2) s.marks } := by
  induction l generalizing s with
  | nil => rfl
  | cons _ _ ih => exact ih _

/-- A map of records that stand under their own key is rebuilt from its values. -/
theorem foldl_insert_values {V : Type} (key : V → AllocationId) {m : OrdMap AllocationId V}
    (h : ∀ {a v}, m.get? a = some v → key v = a) :
    m.values.foldl (fun m v => m.insert (key v) v) .empty = m := by
  have hentries : m.values.map (fun v => (key v, v)) = m.entries := by
    rw [values, map_map]
    refine (map_congr_left fun e he => ?_).trans (map_id _)
    exact Prod.ext (h (mem_entries.mp he)) rfl
  have hfold := ofList_entries m
  rw [ofList, ← hentries, foldl_map] at hfold
  exact hfold

/-- The live set folds back to the state. -/
theorem foldl_note_canonical (h : s.Tidy) : s.canonicalEntries.foldl note {} = s := by
  have hintents := foldl_insert_values IntentRec.allocation fun ha => (h.intents ha).1
  have hexits := foldl_insert_values ExitRec.allocation fun ha => (h.exits ha).1
  have htomb := ofList_entries s.tombstones
  have hnotice := ofList_entries s.noticeIntents
  have hmarks := ofList_entries s.marks
  have hwater : ∀ x : UInt64, max 0 x = x := fun x => if_pos UInt64.zero_le
  have hplan : ∀ t : JournalState, t.plan = {} →
      (if s.plan.isEmpty then [] else [drainPlan s.plan]).foldl note t =
        { t with plan := s.plan } := by
    intro t ht
    split_ifs with hempty
    · rw [DrainPlanRec.eq_of_isEmpty hempty, ← ht]
      rfl
    · rfl
  simp only [ofList] at htomb hnotice hmarks
  simp only [canonicalEntries, foldl_cons, foldl_append, foldl_note_intents,
    foldl_note_tombstones, foldl_note_noticeIntents, foldl_note_marks, foldl_note_exits, note]
  rw [hplan _ rfl]
  simp only [hintents, hexits, htomb, hnotice, hmarks, hwater]

end JournalState

/-! ## A list of records -/

/-- The fold of records, as recovery folds them. -/
def replay (es : List Entry) : Except IoError JournalState :=
  es.foldlM (fun s e => s.applyRecord e.record) {}

/-- The fold of a list of entries, as they read back. -/
def foldEntries (es : List Entry) : JournalState := es.foldl (fun s e => s.note e.settled) {}

section Lists

variable {es : List Entry}

theorem foldEntries_append (es : List Entry) (e : Entry) :
    foldEntries (es ++ [e]) = (foldEntries es).note e.settled := by
  simp [foldEntries]

theorem replay_eq (h : ∀ e ∈ es, e.Writable) : replay es = .ok (foldEntries es) := by
  have hfold : ∀ s : JournalState, es.foldlM (fun s e => s.applyRecord e.record) s =
      .ok (es.foldl (fun s e => s.note e.settled) s) := by
    induction es with
    | nil => exact fun s => rfl
    | cons e rest ih =>
      intro s
      rw [foldlM_cons, applyRecord_record s (h e (by simp))]
      exact ih (fun x hx => h x (mem_cons_of_mem _ hx)) _
  exact hfold {}

/-- A negative runtime is written as a number no span reaches. -/
theorem applyRecord_unwritable (s : JournalState) {e : Entry} (h : ¬e.Writable) :
    s.applyRecord e.record = .error (corrupt "ObservedExit.runtime_us") := by
  cases e with
  | exit rec =>
    have hneg : rec.runtime.val < 0 := not_le.mp h
    have hlow := rec.runtime.property.1
    simp only [i64Min] at hlow
    have hnat : (microsCast rec.runtime).toNat = (rec.runtime.val % 2 ^ 64).toNat := by
      simp only [microsCast, asMicros, UInt64.ofInt, UInt64.toNat_ofNat']
      omega
    have hbig : ¬((microsCast rec.runtime).toNat : Int) ≤ i64Max := by
      simp only [i64Max]
      omega
    simp only [record, recordExit, applyRecord, observedExitFromPb, require,
      outcomeFromPb, tryDuration, if_neg hbig]
    rfl
  | _ => exact absurd trivial h

theorem replay_error (h : ¬∀ e ∈ es, e.Writable) : ∃ err, replay es = .error err := by
  have hfold : ∀ s : JournalState, ∃ err,
      es.foldlM (fun s e => s.applyRecord e.record) s = .error err := by
    induction es with
    | nil => exact absurd (by simp) h
    | cons e rest ih =>
      intro s
      rw [foldlM_cons]
      by_cases he : e.Writable
      · rw [applyRecord_record s he]
        exact ih (fun hall => h (forall_mem_cons.mpr ⟨he, hall⟩)) _
      · rw [applyRecord_unwritable s he]
        exact ⟨_, rfl⟩
  exact hfold {}

/-- Entries that are as they read back fold as they stand. -/
theorem foldEntries_faithful (h : ∀ e ∈ es, e.Faithful) :
    foldEntries es = es.foldl JournalState.note {} := by
  have hfold : ∀ s : JournalState, es.foldl (fun s e => s.note e.settled) s =
      es.foldl note s := by
    induction es with
    | nil => exact fun s => rfl
    | cons e rest ih =>
      intro s
      rw [foldl_cons, foldl_cons, (h e (by simp)).1]
      exact ih (fun x hx => h x (mem_cons_of_mem _ hx)) _
  exact hfold {}

theorem foldEntries_canonical {s : JournalState} (hs : s.Tidy) :
    foldEntries s.canonicalEntries = s := by
  rw [foldEntries_faithful hs.entries, foldl_note_canonical hs]

end Lists

end Coppice.Agent
