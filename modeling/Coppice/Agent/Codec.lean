/-
  Coppice.Agent.Codec

  A codec for journal records, of counted varints: it shows that what
  `JournalWire.Lawful` asks of the library can be had, and serves the concrete runs.
-/

import Coppice.Agent.Durable

namespace Coppice.Agent.Codec

open Lib Coppice.Core List Entry

/-! ## Words -/

/-- Seven bits a byte, low ones first, in at most `k + 1` bytes. -/
def varint : Nat → Nat → Bytes
  | 0, n => [.ofNat n]
  | k + 1, n => if n < 128 then [.ofNat n] else .ofNat (n % 128 + 128) :: varint k (n / 128)

/-- A number and what follows it. -/
def readVarint : Bytes → Nat × Bytes
  | [] => (0, [])
  | b :: rest =>
    if b.toNat < 128 then (b.toNat, rest)
    else (b.toNat - 128 + 128 * (readVarint rest).1, (readVarint rest).2)

/-- A count and that many numbers. -/
def ofWords (words : List Nat) : Bytes := .ofNat words.length :: words.flatMap (varint 18)

def readWords : Nat → Bytes → List Nat
  | 0, _ => []
  | n + 1, bytes => (readVarint bytes).1 :: readWords n (readVarint bytes).2

def toWords : Bytes → List Nat
  | [] => []
  | count :: rest => readWords count.toNat rest

variable {words : List Nat} {o : AttemptOutcome} {e : Entry} {n k : Nat}

theorem readVarint_low (h : n < 128) (rest : Bytes) :
    readVarint (.ofNat n :: rest) = (n, rest) := by
  have hn : (UInt8.ofNat n).toNat = n := Nat.mod_eq_of_lt (by omega)
  simp only [readVarint, hn, h, if_true]

theorem readVarint_varint (h : n < 128 ^ (k + 1)) (rest : Bytes) :
    readVarint (varint k n ++ rest) = (n, rest) := by
  induction k generalizing n with
  | zero => exact readVarint_low h rest
  | succ k ih =>
    rw [varint]
    split
    · next hn => exact readVarint_low hn rest
    · have hlow : (UInt8.ofNat (n % 128 + 128)).toNat = n % 128 + 128 :=
        Nat.mod_eq_of_lt (by omega)
      have hhigh := ih (n := n / 128) (by rw [pow_succ] at h; omega)
      rw [cons_append, readVarint, hlow, hhigh, if_neg (by omega), Nat.add_sub_cancel,
        Nat.mod_add_div]

theorem length_varint (k n : Nat) : (varint k n).length ≤ k + 1 := by
  induction k generalizing n with
  | zero => exact Nat.le_refl _
  | succ k ih =>
    rw [varint]
    split
    · simp
    · exact Nat.succ_le_succ (ih _)

theorem toWords_ofWords (h : ∀ x ∈ words, x < 128 ^ 19) (hlen : words.length < 256) :
    toWords (ofWords words) = words := by
  have hread : readWords words.length (words.flatMap (varint 18)) = words := by
    clear hlen
    induction words with
    | nil => rfl
    | cons x rest ih =>
      rw [flatMap_cons, length_cons, readWords, readVarint_varint (h x mem_cons_self),
        ih fun y hy => h y (mem_cons_of_mem _ hy)]
  have hcount : (UInt8.ofNat words.length).toNat = words.length := Nat.mod_eq_of_lt hlen
  rw [ofWords, toWords, hcount, hread]

theorem length_ofWords (words : List Nat) : (ofWords words).length ≤ 1 + 19 * words.length := by
  have hflat : (words.flatMap (varint 18)).length ≤ 19 * words.length := by
    induction words with
    | nil => exact Nat.le_refl _
    | cons x rest ih =>
      have hx := length_varint 18 x
      rw [flatMap_cons, length_append, length_cons]
      omega
  rw [ofWords, length_cons]
  omega

/-! ## Fields -/

def signalWord : NoticeSignal → Nat
  | .sighup => 0 | .sigint => 1 | .sigusr1 => 2 | .sigusr2 => 3 | .sigterm => 4

def wordSignal : Nat → NoticeSignal
  | 0 => .sighup | 1 => .sigint | 2 => .sigusr1 | 3 => .sigusr2 | _ => .sigterm

def reasonWords : PreemptReason → Nat × Nat
  | .priority job => (0, job)
  | .relocation job => (1, job)
  | .drain => (2, 0)
  | .interruption => (3, 0)

def wordsReason (tag job : Nat) : PreemptReason :=
  match tag with
  | 0 => .priority job
  | 1 => .relocation job
  | 2 => .drain
  | _ => .interruption

/-- A signed value, moved above zero. -/
def intWord (x : Int) : Nat := (x + 2 ^ 63).toNat

def wordInt (n : Nat) : I64 := I64.clamp ((n : Int) - 2 ^ 63)

def optWords (x : Option Nat) : Nat × Nat :=
  match x with
  | none => (0, 0)
  | some n => (1, n)

def wordsOpt (flag n : Nat) : Option Nat := if flag = 0 then none else some n

def outcomeWords : AttemptOutcome → Nat × Nat × Nat
  | .exited code => (0, intWord code, 0)
  | .memoryLimitExceeded => (1, 0, 0)
  | .runtimeLimitExceeded => (2, 0, 0)
  | .diskLimitExceeded => (3, 0, 0)
  | .aborted => (4, 0, 0)
  | .revoked => (5, 0, 0)
  | .pullFailed userError => (6, userError.toNat, 0)
  | .startFailed userError => (7, userError.toNat, 0)
  | .nodeLost => (8, 0, 0)
  | .agentError => (9, 0, 0)
  | .preempted reason => (10, (reasonWords reason).1, (reasonWords reason).2)

def wordsOutcome (tag a b : Nat) : AttemptOutcome :=
  match tag with
  | 0 => .exited (wordInt a).val
  | 1 => .memoryLimitExceeded
  | 2 => .runtimeLimitExceeded
  | 3 => .diskLimitExceeded
  | 4 => .aborted
  | 5 => .revoked
  | 6 => .pullFailed (a = 1)
  | 7 => .startFailed (a = 1)
  | 8 => .nodeLost
  | 9 => .agentError
  | _ => .preempted (wordsReason a b)

@[simp] theorem wordSignal_signalWord (s : NoticeSignal) : wordSignal (signalWord s) = s := by
  cases s <;> rfl

@[simp] theorem wordsReason_reasonWords (r : PreemptReason) :
    wordsReason (reasonWords r).1 (reasonWords r).2 = r := by
  cases r <;> rfl

@[simp] theorem wordInt_intWord (x : I64) : wordInt (intWord x.val) = x := by
  have h := x.property
  simp only [i64Min, i64Max] at h
  apply Bounded.ext
  simp only [wordInt, intWord, I64.val_clamp, i64Min, i64Max]
  omega

@[simp] theorem wordsOpt_optWords (x : Option Nat) :
    wordsOpt (optWords x).1 (optWords x).2 = x := by
  cases x <;> rfl

theorem wordsOutcome_outcomeWords (h : ∀ code, o = .exited code → -2 ^ 31 ≤ code ∧ code < 2 ^ 31) :
    wordsOutcome (outcomeWords o).1 (outcomeWords o).2.1 (outcomeWords o).2.2 = o := by
  cases o with
  | exited code =>
    have hcode := h code rfl
    have hval : (wordInt (intWord code)).val = code := by
      simp only [wordInt, intWord, I64.val_clamp, i64Min, i64Max]
      omega
    simp [outcomeWords, wordsOutcome, hval]
  | pullFailed userError => cases userError <;> rfl
  | startFailed userError => cases userError <;> rfl
  | preempted reason => simp [outcomeWords, wordsOutcome]
  | _ => rfl

/-! ## Records -/

def optIntWords (x : Option I64) : Nat × Nat := optWords (x.map fun t => intWord t.val)

def wordsOptInt (flag n : Nat) : Option I64 := (wordsOpt flag n).map wordInt

/-- The words of a record whose fields are all there; others are not written. -/
def recordWords (rec : JournalRecord) : List Nat :=
  match rec.body with
  | none => [0]
  | some (.fencing term epoch) => [1, term.toNat, epoch.toNat]
  | some (.startIntent si) =>
    [2, si.allocation.getD 0, si.attempt.getD 0, si.job.getD 0, si.nodeEpoch.toNat,
      (optWords (si.maxRuntimeUs.map UInt64.toNat)).1,
      (optWords (si.maxRuntimeUs.map UInt64.toNat)).2,
      signalWord (si.noticeSignal.getD .sigterm), si.noticeUs.toNat, si.abortGraceUs.toNat,
      si.drainCleanupMarginUs.toNat]
  | some (.tombstone allocation (.preempt (some (some reason)))) =>
    [3, allocation.getD 0, 1, (reasonWords reason).1, (reasonWords reason).2]
  | some (.tombstone allocation _) => [3, allocation.getD 0, 0, 0, 0]
  | some (.observedExit e) =>
    let outcome := outcomeWords ((e.outcome.getD none).getD .aborted)
    [4, e.allocation.getD 0, e.attempt.getD 0, e.job.getD 0, outcome.1, outcome.2.1, outcome.2.2,
      e.runtimeUs.toNat]
  | some (.noticeIntent allocation reason) =>
    let words := reasonWords (reason.getD .drain)
    [5, allocation.getD 0, words.1, words.2]
  | some (.noticeMark m) =>
    [6, m.allocation.getD 0, intWord m.stopAtUs.val, m.shortfallUs.toNat,
      intWord m.notifiedAtUs.val]
  | some (.drainPlan p) =>
    [7, (optIntWords p.operatorDeadlineUs).1, (optIntWords p.operatorDeadlineUs).2,
      p.noticeWindowUs.toNat, (optIntWords p.interruptionDeadlineUs).1,
      (optIntWords p.interruptionDeadlineUs).2]

def wordsRecord : List Nat → Option JournalRecord
  | [0] => some ⟨none⟩
  | [1, term, epoch] => some ⟨some (.fencing (.ofNat term) (.ofNat epoch))⟩
  | [2, allocation, attempt, job, epoch, flag, max, signal, notice, grace, margin] =>
    some ⟨some (.startIntent {
      allocation := some allocation
      attempt := some attempt
      job := some job
      nodeEpoch := .ofNat epoch
      maxRuntimeUs := (wordsOpt flag max).map UInt64.ofNat
      noticeSignal := some (wordSignal signal)
      noticeUs := .ofNat notice
      abortGraceUs := .ofNat grace
      drainCleanupMarginUs := .ofNat margin })⟩
  | [3, allocation, 0, _, _] => some ⟨some (.tombstone (some allocation) .abort)⟩
  | [3, allocation, _, tag, job] =>
    some ⟨some (.tombstone (some allocation) (.preempt (some (some (wordsReason tag job)))))⟩
  | [4, allocation, attempt, job, tag, a, b, runtime] =>
    some ⟨some (.observedExit {
      allocation := some allocation
      attempt := some attempt
      job := some job
      outcome := some (some (wordsOutcome tag a b))
      runtimeUs := .ofNat runtime })⟩
  | [5, allocation, tag, job] =>
    some ⟨some (.noticeIntent (some allocation) (some (wordsReason tag job)))⟩
  | [6, allocation, stopAt, shortfall, notifiedAt] =>
    some ⟨some (.noticeMark {
      allocation := some allocation
      stopAtUs := wordInt stopAt
      shortfallUs := .ofNat shortfall
      notifiedAtUs := wordInt notifiedAt })⟩
  | [7, flag, deadline, window, flag', deadline'] =>
    some ⟨some (.drainPlan {
      operatorDeadlineUs := wordsOptInt flag deadline
      noticeWindowUs := .ofNat window
      interruptionDeadlineUs := wordsOptInt flag' deadline' })⟩
  | _ => none

@[simp] theorem wordsOptInt_optIntWords (x : Option I64) :
    wordsOptInt (optIntWords x).1 (optIntWords x).2 = x := by
  cases x <;> simp [wordsOptInt, optIntWords]

theorem wordsRecord_recordWords (h : e.InRange) :
    wordsRecord (recordWords e.record) = some e.record := by
  cases e with
  | tombstone allocation reason =>
    cases reason <;> simp [record, recordTombstone, recordWords, wordsRecord]
  | exit rec =>
    have hout := wordsOutcome_outcomeWords h.2.2
    simp [record, recordExit, recordWords, wordsRecord, hout]
  | intent rec =>
    simp [record, recordIntent, recordWords, wordsRecord, Function.comp_def]
  | _ =>
    simp [record, recordFencing, recordNoticeIntent, recordNoticeMark, recordDrainPlan,
      recordWords, wordsRecord]

/-! ## The codec is lawful -/

/-- The number fits in a word. -/
def Fits (n : Nat) : Prop := n < 128 ^ 19

@[simp] theorem Fits.ofNat (n : Nat) (h : n < 256) : Fits n := by
  simp only [Fits]
  omega

theorem Fits.id (h : n < 2 ^ 128) : Fits n := by
  simp only [Fits]
  omega

@[simp] theorem Fits.u64 (x : UInt64) : Fits x.toNat := by
  have h := x.toNat_lt
  simp only [Fits]
  omega

theorem Fits.int {x : Int} (h : x ≤ i64Max) : Fits (intWord x) := by
  simp only [i64Max] at h
  simp only [Fits, intWord]
  omega

@[simp] theorem Fits.i64 (x : I64) : Fits (intWord x.val) := .int x.property.2

@[simp] theorem Fits.signal (s : NoticeSignal) : Fits (signalWord s) := by
  cases s <;> simp [signalWord]

theorem Fits.reason (h : InRange.ReasonInRange r) :
    Fits (reasonWords r).1 ∧ Fits (reasonWords r).2 := by
  cases r with
  | priority job | relocation job => simp [reasonWords, Fits.id h]
  | drain | interruption => simp [reasonWords]

@[simp] theorem Fits.optInt (x : Option I64) : Fits (optIntWords x).1 ∧ Fits (optIntWords x).2 := by
  cases x <;> simp [optIntWords, optWords]

@[simp] theorem Fits.optU64 (x : Option UInt64) :
    Fits (optWords (x.map UInt64.toNat)).1 ∧ Fits (optWords (x.map UInt64.toNat)).2 := by
  cases x <;> simp [optWords]

theorem Fits.outcome (hr : ∀ r, o = .preempted r → InRange.ReasonInRange r)
    (hc : ∀ code, o = .exited code → -2 ^ 31 ≤ code ∧ code < 2 ^ 31) :
    Fits (outcomeWords o).1 ∧ Fits (outcomeWords o).2.1 ∧ Fits (outcomeWords o).2.2 := by
  cases o with
  | exited code =>
    have hcode := (hc code rfl).2
    have hle : code ≤ i64Max := by
      simp only [i64Max]
      omega
    simp [outcomeWords, Fits.int hle]
  | preempted r => simp [outcomeWords, Fits.reason (hr r rfl)]
  | pullFailed userError | startFailed userError => cases userError <;> simp [outcomeWords]
  | _ => simp [outcomeWords]

theorem fits_recordWords (h : e.InRange) : ∀ x ∈ recordWords e.record, Fits x := by
  cases e with
  | fencing watermark => simp [record, recordFencing, recordWords]
  | intent rec =>
    obtain ⟨halloc, hattempt, hjob⟩ := h
    simp [record, recordIntent, recordWords, Fits.id halloc, Fits.id hattempt, Fits.id hjob,
      -Option.map_map]
  | tombstone allocation reason =>
    cases reason with
    | abort => simp [record, recordTombstone, recordWords, Fits.id h.1]
    | preempt r =>
      simp [record, recordTombstone, recordWords, Fits.id h.1, Fits.reason (h.2 r rfl)]
  | noticeIntent allocation reason =>
    simp [record, recordNoticeIntent, recordWords, Fits.id h.1, Fits.reason h.2]
  | noticeMark allocation mark => simp [record, recordNoticeMark, recordWords, Fits.id h]
  | drainPlan plan => simp [record, recordDrainPlan, recordWords]
  | exit rec =>
    obtain ⟨⟨halloc, hattempt, hjob⟩, hreason, hcode⟩ := h
    simp [record, recordExit, recordWords, Fits.id halloc, Fits.id hattempt, Fits.id hjob,
      Fits.outcome hreason hcode]

theorem length_recordWords (rec : JournalRecord) : (recordWords rec).length ≤ 11 := by
  rw [recordWords]
  split <;> simp

/-- The codec with its checksum. -/
def wire : JournalWire where
  crc32c := crc32cAppend 0
  encode rec := ofWords (recordWords rec)
  decode bytes := wordsRecord (toWords bytes)

theorem lawful_wire : wire.Lawful where
  decode e h := by
    have hlen := length_recordWords e.record
    show wordsRecord (toWords (ofWords (recordWords e.record))) = _
    rw [toWords_ofWords (fits_recordWords h) (by omega), wordsRecord_recordWords h]
  fits e _ := by
    have hlen := length_recordWords e.record
    have hbytes := length_ofWords (recordWords e.record)
    show (ofWords (recordWords e.record)).length < 2 ^ 32
    omega

end Coppice.Agent.Codec
