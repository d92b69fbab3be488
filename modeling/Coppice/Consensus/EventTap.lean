/-
  Coppice.Consensus.EventTap

  The derived event tap (`coppice-consensus/src/events.rs`): the apply task emits
  batches into a bounded channel without blocking, and the fanout receives them with
  a gap wherever one was dropped.  Every access to what both sides share is a step
  of its own, so a run is any interleaving of them.
-/

import Coppice.State.Types

namespace Coppice.Consensus

open Coppice.Core State List

/-! ## The tap -/

/-- The events of one applied command, under its log index. -/
structure EventBatch where
  appliedIndex : Nat
  at_ : Timestamp
  events : List Event
  scopes : List (JobId × JobScope)

structure Tagged where
  seq : Nat
  batch : EventBatch

inductive TapItem where
  | batch (b : EventBatch)
  | gap (earliestReplayable : Nat)

/-- What became of one call of the sender. -/
inductive Emission where
  | sent (b : EventBatch)
  | dropped (b : EventBatch)
  | forced (appliedIndex : Nat)

/-- Where the sender is in `emit` or `force_gap`; with `wake` the call ends in a
    notification. -/
inductive SendPc where
  | idle
  | storeIndex (index : Nat) (wake : Bool)
  | storeEmitted (wake : Bool)
  | notify (wake : Bool)

/-- Where the receiver is in `recv`; `loadEmitted`, `tryRecv` and `loadIndex` are
    `take_trailing_gap`, `last` when the sender is gone. -/
inductive RecvPc where
  | idle
  | loadEmitted (last : Bool)
  | tryRecv (emitted : Nat)
  | loadIndex (emitted : Nat)
  | select
  | ended

/-- Indices and numbers are `u64` in the source; one a batch, they stay below its end. -/
structure Tap where
  /-- the channel -/
  capacity : Nat
  queue : List Tagged
  closed : Bool
  /-- the drop signal -/
  emitted : Nat
  lastEmittedIndex : Nat
  permit : Bool
  /-- the apply task -/
  appliedIndex : Nat
  seq : Nat
  sendPc : SendPc
  /-- the receiver -/
  expectedSeq : Nat
  lastIndex : Nat
  held : Option EventBatch
  recvPc : RecvPc
  /-- the history -/
  log : List Emission
  out : List TapItem

namespace Tap

def channel (capacity : Nat) : Tap :=
  ⟨capacity, [], false, 0, 0, false, 0, 0, .idle, 0, 0, none, .idle, [], []⟩

/-- `emit` up to the attempt to send. -/
def emit (s : Tap) (batch : EventBatch) : Tap :=
  if batch.events.isEmpty then s
  else if s.queue.length < s.capacity then
    { s with
      queue := s.queue ++ [⟨s.seq, batch⟩]
      seq := s.seq + 1
      sendPc := .storeIndex batch.appliedIndex false
      log := s.log ++ [.sent batch] }
  else
    { s with
      seq := s.seq + 1
      sendPc := .storeIndex batch.appliedIndex true
      log := s.log ++ [.dropped batch] }

def forceGap (s : Tap) (appliedIndex : Nat) : Tap :=
  { s with
    seq := s.seq + 1
    sendPc := .storeIndex appliedIndex true
    log := s.log ++ [.forced appliedIndex] }

/-- The next store of a call of the sender. -/
def send (s : Tap) : Tap :=
  match s.sendPc with
  | .idle => s
  | .storeIndex index wake => { s with lastEmittedIndex := index, sendPc := .storeEmitted wake }
  | .storeEmitted wake => { s with emitted := s.seq, sendPc := .notify wake }
  | .notify wake => { s with permit := s.permit || wake, sendPc := .idle }

/-- `recv` returns an item. -/
def give (s : Tap) (item : TapItem) : Tap := { s with out := s.out ++ [item], recvPc := .idle }

def deliver (s : Tap) (tagged : Tagged) : Tap :=
  if tagged.seq ≠ s.expectedSeq then
    { s with
      expectedSeq := tagged.seq + 1
      held := some tagged.batch }.give (.gap tagged.batch.appliedIndex)
  else
    { s with
      expectedSeq := tagged.seq + 1
      lastIndex := tagged.batch.appliedIndex }.give (.batch tagged.batch)

/-- The next step of `recv`; at the `select` it polls the channel. -/
def recv (s : Tap) : Tap :=
  match s.recvPc with
  | .idle =>
    match s.held with
    | some b => { s with held := none, lastIndex := b.appliedIndex }.give (.batch b)
    | none => { s with recvPc := .loadEmitted false }
  | .loadEmitted last =>
    if s.emitted ≤ s.expectedSeq then { s with recvPc := if last then .ended else .select }
    else { s with recvPc := .tryRecv s.emitted }
  | .tryRecv emitted =>
    match s.queue with
    | tagged :: rest => { s with queue := rest }.deliver tagged
    | [] => { s with recvPc := .loadIndex emitted }
  | .loadIndex emitted => { s with expectedSeq := emitted }.give (.gap s.lastEmittedIndex)
  | .select =>
    match s.queue with
    | tagged :: rest => { s with queue := rest }.deliver tagged
    | [] => if s.closed then { s with recvPc := .loadEmitted true } else s
  | .ended => s

/-- The other arm of the `select`. -/
def notified (s : Tap) : Tap :=
  match s.recvPc, s.permit with
  | .select, true => { s with permit := false, recvPc := .loadEmitted false }
  | _, _ => s

end Tap

/-- What may happen next.  The apply task emits under the index of the command it applies
    and installs snapshots; either way its applied index moves ahead. -/
inductive Action where
  | emit (ahead : Nat) (at_ : Timestamp) (events : List Event) (scopes : List (JobId × JobScope))
  | install (ahead : Nat)
  | send
  | close
  | recv
  | notified
  /-- the future of `recv` is dropped at its `select`, perhaps with the notification -/
  | cancel (lost : Bool)

namespace Tap

def step (s : Tap) : Action → Tap
  | .emit ahead at_ events scopes =>
    match s.sendPc, s.closed with
    | .idle, false =>
      { s with appliedIndex := s.appliedIndex + ahead }.emit
        ⟨s.appliedIndex + ahead, at_, events, scopes⟩
    | _, _ => s
  | .install ahead =>
    match s.sendPc, s.closed with
    | .idle, false =>
      { s with appliedIndex := s.appliedIndex + ahead }.forceGap (s.appliedIndex + ahead)
    | _, _ => s
  | .send => s.send
  | .close =>
    match s.sendPc with
    | .idle => { s with closed := true }
    | _ => s
  | .recv => s.recv
  | .notified => s.notified
  | .cancel lost =>
    match s.recvPc with
    | .select => { s with recvPc := .idle, permit := s.permit && !lost }
    | _ => s

def run (capacity : Nat) (acts : List Action) : Tap := acts.foldl step (channel capacity)

end Tap

/-! ## What the receiver is told -/

namespace Emission

def index : Emission → Nat
  | .sent b | .dropped b => b.appliedIndex
  | .forced i => i

/-- The channel does not carry it. -/
def lost : Emission → Bool
  | .sent _ => false
  | .dropped _ | .forced _ => true

def batch? : Emission → Option EventBatch
  | .sent b | .dropped b => some b
  | .forced _ => none

end Emission

def TapItem.batch? : TapItem → Option EventBatch
  | .batch b => some b
  | .gap _ => none

/-- The items are a faithful account of the emissions: a batch stands for itself, and a gap
    for one or more emissions that were lost since the item before it, none of which is
    above its floor. -/
inductive Told : List Emission → List TapItem → Prop where
  | nil : Told [] []
  | batch {l out b} : Told l out → Told (l ++ [.sent b]) (out ++ [.batch b])
  | gap {l out hole floor} : Told l out → hole ≠ [] → (∀ x ∈ hole, x.lost = true) →
      (∀ x ∈ l ++ hole, x.index ≤ floor) → Told (l ++ hole) (out ++ [.gap floor])

/-- The batches received are among those emitted, in the same order. -/
theorem Told.sublist (h : Told l out) :
    (out.filterMap TapItem.batch?).Sublist (l.filterMap Emission.batch?) := by
  induction h with
  | nil => exact .slnil
  | batch _ ih =>
    rw [filterMap_append, filterMap_append]
    exact ih.append (.refl _)
  | gap _ _ _ _ ih =>
    rw [filterMap_append, filterMap_append]
    exact ih.append (nil_sublist _)

/-- The account so far, when a batch may be held back behind its gap. -/
def Heard (told : List Emission) (held : Option EventBatch) (out : List TapItem) : Prop :=
  match held with
  | none => Told told out
  | some b => ∃ l, told = l ++ [.sent b] ∧ Told l out

/-- What the channel carries of the emissions from number `n` on. -/
def tags (n : Nat) : List Emission → List Tagged
  | [] => []
  | .sent b :: rest => ⟨n, b⟩ :: tags (n + 1) rest
  | _ :: rest => tags (n + 1) rest

theorem tags_append (n : Nat) (l l' : List Emission) :
    tags n (l ++ l') = tags n l ++ tags (n + l.length) l' := by
  induction l generalizing n with
  | nil => rfl
  | cons x rest ih =>
    have hlen : n + (x :: rest).length = n + 1 + rest.length := by
      rw [length_cons]; omega
    cases x <;> simp only [cons_append, tags, ih, hlen]

variable {n : Nat} {l : List Emission}

/-- Nothing is carried of what was lost. -/
theorem lost_of_tags_nil (h : tags n l = []) : ∀ x ∈ l, x.lost = true := by
  induction l generalizing n with
  | nil => intro x hx; cases hx
  | cons y rest ih =>
    cases y with
    | sent b => cases h
    | dropped b => exact forall_mem_cons.mpr ⟨rfl, ih h⟩
    | forced i => exact forall_mem_cons.mpr ⟨rfl, ih h⟩

theorem tags_of_lost (h : ∀ x ∈ l, x.lost = true) (n : Nat) : tags n l = [] := by
  induction l generalizing n with
  | nil => rfl
  | cons y rest ih =>
    obtain ⟨hy, hrest⟩ := forall_mem_cons.mp h
    cases y with
    | sent b => cases hy
    | dropped b | forced b => exact ih hrest (n + 1)

/-- The first batch carried comes after a hole, which may be empty. -/
theorem hole_of_tags_cons {t : Tagged} {ts : List Tagged} (h : tags n l = t :: ts) :
    ∃ hole rest, l = hole ++ .sent t.batch :: rest ∧
      (∀ x ∈ hole, x.lost = true) ∧ t.seq = n + hole.length ∧ ts = tags (t.seq + 1) rest := by
  induction l generalizing n with
  | nil => cases h
  | cons y rest ih =>
    cases y with
    | sent b =>
      obtain ⟨rfl, rfl⟩ := List.cons.inj h
      exact ⟨[], rest, rfl, by simp, rfl, rfl⟩
    | dropped b | forced b =>
      obtain ⟨hole, rest', rfl, hlost, hseq, hts⟩ := ih h
      refine ⟨_ :: hole, rest', rfl, forall_mem_cons.mpr ⟨rfl, hlost⟩, ?_, hts⟩
      rw [length_cons]; omega

/-! ## The invariant -/

namespace Tap

/-- The counters of the sender: everything emitted is counted once its call has stored the
    total, and the stored index is above everything counted. -/
structure Counted (s : Tap) : Prop where
  seq : s.seq = s.log.length
  sorted : s.log.Pairwise fun x y => x.index ≤ y.index
  applied : ∀ x ∈ s.log, x.index ≤ s.appliedIndex
  emitted : s.emitted ≤ s.log.length
  covers : ∀ x ∈ s.log.take s.emitted, x.index ≤ s.lastEmittedIndex
  call : match s.sendPc with
    | .idle | .notify _ => s.emitted = s.log.length
    | .storeIndex i wake => (∀ x ∈ s.log, x.index ≤ i) ∧
        (wake = false → ∃ l b, s.log = l ++ [.sent b])
    | .storeEmitted wake => (∀ x ∈ s.log, x.index ≤ s.lastEmittedIndex) ∧
        (wake = false → ∃ l b, s.log = l ++ [.sent b])
  closed : s.closed = true → s.emitted = s.log.length

/-- The receiver has accounted for the emissions before `expectedSeq`, and the channel
    carries what was sent of the others. -/
structure Accounted (s : Tap) : Prop where
  within : s.expectedSeq ≤ s.log.length
  queue : s.queue = tags s.expectedSeq (s.log.drop s.expectedSeq)
  heard : Heard (s.log.take s.expectedSeq) s.held s.out

/-- What the receiver knows at each step of `recv`.  At the `select`, a drop that is counted
    and not yet told will wake it. -/
def Knows (s : Tap) : Prop :=
  match s.recvPc with
  | .idle => True
  | .loadEmitted last => s.held = none ∧ (last = true → s.closed = true ∧ s.queue = [])
  | .tryRecv k => s.held = none ∧ s.expectedSeq < k ∧ k ≤ s.emitted
  | .loadIndex k => s.held = none ∧ s.expectedSeq < k ∧ k ≤ s.emitted ∧
      ∀ x ∈ (s.log.take k).drop s.expectedSeq, x.lost = true
  | .select => s.held = none ∧
      (s.expectedSeq < s.emitted → s.permit = true ∨ s.sendPc = .notify true ∨ s.queue ≠ [])
  | .ended => s.held = none ∧ s.closed = true ∧ s.emitted ≤ s.expectedSeq

structure Inv (s : Tap) : Prop where
  counted : s.Counted
  accounted : s.Accounted
  knows : s.Knows

theorem channel_inv (capacity : Nat) : (channel capacity).Inv where
  counted := ⟨rfl, .nil, by simp [channel], Nat.le_refl _, by simp [channel], rfl, fun _ => rfl⟩
  accounted := ⟨Nat.le_refl _, rfl, .nil⟩
  knows := trivial

variable {s : Tap}

/-! ### The sender -/

/-- What the receiver knows outlives a step of the sender that still wakes it. -/
theorem Knows.sent {s' : Tap} (h : s.Knows) (hpc : s'.recvPc = s.recvPc) (hheld : s'.held = s.held)
    (hexpected : s'.expectedSeq = s.expectedSeq) (hemitted : s.emitted ≤ s'.emitted)
    (hwithin : s.emitted ≤ s.log.length) (hlog : ∃ l, s'.log = s.log ++ l)
    (hclosed : s.closed = true → s'.closed = true ∧ s'.queue = s.queue ∧ s'.emitted = s.emitted)
    (hwake : (s.expectedSeq < s.emitted →
        s.permit = true ∨ s.sendPc = .notify true ∨ s.queue ≠ []) →
      s.expectedSeq < s'.emitted →
        s'.permit = true ∨ s'.sendPc = .notify true ∨ s'.queue ≠ []) : s'.Knows := by
  obtain ⟨l, hlog⟩ := hlog
  unfold Knows at h ⊢
  rw [hpc, hheld, hexpected]
  split at h
  · trivial
  · refine ⟨h.1, fun hl => ?_⟩
    obtain ⟨hc, hq⟩ := h.2 hl
    exact ⟨(hclosed hc).1, (hclosed hc).2.1.trans hq⟩
  · exact ⟨h.1, h.2.1, Nat.le_trans h.2.2 hemitted⟩
  · obtain ⟨hnone, hlt, hle, hlost⟩ := h
    refine ⟨hnone, hlt, Nat.le_trans hle hemitted, ?_⟩
    rw [hlog, take_append_of_le_length (Nat.le_trans hle hwithin)]
    exact hlost
  · exact ⟨h.1, hwake h.2⟩
  · obtain ⟨hnone, hc, hle⟩ := h
    exact ⟨hnone, (hclosed hc).1, (hclosed hc).2.2 ▸ hle⟩

/-- A call of the sender adds one emission, which the channel takes or loses. -/
theorem Inv.call (h : s.Inv) (hidle : s.sendPc = .idle) (hopen : s.closed = false) {x : Emission}
    {ahead : Nat} {queue : List Tagged} {wake : Bool} (hx : x.index = s.appliedIndex + ahead)
    (hqueue : queue = s.queue ++ tags s.seq [x]) (hwake : wake = false → ∃ b, x = .sent b) :
    Inv { s with
      appliedIndex := s.appliedIndex + ahead
      queue := queue
      seq := s.seq + 1
      sendPc := .storeIndex (s.appliedIndex + ahead) wake
      log := s.log ++ [x] } := by
  have hbound : ∀ y ∈ s.log ++ [x], y.index ≤ s.appliedIndex + ahead := by
    intro y hy
    rcases mem_append.mp hy with hy | hy
    · exact Nat.le_trans (h.counted.applied y hy) (Nat.le_add_right _ _)
    · rw [mem_singleton.mp hy, hx]
  have hlen : (s.log ++ [x]).length = s.log.length + 1 := by simp
  have hemitted := h.counted.emitted
  have hwithin := h.accounted.within
  refine ⟨⟨?_, ?_, hbound, ?_, ?_, ⟨hbound, ?_⟩, ?_⟩, ⟨?_, ?_, ?_⟩, ?_⟩
  · rw [hlen, h.counted.seq]
  · refine pairwise_append.mpr ⟨h.counted.sorted, pairwise_singleton _ _, ?_⟩
    intro y hy z hz
    rw [mem_singleton.mp hz, hx]
    exact hbound y (mem_append_left _ hy)
  · show s.emitted ≤ (s.log ++ [x]).length
    omega
  · rw [take_append_of_le_length hemitted]
    exact h.counted.covers
  · intro hw
    obtain ⟨b, rfl⟩ := hwake hw
    exact ⟨s.log, b, rfl⟩
  · intro hc
    rw [show s.closed = true from hc] at hopen
    cases hopen
  · show s.expectedSeq ≤ (s.log ++ [x]).length
    omega
  · have hseq : s.expectedSeq + (s.log.drop s.expectedSeq).length = s.seq := by
      rw [length_drop, h.counted.seq]
      omega
    rw [drop_append_of_le_length hwithin, tags_append, hseq, ← h.accounted.queue, hqueue]
  · rw [take_append_of_le_length hwithin]
    exact h.accounted.heard
  · refine h.knows.sent rfl rfl rfl (Nat.le_refl _) hemitted ⟨[x], rfl⟩ (fun hc => ?_) ?_
    · rw [hc] at hopen
      cases hopen
    · intro hwakes hlt
      rcases hwakes hlt with hp | hn | hq
      · exact .inl hp
      · rw [hidle] at hn
        cases hn
      · refine .inr (.inr fun hnil => hq ?_)
        rw [show queue = [] from hnil] at hqueue
        exact (append_eq_nil_iff.mp hqueue.symm).1

/-- The last emission is in the channel unless it is accounted for. -/
theorem Accounted.queue_ne_nil (h : s.Accounted) {l : List Emission} {b : EventBatch}
    (hlog : s.log = l ++ [.sent b]) (hlt : s.expectedSeq < s.log.length) : s.queue ≠ [] := by
  have hle : s.expectedSeq ≤ l.length := by
    rw [hlog, length_append, length_singleton] at hlt
    omega
  rw [h.queue, hlog, drop_append_of_le_length hle, tags_append]
  exact append_ne_nil_of_right_ne_nil _ (cons_ne_nil _ _)

theorem Inv.send (h : s.Inv) : s.send.Inv := by
  have hc := h.counted
  have hcall := hc.call
  have hacc := h.accounted
  unfold Tap.send
  split
  · exact h
  · -- the index is stored: it is above everything in the log
    rename_i i wake hpc
    simp only [hpc] at hcall
    refine ⟨⟨hc.seq, hc.sorted, hc.applied, hc.emitted, ?_, hcall, hc.closed⟩,
      ⟨hacc.within, hacc.queue, hacc.heard⟩, ?_⟩
    · exact fun x hx => hcall.1 x (mem_of_mem_take hx)
    · refine h.knows.sent rfl rfl rfl (Nat.le_refl _) hc.emitted ⟨[], (append_nil _).symm⟩
        (fun hclosed => ⟨hclosed, rfl, rfl⟩) fun hwakes hlt => ?_
      rcases hwakes hlt with hp | hn | hq
      · exact .inl hp
      · rw [hpc] at hn
        cases hn
      · exact .inr (.inr hq)
  · -- the total is stored: everything in the log is counted
    rename_i wake hpc
    simp only [hpc] at hcall
    have hseq := hc.seq
    refine ⟨⟨hseq, hc.sorted, hc.applied, Nat.le_of_eq hseq, ?_, hseq, fun _ => hseq⟩,
      ⟨hacc.within, hacc.queue, hacc.heard⟩, ?_⟩
    · exact fun x hx => hcall.1 x (mem_of_mem_take hx)
    · refine h.knows.sent rfl rfl rfl (hseq ▸ hc.emitted) hc.emitted
        ⟨[], (append_nil _).symm⟩
        (fun hclosed => ⟨hclosed, rfl, hseq.trans (hc.closed hclosed).symm⟩) fun _ hlt => .inr ?_
      cases wake with
      | true => exact .inl rfl
      | false =>
        obtain ⟨l, b, hlog⟩ := hcall.2 rfl
        exact .inr (hacc.queue_ne_nil hlog (hseq ▸ hlt))
  · rename_i wake hpc
    simp only [hpc] at hcall
    refine ⟨⟨hc.seq, hc.sorted, hc.applied, hc.emitted, hc.covers, hcall, hc.closed⟩,
      ⟨hacc.within, hacc.queue, hacc.heard⟩, ?_⟩
    refine h.knows.sent rfl rfl rfl (Nat.le_refl _) hc.emitted ⟨[], (append_nil _).symm⟩
      (fun hclosed => ⟨hclosed, rfl, rfl⟩) fun hwakes hlt => ?_
    rcases hwakes hlt with hp | hn | hq
    · exact .inl (Bool.or_eq_true_iff.mpr (.inl hp))
    · rw [hpc] at hn
      cases hn
      exact .inl (Bool.or_true _)
    · exact .inr (.inr hq)

/-! ### The receiver -/

/-- The receiver writes none of what the sender counts with. -/
theorem Counted.received (h : s.Counted) (queue : List Tagged) (permit : Bool)
    (expectedSeq lastIndex : Nat) (held : Option EventBatch) (recvPc : RecvPc)
    (out : List TapItem) : Counted { s with
      queue := queue, permit := permit, expectedSeq := expectedSeq, lastIndex := lastIndex
      held := held, recvPc := recvPc, out := out } :=
  ⟨h.seq, h.sorted, h.applied, h.emitted, h.covers, h.call, h.closed⟩

/-- Taking the first batch from the channel: it comes next, or a hole comes before it. -/
theorem Inv.deliver (h : s.Inv) (hheld : s.held = none) {t : Tagged} {ts : List Tagged}
    (hqueue : s.queue = t :: ts) : Inv ({ s with queue := ts }.deliver t) := by
  have hacc := h.accounted
  have htold : Told (s.log.take s.expectedSeq) s.out := by
    have := hacc.heard
    rwa [hheld] at this
  obtain ⟨hole, rest, hdrop, hlost, hseq, hts⟩ := hole_of_tags_cons (hacc.queue.symm.trans hqueue)
  -- the log is cut after the batch
  have hlog : s.log = s.log.take s.expectedSeq ++ hole ++ [.sent t.batch] ++ rest := by
    rw [append_assoc, append_assoc, singleton_append, ← hdrop, take_append_drop]
  have hlen : (s.log.take s.expectedSeq ++ hole ++ [Emission.sent t.batch]).length = t.seq + 1 := by
    have hmin := Nat.min_eq_left hacc.within
    simp only [length_append, length_take, length_singleton]
    omega
  have htake : s.log.take (t.seq + 1) = s.log.take s.expectedSeq ++ hole ++ [.sent t.batch] := by
    conv_lhs => rw [hlog]
    exact take_left' hlen
  have hrest : s.log.drop (t.seq + 1) = rest := by
    conv_lhs => rw [hlog]
    exact drop_left' hlen
  have hwithin : t.seq + 1 ≤ s.log.length := by
    rw [hlog, length_append, hlen]
    omega
  have hnext : ts = tags (t.seq + 1) (s.log.drop (t.seq + 1)) := by rw [hrest, hts]
  unfold Tap.deliver
  split
  · -- a gap goes first, up to the index of the batch
    rename_i hne
    have hhole : hole ≠ [] := by
      rintro rfl
      exact hne (by simpa using hseq)
    refine ⟨h.counted.received _ _ _ _ _ _ _, ⟨hwithin, hnext, ?_⟩, trivial⟩
    refine ⟨s.log.take s.expectedSeq ++ hole, htake, htold.gap hhole hlost ?_⟩
    intro x hx
    have hsorted := h.counted.sorted
    rw [hlog] at hsorted
    have hbefore := (pairwise_append.mp hsorted).1
    exact (pairwise_append.mp hbefore).2.2 x hx _ (mem_singleton_self _)
  · rename_i heq
    have hhole : hole = [] := by
      refine eq_nil_of_length_eq_zero ?_
      have : t.seq = s.expectedSeq := not_not.mp heq
      omega
    subst hhole
    refine ⟨h.counted.received _ _ _ _ _ _ _, ⟨hwithin, hnext, ?_⟩, trivial⟩
    show Heard (s.log.take (t.seq + 1)) s.held (s.out ++ [.batch t.batch])
    rw [htake, hheld, append_nil]
    exact htold.batch

/-- A trailing gap stands for the lost emissions up to the total that was loaded. -/
theorem Inv.trailing (h : s.Inv) (hheld : s.held = none) {k : Nat} (hlt : s.expectedSeq < k)
    (hle : k ≤ s.emitted) (hlost : ∀ x ∈ (s.log.take k).drop s.expectedSeq, x.lost = true) :
    Inv ({ s with expectedSeq := k }.give (.gap s.lastEmittedIndex)) := by
  have hacc := h.accounted
  have hemitted := h.counted.emitted
  have htold : Told (s.log.take s.expectedSeq) s.out := by
    have := hacc.heard
    rwa [hheld] at this
  have hsplit : s.log.take k = s.log.take s.expectedSeq ++ (s.log.take k).drop s.expectedSeq := by
    conv_lhs => rw [← take_append_drop s.expectedSeq (s.log.take k)]
    rw [take_take, Nat.min_eq_left (Nat.le_of_lt hlt)]
  have hlen : ((s.log.take k).drop s.expectedSeq).length = k - s.expectedSeq := by
    rw [length_drop, length_take]
    omega
  have hqueue : s.queue = tags k (s.log.drop k) := by
    have hdrop : s.log.drop s.expectedSeq = (s.log.take k).drop s.expectedSeq ++ s.log.drop k := by
      conv_lhs => rw [← take_append_drop k s.log]
      refine drop_append_of_le_length ?_
      rw [length_take]
      omega
    rw [hacc.queue, hdrop, tags_append, tags_of_lost hlost, nil_append, hlen,
      Nat.add_sub_cancel' (Nat.le_of_lt hlt)]
  refine ⟨h.counted.received _ _ _ _ _ _ _, ⟨Nat.le_trans hle hemitted, hqueue, ?_⟩, trivial⟩
  show Heard (s.log.take k) s.held (s.out ++ [.gap s.lastEmittedIndex])
  rw [hheld, hsplit]
  refine htold.gap ?_ hlost ?_
  · intro hnil
    rw [hnil, length_nil] at hlen
    omega
  · intro x hx
    rw [← hsplit] at hx
    exact h.counted.covers x (take_subset_take_left _ hle hx)

theorem Inv.recv (h : s.Inv) : s.recv.Inv := by
  have hacc : s.Accounted := h.accounted
  have hknows := h.knows
  unfold Knows at hknows
  unfold Tap.recv
  split
  · split
    · -- the batch that was held back
      rename_i b hb
      obtain ⟨l, htake, htold⟩ : ∃ l, s.log.take s.expectedSeq = l ++ [.sent b] ∧ Told l s.out := by
        have := hacc.heard
        rwa [hb] at this
      refine ⟨h.counted.received _ _ _ _ _ _ _, ⟨hacc.within, hacc.queue, ?_⟩, trivial⟩
      show Told (s.log.take s.expectedSeq) (s.out ++ [.batch b])
      rw [htake]
      exact htold.batch
    · rename_i hnone
      exact ⟨h.counted.received _ _ _ _ _ _ _, ⟨hacc.within, hacc.queue, hacc.heard⟩,
        hnone, fun hl => by cases hl⟩
  · rename_i last hpc
    simp only [hpc] at hknows
    split_ifs with hle hlast
    · exact ⟨h.counted.received _ _ _ _ _ _ _, ⟨hacc.within, hacc.queue, hacc.heard⟩,
        hknows.1, (hknows.2 hlast).1, hle⟩
    · exact ⟨h.counted.received _ _ _ _ _ _ _, ⟨hacc.within, hacc.queue, hacc.heard⟩,
        hknows.1, fun hlt => absurd hlt (Nat.not_lt.mpr hle)⟩
    · exact ⟨h.counted.received _ _ _ _ _ _ _, ⟨hacc.within, hacc.queue, hacc.heard⟩,
        hknows.1, Nat.lt_of_not_le hle, Nat.le_refl _⟩
  · rename_i k hpc
    simp only [hpc] at hknows
    split
    · rename_i hqueue
      exact h.deliver hknows.1 hqueue
    · rename_i hqueue
      have hlost := lost_of_tags_nil (hacc.queue.symm.trans hqueue)
      refine ⟨h.counted.received _ _ _ _ _ _ _, ⟨hacc.within, hacc.queue, hacc.heard⟩,
        hknows.1, hknows.2.1, hknows.2.2, fun x hx => hlost x ?_⟩
      rw [drop_take] at hx
      exact mem_of_mem_take hx
  · rename_i k hpc
    simp only [hpc] at hknows
    obtain ⟨hheld, hlt, hle, hlost⟩ := hknows
    exact h.trailing hheld hlt hle hlost
  · rename_i hpc
    simp only [hpc] at hknows
    split
    · rename_i hqueue
      exact h.deliver hknows.1 hqueue
    · rename_i hqueue
      split_ifs with hclosed
      · exact ⟨h.counted.received _ _ _ _ _ _ _, ⟨hacc.within, hacc.queue, hacc.heard⟩,
          hknows.1, fun _ => ⟨hclosed, hqueue⟩⟩
      · exact h
  · exact h

/-! ### Every step -/

theorem Inv.emit (h : s.Inv) (hidle : s.sendPc = .idle) (hopen : s.closed = false) (ahead : Nat)
    (at_ : Timestamp) (events : List Event) (scopes : List (JobId × JobScope)) :
    Inv ({ s with appliedIndex := s.appliedIndex + ahead }.emit
      ⟨s.appliedIndex + ahead, at_, events, scopes⟩) := by
  unfold Tap.emit
  split_ifs
  · -- an empty batch is not emitted
    have hc := h.counted
    refine ⟨⟨hc.seq, hc.sorted, fun x hx => ?_, hc.emitted, hc.covers, hc.call, hc.closed⟩,
      ⟨h.accounted.within, h.accounted.queue, h.accounted.heard⟩, h.knows⟩
    exact Nat.le_trans (hc.applied x hx) (Nat.le_add_right _ _)
  · exact h.call hidle hopen rfl rfl fun _ => ⟨_, rfl⟩
  · exact h.call (x := .dropped _) hidle hopen rfl (append_nil _).symm fun hw => by cases hw

theorem step_inv (h : s.Inv) (a : Action) : (s.step a).Inv := by
  cases a with
  | emit ahead at_ events scopes =>
    simp only [step]
    split
    · exact h.emit ‹_› ‹_› ahead at_ events scopes
    · exact h
  | install ahead =>
    simp only [step]
    split
    · exact h.call (x := .forced _) ‹_› ‹_› rfl (append_nil _).symm fun hw => by cases hw
    · exact h
  | send => exact h.send
  | close =>
    simp only [step]
    split
    · rename_i hidle
      have hc := h.counted
      have hcall := hc.call
      simp only [hidle] at hcall
      refine ⟨⟨hc.seq, hc.sorted, hc.applied, hc.emitted, hc.covers, hc.call, fun _ => hcall⟩,
        ⟨h.accounted.within, h.accounted.queue, h.accounted.heard⟩, ?_⟩
      exact h.knows.sent rfl rfl rfl (Nat.le_refl _) hc.emitted ⟨[], (append_nil _).symm⟩
        (fun _ => ⟨rfl, rfl, rfl⟩) fun hwakes => hwakes
    · exact h
  | recv => exact h.recv
  | notified =>
    simp only [step, notified]
    split
    · rename_i hpc _
      have hknows := h.knows
      simp only [Knows, hpc] at hknows
      exact ⟨h.counted.received _ _ _ _ _ _ _,
        ⟨h.accounted.within, h.accounted.queue, h.accounted.heard⟩, hknows.1,
        fun hl => by cases hl⟩
    · exact h
  | cancel lost =>
    simp only [step]
    split
    · exact ⟨h.counted.received _ _ _ _ _ _ _,
        ⟨h.accounted.within, h.accounted.queue, h.accounted.heard⟩, trivial⟩
    · exact h

end Tap

end Coppice.Consensus
