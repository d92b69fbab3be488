/-
  Coppice.Coordinator.Fanout

  The task of `coppice-coordinator/src/tasks/event_fanout.rs`: it receives from the
  event tap, keeps the ring, and hands each batch to every subscription.  A
  subscription can be opened between a gap and the batch held back behind it.
-/

import Coppice.Coordinator.EventRing

namespace Coppice.Consensus

open List

/-- The apply task never applies under an index twice. -/
def Action.onward : Action → Action
  | .emit ahead at_ events scopes => .emit (ahead + 1) at_ events scopes
  | a => a

/-- The batches that are still to come out of `recv`. -/
def Tap.pending (s : Tap) : List EventBatch := s.held.toList ++ s.queue.map Tagged.batch

namespace Tap

/-- What a step does to them and to what `recv` has returned. -/
inductive Took (s s' : Tap) : Prop where
  | quiet (hp : s'.pending = s.pending) (ho : s'.out = s.out)
  | sent {b : EventBatch} (hp : s'.pending = s.pending ++ [b]) (ho : s'.out = s.out)
      (hnew : s.appliedIndex < b.appliedIndex) (hle : b.appliedIndex ≤ s'.appliedIndex)
  | batch {b : EventBatch} (hp : s.pending = b :: s'.pending) (ho : s'.out = s.out ++ [.batch b])
  | gap {i : Nat} (hp : s'.pending = s.pending) (ho : s'.out = s.out ++ [.gap i])
      (hi : i ≤ s.appliedIndex)

/-- They come in the order of the log, and the tap knows no index that was not applied. -/
structure Lined (s : Tap) : Prop where
  inv : s.Inv
  sorted : s.pending.Pairwise fun b b' => b.appliedIndex < b'.appliedIndex
  applied : ∀ b ∈ s.pending, b.appliedIndex ≤ s.appliedIndex
  emitted : s.lastEmittedIndex ≤ s.appliedIndex
  storing : ∀ i wake, s.sendPc = .storeIndex i wake → i ≤ s.appliedIndex

variable {s s' : Tap}

theorem Lined.took (h : s.Lined) (htook : Took s s') (hinv : s'.Inv)
    (hle : s.appliedIndex ≤ s'.appliedIndex) (hemitted : s'.lastEmittedIndex ≤ s'.appliedIndex)
    (hstoring : ∀ i wake, s'.sendPc = .storeIndex i wake → i ≤ s'.appliedIndex) : s'.Lined := by
  have hsame : s'.pending = s.pending → s'.Lined := fun hp =>
    ⟨hinv, hp ▸ h.sorted, hp ▸ fun b hb => (h.applied b hb).trans hle, hemitted, hstoring⟩
  cases htook with
  | quiet hp | gap hp => exact hsame hp
  | sent hp _ hnew hlast =>
    have hold : ∀ b ∈ s.pending, b.appliedIndex ≤ s.appliedIndex := h.applied
    refine ⟨hinv, ?_, ?_, hemitted, hstoring⟩ <;> rw [hp]
    · refine pairwise_append.mpr ⟨h.sorted, pairwise_singleton _ _, fun b hb b' hb' => ?_⟩
      rw [mem_singleton.mp hb']
      exact (hold b hb).trans_lt hnew
    · exact forall_mem_append.mpr
        ⟨fun b hb => (hold b hb).trans hle, forall_mem_singleton.mpr hlast⟩
  | batch hp =>
    have hsorted := h.sorted
    have happlied := h.applied
    rw [hp] at hsorted happlied
    exact ⟨hinv, (pairwise_cons.mp hsorted).2,
      fun b hb => ((forall_mem_cons.mp happlied).2 b hb).trans hle, hemitted, hstoring⟩

theorem Lined.deliver (h : s.Lined) (hheld : s.held = none) {t : Tagged} {ts : List Tagged}
    (hqueue : s.queue = t :: ts) : Took s ({ s with queue := ts }.deliver t) := by
  have hpending : s.pending = t.batch :: ts.map Tagged.batch := by simp [pending, hheld, hqueue]
  unfold Tap.deliver
  split_ifs
  · exact .gap hpending.symm rfl (h.applied t.batch (by simp [hpending]))
  · refine .batch (b := t.batch) ?_ rfl
    rw [hpending]
    simp [pending, give, hheld]

theorem Lined.recv (h : s.Lined) : Took s s.recv := by
  have hknows := h.inv.knows
  unfold Knows at hknows
  unfold Tap.recv
  split <;> rename_i hpc
  · split <;> rename_i hheld
    · exact .batch (by simp [pending, give, hheld]) rfl
    · exact .quiet rfl rfl
  · split_ifs <;> exact .quiet rfl rfl
  · rw [hpc] at hknows
    split <;> rename_i hqueue
    · exact h.deliver hknows.1 hqueue
    · exact .quiet rfl rfl
  · exact .gap rfl rfl h.emitted
  · rw [hpc] at hknows
    split <;> rename_i hqueue
    · exact h.deliver hknows.1 hqueue
    · split_ifs <;> exact .quiet rfl rfl
  · exact .quiet rfl rfl

/-- The receiver writes none of the counters of the sender. -/
theorem recv_frame (s : Tap) : s.recv.appliedIndex = s.appliedIndex ∧
    s.recv.lastEmittedIndex = s.lastEmittedIndex ∧ s.recv.sendPc = s.sendPc := by
  unfold Tap.recv Tap.deliver
  repeat' split
  all_goals exact ⟨rfl, rfl, rfl⟩

theorem Lined.step (h : s.Lined) (a : Action) : Took s (s.step a.onward) ∧
    s.appliedIndex ≤ (s.step a.onward).appliedIndex ∧ (s.step a.onward).Lined := by
  have hinv := step_inv h.inv a.onward
  have hmove : ∀ {s' : Tap}, s'.Inv → Took s s' → s.appliedIndex ≤ s'.appliedIndex →
      s'.lastEmittedIndex ≤ s'.appliedIndex →
      (∀ i wake, s'.sendPc = .storeIndex i wake → i ≤ s'.appliedIndex) →
      Took s s' ∧ s.appliedIndex ≤ s'.appliedIndex ∧ s'.Lined :=
    fun hi ht ha he hp => ⟨ht, ha, h.took ht hi ha he hp⟩
  have hlast := h.emitted
  have hsame := hmove h.inv (.quiet rfl rfl) le_rfl hlast h.storing
  cases a with
  | emit ahead at_ events scopes =>
    have hahead : s.appliedIndex < s.appliedIndex + (ahead + 1) := by omega
    simp only [Action.onward, Tap.step, emit] at hinv ⊢
    split at hinv
    · rename_i hidle _
      split_ifs at hinv ⊢
      · exact hmove hinv (.quiet rfl rfl) hahead.le (hlast.trans hahead.le) (by simp [hidle])
      · exact hmove hinv (.sent (by simp [pending]; rfl) rfl hahead le_rfl) hahead.le
          (hlast.trans hahead.le) (by rintro i wake ⟨⟩; exact le_rfl)
      · exact hmove hinv (.quiet rfl rfl) hahead.le (hlast.trans hahead.le)
          (by rintro i wake ⟨⟩; exact le_rfl)
    · exact hsame
  | install ahead =>
    have hahead : s.appliedIndex ≤ s.appliedIndex + ahead := by omega
    simp only [Action.onward, Tap.step] at hinv ⊢
    split at hinv
    · exact hmove hinv (.quiet rfl rfl) hahead (hlast.trans hahead)
        (by rintro i wake ⟨⟩; exact le_rfl)
    · exact hsame
  | send =>
    simp only [Action.onward, Tap.step, send] at hinv ⊢
    split at hinv
    · exact hsame
    · rename_i hpc
      exact hmove hinv (.quiet rfl rfl) le_rfl (h.storing _ _ hpc) (by simp)
    all_goals exact hmove hinv (.quiet rfl rfl) le_rfl hlast (by simp)
  | recv =>
    obtain ⟨happlied, hemitted, hpc⟩ := s.recv_frame
    refine hmove hinv h.recv happlied.ge ?_ ?_
    · show s.recv.lastEmittedIndex ≤ s.recv.appliedIndex
      rwa [happlied, hemitted]
    · show ∀ i wake, s.recv.sendPc = .storeIndex i wake → i ≤ s.recv.appliedIndex
      rw [happlied, hpc]
      exact h.storing
  | close | notified | cancel =>
    simp only [Action.onward, Tap.step, notified] at hinv ⊢
    split at hinv
    · exact hmove hinv (.quiet rfl rfl) le_rfl hlast h.storing
    · exact hsame

end Tap

end Coppice.Consensus

namespace Coppice.Coordinator

open Consensus

/-! ## Subscriptions -/

def subscriberQueueCapacity : Nat := 1024

def maxEventSubscriptions : Nat := 1024

inductive SubscriptionItem where
  | events (batch : FilteredBatch)
  | gap (earliestAvailable : Nat)
  | progress (index : Nat)

inductive ProgressItems where
  | send | omit
  deriving DecidableEq

structure SubscriberState where
  filter : EventFilter
  progress : ProgressItems
  lastDelivered : Nat
  gapped : Bool
  /-- the queue: all it took, how many were received, and whether the receiver is gone -/
  taken : List SubscriptionItem
  received : Nat
  closed : Bool
  /-- the head it was opened with -/
  head : Nat

namespace SubscriberState

section

variable (sub : SubscriberState)

/-- `try_send` with what follows it, when the queue took the item and when it was full; a
    receiver that is gone ends the subscription. -/
def trySend (item : SubscriptionItem) (ok full : SubscriberState → Option SubscriberState) :
    Option SubscriberState :=
  if sub.closed then none
  else if subscriberQueueCapacity ≤ sub.taken.length - sub.received then full sub
  else ok { sub with taken := sub.taken ++ [item] }

def deliverEvents (batch : EventBatch) : Option SubscriberState :=
  match filterEvents sub.filter batch with
  | none => some { sub with lastDelivered := max sub.lastDelivered batch.appliedIndex }
  | some filtered =>
    sub.trySend (.events filtered)
      (fun sub => some { sub with lastDelivered := max sub.lastDelivered filtered.appliedIndex })
      (fun sub => some { sub with gapped := true })

def deliver (batch : EventBatch) (earliest : Nat) : Option SubscriberState :=
  if sub.gapped then
    sub.trySend (.gap earliest) (fun sub => deliverEvents { sub with gapped := false } batch) some
  else sub.deliverEvents batch

/-- A gap of the tap. -/
def tell (earliest : Nat) : Option SubscriberState :=
  sub.trySend (.gap earliest) (fun sub => some { sub with gapped := false })
    (fun sub => some { sub with gapped := true })

/-- `flush_gaps`; its check for a receiver that is gone comes first. -/
def flushGap (earliest : Nat) : Option SubscriberState :=
  if sub.closed then none
  else if sub.gapped then
    sub.trySend (.gap earliest) (fun sub => some { sub with gapped := false }) some
  else some sub

def sendProgress (head : Nat) : Option SubscriberState :=
  if sub.progress = .omit || sub.gapped then some sub
  else sub.trySend (.progress head) some some

end

end SubscriberState

/-! ## The task -/

structure Fanout where
  tap : Tap
  ring : Ring
  subscribers : List (Nat × SubscriberState)
  nextId : Nat
  head : Nat

/-- `tap` is a step of the apply task or of `recv`, with the instant and the size of a batch
    it may return; the client behind a subscription takes items, or is gone. -/
inductive Act where
  | tap (a : Action) (bytes now : Nat)
  | subscribe (filter : EventFilter) (progress : ProgressItems)
  | gapRetry
  | progress
  | take (id : Nat)
  | leave (id : Nat)

namespace Fanout

def start (tap : Tap) (recoveryIndex : Nat) : Fanout :=
  ⟨tap, .new recoveryIndex, [], 0, recoveryIndex⟩

/-- `subscribers.retain`. -/
def retain (f : Fanout) (k : SubscriberState → Option SubscriberState) : Fanout :=
  { f with subscribers := f.subscribers.filterMap fun x => (k x.2).map fun sub => (x.1, sub) }

/-- What the task does with an item from the tap. -/
def handle (f : Fanout) (bytes now : Nat) : TapItem → Fanout
  | .batch batch =>
    let f := { f with
      head := max f.head batch.appliedIndex
      ring := f.ring.push batch bytes now }
    f.retain fun sub => sub.deliver batch f.ring.earliestAvailable
  | .gap earliestReplayable =>
    let f := { f with
      head := max f.head earliestReplayable
      ring := f.ring.raiseFloor earliestReplayable }
    f.retain fun sub => sub.tell f.ring.earliestAvailable

def handleSubscribe (f : Fanout) (filter : EventFilter) (progress : ProgressItems) : Fanout :=
  let f := { f with nextId := f.nextId + 1 }
  if maxEventSubscriptions ≤ f.subscribers.length then f
  else { f with subscribers :=
    f.subscribers ++ [(f.nextId, ⟨filter, progress, f.head, false, [], 0, false, f.head⟩)] }

/-- The task looks at anything else only while it is not inside `recv`. -/
def step (f : Fanout) : Act → Fanout
  | .tap a bytes now =>
    let tap := f.tap.step a.onward
    (tap.out.drop f.tap.out.length).foldl (fun f item => f.handle bytes now item)
      { f with tap := tap }
  | .subscribe filter progress =>
    match f.tap.recvPc with
    | .idle => f.handleSubscribe filter progress
    | _ => f
  | .gapRetry =>
    match f.tap.recvPc with
    | .idle => f.retain fun sub => sub.flushGap f.ring.earliestAvailable
    | _ => f
  | .progress =>
    match f.tap.recvPc with
    | .idle => f.retain fun sub => sub.sendProgress f.head
    | _ => f
  | .take id => { f with subscribers := f.subscribers.map fun x =>
      if x.1 = id ∧ x.2.received < x.2.taken.length then
        (x.1, { x.2 with received := x.2.received + 1 }) else x }
  | .leave id => { f with subscribers := f.subscribers.map fun x =>
      if x.1 = id then (x.1, { x.2 with closed := true }) else x }

def run (f : Fanout) (acts : List Act) : Fanout := acts.foldl step f

/-- A subscribe request is served with no batch to come that it asks for and the head already
    covers. -/
def clear (f : Fanout) : Act → Bool
  | .subscribe filter _ =>
    f.tap.pending.all fun b => (filterEvents filter b).isNone || f.head < b.appliedIndex
  | _ => true

/-- Every request of a run is. -/
def clears : Fanout → List Act → Bool
  | _, [] => true
  | f, a :: rest => f.clear a && (f.step a).clears rest

end Fanout

/-! ## Above the head -/

namespace SubscriberState

variable {sub sub' : SubscriberState} {index : Option Nat} {batch : EventBatch}

/-- The queue took more, of events only what is under `index`. -/
def Grew (index : Option Nat) (sub sub' : SubscriberState) : Prop :=
  sub'.head = sub.head ∧ sub'.filter = sub.filter ∧
    ∀ b, .events b ∈ sub'.taken → .events b ∈ sub.taken ∨ index = some b.appliedIndex

theorem Grew.refl : Grew index sub sub := ⟨rfl, rfl, fun _ hb => .inl hb⟩

theorem Grew.send {item : SubscriptionItem} {ok full : SubscriberState → Option SubscriberState}
    (h : sub.trySend item ok full = some sub')
    (hitem : ∀ b, item = .events b → index = some b.appliedIndex)
    (hok : ok { sub with taken := sub.taken ++ [item] } = some sub' →
      Grew index { sub with taken := sub.taken ++ [item] } sub')
    (hfull : full sub = some sub' → Grew index sub sub') : Grew index sub sub' := by
  unfold trySend at h
  split_ifs at h
  · exact hfull h
  · obtain ⟨hhead, hfilter, htaken⟩ := hok h
    refine ⟨hhead, hfilter, fun b hb => ?_⟩
    rcases htaken b hb with hb | hb
    · rcases List.mem_append.mp hb with hb | hb
      · exact .inl hb
      · exact .inr (hitem b (List.mem_singleton.mp hb).symm)
    · exact .inr hb

/-- What its filter leaves of the batch, if anything, is queued. -/
theorem deliverEvents_grew (h : sub.deliverEvents batch = some sub') :
    Grew ((filterEvents sub.filter batch).map FilteredBatch.appliedIndex) sub sub' := by
  unfold deliverEvents at h
  split at h
  · cases h
    exact .refl
  · rename_i filtered hfiltered
    refine Grew.send h (fun b hb => ?_) (by rintro ⟨⟩; exact .refl) (by rintro ⟨⟩; exact .refl)
    cases hb
    rw [hfiltered]
    rfl

theorem deliver_grew {earliest : Nat} (h : sub.deliver batch earliest = some sub') :
    Grew ((filterEvents sub.filter batch).map FilteredBatch.appliedIndex) sub sub' := by
  unfold deliver at h
  split_ifs at h
  · refine Grew.send h (by simp) (fun hs => ?_) (by rintro ⟨⟩; exact .refl)
    obtain ⟨hhead, hfilter, htaken⟩ := deliverEvents_grew hs
    exact ⟨hhead, hfilter, htaken⟩
  · exact deliverEvents_grew h

/-- Gaps and bookmarks are no events. -/
theorem grew_none {n : Nat} (h : sub.tell n = some sub' ∨ sub.flushGap n = some sub' ∨
    sub.sendProgress n = some sub') : Grew none sub sub' := by
  rcases h with h | h | h
  · exact Grew.send h (by simp) (by rintro ⟨⟩; exact .refl) (by rintro ⟨⟩; exact .refl)
  · unfold flushGap at h
    split_ifs at h
    · exact Grew.send h (by simp) (by rintro ⟨⟩; exact .refl) (by rintro ⟨⟩; exact .refl)
    · cases h
      exact .refl
  · unfold sendProgress at h
    split_ifs at h
    · cases h
      exact .refl
    · exact Grew.send h (by simp) (by rintro ⟨⟩; exact .refl) (by rintro ⟨⟩; exact .refl)

end SubscriberState

/-- An index behind everything with `p` that is to come. -/
def Passed (p : EventBatch → Prop) (tap : Tap) (i : Nat) : Prop :=
  i ≤ tap.appliedIndex ∧ ∀ b ∈ tap.pending, p b → i < b.appliedIndex

theorem Passed.took {p : EventBatch → Prop} (h : Passed p s i) (htook : s.Took s')
    (hle : s.appliedIndex ≤ s'.appliedIndex) : Passed p s' i := by
  refine ⟨h.1.trans hle, fun b hb hp' => ?_⟩
  cases htook with
  | quiet hp | gap hp => exact h.2 b (hp ▸ hb) hp'
  | sent hp _ hnew =>
    rw [hp] at hb
    rcases List.mem_append.mp hb with hb | hb
    · exact h.2 b hb hp'
    · rw [List.mem_singleton.mp hb]
      exact h.1.trans_lt hnew
  | batch hp => exact h.2 b (hp ▸ List.mem_cons_of_mem _ hb) hp'

/-- The filter leaves something of the batch. -/
def Wanted (filter : EventFilter) (b : EventBatch) : Prop := filterEvents filter b ≠ none

/-- A subscription whose live items are above its head, those to come included. -/
def Above (tap : Tap) (sub : SubscriberState) : Prop :=
  Passed (Wanted sub.filter) tap sub.head ∧
    ∀ b, .events b ∈ sub.taken → sub.head < b.appliedIndex

theorem Above.grew (h : Above tap sub) (hgrew : SubscriberState.Grew index sub sub')
    (hindex : ∀ i, index = some i → sub.head < i) : Above tap sub' := by
  obtain ⟨hhead, hfilter, htaken⟩ := hgrew
  unfold Above
  rw [hhead, hfilter]
  exact ⟨h.1, fun b hb => (htaken b hb).elim (h.2 b) (hindex _)⟩

namespace Fanout

variable {ok : Prop} {f : Fanout} {capacity recoveryIndex : Nat}

/-- `ok` says that every request so far was clear. -/
structure Inv (ok : Prop) (f : Fanout) : Prop where
  tap : f.tap.Lined
  ring : f.ring.Ordered
  entries : ∀ e ∈ f.ring.entries, Passed (fun _ => True) f.tap e.index
  head : f.head ≤ f.tap.appliedIndex
  subs : ok → ∀ x ∈ f.subscribers, Above f.tap x.2

section

variable (h : f.Inv ok)

include h

theorem Inv.retain {k : SubscriberState → Option SubscriberState}
    (hk : ok → ∀ x ∈ f.subscribers, ∀ sub, k x.2 = some sub → Above f.tap sub) :
    (f.retain k).Inv ok := by
  refine ⟨h.tap, h.ring, h.entries, h.head, fun hok x hx => ?_⟩
  obtain ⟨y, hy, hkept⟩ := List.mem_filterMap.mp hx
  obtain ⟨sub, hsub, rfl⟩ := Option.map_eq_some_iff.mp hkept
  exact hk hok y hy sub hsub

theorem Inv.handle_batch {b : EventBatch} (hpast : Passed (fun _ => True) f.tap b.appliedIndex)
    (hentries : ∀ e ∈ f.ring.entries, e.index < b.appliedIndex)
    (hsubs : ok → ∀ x ∈ f.subscribers, Wanted x.2.filter b → x.2.head < b.appliedIndex)
    (bytes now : Nat) : (f.handle bytes now (.batch b)).Inv ok := by
  have hsuffix := f.ring.push_suffix b bytes now
  have hlast : ∀ e ∈ [(⟨now, b, bytes⟩ : RingEntry)], e.index = b.appliedIndex :=
    List.forall_mem_singleton.mpr rfl
  have hpushed : Inv ok { f with
      head := max f.head b.appliedIndex
      ring := f.ring.push b bytes now } := by
    refine ⟨h.tap, ?_, fun e he => ?_, max_le h.head hpast.1, h.subs⟩
    · refine List.Pairwise.sublist hsuffix.sublist (List.pairwise_append.mpr
        ⟨h.ring, List.pairwise_singleton _ _, fun e he e' he' => ?_⟩)
      rw [hlast e' he']
      exact hentries e he
    · rcases List.mem_append.mp (hsuffix.subset he) with he | he
      · exact h.entries e he
      · rw [hlast e he]
        exact hpast
  unfold handle
  refine hpushed.retain fun hok x hx sub hsub => ?_
  refine (h.subs hok x hx).grew (SubscriberState.deliver_grew hsub) fun i hi => ?_
  obtain ⟨filtered, hfiltered, rfl⟩ := Option.map_eq_some_iff.mp hi
  rw [filterEvents_index hfiltered]
  exact hsubs hok x hx (by simp [Wanted, hfiltered])

theorem Inv.handle_gap {i : Nat} (hi : i ≤ f.tap.appliedIndex) (bytes now : Nat) :
    (f.handle bytes now (.gap i)).Inv ok := by
  have hraised : Inv ok { f with head := max f.head i, ring := f.ring.raiseFloor i } :=
    ⟨h.tap, h.ring, h.entries, max_le h.head hi, h.subs⟩
  unfold handle
  refine hraised.retain fun hok x hx sub hsub => ?_
  exact (h.subs hok x hx).grew (SubscriberState.grew_none (.inl hsub)) (by simp)

theorem Inv.tap_step (a : Action) (bytes now : Nat) : (f.step (.tap a bytes now)).Inv ok := by
  obtain ⟨htook, hle, hlined⟩ := h.tap.step a
  have hpassed : ∀ {p i}, Passed p f.tap i → Passed p (f.tap.step a.onward) i :=
    fun hi => hi.took htook hle
  have hmoved : Inv ok { f with tap := f.tap.step a.onward } :=
    ⟨hlined, h.ring, fun e he => hpassed (h.entries e he), h.head.trans hle,
      fun hok x hx => ⟨hpassed (h.subs hok x hx).1, (h.subs hok x hx).2⟩⟩
  simp only [Fanout.step]
  cases htook with
  | quiet _ ho | sent _ ho =>
    rw [ho, List.drop_length]
    exact hmoved
  | gap _ ho hi =>
    rw [ho, List.drop_left]
    exact hmoved.handle_gap (hi.trans hle) bytes now
  | @batch b hp ho =>
    have hb : b ∈ f.tap.pending := hp ▸ List.mem_cons_self
    have hsorted := h.tap.sorted
    rw [hp] at hsorted
    rw [ho, List.drop_left]
    -- what was behind the first batch to come is behind it now that it came
    exact hmoved.handle_batch ⟨(h.tap.applied b hb).trans hle,
        fun c hc _ => (List.pairwise_cons.mp hsorted).1 c hc⟩
      (fun e he => (h.entries e he).2 b hb trivial) (fun hok x hx => (h.subs hok x hx).1.2 b hb)
      bytes now

theorem Inv.step {a : Act} (hclear : ok → f.clear a = true) : (f.step a).Inv ok := by
  cases a with
  | tap a bytes now => exact h.tap_step a bytes now
  | subscribe filter progress =>
    simp only [Fanout.step, handleSubscribe]
    split
    · split_ifs
      · exact ⟨h.tap, h.ring, h.entries, h.head, h.subs⟩
      · refine ⟨h.tap, h.ring, h.entries, h.head, fun hok => List.forall_mem_append.mpr
          ⟨h.subs hok, List.forall_mem_singleton.mpr ⟨⟨h.head, ?_⟩, by simp⟩⟩⟩
        intro b hb hwanted
        have hall := List.all_eq_true.mp (hclear hok) b hb
        rw [Bool.or_eq_true, Option.isNone_iff_eq_none, decide_eq_true_eq] at hall
        exact hall.resolve_left hwanted
    · exact h
  | gapRetry =>
    simp only [Fanout.step]
    split
    · exact h.retain fun hok x hx sub hsub =>
        (h.subs hok x hx).grew (SubscriberState.grew_none (.inr (.inl hsub))) (by simp)
    · exact h
  | progress =>
    simp only [Fanout.step]
    split
    · exact h.retain fun hok x hx sub hsub =>
        (h.subs hok x hx).grew (SubscriberState.grew_none (.inr (.inr hsub))) (by simp)
    · exact h
  | take id | leave id =>
    refine ⟨h.tap, h.ring, h.entries, h.head, fun hok x hx => ?_⟩
    obtain ⟨y, hy, rfl⟩ := List.mem_map.mp hx
    have hold := h.subs hok y hy
    split_ifs <;> exact hold

theorem Inv.run {acts : List Act} (hclear : ok → f.clears acts = true) : (f.run acts).Inv ok := by
  induction acts generalizing f with
  | nil => exact h
  | cons a rest ih =>
    have hboth := fun hok => Bool.and_eq_true_iff.mp (hclear hok)
    exact ih (h.step fun hok => (hboth hok).1) fun hok => (hboth hok).2

end

/-- The tap when the task starts. -/
def boot (capacity : Nat) (acts : List Action) : Tap :=
  (acts.map Action.onward).foldl Tap.step (.channel capacity)

theorem boot_lined (capacity : Nat) (acts : List Action) : (boot capacity acts).Lined := by
  have hstart : (Tap.channel capacity).Lined :=
    ⟨Tap.channel_inv capacity, .nil, by simp [Tap.pending, Tap.channel], le_rfl,
      by simp [Tap.channel]⟩
  unfold boot
  rw [List.foldl_map]
  exact List.foldlRecOn acts _ hstart fun s h a _ => (h.step a).2.2

theorem start_inv {acts : List Action} (hrec : recoveryIndex ≤ (boot capacity acts).appliedIndex) :
    (start (boot capacity acts) recoveryIndex).Inv ok :=
  ⟨boot_lined capacity acts, .nil, by simp [start, Ring.new], hrec, by simp [start]⟩

/-- In every run the entries of the ring stand in the order of the log. -/
theorem run_ordered {before : List Action}
    (hrec : recoveryIndex ≤ (boot capacity before).appliedIndex) (acts : List Act) :
    ((start (boot capacity before) recoveryIndex).run acts).ring.Ordered :=
  ((start_inv hrec).run False.elim).ring

/-- So in every run the windows of the ring, from page to page, serve all that matches. -/
theorem run_windows {before : List Action} {limit budget : Nat}
    (hrec : recoveryIndex ≤ (boot capacity before).appliedIndex) (acts : List Act)
    (filter : EventFilter) (after : Option Cursor) (hl : 0 < limit) (hb : 0 < budget) :
    let r := ((start (boot capacity before) recoveryIndex).run acts).ring
    ∃ n, Lib.follow (fun c => ((r.window filter c limit budget).events,
        (r.window filter c limit budget).next)) n after =
      some ((Lib.above (fun x => x.2.id) after (walk r.entries)).filterMap (serve filter)) :=
  (run_ordered hrec acts).follow_window filter after hl hb

end Fanout

namespace Sample

def told : Action := .emit 0 Coppice.Core.Timestamp.unixEpoch [.policyUpdated] []

/-- The apply task emits a batch under the next index. -/
def emits : List Act := [told, .send, .send, .send].map fun a => .tap a 0 0

/-- The task polls `recv` up to the end. -/
def receives : List Act := List.replicate 3 (.tap .recv 0 0)

end Sample

/-- As long as every subscribe request is served with no batch to come that it asks for and the
    head already covers, every batch on a subscription's live queue is above the head it was
    opened with. -/
theorem live_above_head {capacity recoveryIndex : Nat} {before : List Action} {acts : List Act}
    (hrec : recoveryIndex ≤ (Fanout.boot capacity before).appliedIndex)
    (hclear : (Fanout.start (Fanout.boot capacity before) recoveryIndex).clears acts = true) :
    ∀ x ∈ ((Fanout.start (Fanout.boot capacity before) recoveryIndex).run acts).subscribers,
      ∀ b, .events b ∈ x.2.taken → x.2.head < b.appliedIndex :=
  fun x hx => (((Fanout.start_inv hrec).run fun _ => hclear).subs trivial x hx).2

/-- One batch before the task starts, and one after a subscription is open. -/
def Sample.opened : Fanout := (Fanout.start (Fanout.boot 8 [told, .send, .send, .send]) 1).run
  (receives ++ [.subscribe .all .send] ++ emits ++ receives)

open Sample

theorem live_above_head_opened : opened.subscribers.length = 1 ∧
    ∀ x ∈ opened.subscribers, ∀ b, .events b ∈ x.2.taken → x.2.head < b.appliedIndex :=
  ⟨by decide, live_above_head (by decide) (by decide)⟩

/-- The second of three batches finds the channel full.  The subscription is opened after the
    gap was told, at head 3, and then it is handed batch 3. -/
theorem subscribed_behind_gap :
    ∃ x ∈ ((Fanout.start (Fanout.boot 1 []) 0).run (emits ++ emits ++
        receives ++ emits ++ receives ++ [.subscribe .all .send] ++
        receives)).subscribers,
      ∃ b, .events b ∈ x.2.taken ∧ x.2.head = 3 ∧ b.appliedIndex = 3 := by
  exact ⟨_, List.mem_singleton.mpr rfl, _, List.mem_singleton.mpr rfl, by decide, by decide⟩

end Coppice.Coordinator
