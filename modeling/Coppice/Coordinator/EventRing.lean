/-
  Coppice.Coordinator.EventRing

  The filters and the reconnection ring of `coppice-
  coordinator/src/tasks/event_fanout.rs`.  Following either of its paged reads from
  page to page serves exactly the matching events above the first cursor.
-/

import Coppice.Consensus.EventTap
import Coppice.Lib.Paging
import Mathlib.Data.List.TakeWhile

namespace Coppice.Coordinator

open Lib Coppice.Core State Consensus List

/-! ## Filters -/

/-- A compiled selector: whether it matches a job with this scope. -/
abbrev JobSelector := JobId → JobScope → Bool

inductive EventFilter where
  | all
  | job (job : JobId)
  | node (node : NodeId)
  | jobs (selector : JobSelector)

/-- The keys of a job after the batch's command. -/
def scope (batch : EventBatch) (job : JobId) : Option JobScope :=
  (batch.scopes.find? fun x => x.1 = job).map Prod.snd

/-- The keys before the command that an event carries for a job, which has the keys `after`
    now. -/
def carried (after : Option JobScope) (job : JobId) : Event → Option JobScope
  | .jobEvicted j scope => if j = job then some scope else none
  | .jobMetadataUpdated j previous =>
    if j = job then after.map fun scope => { scope with metadata := previous } else none
  | _ => none

/-- The job matched before or after the batch's command. -/
def jobAdmitted (selector : JobSelector) (batch : EventBatch) (job : JobId) : Bool :=
  let after := scope batch job
  after.any (selector job) ||
    batch.events.any fun event => (carried after job event).any (selector job)

/-- The verdicts of a selector are a function of the batch, so their memo is left out. -/
def eventMatches (filter : EventFilter) (batch : EventBatch) (event : Event) : Bool :=
  match filter with
  | .all => true
  | .job job => event.job = some job
  | .node node =>
    match event with
    | .stopRequested n _ _ | .preemptRequested _ _ _ n _ _ | .attemptNotified _ _ n
    | .nodeEpochBumped n _ | .attemptStateChanged _ _ n _ | .allocationFunded _ _ n => n = node
    | _ => false
  | .jobs selector =>
    match event.job with
    | some job => jobAdmitted selector batch job
    | none => false

structure OrdinalEvent where
  ordinal : Nat
  event : Event

structure FilteredBatch where
  appliedIndex : Nat
  at_ : Timestamp
  events : List OrdinalEvent

/-- An ordinal is the position in the whole batch. -/
def filterEvents (filter : EventFilter) (batch : EventBatch) : Option FilteredBatch :=
  let events := (batch.events.zipIdx.filter fun x => eventMatches filter batch x.1).map fun x =>
    (⟨x.2, x.1⟩ : OrdinalEvent)
  if events.isEmpty then none else some ⟨batch.appliedIndex, batch.at_, events⟩

theorem filterEvents_index {filter : EventFilter} {batch : EventBatch} {filtered : FilteredBatch}
    (h : filterEvents filter batch = some filtered) :
    filtered.appliedIndex = batch.appliedIndex := by
  simp only [filterEvents] at h
  split_ifs at h
  cases h
  rfl

/-! ## The ring -/

def fanoutRingMaxEvents : Nat := 1000000

def fanoutRingMaxBytes : Nat := 256 * 1024 * 1024

/-- In nanoseconds, as the instants of the entries. -/
def fanoutRingMaxAge : Nat := 3600 * 10 ^ 9

structure RingEntry where
  seenAt : Nat
  batch : EventBatch
  bytes : Nat

def RingEntry.index (e : RingEntry) : Nat := e.batch.appliedIndex

structure Ring where
  entries : List RingEntry
  eventCount : Nat
  bytes : Nat
  floor : Nat

namespace Ring

def new (floor : Nat) : Ring := ⟨[], 0, 0, floor⟩

variable (r : Ring)

def raiseFloor (index : Nat) : Ring := { r with floor := max r.floor index }

def evictOldest : Ring :=
  match r.entries with
  | [] => r
  | e :: rest =>
    { r with
      entries := rest
      eventCount := r.eventCount - e.batch.events.length
      bytes := r.bytes - e.bytes }.raiseFloor e.index

/-- `while over && evict_oldest()`; every round takes an entry, so their number is fuel
    enough. -/
def evictWhile (full : Ring → Bool) : Nat → Ring → Ring
  | 0, r => r
  | n + 1, r => if full r then evictWhile full n r.evictOldest else r

def overfull : Bool := r.eventCount > fanoutRingMaxEvents || r.bytes > fanoutRingMaxBytes

def evict (now : Nat) : Ring :=
  let r := r.evictWhile overfull r.entries.length
  if fanoutRingMaxAge ≤ now then
    r.evictWhile (fun r => r.entries.head?.any fun e => e.seenAt < now - fanoutRingMaxAge)
      r.entries.length
  else r

def pushBack (e : RingEntry) : Ring :=
  { r with
    entries := r.entries ++ [e]
    eventCount := r.eventCount + e.batch.events.length
    bytes := r.bytes + e.bytes }

/-- `bytes` is the rough size of the batch in memory. -/
def push (batch : EventBatch) (bytes now : Nat) : Ring :=
  (r.pushBack ⟨now, batch, bytes⟩).evict now

def earliestAvailable : Nat :=
  max ((r.entries.head?.map RingEntry.index).getD r.floor) r.floor

/-- The entries stand in the order of the log. -/
def Ordered : Prop := r.entries.Pairwise fun x y => x.index < y.index

theorem evictWhile_suffix (full : Ring → Bool) (n : Nat) (r : Ring) :
    (r.evictWhile full n).entries <:+ r.entries := by
  induction n generalizing r with
  | zero => exact suffix_refl _
  | succ n ih =>
    have hone : r.evictOldest.entries <:+ r.entries := by
      unfold evictOldest
      split
      · exact suffix_refl _
      · rename_i e rest hentries
        exact hentries ▸ suffix_cons e rest
    unfold evictWhile
    split_ifs
    · exact (ih r.evictOldest).trans hone
    · exact suffix_refl _

/-- A push adds the batch at the end and takes entries from the front. -/
theorem push_suffix (batch : EventBatch) (bytes now : Nat) :
    (r.push batch bytes now).entries <:+ r.entries ++ [⟨now, batch, bytes⟩] := by
  have hfull := evictWhile_suffix overfull (r.pushBack ⟨now, batch, bytes⟩).entries.length
    (r.pushBack ⟨now, batch, bytes⟩)
  unfold push evict
  split_ifs
  · exact (evictWhile_suffix _ _ _).trans hfull
  · exact hfull

end Ring

/-! ## The two reads -/

/-- A position in the stream: an applied index and an ordinal. -/
abbrev Cursor := Nat ×ₗ Nat

structure StampedEvent where
  index : Nat
  ordinal : Nat
  at_ : Timestamp
  event : Event

def StampedEvent.id (e : StampedEvent) : Cursor := toLex (e.index, e.ordinal)

structure EventWindow where
  floorIndex : Nat
  events : List StampedEvent
  next : Option Cursor

structure CatchUpPage where
  batches : List FilteredBatch
  next : Option Nat
  floor : Nat
  earliestAvailable : Nat

/-- The events of a batch, each with the batch that decides whether it matches. -/
def stamp (batch : EventBatch) (x : Event × Nat) : EventBatch × StampedEvent :=
  (batch, ⟨batch.appliedIndex, x.2, batch.at_, x.1⟩)

/-- The events of the entries, in the order of the nested loops. -/
def walk (entries : List RingEntry) : List (EventBatch × StampedEvent) :=
  entries.flatMap fun e => e.batch.events.zipIdx.map (stamp e.batch)

/-- The event as a window serves it. -/
def serve (filter : EventFilter) (x : EventBatch × StampedEvent) : Option StampedEvent :=
  if eventMatches filter x.1 x.2.event then some x.2 else none

/-- The loop of `window`. -/
def scan (filter : EventFilter) (after : Option Cursor) (limit budget : Nat) :
    List (EventBatch × StampedEvent) → List StampedEvent → Nat → Option Cursor →
      List StampedEvent × Option Cursor
  | [], events, _, _ => (events, none)
  | (batch, x) :: rest, events, examined, last =>
    if after.any (x.id ≤ ·) then scan filter after limit budget rest events examined last
    else if events.length = limit ∨ examined = budget then (events, last)
    else scan filter after limit budget rest
      (events ++ (serve filter (batch, x)).toList) (examined + 1) (some x.id)

/-- The loop of `catch_up`. -/
def catchUpFrom (filter : EventFilter) (upTo budget : Nat) :
    List RingEntry → List FilteredBatch → Nat → Option Nat → List FilteredBatch × Option Nat
  | [], batches, _, _ => (batches, none)
  | e :: rest, batches, examined, last =>
    if e.index > upTo then (batches, none)
    else if examined ≥ budget then (batches, last)
    else catchUpFrom filter upTo budget rest
      (batches ++ (filterEvents filter e.batch).toList) (examined + e.batch.events.length)
      (some e.index)

namespace Ring

/-- The entries from the cursor's batch on. -/
def start (r : Ring) : Option Cursor → List RingEntry
  | some c => r.entries.dropWhile fun e => e.index < (ofLex c).1
  | none => r.entries

def window (r : Ring) (filter : EventFilter) (after : Option Cursor) (limit budget : Nat) :
    EventWindow :=
  let (events, next) := scan filter after limit budget (walk (r.start after)) [] 0 none
  ⟨r.floor, events, next⟩

def catchUp (r : Ring) (filter : EventFilter) (after upTo budget : Nat) : CatchUpPage :=
  let (batches, next) := catchUpFrom filter upTo budget
    (r.entries.dropWhile fun e => e.index ≤ after) [] 0 none
  ⟨batches, next, r.floor, r.earliestAvailable⟩

end Ring

theorem scan_page (filter : EventFilter) (after : Option Cursor) (limit budget : Nat)
    (xs : List (EventBatch × StampedEvent)) (events : List StampedEvent) (examined : Nat)
    (last : Option Cursor) (hfirst : last = none → events.length < limit ∧ examined < budget) :
    ∃ out next, scan filter after limit budget xs events examined last = (events ++ out, next) ∧
      PageOf (fun x => x.2.id) (serve filter) (above (fun x => x.2.id) after xs) last
        (out, next) := by
  induction xs generalizing events examined last with
  | nil => exact ⟨[], none, by simp [scan], .done⟩
  | cons x xs ih =>
    obtain ⟨batch, x⟩ := x
    have hskip : after.any (x.id ≤ ·) = !after.all (· < x.id) := by
      cases after <;> simp [← not_le]
    simp only [scan, hskip]
    cases hpast : after.all (· < x.id) with
    | false =>
      rw [above, filter_cons_of_neg (by simp [hpast])]
      exact ih events examined last hfirst
    | true =>
      rw [above, filter_cons_of_pos (by exact hpast), Bool.not_true, if_neg Bool.false_ne_true]
      split_ifs with hstop
      · refine ⟨[], last, by simp, .stop fun hnone => ?_⟩
        have := hfirst hnone
        omega
      · obtain ⟨out, next, hscan, hpage⟩ := ih (events ++ (serve filter (batch, x)).toList)
          (examined + 1) (some x.id) (by simp)
        exact ⟨_, next, by rw [hscan, append_assoc], hpage.take⟩

theorem catchUpFrom_page (filter : EventFilter) (upTo budget : Nat) {xs : List RingEntry}
    (hsorted : xs.Pairwise fun x y => x.index < y.index) (batches : List FilteredBatch)
    (examined : Nat) (last : Option Nat) (hfirst : last = none → examined < budget) :
    ∃ out next, catchUpFrom filter upTo budget xs batches examined last = (batches ++ out, next) ∧
      PageOf RingEntry.index (fun e => filterEvents filter e.batch)
        (xs.filter fun e => e.index ≤ upTo) last (out, next) := by
  induction xs generalizing batches examined last with
  | nil => exact ⟨[], none, by simp [catchUpFrom], .done⟩
  | cons e xs ih =>
    obtain ⟨he, hxs⟩ := pairwise_cons.mp hsorted
    simp only [catchUpFrom]
    split_ifs with hend hstop
    · -- everything behind an entry above the bound is above it too
      have hnone : (e :: xs).filter (fun e => e.index ≤ upTo) = [] := by
        refine filter_eq_nil_iff.mpr fun y hy => ?_
        rcases mem_cons.mp hy with rfl | hy
        · simpa using hend
        · simpa using Nat.lt_trans hend (he y hy)
      exact ⟨[], none, by simp, hnone ▸ .done⟩
    · refine ⟨[], last, by simp, .stop fun hnone => ?_⟩
      have := hfirst hnone
      omega
    · obtain ⟨out, next, hscan, hpage⟩ := ih hxs
        (batches ++ (filterEvents filter e.batch).toList) (examined + e.batch.events.length)
        (some e.index) (by simp)
      rw [filter_cons_of_pos (by simpa using hend)]
      exact ⟨_, next, by rw [hscan, append_assoc], hpage.take⟩

/-- A walk goes up in the stream. -/
theorem Ring.Ordered.walk_sorted {r : Ring} (h : r.Ordered) :
    (walk r.entries).Pairwise fun x y => x.2.id < y.2.id := by
  have hbatch : ∀ (batch : EventBatch) (events : List Event) k,
      ((events.zipIdx k).map (stamp batch)).Pairwise fun x y => x.2.id < y.2.id := by
    intro batch events
    induction events with
    | nil => exact fun _ => .nil
    | cons ev rest ih =>
      intro k
      refine pairwise_cons.mpr ⟨fun y hy => ?_, ih (k + 1)⟩
      obtain ⟨⟨ev', i⟩, hmem, rfl⟩ := mem_map.mp hy
      have hlow : k + 1 ≤ i := (mem_zipIdx hmem).1
      exact Prod.Lex.right _ hlow
  refine pairwise_flatMap.mpr ⟨fun e _ => hbatch e.batch e.batch.events 0, ?_⟩
  refine h.imp fun {e e'} hlt x hx y hy => ?_
  obtain ⟨p, -, rfl⟩ := mem_map.mp hx
  obtain ⟨p', -, rfl⟩ := mem_map.mp hy
  exact Prod.Lex.left _ _ hlt

/-- The entries a window skips have no event above its cursor. -/
theorem Ring.above_start (r : Ring) (after : Option Cursor) :
    above (fun x => x.2.id) after (walk (r.start after)) =
      above (fun x => x.2.id) after (walk r.entries) := by
  cases after with
  | none => rfl
  | some c =>
    have hsplit : walk r.entries = walk (r.entries.takeWhile fun e => e.index < (ofLex c).1) ++
        walk (r.start (some c)) := by
      unfold walk start
      rw [← flatMap_append, takeWhile_append_dropWhile]
    have hnone : above (fun x => x.2.id) (some c)
        (walk (r.entries.takeWhile fun e => e.index < (ofLex c).1)) = [] := by
      refine filter_eq_nil_iff.mpr fun x hx => ?_
      obtain ⟨e, he, hmem⟩ := mem_flatMap.mp hx
      obtain ⟨p, -, rfl⟩ := mem_map.mp hmem
      have hlt : e.index < (ofLex c).1 := by simpa using mem_takeWhile_imp he
      have hbelow : (stamp e.batch p).2.id < c := Prod.Lex.left _ _ hlt
      simpa using hbelow.le
    unfold above at hnone ⊢
    rw [hsplit, filter_append, hnone, nil_append]

/-- Following `window` from page to page ends, with the matching events above the cursor. -/
theorem Ring.Ordered.follow_window {r : Ring} (h : r.Ordered) (filter : EventFilter)
    (after : Option Cursor) {limit budget : Nat} (hl : 0 < limit) (hb : 0 < budget) : ∃ n,
    follow (fun c => ((r.window filter c limit budget).events,
      (r.window filter c limit budget).next)) n after =
    some ((above (fun x => x.2.id) after (walk r.entries)).filterMap (serve filter)) := by
  refine exists_follow h.walk_sorted fun c _ => ?_
  obtain ⟨out, next, hscan, hpage⟩ :=
    scan_page filter c limit budget (walk (r.start c)) [] 0 none fun _ => ⟨hl, hb⟩
  rw [r.above_start c] at hpage
  simp only [window, hscan]
  exact hpage

/-- Pages of a ring in order.  Positions in the stream go up, so that a list of events above a
    cursor has each once and in order.  Following `window` from page to page ends and serves the
    matching events above the cursor, following `catchUp` the matching batches above the cursor
    up to its bound, each whole. -/
theorem pages_exact (r : Ring) (h : r.Ordered) (filter : EventFilter) :
    (walk r.entries).Pairwise (fun x y => x.2.id < y.2.id) ∧
    (∀ after limit budget, 0 < limit → 0 < budget → ∃ n,
      follow (fun c => ((r.window filter c limit budget).events,
        (r.window filter c limit budget).next)) n after =
      some ((above (fun x => x.2.id) after (walk r.entries)).filterMap (serve filter))) ∧
    ∀ after upTo budget, 0 < budget → ∃ n,
      follow (fun c => ((r.catchUp filter (c.getD after) upTo budget).batches,
        (r.catchUp filter (c.getD after) upTo budget).next)) n (some after) =
      some ((above RingEntry.index (some after)
        (r.entries.filter fun e => e.index ≤ upTo)).filterMap fun e =>
          filterEvents filter e.batch) := by
  refine ⟨h.walk_sorted, fun after _ _ hl hb => h.follow_window filter after hl hb,
    fun after upTo budget hb => ?_⟩
  refine exists_follow (h.filter _) fun c hc => ?_
  obtain ⟨k, rfl⟩ : ∃ k, c = some k := by
    rcases hc with rfl | hc
    · exact ⟨_, rfl⟩
    · exact Option.isSome_iff_exists.mp hc
  have hskip := dropWhile_eq_above RingEntry.index k h
  obtain ⟨out, next, hscan, hpage⟩ := catchUpFrom_page filter upTo budget
    (h.sublist (dropWhile_sublist fun e => decide (e.index ≤ k))) [] 0 none fun _ => hb
  have hboth : above RingEntry.index (some k) (r.entries.filter fun e => e.index ≤ upTo) =
      (above RingEntry.index (some k) r.entries).filter fun e => e.index ≤ upTo := by
    unfold above
    rw [filter_filter, filter_filter]
    exact filter_congr fun _ _ => Bool.and_comm _ _
  rw [hskip, ← hboth] at hpage
  simp only [Ring.catchUp, Option.getD_some, hscan]
  exact hpage

/-- Two batches, one of them with two events. -/
def Sample.ring : Ring :=
  ((Ring.new 0).push ⟨1, .unixEpoch, [.policyUpdated, .authorizationUpdated], []⟩ 0 0).push
    ⟨2, .unixEpoch, [.policyUpdated], []⟩ 0 0

open Sample

theorem pages_exact_ring : (walk ring.entries).length = 3 ∧ ∃ n,
    follow (fun c => ((ring.window .all c 1 1).events, (ring.window .all c 1 1).next)) n none =
    some ((above (fun x => x.2.id) none (walk ring.entries)).filterMap (serve .all)) :=
  ⟨by decide, (pages_exact ring (by unfold Ring.Ordered; decide) .all).2.1 none 1 1
    (by decide) (by decide)⟩

end Coppice.Coordinator
