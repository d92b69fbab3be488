/-
  Coppice.Scheduler.Projection

  The projection of accrual bounds (`coppice-scheduler/src/projection.rs`):
  guaranteed releases per node, and the sweep that pledges them to the node's
  accrual queue in commit order.
-/

import Coppice.State.Fill
import Coppice.State.Reachable

namespace Coppice.Scheduler

open Lib Coppice.Core State List OrdMap

/-- At `at_` the allocation with this `seq` returns `freed` to its node. -/
structure ReleaseEvent where
  at_ : Timestamp
  seq : Nat
  freed : Resources
  deriving DecidableEq

/-- Ascending time, ties by `seq`. -/
def ReleaseEvent.before (a b : ReleaseEvent) : Prop := a.at_ < b.at_ ∨ a.at_ = b.at_ ∧ a.seq ≤ b.seq

instance : DecidableRel ReleaseEvent.before := fun _ _ => instDecidableOr

/-- One allocation's release, when it is guaranteed. -/
def releaseEvent (s : StateMachine) (rec_ : AllocationRecord) : Option ReleaseEvent :=
  (s.guaranteedRelease rec_).map fun release => ⟨release, rec_.seq, rec_.allocation.funded⟩

def collectReleaseEvents (s : StateMachine) : OrdMap NodeId (List ReleaseEvent) :=
  groupBy (fun rec_ => rec_.allocation.node) (releaseEvent s) s.allocations.values

def sortReleaseEvents (events : List ReleaseEvent) : List ReleaseEvent :=
  events.insertionSort ReleaseEvent.before

/-- Pledge `pool` to the needs in order; a need met here is ready at `at_`. -/
def sweepEvent (at_ : Timestamp) :
    Resources → List (Resources × Option Timestamp) →
      Resources × List (Resources × Option Timestamp)
  | pool, [] => (pool, [])
  | pool, (r, rd) :: rest =>
    if pool.isZero then (pool, (r, rd) :: rest)
    else if r.isZero then
      let (pool, rest) := sweepEvent at_ pool rest
      (pool, (r, rd) :: rest)
    else
      let pledge := pool.componentMin r
      let r := r.saturatingSub pledge
      let rd := if r.isZero ∧ rd.isNone then some at_ else rd
      let (pool, rest) := sweepEvent at_ (pool.saturatingSub pledge) rest
      (pool, (r, rd) :: rest)

/-- The sweep over the events that remain. -/
def sweepFrom :
    List ReleaseEvent → Resources → List (Resources × Option Timestamp) → List (Option Timestamp)
  | [], _, slots => slots.map Prod.snd
  | ev :: events, pool, slots =>
    let (pool, slots) := sweepEvent ev.at_ (pool.saturatingAdd ev.freed) slots
    sweepFrom events pool slots

/-- When each need is first met by the releases; `none` if they run out. -/
def sweepProjectedReady (events : List ReleaseEvent) (remaining : List Resources) :
    List (Option Timestamp) :=
  sweepFrom events .zero (remaining.map fun r => (r, none))

section

variable (s : StateMachine)

/-- The queue of one node with the needs of its members. -/
def queueNeeds (allocs : List AllocationId) : List (AllocationId × Resources) :=
  allocs.filterMap fun id => (s.allocations.get? id).map fun rec_ => (id, rec_.need)

/-- The accrual queue grouped per node, each group in commit order. -/
def accrualQueues : OrdMap NodeId (List AllocationId) :=
  groupBy (fun e => (ofLex e.1).1) (fun e => some e.2) s.accrualQueue.entries

/-- The bounds of one node's queue. -/
def projectNode (events : OrdMap NodeId (List ReleaseEvent)) (node : NodeId)
    (allocs : List AllocationId) : List (AllocationId × Option Timestamp) :=
  let evs := sortReleaseEvents ((events.get? node).getD [])
  let queue := queueNeeds s allocs
  (queue.map Prod.fst).zip (sweepProjectedReady evs (queue.map Prod.snd))

/-- The projected full funding time of every accruing allocation. -/
def projectedStarts : OrdMap AllocationId (Option Timestamp) :=
  let events := collectReleaseEvents s
  (accrualQueues s).entries.foldl
    (fun out q => (projectNode s events q.1 q.2).foldl (fun out e => out.insert e.1 e.2) out) .empty

/-! ## Lookups -/

/-- The guaranteed releases of one node. -/
def releasesOn (node : NodeId) : List ReleaseEvent :=
  (s.allocations.values.filter fun r => r.allocation.node = node).filterMap (releaseEvent s)

/-- The needs of a node's accrual queue, in commit order. -/
def queuedNeeds (node : NodeId) : List Resources :=
  (s.nodeQueue node).map fun e => s.needAt e.2

theorem collectReleaseEvents_getD (node : NodeId) :
    ((collectReleaseEvents s).get? node).getD [] = releasesOn s node := by
  rw [collectReleaseEvents, getD_groupBy]
  rfl

theorem accrualQueues_getD (node : NodeId) :
    ((accrualQueues s).get? node).getD [] = (s.nodeQueue node).map Prod.snd := by
  rw [accrualQueues, getD_groupBy]
  simp [StateMachine.nodeQueue, Function.comp_def]

end

theorem length_sweepEvent (at_ : Timestamp) (pool : Resources)
    (slots : List (Resources × Option Timestamp)) :
    (sweepEvent at_ pool slots).2.length = slots.length := by
  induction slots generalizing pool with
  | nil => rfl
  | cons slot rest ih =>
    obtain ⟨r, rd⟩ := slot
    simp only [sweepEvent]
    split_ifs <;> simp [ih]

@[simp] theorem length_sweepProjectedReady (events : List ReleaseEvent) (ws : List Resources) :
    (sweepProjectedReady events ws).length = ws.length := by
  have key : ∀ (events : List ReleaseEvent) (pool : Resources)
      (slots : List (Resources × Option Timestamp)),
      (sweepFrom events pool slots).length = slots.length := by
    intro events
    induction events with
    | nil => simp [sweepFrom]
    | cons ev events ih =>
      intro pool slots
      show (sweepFrom events _ _).length = _
      rw [ih, length_sweepEvent]
  rw [sweepProjectedReady, key, length_map]

variable {s : StateMachine} {newly : List AllocationId}

/-- Every queued allocation has a record, so the queue is swept as it is. -/
theorem queueNeeds_nodeQueue (h : Linked s newly) (node : NodeId) :
    queueNeeds s ((s.nodeQueue node).map Prod.snd) =
      (s.nodeQueue node).map fun e => (e.2, s.needAt e.2) := by
  have hq := (h.queued node).accruing
  revert hq
  generalize s.nodeQueue node = l
  intro hq
  induction l with
  | nil => rfl
  | cons e rest ih =>
    obtain ⟨r, hr, -⟩ := hq e (by simp)
    have ih := ih fun e' he' => hq e' (mem_cons_of_mem e he')
    unfold queueNeeds at ih ⊢
    simp only [map_cons, filterMap_cons, hr, Option.map_some, StateMachine.needAt, Option.getD_some]
    rw [ih]
    rfl

theorem projectNode_queue (h : Linked s newly) (node : NodeId) :
    projectNode s (collectReleaseEvents s) node ((s.nodeQueue node).map Prod.snd) =
      ((s.nodeQueue node).map Prod.snd).zip
        (sweepProjectedReady (sortReleaseEvents (releasesOn s node)) (queuedNeeds s node)) := by
  unfold projectNode
  simp only [collectReleaseEvents_getD, queueNeeds_nodeQueue h, map_map, Function.comp_def]
  rfl

/-- The bound of a queued allocation is the sweep's answer at its position. -/
theorem projectedStarts_get? (h : Linked s newly) {node : NodeId} {i : Nat} {e : Nat × AllocationId}
    (hi : (s.nodeQueue node)[i]? = some e) :
    (projectedStarts s).get? e.2 =
      (sweepProjectedReady (sortReleaseEvents (releasesOn s node)) (queuedNeeds s node))[i]? := by
  have hlen : i < (s.nodeQueue node).length := (List.getElem?_eq_some_iff.mp hi).1
  obtain ⟨t, ht⟩ : ∃ t, (sweepProjectedReady (sortReleaseEvents (releasesOn s node))
      (queuedNeeds s node))[i]? = some t := by
    refine ⟨_, getElem?_eq_getElem ?_⟩
    simpa [queuedNeeds] using hlen
  have hmem : e ∈ s.nodeQueue node := mem_of_getElem? hi
  have hqueue : (accrualQueues s).get? node = some ((s.nodeQueue node).map Prod.snd) := by
    have hgetD := accrualQueues_getD s node
    cases hg : (accrualQueues s).get? node with
    | none =>
      rw [hg] at hgetD
      have hnil : s.nodeQueue node = [] := by simpa using hgetD.symm
      rw [hnil] at hmem
      cases hmem
    | some q =>
      rw [hg] at hgetD
      rw [← hgetD]
      rfl
  -- the nested loops write the bounds of all nodes one after the other
  have hflat : projectedStarts s = ((accrualQueues s).entries.flatMap fun q =>
      projectNode s (collectReleaseEvents s) q.1 q.2).foldl
        (fun out e => out.insert e.1 e.2) .empty := by
    rw [foldl_flatMap]
    rfl
  rw [ht, hflat]
  refine get?_foldl_insert_of_forall ?_ _ (.inr ?_)
  · intro p hp hpe
    obtain ⟨⟨n', q⟩, hq, hpq⟩ := mem_flatMap.mp hp
    have hq' : q = (s.nodeQueue n').map Prod.snd := by
      have := accrualQueues_getD s n'
      rw [mem_entries.mp hq] at this
      exact this
    subst hq'
    simp only [projectNode_queue h] at hpq
    obtain ⟨k, hk⟩ := getElem?_of_mem hpq
    obtain ⟨hk1, hk2⟩ := getElem?_zip_eq_some.mp hk
    rw [hpe, getElem?_map, Option.map_eq_some_iff] at hk1
    obtain ⟨e', he', hee⟩ := hk1
    -- an allocation is queued on its own node only, and there once
    obtain ⟨r, hr, -, hrn, -⟩ := (h.queued node).accruing e hmem
    obtain ⟨r', hr', -, hrn', -⟩ := (h.queued n').accruing e' (mem_of_getElem? he')
    rw [hee, hr] at hr'
    cases hr'
    have hnode : n' = node := hrn'.symm.trans hrn
    subst hnode
    have hik : i = k := by
      have hnd := (h.queued n').nodup
      refine (getElem?_inj (by simpa using hlen) hnd).mp ?_
      rw [getElem?_map, getElem?_map, hi, he', Option.map_some, Option.map_some, hee]
    rw [← hik, ht] at hk2
    exact (Option.some.inj hk2).symm
  · refine ⟨(e.2, t), mem_flatMap.mpr ⟨(node, _), mem_entries.mpr hqueue, ?_⟩, rfl⟩
    rw [projectNode_queue h]
    refine mem_of_getElem? (i := i) (getElem?_zip_eq_some.mpr ⟨?_, ht⟩)
    rw [getElem?_map, hi, Option.map_some]

theorem sortReleaseEvents_perm (events : List ReleaseEvent) :
    (sortReleaseEvents events).Perm events :=
  perm_insertionSort _ _

theorem sortReleaseEvents_sorted (events : List ReleaseEvent) :
    (sortReleaseEvents events).Pairwise fun a b => a.at_ ≤ b.at_ := by
  have htotal : Std.Total ReleaseEvent.before := ⟨fun a b => by
    rcases lt_trichotomy a.at_ b.at_ with h | h | h
    · exact .inl (.inl h)
    · rcases le_total a.seq b.seq with hs | hs
      · exact .inl (.inr ⟨h, hs⟩)
      · exact .inr (.inr ⟨h.symm, hs⟩)
    · exact .inr (.inl h)⟩
  have htrans : IsTrans ReleaseEvent ReleaseEvent.before := ⟨fun a b c hab hbc => by
    rcases hab with hab | ⟨hab, hs⟩
    · rcases hbc with hbc | ⟨hbc, -⟩
      · exact .inl (hab.trans hbc)
      · exact .inl (hbc ▸ hab)
    · rcases hbc with hbc | ⟨hbc, hs'⟩
      · exact .inl (hab ▸ hbc)
      · exact .inr ⟨hab.trans hbc, hs.trans hs'⟩⟩
  refine (pairwise_insertionSort ReleaseEvent.before events).imp ?_
  intro a b hab
  rcases hab with hab | ⟨hab, -⟩
  · exact hab.le
  · exact hab.le

end Coppice.Scheduler
