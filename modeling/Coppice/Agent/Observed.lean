/-
  Coppice.Agent.Observed

  The observed set of a restarted or reconnected agent (`coppice-
  agent/src/observed.rs`).  Runtime evidence beats the journal; an intent with no
  evidence of its fate is an agent error.
-/

import Coppice.Agent.Journal

namespace Coppice.Agent

open Lib Coppice.Core OrdMap

structure ObservedAllocation where
  allocation : AllocationId
  attempt : AttemptId
  job : JobId
  running : Bool
  outcome : Option AttemptOutcome
  runtime : Duration
  deriving DecidableEq

def fromRuntime (container : ObservedContainer) (journal : JournalState) : ObservedAllocation :=
  match container.state with
  | .running runtime =>
    ⟨container.allocation, container.attempt, container.job, true, none, runtime⟩
  | .exited exit =>
    ⟨container.allocation, container.attempt, container.job, false,
      some (classifyExit exit (journal.attribution container.allocation)), exit.runtime⟩

/-- A journaled exit, else a journaled intent with no evidence of its fate. -/
def fromJournal (journal : JournalState) (allocation : AllocationId) : Option ObservedAllocation :=
  match journal.exits.get? allocation with
  | some exit =>
    some ⟨allocation, exit.attempt, exit.job, false, some exit.outcome, exit.runtime⟩
  | none =>
    (journal.intents.get? allocation).map fun intent =>
      ⟨allocation, intent.attempt, intent.job, false, some .agentError, Duration.zero⟩

/-- The entry of one allocation: a running container, or an exited one whose exit
    never reached the journal, wins over the journal. -/
def observeAllocation (journal : JournalState) (runtime : OrdMap AllocationId ObservedContainer)
    (allocation : AllocationId) : Option ObservedAllocation :=
  match runtime.get? allocation with
  | none => fromJournal journal allocation
  | some container =>
    match container.state, journal.exits.get? allocation with
    | .exited _, some _ => fromJournal journal allocation
    | _, _ => some (fromRuntime container journal)

def buildObservedSet (journal : JournalState) (runtime : List ObservedContainer) :
    List ObservedAllocation :=
  let runtimeByAlloc := ofList (runtime.map fun c => (c.allocation, c))
  -- a tombstone alone contributes nothing
  let allocations := ofList
    ((runtimeByAlloc.keys ++ journal.exits.keys ++ journal.intents.keys).map fun a => (a, ()))
  allocations.keys.filterMap (observeAllocation journal runtimeByAlloc)

variable {journal : JournalState} {o : ObservedAllocation}

theorem mem_buildObservedSet_nil :
    o ∈ buildObservedSet journal [] ↔ ∃ allocation, fromJournal journal allocation = some o := by
  have hnone : ∀ a, observeAllocation journal (ofList []) a = fromJournal journal a := fun _ => rfl
  simp only [buildObservedSet, List.map_nil, List.mem_filterMap, hnone]
  constructor
  · rintro ⟨a, _, ha⟩
    exact ⟨a, ha⟩
  · rintro ⟨a, ha⟩
    refine ⟨a, ?_, ha⟩
    have hmem : a ∈ journal.exits.keys ++ journal.intents.keys := by
      rw [List.mem_append, mem_keys, mem_keys]
      simp only [fromJournal] at ha
      split at ha
      · next exit hexit => exact .inl ⟨exit, hexit⟩
      · obtain ⟨intent, hintent, -⟩ := Option.map_eq_some_iff.mp ha
        exact .inr ⟨intent, hintent⟩
    rw [mem_keys]
    refine ⟨(), ?_⟩
    rw [get?_ofList_const, if_pos]
    rw [List.append_assoc]
    exact List.mem_append_right _ hmem

theorem fromJournal_allocation {a : AllocationId} (h : fromJournal journal a = some o) :
    o.allocation = a := by
  simp only [fromJournal] at h
  split at h
  · cases h
    rfl
  · obtain ⟨intent, -, rfl⟩ := Option.map_eq_some_iff.mp h
    rfl

end Coppice.Agent
