/-
  Coppice.Agent.Blind

  What becomes of running work when the agent reports without an answer from its
  container runtime: an attempt stays running only where the journal leaves its fate
  open (`Vouches`).
-/

import Coppice.Agent.Session
import Coppice.Coordinator.Reconcile

namespace Coppice.Agent

open Lib Coppice.Core State Coordinator StateMachine OrdMap Option Session

/-- When the agent asks the runtime what runs. -/
inductive Occasion where
  | registration | heartbeat
  deriving DecidableEq

/-- The reports built from a failed observation. -/
def Session.blindReports (S : Session) (e : ExecutorError) (clock : Clock) :
    Occasion → List Protocol.AgentReport
  | .registration => (S.onRegisterAccepted (.error e) clock).2
  | .heartbeat => [S.heartbeatReport (.error e)]

/-- The journal alone leaves the fate of the attempt open: its own allocation has no
    exit and a start or stop in flight, or is unknown while another record names it. -/
def Session.Vouches (S : Session) (al : AllocationId) (attempt : AttemptId) : Prop :=
  match S.state.exits.get? al, S.state.intents.get? al with
  | some _, _ => False
  | none, some _ => S.inFlight al = true
  | none, none => ∃ x o, fromJournal S.state x = some o ∧ o.attempt = attempt

/-- The attempt is known and running. -/
def Runs (s : StateMachine) (id : AttemptId) : Prop :=
  ∃ a, s.attempts.get? id = some a ∧ a.attempt.state = .running

theorem not_runs_of_terminal {s : StateMachine} {id : AttemptId}
    (h : ∃ a, s.attempts.get? id = some a ∧ a.attempt.state.isTerminal = true) : ¬Runs s id := by
  rintro ⟨b, hb, hrun⟩
  obtain ⟨a, ha, hterm⟩ := h
  rw [hb] at ha
  cases ha
  rw [hrun] at hterm
  cases hterm

/-! ## The coordinator's side -/

section Coordinator

variable {s : StateMachine} {node : NodeId} {epoch : Nat} {now : Timestamp}
  {set : Protocol.ObservedSet} {n : NodeRecord} {lost : List LostAttempt} {l : LostAttempt}
  {id : AttemptId} {a : AttemptRecord}

/-- With nothing running in it, an observed set adopts nothing and repeats no notice. -/
theorem observedSetDiff_idle (hidle : ∀ obs ∈ set.allocations, obs.running = false) :
    (observedSetDiff s node epoch set now false).commands =
      outcomeCommands s set now ++ reconcile node epoch [] (unmentioned s node set now) now := by
  have hverdict : ∀ obs ∈ set.allocations,
      (observedVerdict s false now obs).adopted = [] ∧
        (observedVerdict s false now obs).notices = [] := by
    intro obs hobs
    have hrun := hidle obs hobs
    unfold observedVerdict
    split
    · exact ⟨rfl, rfl⟩
    · split
      · exact ⟨rfl, rfl⟩
      · simp only [hrun, Bool.false_eq_true, if_false]
        split <;> exact ⟨rfl, rfl⟩
  have hadopted : set.allocations.flatMap
      (fun obs => (observedVerdict s false now obs).adopted) = [] :=
    List.flatMap_eq_nil_iff.mpr fun obs hobs => (hverdict obs hobs).1
  have hnotices : set.allocations.flatMap
      (fun obs => (observedVerdict s false now obs).notices) = [] :=
    List.flatMap_eq_nil_iff.mpr fun obs hobs => (hverdict obs hobs).2
  unfold observedSetDiff
  simp only [List.flatMap_map, Bool.false_eq_true, if_false, hadopted, hnotices, List.append_nil]
  rfl

/-- Losses proposed under the node's own epoch end the work they name. -/
theorem reconcile_ends (h : Consistent s) (hn : s.nodes.get? node = some n)
    (hepoch : n.epoch = epoch) (hlost : ∀ l ∈ lost, l.outcome ≠ .revoked ∧
      ∃ a, s.attempts.get? l.attempt = some a ∧ a.attempt.node = node) (hl : l ∈ lost) :
    ∃ a, ((reconcile node epoch [] lost now).foldl (fun s c => (s.apply c).1) s).attempts.get?
      l.attempt = some a ∧ a.attempt.state.isTerminal = true := by
  have hne : lost.isEmpty = false := List.isEmpty_eq_false_iff.mpr (List.ne_nil_of_mem hl)
  have hcmd : reconcile node epoch [] lost now = [.reconcileNode ⟨node, epoch, [], lost, now⟩] := by
    simp [reconcile, hne]
  rw [hcmd, List.foldl_cons, List.foldl_nil]
  obtain ⟨-, a, ha, -⟩ := hlost l hl
  exact reconcileNode_loses h ⟨node, epoch, [], lost, now⟩
    (reconcileNode_accepted _ hn hepoch (by simp) hlost) hl ha

theorem reconcile_spares (h : Consistent s) (ha : s.attempts.get? id = some a)
    (hrun : a.attempt.state = .running) (hid : ∀ l ∈ lost, l.attempt ≠ id) :
    Runs ((reconcile node epoch [] lost now).foldl (fun s c => (s.apply c).1) s) id := by
  unfold reconcile
  split_ifs
  · have hst : a.attempt.state ≠ .accruing := by
      rw [hrun]
      decide
    exact ⟨a, reconcileNode_spares h ⟨node, epoch, [], lost, now⟩ ha hst
      (.inr (by simp)) hid, hrun⟩
  · exact ⟨a, ha, hrun⟩

/-- A set in which nothing runs ends the attempts of the node that it leaves out. -/
theorem idle_ends (h : Reachable s) (hidle : ∀ obs ∈ set.allocations, obs.running = false)
    (hn : s.nodes.get? node = some n) (hepoch : n.epoch = epoch)
    (hl : l ∈ unmentioned s node set now) :
    ∃ a, ((observedSetDiff s node epoch set now false).commands.foldl
      (fun s c => (s.apply c).1) s).attempts.get? l.attempt = some a ∧
        a.attempt.state.isTerminal = true := by
  rw [observedSetDiff_idle hidle, List.foldl_append]
  exact reconcile_ends (afterOutcomes_reachable h).consistent
    ((congrArg (OrdMap.get? · node) (afterOutcomes_advances h).nodes).trans hn) hepoch
    (fun _ hx => unmentioned_fit h hx) hl

/-- A set in which nothing runs leaves an attempt running that it mentions without an
    outcome. -/
theorem idle_spares (h : Reachable s) (hidle : ∀ obs ∈ set.allocations, obs.running = false)
    (ha : s.attempts.get? id = some a) (hrun : a.attempt.state = .running)
    (hopen : ∀ obs ∈ set.allocations, obs.allocation = some a.attempt.allocation →
      obs.outcome = none)
    (hmention : id ∈ (set.allocations.filter fun o => o.allocation.isSome).filterMap
        Protocol.ObservedAllocation.attempt ∨
      a.attempt.allocation ∈ set.allocations.filterMap Protocol.ObservedAllocation.allocation) :
    Runs ((observedSetDiff s node epoch set now false).commands.foldl
      (fun s c => (s.apply c).1) s) id := by
  have hst : a.attempt.state ≠ .accruing := by
    rw [hrun]
    decide
  have hkept : (afterOutcomes s set now).attempts.get? id = some a :=
    afterOutcomes_leave h ha hst fun obs hobs hal => .inr (hopen obs hobs hal)
  rw [observedSetDiff_idle hidle, List.foldl_append]
  refine reconcile_spares (afterOutcomes_reachable h).consistent hkept hrun fun l hl hlid => ?_
  obtain ⟨-, b, hb, -, hatt, hal⟩ := mem_unmentioned hl
  rw [hlid, ha] at hb
  cases hb
  rw [hlid] at hatt
  exact hmention.elim hatt hal

/-- A heartbeat with an empty running set. -/
theorem heartbeatDiff_silent (node : NodeId) (epoch : Nat) (draining : Bool)
    (deadline target : Option I64) (now : Timestamp) (ha : s.attempts.get? id = some a)
    (hrun : a.attempt.state = .running) (hnode : a.attempt.node = node) :
    ∃ (announce : List Command) (lost : List LostAttempt),
      (heartbeatDiff s node epoch ⟨[], draining, deadline, target⟩ now).commands =
        announce ++ reconcile node epoch [] lost now ∧
      (announce = [] ∨ ∃ c, announce = [.setNodeDraining c]) ∧
      (∀ l ∈ lost, l.outcome ≠ .revoked ∧
        ∃ a, s.attempts.get? l.attempt = some a ∧ a.attempt.node = node) ∧
      lostAttempt now (id, a) ∈ lost := by
  refine ⟨_, _, rfl, ?_, fun l hl => ?_, ?_⟩
  · split
    · exact .inl rfl
    · split_ifs
      · exact .inr ⟨_, rfl⟩
      · exact .inl rfl
  · obtain ⟨⟨i, b⟩, he, rfl⟩ := List.mem_map.mp hl
    rw [List.mem_filter] at he
    simp only [Bool.and_eq_true, decide_eq_true_eq] at he
    exact ⟨fun hrev => (nomatch hrev), b, mem_entries.mp he.1, he.2.1.1⟩
  · refine List.mem_map_of_mem (List.mem_filter.mpr ⟨mem_entries.mpr ha, ?_⟩)
    simp [hnode, hrun, ofList, contains]

end Coordinator

/-! ## The agent's side -/

namespace Session

variable {S : Session} {clock : Clock} {al : AllocationId} {o : ObservedAllocation}

/-- The observed set of a failed observation. -/
def blindSet (S : Session) (clock : Clock) : Protocol.ObservedSet :=
  ⟨((buildObservedSet S.state []).map S.unresolve).map fun o => S.observedToPb o clock.now⟩

theorem blindReports_registration (e : ExecutorError) (clock : Clock) :
    S.blindReports e clock .registration =
      [⟨S.epoch.toNat, some (.observedSet (S.blindSet clock))⟩] := rfl

theorem mem_blindSet {obs : Protocol.ObservedAllocation} :
    obs ∈ (S.blindSet clock).allocations ↔
      ∃ al o, fromJournal S.state al = some o ∧ obs = S.observedToPb (S.unresolve o) clock.now := by
  simp only [blindSet, List.map_map, List.mem_map, mem_buildObservedSet_nil, Function.comp_apply]
  constructor
  · rintro ⟨o, ⟨al, ho⟩, rfl⟩
    exact ⟨al, o, ho, rfl⟩
  · rintro ⟨al, o, ho, rfl⟩
    exact ⟨o, ⟨al, ho⟩, rfl⟩

theorem fromJournal_ended (h : fromJournal S.state al = some o) :
    o.running = false ∧ o.outcome.isSome = true := by
  simp only [fromJournal] at h
  split at h
  · cases h
    exact ⟨rfl, rfl⟩
  · obtain ⟨intent, -, rfl⟩ := map_eq_some_iff.mp h
    exact ⟨rfl, rfl⟩

/-- One entry of the set, on the wire. -/
theorem blindEntry (h : fromJournal S.state al = some o) (now : Timestamp) :
    (S.observedToPb (S.unresolve o) now).allocation = some al ∧
      (S.observedToPb (S.unresolve o) now).attempt = some o.attempt ∧
      (S.observedToPb (S.unresolve o) now).running = false ∧
      ((S.observedToPb (S.unresolve o) now).outcome = none ↔
        S.inFlight al = true ∧ S.state.exits.get? al = none) := by
  have hal := fromJournal_allocation h
  obtain ⟨hrun, hout⟩ := fromJournal_ended h
  obtain ⟨outcome, houtcome⟩ := isSome_iff_exists.mp hout
  unfold unresolve
  split_ifs with hopen
  · simp only [Bool.and_eq_true, Bool.not_eq_true', contains_eq_false_iff, hal] at hopen
    exact ⟨by rw [← hal]; rfl, rfl, hrun, fun _ => ⟨hopen.1.1, hopen.2⟩, fun _ => rfl⟩
  · refine ⟨by rw [← hal]; rfl, rfl, hrun, fun hnone => ?_, fun hyes => ?_⟩
    · simp only [observedToPb, houtcome, map_some] at hnone
      cases hnone
    · refine absurd ?_ hopen
      simp only [Bool.and_eq_true, Bool.not_eq_true', contains_eq_false_iff, hal]
      exact ⟨⟨hyes.1, hrun⟩, hyes.2⟩

theorem blindSet_idle (clock : Clock) : ∀ obs ∈ (S.blindSet clock).allocations,
    obs.running = false := by
  intro obs hobs
  obtain ⟨al, o, ho, rfl⟩ := mem_blindSet.mp hobs
  exact (blindEntry ho clock.now).2.2.1

theorem mem_blindSet_allocation :
    al ∈ (S.blindSet clock).allocations.filterMap Protocol.ObservedAllocation.allocation ↔
      ∃ o, fromJournal S.state al = some o := by
  rw [List.mem_filterMap]
  constructor
  · rintro ⟨obs, hobs, hal⟩
    obtain ⟨x, o, ho, rfl⟩ := mem_blindSet.mp hobs
    rw [(blindEntry ho clock.now).1, Option.some.injEq] at hal
    exact ⟨o, hal ▸ ho⟩
  · rintro ⟨o, ho⟩
    exact ⟨_, mem_blindSet.mpr ⟨al, o, ho, rfl⟩, (blindEntry ho clock.now).1⟩

theorem mem_blindSet_attempt {id : AttemptId} :
    id ∈ ((S.blindSet clock).allocations.filter fun o => o.allocation.isSome).filterMap
        Protocol.ObservedAllocation.attempt ↔
      ∃ al o, fromJournal S.state al = some o ∧ o.attempt = id := by
  simp only [List.mem_filterMap, List.mem_filter]
  constructor
  · rintro ⟨obs, ⟨hobs, -⟩, hid⟩
    obtain ⟨x, o, ho, rfl⟩ := mem_blindSet.mp hobs
    rw [(blindEntry ho clock.now).2.1, Option.some.injEq] at hid
    exact ⟨x, o, ho, hid⟩
  · rintro ⟨al, o, ho, rfl⟩
    obtain ⟨hal, hatt, -⟩ := blindEntry ho clock.now
    exact ⟨_, ⟨mem_blindSet.mpr ⟨al, o, ho, rfl⟩, by rw [hal]; rfl⟩, hatt⟩

/-- The journal says nothing of the allocation. -/
theorem fromJournal_none (hexit : S.state.exits.get? al = none)
    (hintent : S.state.intents.get? al = none) : ¬∃ o, fromJournal S.state al = some o := by
  rintro ⟨o, ho⟩
  simp [fromJournal, hexit, hintent] at ho

end Session

/-! ## Reports without sight -/

section Reports

variable {S : Session} {s : StateMachine} {id : AttemptId} {a : AttemptRecord} {n : NodeRecord}

section

variable (h : Reachable s) (ha : s.attempts.get? id = some a) (hrun : a.attempt.state = .running)
  (hnode : a.attempt.node = S.node) (hn : s.nodes.get? S.node = some n)
  (hepoch : n.epoch = S.epoch.toNat)

include h ha hrun hnode hn hepoch

/-- A heartbeat that claims nothing loses every running attempt of its node. -/
theorem blind_heartbeat_ends (e : ExecutorError) (now : Timestamp) :
    ¬Runs (ingest s ⟨S.node, S.heartbeatReport (.error e)⟩ now) id := by
  have hfresh : (normalize s ⟨S.node, S.heartbeatReport (.error e)⟩ now).commands =
      (heartbeatDiff s S.node S.epoch.toNat ⟨[], S.announcesDraining,
        S.interruptionDeadline.map timestampUs, S.drainTarget.map timestampUs⟩ now).commands := by
    simp [Coordinator.normalize, heartbeatReport, report, fenced, hn, hepoch]
  obtain ⟨draining, lost, hcmds, hdrain, hlost, hmine⟩ := heartbeatDiff_silent S.node S.epoch.toNat
    S.announcesDraining (S.interruptionDeadline.map timestampUs) (S.drainTarget.map timestampUs)
    now ha hrun hnode
  rw [ingest, hfresh, hcmds, List.foldl_append]
  -- the announcement leaves the attempts and the epochs as they are
  obtain ⟨hreach, hatts, n', hn', hepoch'⟩ : Reachable (draining.foldl
      (fun s c => (s.apply c).1) s) ∧
      (draining.foldl (fun s c => (s.apply c).1) s).attempts = s.attempts ∧
      ∃ n', (draining.foldl (fun s c => (s.apply c).1) s).nodes.get? S.node = some n' ∧
        n'.epoch = n.epoch := by
    refine ⟨h.foldl_apply draining, ?_⟩
    rcases hdrain with rfl | ⟨c, rfl⟩
    · exact ⟨rfl, n, hn, rfl⟩
    · exact ⟨setNodeDraining_attempts c, setNodeDraining_epoch c hn⟩
  refine not_runs_of_terminal (reconcile_ends hreach.consistent hn' (hepoch'.trans hepoch) ?_ hmine)
  rw [hatts]
  exact hlost

theorem blind_registration_iff (clock : Clock) (now : Timestamp) :
    Runs (ingest s ⟨S.node, S.epoch.toNat, some (.observedSet (S.blindSet clock))⟩ now) id ↔
      S.Vouches a.attempt.allocation id := by
  have hingest : ingest s ⟨S.node, S.epoch.toNat, some (.observedSet (S.blindSet clock))⟩ now =
      (observedSetDiff s S.node S.epoch.toNat (S.blindSet clock) now false).commands.foldl
        (fun s c => (s.apply c).1) s := by
    simp [ingest, Coordinator.normalize, hn, hepoch]
  have hlive : a.attempt.state.isTerminal = false := by
    rw [hrun]
    rfl
  have hlook := liveIntent_of_live h.consistent ha hlive
  have hid := h.consistent.linked.attempt_id ha
  have hidle := S.blindSet_idle clock
  rw [hingest]
  -- an entry with an outcome for the allocation ends the attempt
  have hends o (ho : fromJournal S.state a.attempt.allocation = some o)
      (hclosed : ¬(S.inFlight a.attempt.allocation = true ∧
        S.state.exits.get? a.attempt.allocation = none))
      : ¬Runs ((observedSetDiff s S.node S.epoch.toNat (S.blindSet clock) now false).commands.foldl
      (fun s c => (s.apply c).1) s) id := by
    obtain ⟨hal, -, hstop, hopen⟩ := blindEntry ho clock.now
    have hsome : (S.observedToPb (S.unresolve o) clock.now).outcome.isSome = true := by
      rw [isSome_iff_ne_none]
      exact fun hnone => hclosed (hopen.mp hnone)
    have hend : ∃ a', ((observedSetDiff s S.node S.epoch.toNat (S.blindSet clock) now
        false).commands.foldl (fun s c => (s.apply c).1) s).attempts.get? a.attempt.id = some a' ∧
          a'.attempt.state.isTerminal = true :=
      observedSetDiff_ends h (mem_blindSet.mpr ⟨_, o, ho, rfl⟩) (by rw [hal]; exact hlook)
        hstop hsome
    rw [hid] at hend
    exact not_runs_of_terminal hend
  unfold Vouches
  cases hexit : S.state.exits.get? a.attempt.allocation with
  | some exit =>
    have ho : ∃ o, fromJournal S.state a.attempt.allocation = some o := by
      simp [fromJournal, hexit]
    obtain ⟨o, ho⟩ := ho
    exact iff_of_false (hends o ho fun hopen => by rw [hexit] at hopen; cases hopen.2) fun hv => hv
  | none =>
    cases hintent : S.state.intents.get? a.attempt.allocation with
    | some intent =>
      have ho : ∃ o, fromJournal S.state a.attempt.allocation = some o := by
        simp [fromJournal, hexit, hintent]
      obtain ⟨o, ho⟩ := ho
      by_cases hfly : S.inFlight a.attempt.allocation = true
      · refine iff_of_true (idle_spares h hidle ha hrun (fun obs hobs hal => ?_)
          (.inr (mem_blindSet_allocation.mpr ⟨o, ho⟩))) hfly
        obtain ⟨x, o', ho', rfl⟩ := mem_blindSet.mp hobs
        obtain ⟨hx, -, -, hopen⟩ := blindEntry ho' clock.now
        rw [hx, Option.some.injEq] at hal
        exact hopen.mpr ⟨by rw [hal]; exact hfly, by rw [hal]; exact hexit⟩
      · exact iff_of_false (hends o ho fun hopen => hfly hopen.1) hfly
    | none =>
      have hout := fromJournal_none hexit hintent
      constructor
      · intro hruns
        by_contra hno
        have hlost : lostAttempt now (id, a) ∈ unmentioned s S.node (S.blindSet clock) now :=
          mem_unmentioned_of ha hnode (.inr (.inl hrun))
            (fun hm => hno (mem_blindSet_attempt.mp hm))
            (fun hm => hout (mem_blindSet_allocation.mp hm))
        exact not_runs_of_terminal (idle_ends h hidle hn hepoch hlost) hruns
      · intro hmention
        refine idle_spares h hidle ha hrun (fun obs hobs hal => ?_)
          (.inl (mem_blindSet_attempt.mpr hmention))
        obtain ⟨x, o', ho', rfl⟩ := mem_blindSet.mp hobs
        rw [(blindEntry ho' clock.now).1, Option.some.injEq] at hal
        exact absurd ⟨o', hal ▸ ho'⟩ hout

end

/-- Running work outlives a report without sight of the runtime exactly when the report
    opens a registration and the journal vouches for the work. -/
theorem blind_running_iff (h : Reachable s) (ha : s.attempts.get? id = some a)
    (hrun : a.attempt.state = .running) (hnode : a.attempt.node = S.node)
    (hn : s.nodes.get? S.node = some n) (hepoch : n.epoch = S.epoch.toNat) (e : ExecutorError)
    (clock : Clock) (now : Timestamp) {occasion : Occasion} {r : Protocol.AgentReport}
    (hr : r ∈ S.blindReports e clock occasion) :
    Runs (ingest s ⟨S.node, r⟩ now) id ↔
      occasion = .registration ∧ S.Vouches a.attempt.allocation id := by
  cases occasion with
  | registration =>
    rw [blindReports_registration, List.mem_singleton] at hr
    subst hr
    rw [blind_registration_iff h ha hrun hnode hn hepoch clock now]
    exact ⟨fun hv => ⟨rfl, hv⟩, fun hv => hv.2⟩
  | heartbeat =>
    cases List.mem_singleton.mp hr
    refine iff_of_false (blind_heartbeat_ends h ha hrun hnode hn hepoch e now) ?_
    rintro ⟨hreg, -⟩
    cases hreg

end Reports

open Sample

/-- A session recovered with one intent, on the node where `neighbours` runs a job. -/
def survivor : Session :=
  new 1 0
    { watermark := ⟨1, 1⟩
      intents := OrdMap.empty.insert 1
        ⟨1, 1, 1, 1, none, .sigterm, Duration.zero, Duration.zero, Duration.zero⟩ }

/-- The container that the runtime of `survivor` holds. -/
def survivorContainer : ObservedContainer := ⟨1, 1, 1, .running Duration.zero⟩

/-- The same session with a stop of the container in flight. -/
def stoppingSurvivor : Session := { survivor with stopping := OrdMap.empty.insert 1 () }

def noon : Clock := ⟨epoch, 0⟩

/-- A stop in flight leaves the fate of its attempt open. -/
theorem blind_running_iff_stopping :
    Runs (ingest (run neighbours)
      ⟨1, 1, some (.observedSet (stoppingSurvivor.blindSet noon))⟩ epoch) 1 := by
  have hbefore : ((run neighbours).attempts.get? 1).map
      (fun a => (a.attempt.state, a.attempt.node, a.attempt.allocation)) =
        some (.running, 1, 1) := by decide +kernel
  have hepochs : ((run neighbours).nodes.get? 1).map NodeRecord.epoch = some 1 := by
    decide +kernel
  obtain ⟨a, ha, hparts⟩ := map_eq_some_iff.mp hbefore
  obtain ⟨n, hn, hepoch⟩ := map_eq_some_iff.mp hepochs
  simp only [Prod.mk.injEq] at hparts
  obtain ⟨hrun, hnode, hal⟩ := hparts
  refine (blind_running_iff (S := stoppingSurvivor) (reachable_run neighbours) ha hrun hnode hn
    hepoch (.other "down") noon epoch (List.mem_singleton.mpr rfl)).mpr ⟨rfl, ?_⟩
  have hfly : stoppingSurvivor.inFlight 1 = true := by decide +kernel
  rw [hal]
  exact hfly

/-- The same session, the same container: with sight of it the attempt stays running,
    without sight both reports end it. -/
theorem blind_survivor_ends :
    Reachable (run neighbours) ∧
      ((run neighbours).attempts.get? 1).map
        (fun a => (a.attempt.state, a.attempt.node)) = some (.running, 1) ∧
      ((run neighbours).nodes.get? survivor.node).map NodeRecord.epoch = some survivor.epoch.toNat ∧
      (∀ r ∈ (survivor.onRegisterAccepted (.ok [survivorContainer]) noon).2,
        ((ingest (run neighbours) ⟨1, r⟩ epoch).attempts.get? 1).map
          (fun a => a.attempt.state) = some .running) ∧
      (∀ r ∈ (survivor.onRegisterAccepted (.error (.other "down")) noon).2,
        ((ingest (run neighbours) ⟨1, r⟩ epoch).attempts.get? 1).map
          (fun a => a.attempt.state) = some (.terminal .agentError)) ∧
      ((ingest (run neighbours) ⟨1, survivor.heartbeatReport (.ok [survivorContainer])⟩
        epoch).attempts.get? 1).map (fun a => a.attempt.state) = some .running ∧
      ((ingest (run neighbours) ⟨1, survivor.heartbeatReport (.error (.other "down"))⟩
        epoch).attempts.get? 1).map (fun a => a.attempt.state) = some (.terminal .agentError) := by
  refine ⟨reachable_run neighbours, ?_, ?_, ?_, ?_, ?_, ?_⟩
  all_goals decide +kernel

end Coppice.Agent
