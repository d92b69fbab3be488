/-
  Coppice.State.Inversion

  What a command can do.  `Step` has one constructor for each way a command's
  function returns, with what was checked on the way there; every invariant of
  the development is then a case analysis of `dispatch_step`.
-/

import Coppice.State.Apply

namespace Coppice.State

open Lib Coppice.Core Effects

/-! ## Commands by what they write -/

/-- What a command is about. -/
inductive Command.Kind where
  /-- jobs, attempts and their holds -/
  | work
  /-- a node, with the work on it -/
  | node
  /-- the drain of a node -/
  | drain
  /-- quotas, policy, authority, versions and identities -/
  | setting
  deriving DecidableEq

def Command.kind : Command → Kind
  | .submitJob _ | .abortJob _ | .updateJobMetadata _ | .commitPlacements _
  | .dispatchAttempt _ | .recordAttemptStarted _ | .recordAttemptExited _
  | .recordAttemptOutcome _ | .reconcileNode _ | .recordAttemptNotified _
  | .evictTerminalJobs _ | .renewIntervalCharges _ => .work
  | .registerNode _ | .declareNodeLost _ | .evictNodes _ => .node
  | .setNodeDrain _ | .setNodeDraining _ => .drain
  | _ => .setting

/-- The commands that only move the work in progress. -/
def Command.moves : Command → Bool
  | .dispatchAttempt _ | .recordAttemptStarted _ | .recordAttemptExited _
  | .recordAttemptOutcome _ | .reconcileNode _ => true
  | _ => false

def Command.writesNodes (c : Command) : Bool := c.kind = .node || c.kind = .drain

/-- The commands that may find nothing left to do. -/
def Command.idles : Command → Bool
  | .submitJob _ | .updateJobMetadata _ | .recordAttemptNotified _ => true
  | c => c.kind = .setting || c.kind = .drain

/-- The event speaks of a setting. -/
def Event.OfSetting : Event → Prop
  | .quotaEntityConfigured _ | .policyUpdated | .authorizationUpdated
  | .clusterVersionBumped _ => True
  | _ => False

/-- The commands about certificates, keys and the machines that hold them. -/
def Command.writesKeys : Command → Bool
  | .recordCaCertificate _ | .bindMachineIdentity _ | .rebindMachineAddress _
  | .retireMachineBinding _ | .confirmKeyPossession _ | .recordKeyTransferIntent _
  | .confirmStagedKeyPossession _ | .recordStagedKeyTransferIntent _ => true
  | _ => false

/-- The certificates, the records of who holds their keys and the machine bindings are the
    same. -/
structure SameKeys (s s' : StateMachine) : Prop where
  ca : s'.ca = s.ca
  staged : s'.stagedRoot = s.stagedRoot
  confirmations : s'.keyConfirmations = s.keyConfirmations
  intents : s'.keyTransferIntents = s.keyTransferIntents
  bindings : s'.machineBindings = s.machineBindings

theorem SameKeys.trans (h : SameKeys s s') (h' : SameKeys s' s'') : SameKeys s s'' :=
  ⟨h'.ca.trans h.ca, h'.staged.trans h.staged, h'.confirmations.trans h.confirmations,
    h'.intents.trans h.intents, h'.bindings.trans h.bindings⟩

/-- Jobs, attempts and holds are the same. -/
structure SameWork (s s' : StateMachine) : Prop where
  jobs : s'.jobs = s.jobs
  attempts : s'.attempts = s.attempts
  allocations : s'.allocations = s.allocations
  queue : s'.accrualQueue = s.accrualQueue
  seq : s'.nextAllocationSeq = s.nextAllocationSeq

/-- A setting is written: the work, the nodes and the version stay. -/
structure Setting (c : Command) (s s' : StateMachine) : Prop where
  work : SameWork s s'
  nodes : s'.nodes = s.nodes
  version : s'.version = s.version
  entities : (∀ x, c ≠ .configureQuotaEntity x) → s'.quotaEntities = s.quotaEntities
  decay : (∀ x, c ≠ .updatePolicy x) → s'.policy.decay = s.policy.decay
  keys : c.writesKeys = false → SameKeys s s'

/-! ## What a command starts from -/

/-- The abort flag; the first request wins. -/
def JobRecord.requestAbort (q : AbortRequest) (r : JobRecord) : JobRecord :=
  if r.spec.abortRequested.isNone then { r with spec := { r.spec with abortRequested := some q } }
  else r

theorem JobRecord.requestAbort_spec (q : AbortRequest) (r : JobRecord) :
    (r.requestAbort q).state = r.state ∧ (r.requestAbort q).terminalAt = r.terminalAt ∧
      (r.requestAbort q).attempts = r.attempts ∧
      (r.requestAbort q).retriesUsed = r.retriesUsed ∧
      (r.requestAbort q).spec = { r.spec with
        abortRequested := (r.requestAbort q).spec.abortRequested } ∧
      (∀ q', r.spec.abortRequested = some q' → (r.requestAbort q).spec.abortRequested = some q') ∧
      (r.requestAbort q).spec.abortRequested.isSome = true := by
  unfold requestAbort
  split_ifs with h
  · exact ⟨rfl, rfl, rfl, rfl, rfl, fun q' hq => by simp [hq] at h, rfl⟩
  · refine ⟨rfl, rfl, rfl, rfl, rfl, fun _ h => h, ?_⟩
    simpa [Option.isSome_iff_ne_none] using h

/-- The record of a job just submitted. -/
structure JobRecord.Submitted (c : SubmitJob) (r : JobRecord) : Prop where
  entity : r.spec.quotaEntity = c.job.quotaEntity
  owner : ∀ a, c.actor = some a → r.spec.submittedBy = some a.principal
  clear : r.spec.abortRequested = none
  state : r.state = .queued
  terminalAt : r.terminalAt = none
  retries : r.retriesUsed = 0
  attempts : r.attempts = []

namespace StateMachine

/-- The state with the abort flag of one job set. -/
def abortFlagged (s : StateMachine) (job : JobId) (q : AbortRequest) : StateMachine :=
  { s with jobs := s.jobs.modify job (JobRecord.requestAbort q) }

/-- The effects of an accepted abort before the job or its attempt ends. -/
def aborting (s : StateMachine) (c : AbortJob) : Effects :=
  start (s.abortFlagged c.job ⟨c.reason, c.requestedAt⟩)

/-- The effects of a registration before its pledge pass. -/
def registering (s : StateMachine) (c : RegisterNode) : Effects :=
  let rec_ := registeredRecord c (s.nodes.get? c.node)
  (start { s with nodes := s.nodes.insert c.node rec_ }).emit
    (.nodeEpochBumped c.node rec_.epoch)

/-- The effects of a node's loss before its attempts end. -/
def losing (s : StateMachine) (c : DeclareNodeLost) (n : NodeRecord) : Effects :=
  let lost : NodeRecord :=
    { n with
      epoch := n.epoch + 1
      node := { n.node with drain := some (n.node.drain.getD ⟨c.declaredAt, none⟩) } }
  (start { s with nodes := s.nodes.insert c.node lost }).emit
    (.nodeEpochBumped c.node lost.epoch)

/-- The effects of a node's loss. -/
abbrev losses (s : StateMachine) (c : DeclareNodeLost) (n : NodeRecord) : Effects :=
  ((s.losing c n).st.lostVictims c.node).foldl (loseNodeAttempt c.declaredAt) (s.losing c n)

/-- The abort passes its checks. -/
structure AbortPasses (s : StateMachine) (c : AbortJob) (r : JobRecord) : Prop where
  job : s.jobs.get? c.job = some r
  live : r.state.isTerminal = false
  auth : s.authorize c.actor (.abort r.spec.quotaEntity r.spec.submittedBy) = .ok ()

theorem AbortPasses.edge (h : AbortPasses s c r) (hidle : ∀ id, r.state ≠ .attempting id) :
    r.state.mayTransitionTo .aborted = true := by
  have hlive := h.live
  cases hst : r.state with
  | attempting id => exact absurd hst (hidle id)
  | _ => first | rfl | simp [hst, JobState.isTerminal] at hlive

/-! ## Steps -/

/-- What a command's function can return, and when. -/
inductive Step (s : StateMachine) : Command → Reply → Prop where
  | reject (c : Command) (e : RejectionReason) : Step s c (s.reject e)
  /-- Accepted, and nothing was left to do. -/
  | noop {c : Command} (hc : c.idles = true) : Step s c s.done
  | submit {c : SubmitJob} {r : JobRecord} (hnew : s.jobs.get? c.job.id = none)
      (hr : r.Submitted c) (hentity : s.quotaEntities.contains c.job.quotaEntity = true)
      (hauth : s.authorize c.actor (.submit c.job.quotaEntity) = .ok ()) :
      Step s (.submitJob c) ({ s with jobs := s.jobs.insert c.job.id r },
        .ok ⟨submitEvents c.job.id⟩)
  | abortIdle {c : AbortJob} {r : JobRecord} (h : AbortPasses s c r)
      (hidle : ∀ id, r.state ≠ .attempting id) :
      Step s (.abortJob c)
        ((s.aborting c).jobTerminalTransition c.job .aborted c.requestedAt).finish
  | abortUndispatched {c : AbortJob} {r : JobRecord} {id : AttemptId} {a : AttemptRecord}
      (h : AbortPasses s c r) (hst : r.state = .attempting id) (ha : s.attempts.get? id = some a)
      (hwait : a.attempt.state = .accruing ∨ a.attempt.state = .ready) :
      Step s (.abortJob c)
        ((s.aborting c).terminateAttempt id .aborted Duration.zero c.requestedAt true).finish
  | abortDispatched {c : AbortJob} {r : JobRecord} {id : AttemptId} {a : AttemptRecord}
      (h : AbortPasses s c r) (hst : r.state = .attempting id) (ha : s.attempts.get? id = some a)
      (hout : a.attempt.state = .dispatching ∨ a.attempt.state = .running) :
      Step s (.abortJob c) ((s.aborting c).emit
        (.stopRequested a.attempt.node a.attempt.allocation a.attempt.job)).finish
  /-- The attempt is about to end by itself. -/
  | abortEnding {c : AbortJob} {r : JobRecord} {id : AttemptId} (h : AbortPasses s c r)
      (hst : r.state = .attempting id)
      (hend : ∀ a, s.attempts.get? id = some a →
        a.attempt.state = .finalizing ∨ a.attempt.state.isTerminal = true) :
      Step s (.abortJob c) (s.aborting c).finish
  | metadata {c : UpdateJobMetadata} {r : JobRecord} (hr : s.jobs.get? c.job = some r)
      (hauth : s.authorize c.actor
        (.updateJobMetadata r.spec.quotaEntity r.spec.submittedBy) = .ok ()) :
      Step s (.updateJobMetadata c)
        ({ s with jobs := s.jobs.modify c.job fun x => { x with spec := { x.spec with
            metadata := JobMetadataUpdate.apply c.update r.spec.metadata } } },
          .ok ⟨[.jobMetadataUpdated c.job r.spec.metadata]⟩)
  | commit {c : CommitPlacements} (hitems : (s.screen c).items = [])
      (hlimit : s.checkAccrualLimit c (s.screenBatch c).1 s.usedCapacityMemo = none) :
      Step s (.commitPlacements c) (s.committing c).finish
  | dispatchAttempt {c : DispatchAttempt} {a : AttemptRecord}
      (ha : s.attempts.get? c.attempt = some a) (hst : a.attempt.state = .ready) :
      Step s (.dispatchAttempt c)
        ((start s).attemptTransition c.attempt .dispatching).finish
  | started {c : RecordAttemptStarted} {a : AttemptRecord}
      (ha : s.attempts.get? c.attempt = some a) (hst : a.attempt.state = .dispatching) :
      Step s (.recordAttemptStarted c)
        ((start s).markAttemptRunning c.attempt c.observedAt).finish
  | exited {c : RecordAttemptExited} {a : AttemptRecord}
      (ha : s.attempts.get? c.attempt = some a) (hst : a.attempt.state = .running) :
      Step s (.recordAttemptExited c)
        ((start s).attemptTransition c.attempt .finalizing).finish
  | outcome {c : RecordAttemptOutcome} {a : AttemptRecord}
      (ha : s.attempts.get? c.attempt = some a) (hlive : a.attempt.state.isTerminal = false)
      (hrefused : c.outcome = .revoked → (a.drainCutoff.isSome && a.startedAt.isNone) = true) :
      Step s (.recordAttemptOutcome c) ((start s).terminateAttempt c.attempt c.outcome
        c.actualRuntime c.observedAt true).finish
  | notified {c : RecordAttemptNotified} {a : AttemptRecord} {next : Preemption}
      (ha : s.attempts.get? c.attempt = some a) (hst : a.attempt.state = .running)
      (hnext : notifiedPreemption a.preemption c = some next) :
      Step s (.recordAttemptNotified c) (s.notifying c a next).finish
  | reconcile {c : ReconcileNode} {n : NodeRecord} (hn : s.nodes.get? c.node = some n)
      (hepoch : n.epoch = c.nodeEpoch)
      (hitems : s.reconcileAdopted c.node 0 c.adopted ++
        s.reconcileLost c.node c.adopted.length c.lost = []) :
      Step s (.reconcileNode c) (s.reconciling c).finish
  | register (c : RegisterNode) :
      Step s (.registerNode c) ((s.registering c).pledgeNode c.node).finish
  | lost {c : DeclareNodeLost} {n : NodeRecord} (hn : s.nodes.get? c.node = some n) :
      Step s (.declareNodeLost c) (s.losses c n).finish
  | setDrain {c : SetNodeDrain} {n : NodeRecord} (drain : Option Drain)
      (hn : s.nodes.get? c.node = some n) (hauth : s.authorize c.actor .drain = .ok ()) :
      Step s (.setNodeDrain c) (s.setDrainRecord c.node drain).done
  | setDraining {c : SetNodeDraining} {n : NodeRecord} (hn : s.nodes.get? c.node = some n) :
      Step s (.setNodeDraining c) ({ s with nodes := s.nodes.modify c.node fun r =>
        { r with draining := c.draining, interruptionDeadline := c.interruptionDeadline } }).done
  | evictJobs {c : EvictTerminalJobs}
      (hterm : ∀ j ∈ c.jobs, ∀ r, s.jobs.get? j = some r → r.state.isTerminal = true) :
      Step s (.evictTerminalJobs c) (c.jobs.foldl evictJob (start s)).finish
  | evictNodes {c : EvictNodes} (hempty : ∀ n ∈ c.nodes, ∀ x, s.nodes.get? n = some x →
        x.isDraining = true ∧ ∀ al r, s.allocations.get? al = some r → r.allocation.node = n →
          r.isLive = false)
      (hauth : s.authorize c.actor .drain = .ok ()) :
      Step s (.evictNodes c) (c.nodes.foldl evictNode s).done
  | renew {c : RenewIntervalCharges} (hint : ∀ r ∈ c.renewals, ∀ a,
        s.attempts.get? r.attempt = some a → a.charge.interval ≠ none) :
      Step s (.renewIntervalCharges c) (c.renewals.foldl (renewOne c.proposedAt) s).done
  | setting {c : Command} {s' : StateMachine} {evs : List Event} (hkind : c.kind = .setting)
      (h : Setting c s s') (hevs : ∀ e ∈ evs, e.OfSetting) : Step s c (s', .ok ⟨evs⟩)

/-- Nothing collected by a filter over the indexed list: no element is faulty. -/
theorem filterMap_zipIdx_isEmpty {α β : Type} {f : α × Nat → Option β} {l : List α}
    (h : ¬(!(l.zipIdx.filterMap f).isEmpty) = true) {x : α} (hx : x ∈ l) :
    ∃ i, f (x, i) = none := by
  obtain ⟨i, hi, hget⟩ := List.mem_iff_getElem.mp hx
  refine ⟨i, ?_⟩
  rw [Bool.not_eq_true', Bool.not_eq_false, List.isEmpty_iff, List.filterMap_eq_nil_iff] at h
  exact h (x, i) (List.mem_zipIdx_iff_getElem?.mpr (by simp [hi, hget]))

variable (s : StateMachine)

theorem submitJob_step (c : SubmitJob) : Step s (.submitJob c) (s.submitJob c) := by
  unfold submitJob
  split_ifs with hflag
  · exact .reject _ _
  · split
    · exact .reject _ _
    · split
      · exact .reject _ _
      · split
        · unfold resubmitJob
          simp only
          repeat' split
          all_goals first
            | exact .reject _ _
            | exact .noop rfl
        · rename_i hnew
          unfold submitNewJob
          simp only
          split
          · exact .reject _ _
          · split_ifs with hentity
            · exact .reject _ _
            · split
              · exact .reject _ _
              · rename_i hauth
                have hclear : c.job.abortRequested = none := by simpa using hflag
                refine .submit hnew ⟨?_, ?_, ?_, rfl, rfl, rfl, rfl⟩ (by simpa using hentity) hauth
                · cases c.actor <;> rfl
                · intro a ha
                  simp [ha]
                · cases c.actor <;> exact hclear

theorem abortJob_step (c : AbortJob) : Step s (.abortJob c) (s.abortJob c) := by
  unfold abortJob
  split
  · exact .reject _ _
  · rename_i r hr
    split_ifs with hterm
    · exact .reject _ _
    · split
      · exact .reject _ _
      · rename_i hauth
        have h : AbortPasses s c r := ⟨hr, by simpa using hterm, hauth⟩
        simp only
        split
        · rename_i hst
          exact .abortIdle h (by simp [hst])
        · rename_i hst
          exact .abortIdle h (by simp [hst])
        · rename_i hst
          exact .abortIdle h (by simp [hst])
        · rename_i id hst
          split
          · rename_i hnone
            refine .abortEnding h hst fun a ha => ?_
            rw [show s.attempts.get? id = none from hnone] at ha
            cases ha
          · rename_i a ha
            have ha' : s.attempts.get? id = some a := ha
            split
            · rename_i hast
              exact .abortUndispatched h hst ha' (.inl hast)
            · rename_i hast
              exact .abortUndispatched h hst ha' (.inr hast)
            · rename_i hast
              exact .abortDispatched h hst ha' (.inl hast)
            · rename_i hast
              exact .abortDispatched h hst ha' (.inr hast)
            · refine .abortEnding h hst fun b hb => ?_
              rw [ha'] at hb
              cases hb
              cases hast : a.attempt.state with
              | finalizing => exact .inl rfl
              | terminal o => exact .inr rfl
              | _ => simp_all
        · cases hst : r.state <;> simp_all [JobState.isTerminal]

theorem evictNodes_step (c : EvictNodes) : Step s (.evictNodes c) (s.evictNodes c) := by
  unfold StateMachine.evictNodes
  simp only
  split_ifs with hitems
  · exact .reject _ _
  · split
    · exact .reject _ _
    · rename_i hauth
      refine .evictNodes (fun n hn x hx => ?_) hauth
      obtain ⟨i, hi⟩ := filterMap_zipIdx_isEmpty hitems hn
      simp only [hx] at hi
      split_ifs at hi with hdrain hany
      refine ⟨by simpa using hdrain, fun al r hr hnode => ?_⟩
      cases hl : r.isLive with
      | false => rfl
      | true =>
        refine absurd ?_ hany
        rw [List.any_eq_true]
        exact ⟨r, OrdMap.mem_values.mpr ⟨al, hr⟩, by simp [hnode, hl]⟩

/-- An eviction writes the nodes and the queue, if anything. -/
theorem evictNodes_st (l : List NodeId) (s : StateMachine) : ∃ nodes queue,
    l.foldl evictNode s = { s with nodes := nodes, accrualQueue := queue } := by
  induction l generalizing s with
  | nil => exact ⟨_, _, rfl⟩
  | cons x rest ih =>
    have hone : ∃ nodes queue,
        s.evictNode x = { s with nodes := nodes, accrualQueue := queue } := by
      unfold evictNode
      split <;> exact ⟨_, _, rfl⟩
    obtain ⟨nodes, queue, h⟩ := ih (s.evictNode x)
    obtain ⟨nodes', queue', h'⟩ := hone
    exact ⟨nodes, queue, by rw [List.foldl_cons, h, h']⟩

/-- Promoting the records of a staged root writes the records of the active one. -/
theorem promote_st (holders intents : List (Nat × Timestamp)) (s : StateMachine) :
    ∃ confirmed intended, intents.foldl promoteIntent (holders.foldl promoteHolder s) =
      { s with keyConfirmations := confirmed, keyTransferIntents := intended } := by
  have hintents : ∀ (l : List (Nat × Timestamp)) (s : StateMachine), ∃ intended,
      l.foldl promoteIntent s = { s with keyTransferIntents := intended } := by
    intro l
    induction l with
    | nil => exact fun _ => ⟨_, rfl⟩
    | cons x rest ih =>
      intro s
      obtain ⟨intended, h⟩ := ih (s.promoteIntent x)
      refine ⟨intended, h.trans ?_⟩
      unfold promoteIntent
      split_ifs <;> rfl
  induction holders generalizing s with
  | nil =>
    obtain ⟨intended, h⟩ := hintents intents s
    exact ⟨s.keyConfirmations, intended, h⟩
  | cons x _ ih => exact ih (s.promoteHolder x)

/-- A certificate that is recorded changes the certificates and the records of their keys. -/
theorem recordCaCertificate_st (c : RecordCaCertificate) :
    (∃ r, s.recordCaCertificate c = s.reject r) ∨ ∃ ca staged confirmed intended,
      s.recordCaCertificate c = { s with
        ca := ca, stagedRoot := staged
        keyConfirmations := confirmed, keyTransferIntents := intended }.done := by
  unfold recordCaCertificate
  simp only
  split
  · split_ifs
    · exact .inl ⟨_, rfl⟩
    · exact .inr ⟨_, _, _, _, rfl⟩
  · split
    · exact .inr ⟨_, _, _, _, rfl⟩
    · rename_i staged _
      split_ifs
      · obtain ⟨confirmed, intended, h⟩ :=
          promote_st staged.holders.entries staged.intents.entries { s with stagedRoot := none }
        exact .inr ⟨_, none, confirmed, intended, by rw [h]⟩
      · exact .inr ⟨_, _, _, _, rfl⟩

/-- The commands about settings write settings only. -/
theorem setting_step {c : Command} (hkind : c.kind = .setting) : Step s c (s.dispatch c) := by
  cases c with
  | recordCaCertificate c =>
    simp only [dispatch]
    rcases s.recordCaCertificate_st c with ⟨r, h⟩ | ⟨_, _, _, _, h⟩
    · exact h ▸ .reject _ r
    · rw [h]
      exact .setting rfl ⟨⟨rfl, rfl, rfl, rfl, rfl⟩, rfl, rfl, fun _ => rfl, fun _ => rfl,
        Bool.noConfusion⟩ (by simp)
  | configureQuotaEntity c =>
    simp only [dispatch, configureQuotaEntity, reconfigureQuotaEntity, createQuotaEntity]
    repeat' split
    all_goals first
      | exact .reject _ _
      | exact .setting rfl ⟨⟨rfl, rfl, rfl, rfl, rfl⟩, rfl, rfl, fun h => absurd rfl (h c),
          fun _ => rfl, fun _ => ⟨rfl, rfl, rfl, rfl, rfl⟩⟩ (by simp [Event.OfSetting])
  | updatePolicy c =>
    simp only [dispatch, updatePolicy]
    repeat' split
    all_goals first
      | exact .reject _ _
      | exact .setting rfl ⟨⟨rfl, rfl, rfl, rfl, rfl⟩, rfl, rfl, fun _ => rfl,
          fun h => absurd rfl (h c), fun _ => ⟨rfl, rfl, rfl, rfl, rfl⟩⟩
          (by simp [Event.OfSetting])
  | updateAuthorization c | bumpClusterVersion c | mintEnrollToken c | revokeEnrollToken c
  | revokeIdentity c | recordEnrolledIdentity c =>
    simp only [dispatch, updateAuthorization, bumpClusterVersion, mintEnrollToken,
      revokeEnrollToken, revokeIdentity, recordEnrolledIdentity]
    repeat' split
    all_goals first
      | exact .reject _ _
      | exact .setting rfl ⟨⟨rfl, rfl, rfl, rfl, rfl⟩, rfl, rfl, fun _ => rfl, fun _ => rfl,
          fun _ => ⟨rfl, rfl, rfl, rfl, rfl⟩⟩ (by simp [Event.OfSetting])
  | bindMachineIdentity c | rebindMachineAddress c | retireMachineBinding c
  | confirmKeyPossession c | recordKeyTransferIntent c | recordStagedKeyTransferIntent c
  | confirmStagedKeyPossession c =>
    simp only [dispatch, bindMachineIdentity, rebindMachineAddress, retireMachineBinding,
      confirmKeyPossession, recordKeyTransferIntent, recordStagedKeyTransferIntent,
      confirmStagedKeyPossession]
    repeat' split
    all_goals first
      | exact .reject _ _
      | exact .noop rfl
      | exact .setting rfl ⟨⟨rfl, rfl, rfl, rfl, rfl⟩, rfl, rfl, fun _ => rfl, fun _ => rfl,
          Bool.noConfusion⟩ (by simp)
  | _ c => cases hkind

theorem dispatch_step (c : Command) : Step s c (s.dispatch c) := by
  cases c with
  | submitJob c => exact s.submitJob_step c
  | abortJob c => exact s.abortJob_step c
  | evictNodes c => exact s.evictNodes_step c
  | registerNode c => exact .register c
  | updateJobMetadata c =>
    simp only [dispatch, updateJobMetadata]
    repeat' split
    all_goals first
      | exact .reject _ _
      | exact .noop rfl
      | exact .metadata ‹_› ‹_›
  | commitPlacements c =>
    simp only [dispatch, commitPlacements]
    split_ifs with hitems
    · exact .reject _ _
    · split
      · exact .reject _ _
      · exact .commit (by simpa using hitems) ‹_›
  | dispatchAttempt c =>
    simp only [dispatch, StateMachine.dispatchAttempt]
    repeat' split
    · exact .reject _ _
    · exact .reject _ _
    · exact .dispatchAttempt ‹_› (not_not.mp ‹_›)
  | recordAttemptStarted c =>
    simp only [dispatch, recordAttemptStarted]
    repeat' split
    · exact .reject _ _
    · exact .reject _ _
    · exact .started ‹_› (not_not.mp ‹_›)
  | recordAttemptExited c =>
    simp only [dispatch, recordAttemptExited]
    repeat' split
    · exact .reject _ _
    · exact .reject _ _
    · exact .exited ‹_› (not_not.mp ‹_›)
  | recordAttemptOutcome c =>
    simp only [dispatch, recordAttemptOutcome]
    split
    · exact .reject _ _
    · split_ifs with hterm hrev
      · exact .reject _ _
      · exact .reject _ _
      · exact .outcome ‹_› (by simpa using hterm) fun h => by
          simpa [h, Option.isSome_iff_ne_none] using hrev
  | reconcileNode c =>
    simp only [dispatch, reconcileNode]
    split
    · exact .reject _ _
    · split_ifs with hepoch hitems
      · exact .reject _ _
      · exact .reject _ _
      · exact .reconcile ‹_› (not_not.mp hepoch) (by simpa using hitems)
  | recordAttemptNotified c =>
    simp only [dispatch, recordAttemptNotified]
    repeat' split
    · exact .reject _ _
    · exact .reject _ _
    · exact .noop rfl
    · exact .notified ‹_› (not_not.mp ‹_›) ‹_›
  | declareNodeLost c =>
    simp only [dispatch, declareNodeLost]
    split
    · exact .reject _ _
    · exact .lost ‹_›
  | setNodeDrain c =>
    simp only [dispatch, setNodeDrain]
    repeat' split
    all_goals first
      | exact .reject _ _
      | exact .noop rfl
      | exact .setDrain _ ‹_› ‹_›
  | setNodeDraining c =>
    simp only [dispatch, setNodeDraining]
    split
    · exact .reject _ _
    · exact .setDraining ‹_›
  | evictTerminalJobs c =>
    simp only [dispatch, evictTerminalJobs]
    split_ifs with hitems
    · exact .reject _ _
    · refine .evictJobs fun j hj r hr => ?_
      obtain ⟨i, hi⟩ := filterMap_zipIdx_isEmpty hitems hj
      simp only [hr] at hi
      split_ifs at hi with hterm
      exact hterm
  | renewIntervalCharges c =>
    simp only [dispatch, renewIntervalCharges]
    split_ifs with hitems
    · exact .reject _ _
    · refine .renew fun r hr a ha => ?_
      obtain ⟨i, hi⟩ := filterMap_zipIdx_isEmpty hitems hr
      simp only [ha] at hi
      split_ifs at hi with hint
      simpa using hint
  | _ c => exact s.setting_step rfl

end StateMachine

end Coppice.State
