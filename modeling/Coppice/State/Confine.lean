/-
  Coppice.State.Confine

  What an actor with scoped bindings can reach.  Its realm is the union of the
  subtrees of its scopes; outside it, entities are at most billed, and the jobs of
  others see no more than freed capacity.
-/

import Coppice.State.Lifespan
import Coppice.State.Reports

namespace Coppice.State

open Lib Coppice.Core OrdMap Effects

/-! ## The quota tree along runs -/

/-- Parents and the entities that jobs are charged to exist. -/
structure Rooted (s : StateMachine) : Prop where
  parents : ∀ {e q p}, s.quotaEntities.get? e = some q → q.parent = some p →
    s.quotaEntities.contains p = true
  jobs : ∀ {j r}, s.jobs.get? j = some r → s.quotaEntities.contains r.spec.quotaEntity = true

theorem StateMachine.apply_grown (s : StateMachine) (c : Command) : Grown s (s.apply c).1 :=
  ⟨(s.dispatch_atomic c).grown.kept, (s.dispatch_atomic c).grown.planted⟩

variable {s s' : StateMachine} {e scope : QuotaEntityId} {r' : JobRecord}

theorem Grown.contains (h : Grown s s') (he : s.quotaEntities.contains e = true) :
    s'.quotaEntities.contains e = true := by
  obtain ⟨q, hq⟩ := contains_iff.mp he
  obtain ⟨q', hq', -⟩ := h.kept e q hq
  exact contains_iff.mpr ⟨q', hq'⟩

theorem JobRecord.Ages.quotaEntity {r : JobRecord} (h : r.Ages r') :
    r'.spec.quotaEntity = r.spec.quotaEntity := by rw [h.spec]

theorem JobRecord.Ages.submittedBy {r : JobRecord} (h : r.Ages r') :
    r'.spec.submittedBy = r.spec.submittedBy := by rw [h.spec]

/-- The entity of a job that a command adds is there. -/
theorem Reachable.submitted_entity (h : Reachable s) {c : Command} {j : JobId}
    (hnone : s.jobs.get? j = none) (hr' : (s.apply c).1.jobs.get? j = some r') :
    (s.apply c).1.quotaEntities.contains r'.spec.quotaEntity = true := by
  cases hres : (s.apply c).2 with
  | error e =>
    rw [(StateMachine.rejected_same hres).1, hnone] at hr'
    cases hr'
  | ok x =>
    have hj := (h.history hres).jobs j
    rw [hnone, hr'] at hj
    generalize jobSteps j x.events = steps at hj
    cases hj with
    | told hj => cases hj
    | submitted _ he => exact he

theorem Reachable.rooted (h : Reachable s) : Rooted s := by
  have hboth : Reachable s ∧ Rooted s := by
    refine Reach.invariant (fun s => Reachable s ∧ Rooted s)
      ⟨.init, ⟨fun {e q p} hq => ?_, fun {j r} hr => ?_⟩⟩ ?_ h
    · cases hq
    · cases hr
    · rintro s c ⟨hs, hroot⟩ -
      have hg := s.apply_grown c
      refine ⟨hs.apply c, fun {e q' p} hq' hp => ?_, fun {j r'} hr' => ?_⟩
      · cases hq : s.quotaEntities.get? e with
        | none => exact hg.contains (hg.planted e q' p hq' hq hp)
        | some q =>
          obtain ⟨q'', hq'', hparent⟩ := hg.kept e q hq
          rw [hq'] at hq''
          cases hq''
          exact hg.contains (hroot.parents hq (hparent ▸ hp))
      · cases hr : s.jobs.get? j with
        | none => exact hs.submitted_entity hr hr'
        | some r =>
          rw [(hs.jobLife hr hr').ages.quotaEntity]
          exact hg.contains (hroot.jobs hr)
  exact hboth.2

/-! ## Realms -/

/-- The entity is `scope` or below it. -/
inductive Under (s : StateMachine) (scope : QuotaEntityId) : QuotaEntityId → Prop where
  | here : Under s scope scope
  | up {e p : QuotaEntityId} {q : QuotaEntity} : s.quotaEntities.get? e = some q →
      q.parent = some p → Under s scope p → Under s scope e

/-- Every binding that matches the actor has a scope. -/
def StateMachine.Scoped (s : StateMachine) (actor : Actor) : Prop :=
  ∀ b ∈ s.bindings, Authz.matchesSubject b.subject actor = true → b.scope.isSome = true

/-- The entity lies in a subtree that a binding of the actor is scoped to. -/
def StateMachine.Realm (s : StateMachine) (actor : Actor) (e : QuotaEntityId) : Prop :=
  ∃ b ∈ s.bindings, Authz.matchesSubject b.subject actor = true ∧
    ∃ scope, b.scope = some scope ∧ Under s scope e

theorem Under.grown (hg : Grown s s') (h : Under s scope e) : Under s' scope e := by
  induction h with
  | here => exact .here
  | up hq hp _ ih =>
    obtain ⟨q', hq', hparent⟩ := hg.kept _ _ hq
    exact .up hq' (hparent.trans hp) ih

/-- Growth puts no entity that was there under another one. -/
theorem Under.of_grown (hg : Grown s s') (hroot : Rooted s) (h : Under s' scope e)
    (he : s.quotaEntities.contains e = true) : Under s scope e := by
  induction h with
  | here => exact .here
  | up hq' hp _ ih =>
    obtain ⟨q, hq⟩ := contains_iff.mp he
    obtain ⟨q'', hq'', hparent⟩ := hg.kept _ _ hq
    rw [hq'] at hq''
    cases hq''
    rw [hparent] at hp
    exact .up hq hp (ih (hroot.parents hq hp))

namespace StateMachine

variable {actor : Actor}

theorem Realm.grown (hg : Grown s s') (hb : s'.bindings = s.bindings) {e : QuotaEntityId}
    (h : s.Realm actor e) : s'.Realm actor e := by
  obtain ⟨b, hmem, hsub, scope, hscope, hunder⟩ := h
  exact ⟨b, hb ▸ hmem, hsub, scope, hscope, hunder.grown hg⟩

theorem Realm.of_grown (hg : Grown s s') (hb : s'.bindings = s.bindings) (hroot : Rooted s)
    {e : QuotaEntityId} (h : s'.Realm actor e) (he : s.quotaEntities.contains e = true) :
    s.Realm actor e := by
  obtain ⟨b, hmem, hsub, scope, hscope, hunder⟩ := h
  exact ⟨b, hb ▸ hmem, hsub, scope, hscope, hunder.of_grown hg hroot he⟩

end StateMachine

/-! ## What a scoped actor is granted -/

/-- The walk of `covers` stays on the chain of parents. -/
theorem Authz.under_of_coversFuel (fuel : Nat)
    (h : Authz.coversFuel s.quotaEntities scope fuel (some e) = true) : Under s scope e := by
  induction fuel generalizing e with
  | zero => cases h
  | succ fuel ih =>
    unfold Authz.coversFuel at h
    split_ifs at h with he
    · rw [he]
      exact .here
    · cases hup : (s.quotaEntities.get? e).bind QuotaEntity.parent with
      | none =>
        rw [hup] at h
        cases fuel <;> cases h
      | some p =>
        rw [hup] at h
        obtain ⟨q, hq, hp⟩ := Option.bind_eq_some_iff.mp hup
        exact .up hq hp (ih h)

namespace StateMachine

variable {actor : Actor} {verb : Verb}

theorem Scoped.realm_of_holdsOver (hs : s.Scoped actor) {role : Role}
    (h : Authz.holdsOver s.bindings s.quotaEntities actor role e = true) : s.Realm actor e := by
  obtain ⟨b, hmem, hb⟩ := List.any_eq_true.mp h
  simp only [Bool.and_eq_true] at hb
  obtain ⟨⟨-, hsub⟩, hcov⟩ := hb
  obtain ⟨scope, hscope⟩ := Option.isSome_iff_exists.mp (hs b hmem hsub)
  unfold Authz.covers at hcov
  simp only [hscope] at hcov
  exact ⟨b, hmem, hsub, scope, hscope, Authz.under_of_coversFuel _ hcov⟩

theorem Scoped.holdsUnscoped (hs : s.Scoped actor) (role : Role) :
    Authz.holdsUnscoped s.bindings actor role = false := by
  rw [Authz.holdsUnscoped, List.any_eq_false]
  intro b hmem hb
  simp only [Bool.and_eq_true] at hb
  obtain ⟨⟨-, hnone⟩, hsub⟩ := hb
  have hsome := hs b hmem hsub
  cases hscope : b.scope <;> simp [hscope] at hnone hsome

theorem authorize_ok (h : s.authorize (some actor) verb = .ok ()) :
    Authz.evaluate s.bindings s.quotaEntities actor verb = .ok () := by
  simp only [authorize] at h
  split at h
  · assumption
  · cases h

section

variable (hs : s.Scoped actor) (hadm : actor.isImplicitAdmin = false)

include hs hadm

/-- Verbs over the cluster are refused. -/
theorem Scoped.denied (hverb : verb = .drain ∨ verb = .updatePolicy ∨ verb = .updateAuthorization ∨
      verb = .bumpClusterVersion) : ∃ e, s.authorize (some actor) verb = .error e := by
  have hno := hs.holdsUnscoped
  rcases hverb with rfl | rfl | rfl | rfl <;>
    simp [authorize, Authz.evaluate, hadm, hno]

theorem Scoped.submit (h : s.authorize (some actor) (.submit e) = .ok ()) : s.Realm actor e := by
  have hev := authorize_ok h
  simp only [Authz.evaluate, hadm, Bool.false_eq_true, if_false] at hev
  split_ifs at hev with hold
  exact hs.realm_of_holdsOver hold

/-- A job may be written by its owner or in the realm of an operator. -/
theorem Scoped.overJob {owner : Option String}
    (hverb : verb = .abort e owner ∨ verb = .updateJobMetadata e owner)
    (h : s.authorize (some actor) verb = .ok ()) :
    s.Realm actor e ∨ owner = some actor.principal := by
  have hev := authorize_ok h
  rcases hverb with rfl | rfl <;>
  · simp only [Authz.evaluate, hadm, Bool.false_eq_true, if_false] at hev
    split_ifs at hev with howner hold
    · exact .inr howner.2
    · exact .inl (hs.realm_of_holdsOver hold)

/-- An entity that is configured, or the parent of a new one, lies in the realm. -/
theorem Scoped.configure {parent : Option QuotaEntityId}
    (h : s.authorize (some actor) (.configureQuotaEntity e parent) = .ok ()) :
    s.quotaEntities.contains e = true ∧ s.Realm actor e ∨
      s.quotaEntities.contains e = false ∧ ∃ p, parent = some p ∧ s.Realm actor p := by
  have hev := authorize_ok h
  simp only [Authz.evaluate, hadm, hs.holdsUnscoped, Bool.false_eq_true, if_false] at hev
  split_ifs at hev with hmem hold
  · exact .inl ⟨hmem, hs.realm_of_holdsOver hold⟩
  · rw [Bool.not_eq_true] at hmem
    cases parent with
    | none => cases hev
    | some p =>
      simp only at hev
      split_ifs at hev with hold
      exact .inr ⟨hmem, p, rfl, hs.realm_of_holdsOver hold⟩

end

end StateMachine

/-! ## Confinement -/

/-- The actor of a command; only what users propose carries one. -/
def Command.actor : Command → Option Actor
  | .submitJob c => c.actor
  | .abortJob c => c.actor
  | .updateJobMetadata c => c.actor
  | .setNodeDrain c => c.actor
  | .evictNodes c => c.actor
  | .configureQuotaEntity c => c.actor
  | .updatePolicy c => c.actor
  | .updateAuthorization c => c.actor
  | .bumpClusterVersion c => c.actor
  | _ => none

/-- A job charged outside the realm that the actor did not submit. -/
def StateMachine.Foreign (s : StateMachine) (actor : Actor) (r : JobRecord) : Prop :=
  ¬s.Realm actor r.spec.quotaEntity ∧ r.spec.submittedBy ≠ some actor.principal

/-- Between the two states nothing beyond the actor's reach has changed. -/
structure Confined (actor : Actor) (s s' : StateMachine) : Prop where
  bindings : s'.bindings = s.bindings
  policy : s'.policy = s.policy
  clusterVersion : s'.clusterVersion = s.clusterVersion
  nodes : s'.nodes = s.nodes
  /-- outside the realm an entity is at most billed -/
  entities : ∀ {e q}, s.quotaEntities.get? e = some q →
    ∃ q', s'.quotaEntities.get? e = some q' ∧ q'.parent = q.parent ∧
      (¬s.Realm actor e → q.Billed q')
  created : ∀ {e q'}, s'.quotaEntities.get? e = some q' → s.quotaEntities.get? e = none →
    s'.Realm actor e
  /-- the realm grows by new entities only -/
  realm : ∀ {e}, s.quotaEntities.contains e = true → (s'.Realm actor e ↔ s.Realm actor e)
  jobs : ∀ {j r}, s.jobs.get? j = some r → s.Foreign actor r → s'.jobs.get? j = some r
  owners : ∀ {j r}, s.jobs.get? j = some r → ∃ r', s'.jobs.get? j = some r' ∧
    r'.spec.quotaEntity = r.spec.quotaEntity ∧ r'.spec.submittedBy = r.spec.submittedBy
  submitted : ∀ {j r'}, s'.jobs.get? j = some r' → s.jobs.get? j = none →
    r'.spec.submittedBy = some actor.principal ∧ s'.Realm actor r'.spec.quotaEntity
  attempts : ∀ {id a r}, s.attempts.get? id = some a → s.jobs.get? a.attempt.job = some r →
    s.Foreign actor r → ∃ a', s'.attempts.get? id = some a' ∧ a.Readied a'
  placed : ∀ {id}, s.attempts.get? id = none → s'.attempts.get? id = none

namespace Confined

variable {actor : Actor} {s'' : StateMachine}

/-- The version counter is nobody's. -/
theorem version (actor : Actor) (s : StateMachine) (v : UInt64) :
    Confined actor s { s with version := v } where
  bindings := rfl
  policy := rfl
  clusterVersion := rfl
  nodes := rfl
  entities {_ q} hq := ⟨q, hq, rfl, fun _ => .refl q⟩
  created {e q'} hq' hnone := by
    have hq : s.quotaEntities.get? e = some q' := hq'
    rw [hq] at hnone
    cases hnone
  realm _ := by
    have hup : Grown s { s with version := v } := .of_eq rfl
    have hdown : Grown { s with version := v } s := .of_eq rfl
    exact ⟨fun h => h.grown hdown rfl, fun h => h.grown hup rfl⟩
  jobs hr _ := hr
  owners {_ r} hr := ⟨r, hr, rfl, rfl⟩
  submitted {j r'} hr' hnone := by
    have hr : s.jobs.get? j = some r' := hr'
    rw [hr] at hnone
    cases hnone
  attempts {_ a _} ha _ _ := ⟨a, ha, .same⟩
  placed hnone := hnone

theorem refl (actor : Actor) (s : StateMachine) : Confined actor s s := version actor s s.version

theorem contains (h : Confined actor s s') {e : QuotaEntityId}
    (he : s.quotaEntities.contains e = true) : s'.quotaEntities.contains e = true := by
  obtain ⟨q, hq⟩ := contains_iff.mp he
  obtain ⟨q', hq', -⟩ := h.entities hq
  exact contains_iff.mpr ⟨q', hq'⟩

theorem foreign (h : Confined actor s s') (hroot : Rooted s) {j : JobId} {r : JobRecord}
    (hr : s.jobs.get? j = some r) (hf : s.Foreign actor r) : s'.Foreign actor r :=
  ⟨fun hrealm => hf.1 ((h.realm (hroot.jobs hr)).mp hrealm), hf.2⟩

theorem trans (h : Confined actor s s') (h' : Confined actor s' s'') (hroot : Rooted s)
    (hroot' : Rooted s') : Confined actor s s'' where
  bindings := h'.bindings.trans h.bindings
  policy := h'.policy.trans h.policy
  clusterVersion := h'.clusterVersion.trans h.clusterVersion
  nodes := h'.nodes.trans h.nodes
  entities {e q} hq := by
    obtain ⟨q', hq', hp, hbill⟩ := h.entities hq
    obtain ⟨q'', hq'', hp', hbill'⟩ := h'.entities hq'
    have he := contains_iff.mpr ⟨q, hq⟩
    exact ⟨q'', hq'', hp'.trans hp, fun hout =>
      (hbill hout).trans (hbill' fun hin => hout ((h.realm he).mp hin))⟩
  created {e q''} hq'' hnone := by
    cases hq' : s'.quotaEntities.get? e with
    | none => exact h'.created hq'' hq'
    | some q' =>
      exact (h'.realm (contains_iff.mpr ⟨q', hq'⟩)).mpr (h.created hq' hnone)
  realm he := (h'.realm (h.contains he)).trans (h.realm he)
  jobs hr hf := h'.jobs (h.jobs hr hf) (h.foreign hroot hr hf)
  owners {_ r} hr := by
    obtain ⟨r', hr', he, ho⟩ := h.owners hr
    obtain ⟨r'', hr'', he', ho'⟩ := h'.owners hr'
    exact ⟨r'', hr'', he'.trans he, ho'.trans ho⟩
  submitted {j r''} hr'' hnone := by
    cases hr' : s'.jobs.get? j with
    | none => exact h'.submitted hr'' hr'
    | some r' =>
      obtain ⟨hby, hrealm⟩ := h.submitted hr' hnone
      obtain ⟨x, hx, he, ho⟩ := h'.owners hr'
      rw [hr''] at hx
      cases hx
      rw [he, ho]
      exact ⟨hby, (h'.realm (hroot'.jobs hr')).mpr hrealm⟩
  attempts {id a r} ha hr hf := by
    obtain ⟨a', ha', hready⟩ := h.attempts ha hr hf
    have hr' : s'.jobs.get? a'.attempt.job = some r := by
      rw [hready.job]
      exact h.jobs hr hf
    obtain ⟨a'', ha'', hready'⟩ := h'.attempts ha' hr' (h.foreign hroot hr hf)
    exact ⟨a'', ha'', hready.trans hready'⟩
  placed hnone := h'.placed (h.placed hnone)

/-- Attempts of the job may change, and those of others become ready. -/
def Moves (job : JobId) (s s' : StateMachine) : Prop :=
  ∀ id, s'.attempts.get? id = s.attempts.get? id ∨
    ∃ a a', s.attempts.get? id = some a ∧ s'.attempts.get? id = some a' ∧
      (a.attempt.job = job ∨ a.Readied a')

/-- A command that writes one job of the actor's, and lets the attempts of others
    become ready. -/
theorem onJob {job : JobId} (hroot : Rooted s) (hf : Framed s s')
    (hjobs : s'.jobs = s.jobs.insert job r')
    (hold : ∀ r, s.jobs.get? job = some r → ¬s.Foreign actor r ∧
      r'.spec.quotaEntity = r.spec.quotaEntity ∧ r'.spec.submittedBy = r.spec.submittedBy)
    (hnew : s.jobs.get? job = none →
      r'.spec.submittedBy = some actor.principal ∧ s.Realm actor r'.spec.quotaEntity)
    (hatt : Moves job s s') : Confined actor s s' := by
  have hg : Grown s s' := .of_billed hf.entities
  refine ⟨hf.bindings, hf.policy, hf.clusterVersion, hf.nodes, fun {e q} hq => ?_,
    fun {e q'} hq' hnone => ?_, fun {e} he => ⟨fun h => ?_, fun h => ?_⟩, fun {j r} hr hfor => ?_,
    fun {j r} hr => ?_, fun {j x} hx hnone => ?_, fun {id a r} ha hr hfor => ?_,
    fun {id} hnone => ?_⟩
  · obtain ⟨q', hq', hb⟩ := hf.entities.some hq
    exact ⟨q', hq', hb.parent, fun _ => hb⟩
  · rw [← hf.entities.none_iff, hq'] at hnone
    cases hnone
  · exact h.of_grown hg hf.bindings hroot he
  · exact h.grown hg hf.bindings
  · rw [hjobs, get?_insert]
    split_ifs with e
    · exact absurd hfor (hold r (e ▸ hr)).1
    · exact hr
  · rw [hjobs, get?_insert]
    split_ifs with e
    · exact ⟨r', rfl, (hold r (e ▸ hr)).2⟩
    · exact ⟨r, hr, rfl, rfl⟩
  · rw [hjobs, get?_insert] at hx
    split_ifs at hx with e
    · cases hx
      obtain ⟨hby, hrealm⟩ := hnew (e ▸ hnone)
      exact ⟨hby, hrealm.grown hg hf.bindings⟩
    · rw [hx] at hnone
      cases hnone
  · rcases hatt id with hsame | ⟨b, b', hb, hb', hmine | hready⟩
    · exact ⟨a, hsame.trans ha, .same⟩
    · rw [ha] at hb
      cases hb
      exact absurd hfor (hold r (hmine ▸ hr)).1
    · rw [ha] at hb
      cases hb
      exact ⟨b', hb', hready⟩
  · rcases hatt id with hsame | ⟨b, b', hb, -, -⟩
    · exact hsame.trans hnone
    · rw [hnone] at hb
      cases hb

/-- A command that writes one entity of the realm. -/
theorem onEntity {e0 : QuotaEntityId} {q0 : QuotaEntity} (hroot : Rooted s)
    (hs' : s' = { s with quotaEntities := s.quotaEntities.insert e0 q0 }) (hg : Grown s s')
    (hold : s.quotaEntities.contains e0 = true → s.Realm actor e0)
    (hnew : s.quotaEntities.get? e0 = none → s'.Realm actor e0) : Confined actor s s' := by
  have hb : s'.bindings = s.bindings := by rw [hs']
  have hget e : s'.quotaEntities.get? e = if e0 = e then some q0 else s.quotaEntities.get? e := by
    rw [hs', get?_insert]
  have hjobs : s'.jobs = s.jobs := by rw [hs']
  have hatt : s'.attempts = s.attempts := by rw [hs']
  refine ⟨hb, by rw [hs'], by rw [hs'], by rw [hs'], fun {e q} hq => ?_, fun {e q'} hq' hnone => ?_,
    fun {e} he => ⟨fun h => ?_, fun h => ?_⟩, fun hr _ => by rw [hjobs, hr],
    fun {j r} hr => ⟨r, by rw [hjobs, hr], rfl, rfl⟩, fun {j r'} hr' hnone => ?_,
    fun {id a r} ha _ _ => ⟨a, by rw [hatt, ha], .same⟩, fun hnone => by rw [hatt, hnone]⟩
  · obtain ⟨q', hq', hparent⟩ := hg.kept e q hq
    refine ⟨q', hq', hparent, fun hout => ?_⟩
    rw [hget] at hq'
    split_ifs at hq' with h
    · rw [← h] at hout hq
      exact absurd (hold (contains_iff.mpr ⟨q, hq⟩)) hout
    · rw [hq] at hq'
      cases hq'
      exact .refl q
  · rw [hget] at hq'
    split_ifs at hq' with h
    · rw [← h] at hnone ⊢
      exact hnew hnone
    · rw [hq'] at hnone
      cases hnone
  · exact h.of_grown hg hb hroot he
  · exact h.grown hg hb
  · rw [hjobs, hnone] at hr'
    cases hr'

end Confined

/-! ## The commands -/

namespace StateMachine

variable {actor : Actor}

/-- Writing a job that the actor may write. -/
theorem edited_confined (hroot : Rooted s) {s' : StateMachine} {job : JobId} {r r' : JobRecord}
    (hr : s.jobs.get? job = some r) (hmine : ¬s.Foreign actor r) (hages : r.Ages r')
    (hf : Framed s s') (hjobs : s'.jobs = s.jobs.insert job r') (hatt : Confined.Moves job s s') :
    Confined actor s s' := by
  refine .onJob hroot hf hjobs (fun x hx => ?_) (fun hnone => ?_) hatt
  · rw [hr] at hx
    cases hx
    exact ⟨hmine, hages.quotaEntity, hages.submittedBy⟩
  · rw [hr] at hnone
    cases hnone

/-- The undispatched attempt of an aborted job ends; freed capacity may make attempts
    of other jobs ready. -/
theorem abortUndispatched_confined (h : Consistent s) (hroot : Rooted s) {job : JobId}
    {r : JobRecord} (q : AbortRequest) (at_ : Timestamp) {id : AttemptId}
    (hr : s.jobs.get? job = some r) (hst : r.state = .attempting id) (hmine : ¬s.Foreign actor r) :
    Confined actor s ((start (s.abortFlagged job q)).terminateAttempt id .aborted
      Duration.zero at_ true).st := by
  obtain ⟨a, ha, rfl, hlive⟩ := h.jobs.attempting hr hst
  have hS : Sound ∅ (start (s.abortFlagged a.attempt.job q)) :=
    (abortFlagged_consistent h a.attempt.job q).sound ∅ []
  obtain ⟨hjobs, helse⟩ := hS.books.terminateAttempt_elsewhere .aborted Duration.zero at_ true ha
    hlive
  obtain ⟨-, -, a', ha', hend⟩ := hS.terminateAttempt .aborted Duration.zero at_ true ha hlive
    fun _ => rfl
  have hstate : (r.requestAbort q).state = .attempting id := (r.requestAbort_spec q).1.trans hst
  have hflag : Framed s (start (s.abortFlagged a.attempt.job q)).st := .same rfl rfl
  refine edited_confined hroot hr hmine ((JobLife.requestsAbort s q r).ages.trans
    (JobLife.resolves at_ hstate ha' hend).2.ages)
    (hflag.trans (terminateAttempt_progressed _ _ _ _ _ _).moved.framed) ?_ fun i => ?_
  · rw [hjobs]
    show (s.jobs.modify a.attempt.job (JobRecord.requestAbort q)).modify a.attempt.job _ = _
    rw [modify_modify, modify_of_some _ hr]
    rfl
  · by_cases hi : i = id
    · rw [hi]
      exact .inr ⟨a, a', ha, ha', .inl rfl⟩
    · rcases helse i hi with hsame | ⟨b, hb, hacc, hb'⟩
      · exact .inl hsame
      · exact .inr ⟨b, b.readied, hb, hb', .inr (.ready hacc)⟩

/-- The commands over jobs. -/
theorem Step.confined (hstep : Step s c out) (h : Consistent s) (hroot : Rooted s)
    (hs : s.Scoped actor) (hadm : actor.isImplicitAdmin = false) (hk : c.kind = .work)
    (hc : c.actor = some actor) : Confined actor s out.1 := by
  have hmine : ∀ {c : AbortJob} {r}, c.actor = some actor → AbortPasses s c r →
      ¬s.Foreign actor r := by
    intro c r hc hab hf
    have hauth := hab.auth
    rw [hc] at hauth
    exact (hs.overJob hadm (.inl rfl) hauth).elim hf.1 hf.2
  have hflag {c : AbortJob} {r} (hc : c.actor = some actor) (hab : AbortPasses s c r) : Confined
      actor s (s.aborting c).st := by
    exact edited_confined hroot hab.job (hmine hc hab) (JobLife.requestsAbort s _ r).ages
      (.same rfl rfl) (modify_of_some _ hab.job) fun _ => .inl rfl
  cases hstep with
  | reject | noop => exact .refl actor s
  | @submit c _ hnew hr _ hauth =>
    have hactor : c.actor = some actor := hc
    rw [hactor] at hauth
    refine .onJob hroot (.same rfl rfl) rfl (fun x hx => ?_)
      (fun _ => ⟨hr.owner actor hactor, hr.entity ▸ hs.submit hadm hauth⟩) (fun _ => .inl rfl)
    rw [hnew] at hx
    cases hx
  | @abortIdle c r hab hidle =>
    rw [finish, show ((s.aborting c).jobTerminalTransition c.job .aborted
      c.requestedAt).st = _ from abortIdle_st _ c.requestedAt hab.job]
    exact edited_confined hroot hab.job (hmine hc hab) (JobLife.aborts s _ _
      (hab.edge hidle) hidle).ages (.same rfl rfl) rfl fun _ => .inl rfl
  | abortUndispatched hab hst =>
    exact abortUndispatched_confined h hroot _ _ hab.job hst (hmine hc hab)
  | abortDispatched hab | abortEnding hab => exact hflag hc hab
  | @metadata c r hr hauth =>
    rw [show c.actor = some actor from hc] at hauth
    have hages : r.Ages { r with spec := { r.spec with
        metadata := JobMetadataUpdate.apply c.update r.spec.metadata } } :=
      ⟨fun _ => ⟨rfl, rfl, rfl, rfl⟩, fun _ h => h, rfl⟩
    exact edited_confined hroot hr (fun hf => (hs.overJob hadm (.inr rfl) hauth).elim hf.1 hf.2)
      hages (.same rfl rfl) (modify_of_some _ hr) fun _ => .inl rfl
  | setting hkind =>
    rw [hk] at hkind
    cases hkind
  | setDrain | evictNodes => cases hk
  | _ => cases hc

theorem configureQuotaEntity_confined (hroot : Rooted s) (hs : s.Scoped actor)
    (hadm : actor.isImplicitAdmin = false) {c : ConfigureQuotaEntity} (hc : c.actor = some actor) :
    Confined actor s (s.configureQuotaEntity c).1 := by
  have hauth : s.authorize c.actor (.configureQuotaEntity c.entity c.parent) = .ok () →
      s.quotaEntities.contains c.entity = true ∧ s.Realm actor c.entity ∨
        s.quotaEntities.contains c.entity = false ∧ ∃ p, c.parent = some p ∧ s.Realm actor p := by
    rw [hc]
    exact hs.configure hadm
  have hg := (s.configureQuotaEntity_atomic c).grown
  generalize hout : s.configureQuotaEntity c = out at hg ⊢
  unfold configureQuotaEntity at hout
  split at hout
  · rename_i existing hq
    have hin := contains_iff.mpr ⟨existing, hq⟩
    unfold reconfigureQuotaEntity at hout
    split at hout
    · subst hout
      exact .refl actor s
    · rename_i hok
      split_ifs at hout
      · subst hout
        exact .refl actor s
      · subst hout
        refine .onEntity hroot rfl hg (fun _ => ?_) (fun hnone => ?_)
        · rcases hauth hok with ⟨-, hrealm⟩ | ⟨habsent, -⟩
          · exact hrealm
          · rw [hin] at habsent
            cases habsent
        · rw [hq] at hnone
          cases hnone
  · rename_i hq
    have habsent := contains_eq_false_iff.mpr hq
    unfold createQuotaEntity at hout
    repeat' split at hout
    all_goals subst hout
    case h_2 hok _ _ =>
      refine .onEntity hroot rfl hg (fun hin => ?_) (fun _ => ?_)
      · rw [habsent] at hin
        cases hin
      · rcases hauth hok with ⟨hin, -⟩ | ⟨-, p, hp, hrealm⟩
        · rw [habsent] at hin
          cases hin
        · obtain ⟨b, hmem, hsub, scope, hscope, hunder⟩ := hrealm.grown hg rfl
          exact ⟨b, hmem, hsub, scope, hscope, .up (get?_insert_self _ _ _) hp hunder⟩
    all_goals exact .refl actor s

/-- The commands over the cluster do nothing. -/
theorem denied_confined (hs : s.Scoped actor) (hadm : actor.isImplicitAdmin = false) :
    (∀ c : SetNodeDrain, c.actor = some actor → (s.setNodeDrain c).1 = s) ∧
      (∀ c : EvictNodes, c.actor = some actor → (s.evictNodes c).1 = s) ∧
      (∀ c : UpdatePolicy, c.actor = some actor → (s.updatePolicy c).1 = s) ∧
      (∀ c : UpdateAuthorization, c.actor = some actor → (s.updateAuthorization c).1 = s) ∧
      ∀ c : BumpClusterVersion, c.actor = some actor → (s.bumpClusterVersion c).1 = s := by
  refine ⟨fun c hc => ?_, fun c hc => ?_, fun c hc => ?_, fun c hc => ?_, fun c hc => ?_⟩
  · obtain ⟨e, he⟩ := hs.denied hadm (.inl rfl)
    unfold setNodeDrain
    rw [hc, he]
    split <;> rfl
  · obtain ⟨e, he⟩ := hs.denied hadm (.inl rfl)
    unfold evictNodes
    rw [hc, he]
    simp only
    split_ifs <;> rfl
  · obtain ⟨e, he⟩ := hs.denied hadm (.inr (.inl rfl))
    unfold updatePolicy
    rw [hc, he]
    split <;> rfl
  · obtain ⟨e, he⟩ := hs.denied hadm (.inr (.inr (.inl rfl)))
    unfold updateAuthorization
    rw [hc, he]
    rfl
  · obtain ⟨e, he⟩ := hs.denied hadm (.inr (.inr (.inr rfl)))
    unfold bumpClusterVersion
    rw [hc, he]
    split_ifs <;> rfl

theorem dispatch_confined (h : Consistent s) (hroot : Rooted s) (hs : s.Scoped actor)
    (hadm : actor.isImplicitAdmin = false) {c : Command} (hc : c.actor = some actor) :
    Confined actor s (s.dispatch c).1 := by
  obtain ⟨hdrain, hevict, hpolicy, hauthz, hbump⟩ := denied_confined hs hadm
  have hsame {out : Reply} (hout : out.1 = s) : Confined actor s out.1 := by
    rw [hout]
    exact .refl actor s
  cases c with
  | submitJob c | abortJob c | updateJobMetadata c =>
    exact (s.dispatch_step _).confined h hroot hs hadm rfl hc
  | configureQuotaEntity c => exact configureQuotaEntity_confined hroot hs hadm hc
  | setNodeDrain c => exact hsame (hdrain c hc)
  | evictNodes c => exact hsame (hevict c hc)
  | updatePolicy c => exact hsame (hpolicy c hc)
  | updateAuthorization c => exact hsame (hauthz c hc)
  | bumpClusterVersion c => exact hsame (hbump c hc)
  | _ => cases hc

end StateMachine

/-- Whatever a scoped actor proposes, and however often, nothing changes beyond its
    reach. -/
theorem reachable_confined {s₀ : StateMachine} (h : Reachable s₀) {actor : Actor}
    (hadm : actor.isImplicitAdmin = false) (hs : s₀.Scoped actor) {s : StateMachine}
    (hrun : Reach s₀ (fun s c => (s.apply c).1) (fun _ c => c.actor = some actor) s) :
    Confined actor s₀ s := by
  have hboth : Reachable s ∧ Confined actor s₀ s := by
    refine Reach.invariant (fun s => Reachable s ∧ Confined actor s₀ s) ⟨h, .refl actor s₀⟩ ?_ hrun
    rintro s c ⟨hreach, hconf⟩ hc
    have hscoped : s.Scoped actor := fun b hmem => hs b (hconf.bindings ▸ hmem)
    have hstep := StateMachine.dispatch_confined hreach.consistent hreach.rooted hscoped hadm hc
    have hroot : Rooted (s.dispatch c).1 := ⟨(hreach.apply c).rooted.parents,
      (hreach.apply c).rooted.jobs⟩
    exact ⟨hreach.apply c, hconf.trans (hstep.trans (.version actor _ _) hreach.rooted hroot)
      h.rooted hreach.rooted⟩
  exact hboth.2

namespace Sample

/-- An admin of entity 2 and of nothing else. -/
def tenant : Actor := ⟨"tenant", [], false, false⟩

/-- Two entities below the root; the tenant's job holds the node, and a job charged to
    the root accrues behind it. -/
def tenants : List Command :=
  [configure, .configureQuotaEntity ⟨2, some 1, "tenant", 0, none, none, epoch⟩,
    .updateAuthorization ⟨[⟨.principal "root", .admin, none⟩, ⟨.principal "tenant", .admin, some 2⟩],
      none, epoch, none⟩,
    register 10, submitJob { job 1 (cpu 8) with quotaEntity := 2 }, submit 2 8,
    commit [] [place 1 8], commit [] [place 2 8]]

/-- The tenant adds an entity, tries to abort the other job, to drain the node and to
    unbind everybody else, and aborts its own job. -/
def meddle : List Command :=
  [.configureQuotaEntity ⟨3, some 2, "team", 0, none, some tenant, epoch⟩,
    .abortJob ⟨2, none, some tenant, epoch⟩,
    .setNodeDrain ⟨1, some ⟨epoch, none⟩, some tenant, epoch⟩,
    .updateAuthorization ⟨[⟨.principal "tenant", .admin, none⟩], some tenant, epoch, none⟩,
    .abortJob ⟨1, none, some tenant, epoch⟩]

end Sample

open Sample

/-- The capacity the tenant gives up makes the other job's attempt ready. -/
theorem reachable_confined_tenants :
    ((run tenants).attempts.get? 2).map (fun a => a.attempt.state) = some .accruing ∧
      ((run (tenants ++ meddle)).attempts.get? 2).map
        (fun a => a.attempt.state) = some .ready ∧
      Confined tenant (run tenants)
        (run (tenants ++ meddle)) := by
  refine ⟨by decide +kernel, by decide +kernel, ?_⟩
  have hscoped : (run tenants).Scoped tenant := by
    unfold StateMachine.Scoped
    decide +kernel
  refine reachable_confined (reachable_run tenants) rfl hscoped ?_
  rw [run, List.foldl_append]
  refine Reach.foldl meddle _ .init fun _ c hc => ?_
  simp only [meddle, List.mem_cons, List.not_mem_nil, or_false] at hc
  rcases hc with rfl | rfl | rfl | rfl | rfl <;> rfl

end Coppice.State
