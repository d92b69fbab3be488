/-
  Coppice.State.Authz

  The authorization decision (`coppice-state/src/authz.rs`): a pure function
  of the bindings, the quota tree and the actor.
-/

import Coppice.State.Command

namespace Coppice.State

open Lib Coppice.Core

namespace Authz

def matchesSubject (subject : Subject) (actor : Actor) : Bool :=
  match subject with
  | .principal name => actor.principal = name
  | .group name => actor.groups.contains name

/-- `scope` is the entity at `cur` or one of its ancestors, `fuel` levels up. -/
def coversFuel (entities : OrdMap QuotaEntityId QuotaEntity) (scope : QuotaEntityId) :
    Nat → Option QuotaEntityId → Bool
  | 0, _ => false
  | _ + 1, none => false
  | fuel + 1, some id =>
    if id = scope then true
    else coversFuel entities scope fuel ((entities.get? id).bind QuotaEntity.parent)

def covers (b : Binding) (target : QuotaEntityId) (entities : OrdMap QuotaEntityId QuotaEntity) :
    Bool :=
  match b.scope with
  | none => true
  | some scope => coversFuel entities scope quotaTreeDepthCap (some target)

def holdsOver (bindings : List Binding) (entities : OrdMap QuotaEntityId QuotaEntity)
    (actor : Actor) (role : Role) (target : QuotaEntityId) : Bool :=
  bindings.any fun b =>
    role.rank ≤ b.role.rank && matchesSubject b.subject actor && covers b target entities

def holdsUnscoped (bindings : List Binding) (actor : Actor) (role : Role) : Bool :=
  bindings.any fun b =>
    role.rank ≤ b.role.rank && b.scope.isNone && matchesSubject b.subject actor

def evaluate (bindings : List Binding) (entities : OrdMap QuotaEntityId QuotaEntity) (actor : Actor)
    (verb : Verb) : Except Denial Unit :=
  let deny (required : String) : Except Denial Unit := .error ⟨actor.principal, verb, required⟩
  let overJob (entity : QuotaEntityId) (submittedBy : Option String) : Except Denial Unit :=
    if actor.principal ≠ "" ∧ submittedBy = some actor.principal then .ok ()
    else if holdsOver bindings entities actor .operator entity then .ok ()
    else deny "job ownership, or operator or higher over that quota entity"
  let unscopedAdmin : Except Denial Unit :=
    if holdsUnscoped bindings actor .admin then .ok () else deny "an unscoped admin binding"
  if actor.isImplicitAdmin then .ok ()
  else
    match verb with
    | .submit entity =>
      if holdsOver bindings entities actor .submitter entity then .ok ()
      else deny "submitter or higher over that quota entity"
    | .abort entity submittedBy => overJob entity submittedBy
    | .updateJobMetadata entity submittedBy => overJob entity submittedBy
    | .drain =>
      if holdsUnscoped bindings actor .operator then .ok ()
      else deny "an unscoped operator binding"
    | .updatePolicy => unscopedAdmin
    | .updateAuthorization => unscopedAdmin
    | .bumpClusterVersion => unscopedAdmin
    | .configureQuotaEntity entity parent =>
      if holdsUnscoped bindings actor .admin then .ok ()
      else if entities.contains entity then
        if holdsOver bindings entities actor .admin entity then .ok ()
        else deny "admin over that quota entity's position"
      else
        match parent with
        | some parent =>
          if holdsOver bindings entities actor .admin parent then .ok ()
          else deny "admin over the parent (a new root entity takes unscoped admin)"
        | none => deny "admin over the parent (a new root entity takes unscoped admin)"

end Authz

/-- Proposals without an actor are the coordinator's own. -/
def StateMachine.authorize (s : StateMachine) (actor : Option Actor) (verb : Verb) :
    Except RejectionReason Unit :=
  match actor with
  | none => .ok ()
  | some actor =>
    match Authz.evaluate s.bindings s.quotaEntities actor verb with
    | .ok () => .ok ()
    | .error denial => .error (.permissionDenied denial)

end Coppice.State
