/-
  Coppice.Coordinator.Enroll

  Enrollment of a machine with a token and a certificate signing request (`coppice-
  coordinator/src/enroll.rs`, `ForwardEnroll` in `admin.rs`).  A refusal says
  nothing about the token, except that an empty signing request is refused as
  malformed once the token has matched.  Password hashing and signing are libraries.
-/

import Coppice.Proto.Entry
import Coppice.State.Apply

namespace Coppice.State.StateMachine

open Coppice.Core

/-- Enrollment tokens usable at `now`, in id order. -/
def liveEnrollTokens (s : StateMachine) (now : Timestamp) : List (EnrollTokenId × EnrollToken) :=
  s.enrollTokens.entries.filter fun e => !e.2.revoked && e.2.expiresAt.all (now < ·)

def isIdentityRevoked (s : StateMachine) (identity : RevokedIdentity) : Bool :=
  s.revokedIdentities.contains identity

end Coppice.State.StateMachine

namespace Coppice.Coordinator.Enroll

open Lib Coppice.Core State Proto

/-! ## The leader's decision -/

/-- The password hash, this voter's CA key and the two certificate profiles. -/
structure Pki where
  Signer : Type
  verifySecret : String → String → Bool
  /-- The key file of the data directory, read against the recorded certificate. -/
  loadSigner : String → Except String Signer
  issueAgent : Signer → ByteArray → NodeId → List String → Except String ByteArray
  issueCoordinator : Signer → ByteArray → MachineId → List String → Except String ByteArray

inductive Role where
  | leader (term : Nat)
  | follower (leader : Option Nat)
  | unknown
  deriving DecidableEq

inductive ConsensusError where
  | notLeader (leader : Option Nat)
  | other (text : String)
  deriving DecidableEq

/-- What the running coordinator gives an enrollment.  `view` is the latest published state
    when the token is checked, `caView` the one when the certificate is read. -/
structure EnrollContext where
  formed : Bool
  role : Role
  view : StateMachine
  caView : StateMachine
  propose : Command → Except ConsensusError (Except String Unit)

structure EnrollRequest where
  token : String
  csrPem : ByteArray
  nodeId : Option NodeId
  machineId : Option MachineId
  sans : List String

structure Enrolled where
  certPem : ByteArray
  caPem : ByteArray

inductive EnrollError where
  | unauthorized
  | badRequest (text : String)
  | notFormed
  | notLeader (leader : Option Nat)
  | internal (text : String)
  deriving DecidableEq

def notFormedText : String :=
  "this coordinator has not formed a cluster: enrollment is refused until the " ++
    "formation_complete marker exists (ADR 0037 §3)"

def EnrollError.ofConsensus : ConsensusError → EnrollError
  | .notLeader leader => .notLeader leader
  | .other text => .internal text

section

variable (P : Pki)

/-- Every live token is tried; the last that matches is the answer. -/
def verifyEnrollToken (s : StateMachine) (presented : String) (now : Timestamp) :
    Option (EnrollTokenId × EnrollRole) :=
  (s.liveEnrollTokens now).foldl
    (fun matched e => if P.verifySecret presented e.2.hash then some (e.1, e.2.role) else matched)
    none

def refuseUnlessLeader : Role → Except EnrollError Unit
  | .leader _ => .ok ()
  | .follower leader => .error (.notLeader leader)
  | .unknown => .error (.notLeader none)

def loadCa (s : StateMachine) : Except EnrollError (P.Signer × ByteArray) :=
  match s.ca with
  | none => .error (.internal ("this cluster has no cluster-owned CA recorded: it was not formed" ++
      " by `coppice coordinator init` (ADR 0037 §4), so there is no key here to sign with"))
  | some ca =>
    match P.loadSigner ca.bundle.pem with
    | .error e => .error (.internal e)
    | .ok signer => .ok (signer, ca.bundle.pem.toUTF8)

/-- A missing claim is a token of the other role, and is answered as an unknown token is. -/
def enrollAgent (ctx : EnrollContext) (signer : P.Signer) (caPem : ByteArray)
    (request : EnrollRequest) : Except EnrollError Enrolled :=
  match request.nodeId with
  | none => .error .unauthorized
  | some node =>
    if ctx.view.isIdentityRevoked (.node node) then .error .unauthorized
    else
      match P.issueAgent signer request.csrPem node request.sans with
      | .error e => .error (.badRequest ("signing the agent CSR: " ++ e))
      | .ok certPem => .ok ⟨certPem, caPem⟩

/-- As for an agent; the enrollment is also recorded. -/
def enrollCoordinator (ctx : EnrollContext) (now : Timestamp) (signer : P.Signer)
    (caPem : ByteArray) (request : EnrollRequest) : Except EnrollError Enrolled :=
  match request.machineId with
  | none => .error .unauthorized
  | some machine =>
    if ctx.view.isIdentityRevoked (.machine machine) then .error .unauthorized
    else
      match P.issueCoordinator signer request.csrPem machine request.sans with
      | .error e => .error (.badRequest ("signing the coordinator CSR: " ++ e))
      | .ok certPem =>
        match ctx.propose (.recordEnrolledIdentity ⟨machine, now⟩) with
        | .error e => .error (.ofConsensus e)
        | .ok (.error reason) =>
          .error (.internal ("recording the enrolled identity: " ++ reason))
        | .ok (.ok ()) => .ok ⟨certPem, caPem⟩

/-- `handle_enroll`; `now` is the clock it reads. -/
def handleEnroll (ctx : EnrollContext) (now : Timestamp) (request : EnrollRequest) :
    Except EnrollError Enrolled := do
  if !ctx.formed then throw .notFormed
  refuseUnlessLeader ctx.role
  match verifyEnrollToken P ctx.view request.token now with
  | none => throw .unauthorized
  | some (_, role) =>
    if request.csrPem.isEmpty then
      throw (.badRequest "the enrollment request carries no certificate signing request")
    let (signer, caPem) ← loadCa P ctx.caView
    match role with
    | .agent => enrollAgent P ctx signer caPem request
    | .coordinator => enrollCoordinator P ctx now signer caPem request

end

/-! ## The public endpoint and the proxy -/

structure EnrollCall where
  token : String
  csrPem : String
  nodeId : Option NodeId
  machineId : Option MachineId
  sans : List String

def EnrollCall.request (call : EnrollCall) : EnrollRequest where
  token := call.token
  csrPem := call.csrPem.toUTF8
  nodeId := call.nodeId
  machineId := call.machineId
  sans := call.sans

inductive EnrollRefusal where
  | unauthorized
  | badRequest (text : String)
  | unavailable (text : String)
  deriving DecidableEq

structure EnrollResponse where
  certPem : String
  caPem : String
  deriving DecidableEq

def refusal : EnrollError → EnrollRefusal
  | .unauthorized => .unauthorized
  | .badRequest text => .badRequest text
  | .notFormed => .unavailable notFormedText
  | .notLeader _ => .unavailable "leadership changed while enrolling; retry"
  | .internal text => .unavailable text

def pemString (pem : ByteArray) : Except EnrollRefusal String :=
  match String.fromUTF8? pem with
  | some text => .ok text
  | none => .error (.unavailable "issued material is not UTF-8")

/-- The answer of a replica that leads. -/
def issueHere (P : Pki) (ctx : EnrollContext) (now : Timestamp) (call : EnrollCall) :
    Except EnrollRefusal EnrollResponse :=
  match handleEnroll P { ctx with formed := true } now call.request with
  | .error e => .error (refusal e)
  | .ok issued => do
      let certPem ← pemString issued.certPem
      let caPem ← pemString issued.caPem
      pure ⟨certPem, caPem⟩

inductive Code where
  | unauthenticated | invalidArgument | failedPrecondition | permissionDenied | internal
  deriving DecidableEq

structure Status where
  code : Code
  message : String
  deriving DecidableEq

structure ForwardEnrollRequest where
  historyId : List UInt8
  token : String
  csrPem : String
  nodeId : Option (Pb.Id .node)
  machineId : Option (Pb.Id .machine)
  sans : List String

def enrollErrorToStatus : EnrollError → Status
  | .unauthorized => ⟨.unauthenticated, "enrollment refused"⟩
  | .badRequest text => ⟨.invalidArgument, text⟩
  | .notFormed => ⟨.failedPrecondition, notFormedText⟩
  | .notLeader (some id) => ⟨.failedPrecondition,
      "not the leader; current leader is node " ++ toString id ++ " — retarget the request"⟩
  | .notLeader none => ⟨.failedPrecondition,
      "not the leader; no leader currently known (election in progress) — retry"⟩
  | .internal text => ⟨.internal, text⟩

def statusPemString (pem : ByteArray) : Except Status String :=
  match String.fromUTF8? pem with
  | some text => .ok text
  | none => .error ⟨.internal, "issued material is not UTF-8"⟩

/-- An optional id of the request, or the refusal of one that does not convert. -/
def claimedId (L : Libs) (kind : Pb.IdKind) (id : Option (Pb.Id kind)) :
    Except Status (Option Nat) :=
  match readOption (idFromPb L kind) id with
  | .ok id => .ok id
  | .error e => .error ⟨.invalidArgument, e.text⟩

def hexDigit (n : Nat) : Char := "0123456789abcdef".toList.getD n '0'

def hex (bytes : List UInt8) : String :=
  String.ofList (bytes.flatMap fun b => [hexDigit (b.toNat / 16), hexDigit (b.toNat % 16)])

/-- A request of another history is refused before it is looked at. -/
def checkCluster (incoming stamped : List UInt8) : Except Status Unit :=
  if incoming.length ≠ 16 then .error ⟨.invalidArgument,
    "history_id must be 16 bytes, got " ++ toString incoming.length ++ " (ADR 0016)"⟩
  else if incoming ≠ stamped then .error ⟨.failedPrecondition,
    "history-conflict: request is from history " ++ hex incoming ++
      ", this node is stamped for history " ++ hex stamped ++
      " — cross-history admin contact refused; this is a wrong data volume or a " ++
      "wiped-and-re-formed cluster, not something waiting fixes (ADR 0016)"⟩
  else .ok ()

/-- The leader's side of the proxy.  `caller` is what its check of the caller's certificate
    says, `stamped` its own history. -/
def forwardEnroll (P : Pki) (L : Libs) (caller : Except Status Unit) (stamped : List UInt8)
    (ctx : EnrollContext) (now : Timestamp) (request : ForwardEnrollRequest) :
    Except Status EnrollResponse := do
  caller
  checkCluster request.historyId stamped
  let nodeId ← claimedId L .node request.nodeId
  let machineId ← claimedId L .machine request.machineId
  match handleEnroll P { ctx with formed := true } now
      ⟨request.token, request.csrPem.toUTF8, nodeId, machineId, request.sans⟩ with
  | .error e => throw (enrollErrorToStatus e)
  | .ok issued =>
    let certPem ← statusPemString issued.certPem
    let caPem ← statusPemString issued.caPem
    pure ⟨certPem, caPem⟩

/-- How a call to the leader ends. -/
inductive Hop where
  | unreachable (text : String)
  | timedOut
  | answered (answer : Except Status EnrollResponse)

def forwardRequest (L : Libs) (historyId : List UInt8) (call : EnrollCall) :
    ForwardEnrollRequest where
  historyId := historyId
  token := call.token
  csrPem := call.csrPem
  nodeId := call.nodeId.map (idToPb L .node)
  machineId := call.machineId.map (idToPb L .machine)
  sans := call.sans

/-- What the follower makes of the leader's answer. -/
def forwardToLeader : Hop → Except EnrollRefusal EnrollResponse
  | .unreachable text => .error (.unavailable ("could not reach the leader to enroll: " ++ text))
  | .timedOut =>
    .error (.unavailable "the leader did not answer the proxied enrollment in time; retry")
  | .answered (.ok issued) => .ok issued
  | .answered (.error status) => .error <|
      match status.code with
      | .unauthenticated => .unauthorized
      | .invalidArgument => .badRequest status.message
      | _ => .unavailable ("the leader refused the proxied enrollment: " ++ status.message)

/-- What a replica knows of the membership. -/
structure ClusterSummary where
  localId : Nat
  leader : Option Nat
  /-- Id and address of each member. -/
  members : List (Nat × String)

/-- `EnrollService::issue`; `dial` is the call to an address. -/
def issue (P : Pki) (L : Libs) (summary : ClusterSummary) (historyId : List UInt8)
    (ctx : EnrollContext) (now : Timestamp) (dial : String → ForwardEnrollRequest → Hop)
    (call : EnrollCall) : Except EnrollRefusal EnrollResponse :=
  if summary.leader = some summary.localId then issueHere P ctx now call
  else
    match summary.leader with
    | none => .error (.unavailable
        "no leader is currently known (an election is in progress); retry")
    | some leader =>
      match summary.members.find? (·.1 = leader) with
      | none => .error (.unavailable ("the leader (node " ++ toString leader ++
          ") has no address in this replica's membership view; retry"))
      | some member => forwardToLeader (dial member.2 (forwardRequest L historyId call))

/-- The replica knows its leader, another member whose dialled address serves `ctx`. -/
def Proxies (P : Pki) (L : Libs) (summary : ClusterSummary) (history : List UInt8)
    (ctx : EnrollContext) (now : Timestamp) (dial : String → ForwardEnrollRequest → Hop) : Prop :=
  ∃ leader member, summary.leader = some leader ∧ leader ≠ summary.localId ∧
    summary.members.find? (·.1 = leader) = some member ∧
    ∀ body, dial member.2 body = .answered (forwardEnroll P L (.ok ()) history ctx now body)

theorem issue_proxied {P : Pki} {L : Libs} {summary : ClusterSummary} {history : List UInt8}
    {ctx : EnrollContext} {now : Timestamp} {dial : String → ForwardEnrollRequest → Hop}
    (h : Proxies P L summary history ctx now dial) (here : EnrollContext) (at_ : Timestamp)
    (call : EnrollCall) :
    issue P L summary history here at_ dial call =
      forwardToLeader (.answered (forwardEnroll P L (.ok ()) history ctx now
        (forwardRequest L history call))) := by
  obtain ⟨leader, member, hleader, hne, hmember, hdial⟩ := h
  simp [issue, hleader, hne, hmember, hdial]

/-! ## What a token entitles to -/

/-- The request claims no identity a token of this role may enroll. -/
def Barred (s : StateMachine) (request : EnrollRequest) : EnrollRole → Prop
  | .agent => ∀ n ∈ request.nodeId, s.isIdentityRevoked (.node n) = true
  | .coordinator => ∀ m ∈ request.machineId, s.isIdentityRevoked (.machine m) = true

section

variable (P : Pki) (s : StateMachine) (now : Timestamp) (request : EnrollRequest)

/-- The secret matches no live token, or only tokens the request is barred from. -/
def Unentitled : Prop :=
  ∀ e ∈ s.liveEnrollTokens now, P.verifySecret request.token e.2.hash = true →
    Barred s request e.2.role

/-- No live token matches. -/
def Unknown : Prop :=
  ∀ e ∈ s.liveEnrollTokens now, P.verifySecret request.token e.2.hash = false

end

/-- A formed leader whose CA key loads. -/
structure Ready (P : Pki) (ctx : EnrollContext) : Prop where
  formed : ctx.formed = true
  leads : ∃ term, ctx.role = .leader term
  loads : ∃ ca, loadCa P ctx.caView = .ok ca

/-- A scan without early exit returns the last item it accepts. -/
theorem foldl_last {α β : Type} (p : α → Bool) (f : α → β) (l : List α) (init : Option β) :
    (l.foldl (fun acc a => if p a then some (f a) else acc) init = init ∧ ∀ a ∈ l, p a = false) ∨
      ∃ a ∈ l, p a = true ∧ l.foldl (fun acc a => if p a then some (f a) else acc) init =
        some (f a) := by
  induction l generalizing init with
  | nil => exact .inl ⟨rfl, fun _ ha => nomatch ha⟩
  | cons a rest ih =>
    rw [List.foldl_cons]
    rcases ih (if p a then some (f a) else init) with ⟨hkeep, hnone⟩ | ⟨b, hb, hpb, hlast⟩
    · cases hpa : p a with
      | false =>
        simp only [hpa, Bool.false_eq_true, if_false] at hkeep ⊢
        exact .inl ⟨hkeep, fun b hb => (List.mem_cons.mp hb).elim (· ▸ hpa) (hnone b)⟩
      | true =>
        simp only [hpa, if_true] at hkeep ⊢
        exact .inr ⟨a, List.mem_cons_self, hpa, hkeep⟩
    · exact .inr ⟨b, List.mem_cons_of_mem _ hb, hpb, hlast⟩

section Uniform

variable {P : Pki} {ctx : EnrollContext} {now : Timestamp} {request : EnrollRequest}
  {signer : P.Signer} {caPem : ByteArray}

/-- Either nothing live matches and nothing is verified, or the role of a matching token is. -/
theorem verifyEnrollToken_cases (P : Pki) (s : StateMachine) (now : Timestamp)
    (request : EnrollRequest) :
    (verifyEnrollToken P s request.token now = none ∧ Unknown P s now request) ∨
      ∃ e ∈ s.liveEnrollTokens now, P.verifySecret request.token e.2.hash = true ∧
        verifyEnrollToken P s request.token now = some (e.1, e.2.role) :=
  foldl_last (fun e : EnrollTokenId × EnrollToken => P.verifySecret request.token e.2.hash)
    (fun e => (e.1, e.2.role)) (s.liveEnrollTokens now) none

/-- The decision of a ready leader starts at the token. -/
theorem handleEnroll_of_ready (h : Ready P ctx) :
    handleEnroll P ctx now request = match verifyEnrollToken P ctx.view request.token now with
      | none => .error .unauthorized
      | some (_, role) =>
        if request.csrPem.isEmpty then
          .error (.badRequest "the enrollment request carries no certificate signing request")
        else
          match loadCa P ctx.caView with
          | .error e => .error e
          | .ok (signer, caPem) =>
            match role with
            | .agent => enrollAgent P ctx signer caPem request
            | .coordinator => enrollCoordinator P ctx now signer caPem request := by
  obtain ⟨term, hrole⟩ := h.leads
  unfold handleEnroll
  simp only [h.formed, hrole, refuseUnlessLeader, Bool.not_true, Bool.false_eq_true, if_false]
  cases verifyEnrollToken P ctx.view request.token now with
  | none => rfl
  | some token =>
    split
    · rfl
    · cases loadCa P ctx.caView <;> rfl

theorem enrollAgent_barred (h : Barred ctx.view request .agent) :
    enrollAgent P ctx signer caPem request = .error .unauthorized := by
  unfold enrollAgent
  cases hnode : request.nodeId with
  | none => rfl
  | some node =>
    have hrevoked : ctx.view.isIdentityRevoked (.node node) = true := h node hnode
    simp [hrevoked]

theorem enrollCoordinator_barred (h : Barred ctx.view request .coordinator) :
    enrollCoordinator P ctx now signer caPem request = .error .unauthorized := by
  unfold enrollCoordinator
  cases hmachine : request.machineId with
  | none => rfl
  | some machine =>
    have hrevoked : ctx.view.isIdentityRevoked (.machine machine) = true := h machine hmachine
    simp [hrevoked]

/-- Without entitlement the answer is the uniform refusal, except that an empty signing
    request is told apart once a token matches. -/
theorem handleEnroll_unentitled (hready : Ready P ctx) (hun : Unentitled P ctx.view now request) :
    (handleEnroll P ctx now request = .error .unauthorized ∧
      (request.csrPem.isEmpty = false ∨ Unknown P ctx.view now request)) ∨
    (handleEnroll P ctx now request =
        .error (.badRequest "the enrollment request carries no certificate signing request") ∧
      request.csrPem.isEmpty = true ∧ ¬ Unknown P ctx.view now request) := by
  rw [handleEnroll_of_ready hready]
  obtain ⟨⟨signer, caPem⟩, hca⟩ := hready.loads
  rcases verifyEnrollToken_cases P ctx.view now request with
    ⟨hnone, hunknown⟩ | ⟨e, he, hmatch, hsome⟩
  · rw [hnone]
    exact .inl ⟨rfl, .inr hunknown⟩
  · rw [hsome]
    cases hcsr : request.csrPem.isEmpty with
    | true =>
      refine .inr ⟨rfl, rfl, fun hunknown => ?_⟩
      rw [hunknown e he] at hmatch
      cases hmatch
    | false =>
      refine .inl ⟨?_, .inl rfl⟩
      have hbarred := hun e he hmatch
      simp only [Bool.false_eq_true, if_false, hca]
      cases hrole : e.2.role with
      | agent => exact enrollAgent_barred (hrole ▸ hbarred)
      | coordinator => exact enrollCoordinator_barred (hrole ▸ hbarred)

/-- A refusal crosses the proxy unchanged. -/
theorem proxied_eq_direct {L : Libs} [L.Lawful] {history : List UInt8} (hlen : history.length = 16)
    {call : EnrollCall} {e : EnrollError} (he : e = .unauthorized ∨ ∃ text, e = .badRequest text)
    (hanswer : handleEnroll P { ctx with formed := true } now call.request = .error e) :
    forwardToLeader (.answered (forwardEnroll P L (.ok ()) history ctx now
      (forwardRequest L history call))) = issueHere P ctx now call := by
  have hnode : claimedId L .node (call.nodeId.map (idToPb L .node)) = .ok call.nodeId := by
    simp [claimedId]
  have hmachine : claimedId L .machine (call.machineId.map (idToPb L .machine)) =
      .ok call.machineId := by
    simp [claimedId]
  have hcluster : checkCluster history history = .ok () := by
    simp [checkCluster, hlen]
  have hforward : forwardEnroll P L (.ok ()) history ctx now (forwardRequest L history call) =
      .error (enrollErrorToStatus e) := by
    have hbody : handleEnroll P { ctx with formed := true } now
        ⟨call.token, call.csrPem.toUTF8, call.nodeId, call.machineId, call.sans⟩ = .error e :=
      hanswer
    simp only [forwardEnroll, forwardRequest, hcluster, hnode, hmachine]
    show (match handleEnroll P { ctx with formed := true } now
        ⟨call.token, call.csrPem.toUTF8, call.nodeId, call.machineId, call.sans⟩ with
      | .error e => Except.error (enrollErrorToStatus e)
      | .ok issued => _) = _
    rw [hbody]
  simp only [hforward, issueHere, hanswer]
  rcases he with rfl | ⟨text, rfl⟩ <;> rfl

/-- Without entitlement, the answer is the uniform refusal exactly when the request has a
    signing request or no live token matches.  With one it is the same in every such state,
    and a follower answers as its leader would. -/
theorem enrollment_refusal {L : Libs} [L.Lawful] (hready : Ready P ctx)
    (hun : Unentitled P ctx.view now request) :
    (handleEnroll P ctx now request = .error .unauthorized ↔
      request.csrPem.isEmpty = false ∨ Unknown P ctx.view now request) ∧
    (request.csrPem.isEmpty = false → ∀ ctx' now', Ready P ctx' →
      Unentitled P ctx'.view now' request →
      handleEnroll P ctx' now' request = handleEnroll P ctx now request) ∧
    ∀ call history summary dial, call.request = request → history.length = 16 →
      Proxies P L summary history ctx now dial → ∀ here at_,
      issue P L summary history here at_ dial call = issueHere P ctx now call := by
  have hcases := handleEnroll_unentitled hready hun
  refine ⟨⟨fun h => ?_, fun h => ?_⟩, fun hcsr ctx' now' hready' hun' => ?_,
    fun call history summary dial hcall hlen hproxies here at_ => ?_⟩
  · rcases hcases with ⟨-, hcond⟩ | ⟨hbad, -⟩
    · exact hcond
    · rw [h] at hbad
      cases hbad
  · rcases hcases with ⟨hanswer, -⟩ | ⟨-, hempty, hknown⟩
    · exact hanswer
    · rcases h with h | h
      · rw [hempty] at h
        cases h
      · exact absurd h hknown
  · have hhere : handleEnroll P ctx now request = .error .unauthorized := by
      rcases hcases with ⟨hanswer, -⟩ | ⟨-, hempty, -⟩
      · exact hanswer
      · rw [hempty] at hcsr
        cases hcsr
    rcases handleEnroll_unentitled hready' hun' with ⟨hthere, -⟩ | ⟨-, hempty, -⟩
    · rw [hhere, hthere]
    · rw [hempty] at hcsr
      cases hcsr
  · have hctx : { ctx with formed := true } = ctx := by
      rw [← hready.formed]
    rw [issue_proxied hproxies]
    rcases hcases with ⟨hanswer, -⟩ | ⟨hbad, -⟩
    · exact proxied_eq_direct hlen (.inl rfl) (by rw [hctx, hcall]; exact hanswer)
    · exact proxied_eq_direct hlen (.inr ⟨_, rfl⟩) (by rw [hctx, hcall]; exact hbad)

end Uniform

namespace Sample

def epoch : Timestamp := Timestamp.unixEpoch

/-- A hash that is the secret itself, and a key that signs anything. -/
def pki : Pki where
  Signer := Unit
  verifySecret secret hash := secret = hash
  loadSigner _ := .ok ()
  issueAgent _ csr _ _ := .ok csr
  issueCoordinator _ csr _ _ := .ok csr

/-- A leader of a formed cluster, in the state these commands lead to. -/
def leading (cs : List Command) : EnrollContext where
  formed := true
  role := .leader 1
  view := cs.foldl (fun s c => (s.apply c).1) StateMachine.default
  caView := cs.foldl (fun s c => (s.apply c).1) StateMachine.default
  propose _ := .ok (.ok ())

def recordCa : Command := .recordCaCertificate ⟨⟨"root", ["01"]⟩, none, epoch⟩

def mintAgentToken : Command := .mintEnrollToken ⟨1, "fleet-secret", .agent, "fleet", none, epoch⟩

/-- The secret with nothing else: no claimed identity and no signing request. -/
def bare : EnrollRequest := ⟨"fleet-secret", ByteArray.empty, none, none, []⟩

/-- The same with a signing request. -/
def signed : EnrollRequest := { bare with csrPem := ⟨#[1]⟩ }

theorem leading_ready (cs : List Command) (h : (leading cs).caView.ca.isSome = true) :
    Ready pki (leading cs) := by
  refine ⟨rfl, ⟨1, rfl⟩, ?_⟩
  obtain ⟨ca, hca⟩ := Option.isSome_iff_exists.mp h
  exact ⟨((), ca.bundle.pem.toUTF8), by simp only [loadCa, hca, pki]⟩

theorem unentitled_of_unclaimed (s : StateMachine) (now : Timestamp) {request : EnrollRequest}
    (hnode : request.nodeId = none) (hmachine : request.machineId = none) :
    Unentitled pki s now request := by
  intro e _ _
  cases e.2.role with
  | agent => exact fun n hn => absurd hn (by simp [hnode])
  | coordinator => exact fun m hm => absurd hm (by simp [hmachine])

end Sample

open Enroll.Sample

/-- A bare secret is answered one way where it is unknown and another way where it is live. -/
theorem enrollment_tells_live_secret :
    Ready pki (leading [recordCa]) ∧
    Ready pki (leading [recordCa, mintAgentToken]) ∧
    Unentitled pki (leading [recordCa]).view epoch
      bare ∧
    Unentitled pki (leading [recordCa, mintAgentToken]).view
      epoch bare ∧
    handleEnroll pki (leading [recordCa]) epoch
      bare = .error .unauthorized ∧
    handleEnroll pki (leading [recordCa, mintAgentToken])
      epoch bare =
        .error (.badRequest "the enrollment request carries no certificate signing request") := by
  refine ⟨leading_ready _ (by decide +kernel), leading_ready _ (by decide +kernel),
    unentitled_of_unclaimed _ _ rfl rfl, unentitled_of_unclaimed _ _ rfl rfl, ?_, ?_⟩
  · rfl
  · rfl

/-- With a signing request both are refused alike. -/
theorem enrollment_refusal_signed :
    handleEnroll pki (leading [recordCa, mintAgentToken])
        epoch signed = .error .unauthorized ∧
      handleEnroll pki (leading [recordCa]) epoch
        signed = .error .unauthorized := by
  have hun : ∀ s, Unentitled pki s epoch signed := fun s => unentitled_of_unclaimed s _ rfl rfl
  have h := enrollment_refusal (L := Proto.Sample.libs)
    (leading_ready [recordCa, mintAgentToken] (by decide +kernel)) (hun _)
  have hhere := h.1.mpr (.inl rfl)
  refine ⟨hhere, ?_⟩
  exact h.2.1 rfl _ _ (leading_ready [recordCa] (by decide +kernel))
    (hun _)

end Coppice.Coordinator.Enroll
