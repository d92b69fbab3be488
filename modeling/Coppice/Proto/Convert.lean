/-
  Coppice.Proto.Convert

  Conversions between wire messages and domain values (`convert.rs`,
  `convert/core.rs` and the vocabulary of `convert/command.rs` in `coppice-proto`).
  Writing never fails; an `OnWire` condition says which values read back, where not
  all do.  The text of a UUID and the decoding of a certificate are library
  parameters.
-/

import Coppice.Lib.Convert
import Coppice.Proto.Pb

namespace Coppice.Proto

open Lib Coppice.Core State List

/-! ## Errors and required fields -/

inductive ConvertError where
  | missingField (name : String)
  | invalidId (name : String)
  | unknownEnum (field : String) (value : Int)
  | duplicateEntry (name : String)
  | invalid (field reason : String)
  deriving DecidableEq

/-- What reading a message gives. -/
abbrev Read (α : Type) : Type := Except ConvertError α

/-- Unwrap a required message field. -/
def req {α : Type} (field : Option α) (name : String) : Read α :=
  match field with
  | some a => .ok a
  | none => .error (.missingField name)

@[simp] theorem req_some {α : Type} (a : α) (name : String) : req (some a) name = .ok a := rfl

@[simp] theorem ok_bind {α β : Type} (a : α) (f : α → Read β) : (Except.ok a >>= f) = f a := rfl

@[simp] theorem pure_eq_ok {α : Type} (a : α) : (pure a : Read α) = .ok a := rfl

/-! ## Time -/

/-- `Timestamp::as_micros`; the range of timestamps is inside that of the wire. -/
def micros (t : Timestamp) : I64 := I64.clamp t.asMicros

def timestamp (us : I64) (field : String) : Read Timestamp :=
  match Timestamp.ofMicros us.val with
  | some t => .ok t
  | none => .error (.invalid field "timestamp is outside the representable range")

@[simp] theorem timestamp_micros (t : Timestamp) (field : String) :
    timestamp (micros t) field = .ok t := by
  obtain ⟨hlo, hhi⟩ := t.property
  have hval : (micros t).val = t.val := by
    show max i64Min (min i64Max t.val) = t.val
    simp only [minMicros, maxMicros, i64Min, i64Max] at *
    omega
  simp [timestamp, Timestamp.ofMicros, hval, t.property]

/-- `as u64`. -/
def spanToPb (d : Duration) : UInt64 := UInt64.ofInt d.asMicros

/-- `.max(0) as u64`. -/
def clippedSpanToPb (d : Duration) : UInt64 := UInt64.ofInt (max 0 d.asMicros)

def nonnegativeDuration (us : UInt64) (field : String) : Read Duration :=
  if (us.toNat : Int) ≤ i64Max then .ok (Duration.ofMicros us.toNat)
  else .error (.invalid field "duration is outside the representable range")

def positiveDuration (us : UInt64) (field : String) : Read Duration :=
  if (us.toNat : Int) ≤ i64Max then
    let duration := Duration.ofMicros us.toNat
    if !duration.isPositive then .error (.invalid field "duration must be positive")
    else .ok duration
  else .error (.invalid field "duration is outside the representable range")

variable {d : Duration} {field : String} {m : TextMap}

theorem toNat_spanToPb (h : 0 ≤ d.val) : ((spanToPb d).toNat : Int) = d.val := by
  have hhi := d.property.2
  have hmod : d.val % 2 ^ 64 = d.val := Int.emod_eq_of_lt h (by simp only [i64Max] at hhi; omega)
  show ((UInt64.ofNat (d.val % 2 ^ 64).toNat).toNat : Int) = d.val
  rw [hmod, UInt64.toNat_ofNat', Nat.mod_eq_of_lt (by simp only [i64Max] at hhi; omega)]
  exact Int.toNat_of_nonneg h

theorem ofMicros_val (d : Duration) : Duration.ofMicros d.val = d := by
  obtain ⟨hlo, hhi⟩ := d.property
  refine Bounded.ext ?_
  show max i64Min (min i64Max d.val) = d.val
  omega

theorem nonnegativeDuration_spanToPb (h : 0 ≤ d.val) (field : String) :
    nonnegativeDuration (spanToPb d) field = .ok d := by
  have hhi := d.property.2
  simp [nonnegativeDuration, toNat_spanToPb h, hhi, ofMicros_val]

theorem nonnegativeDuration_clippedSpanToPb (h : 0 ≤ d.val) (field : String) :
    nonnegativeDuration (clippedSpanToPb d) field = .ok d := by
  have hmax : clippedSpanToPb d = spanToPb d := by
    show UInt64.ofInt (max 0 d.val) = UInt64.ofInt d.val
    rw [max_eq_right h]
  rw [hmax]
  exact nonnegativeDuration_spanToPb h field

theorem positiveDuration_spanToPb (h : 0 < d.val) (field : String) :
    positiveDuration (spanToPb d) field = .ok d := by
  have hhi := d.property.2
  have hpos : d.isPositive = true := decide_eq_true h
  simp [positiveDuration, toNat_spanToPb h.le, hhi, ofMicros_val, hpos]

theorem nonneg_of_nonnegativeDuration {us : UInt64} (h : nonnegativeDuration us field = .ok d) :
    0 ≤ d.val := by
  unfold nonnegativeDuration at h
  split at h
  · cases h
    show 0 ≤ max i64Min (min i64Max (us.toNat : Int))
    omega
  · cases h

theorem pos_of_positiveDuration {us : UInt64} (h : positiveDuration us field = .ok d) :
    0 < d.val := by
  unfold positiveDuration at h
  split at h
  · simp only at h
    split at h
    next => cases h
    next hpos =>
      cases h
      simpa [Duration.isPositive] using hpos
  · cases h

/-! ## Ids -/

/-- A certificate as its DER says: its serial number, in hex, and whether it may sign. -/
structure Certificate where
  serial : String
  isCa : Bool
  deriving DecidableEq

/-- The text form of a UUID, and the certificate in the base64 body of a PEM block. -/
structure Libs where
  displayUuid : Nat → String
  parseUuid : String → Option Nat
  certificate : List Char → Option Certificate

/-- Every UUID parses from its own text.  A number above 2 ^ 128 is no UUID; any texts that no
    UUID has extend the crate's functions to them. -/
class Libs.Lawful (L : Libs) : Prop where
  parse_display : ∀ id, L.parseUuid (L.displayUuid id) = some id

namespace Pb.IdKind

/-- The tag every text of the id begins with. -/
def tag : IdKind → String
  | .job => "job"
  | .node => "node"
  | .allocation => "alloc"
  | .attempt => "attempt"
  | .group => "group"
  | .quotaEntity => "quota"
  | .machine => "machine"
  | .enrollToken => "token"

def typeName : IdKind → String
  | .job => "JobId"
  | .node => "NodeId"
  | .allocation => "AllocationId"
  | .attempt => "AttemptId"
  | .group => "GroupId"
  | .quotaEntity => "QuotaEntityId"
  | .machine => "MachineId"
  | .enrollToken => "EnrollTokenId"

end Pb.IdKind

/-- The rest of the text after `start`. -/
def stripStart (start text : String) : Option String :=
  if start.toList.isPrefixOf text.toList then
    some (String.ofList (text.toList.drop start.toList.length))
  else none

theorem stripStart_append (start rest : String) : stripStart start (start ++ rest) = some rest := by
  have hstart : start.toList.isPrefixOf (start ++ rest).toList = true := by
    rw [String.toList_append, isPrefixOf_iff_prefix]
    exact prefix_append _ _
  rw [stripStart, if_pos hstart, String.toList_append, drop_left, String.ofList_toList]

section

variable (L : Libs)

def idToPb (kind : Pb.IdKind) (id : Nat) : Pb.Id kind := ⟨kind.tag ++ "-" ++ L.displayUuid id⟩

def idFromPb (kind : Pb.IdKind) (id : Pb.Id kind) : Read Nat :=
  match (stripStart (kind.tag ++ "-") id.value).bind L.parseUuid with
  | some id => .ok id
  | none => .error (.invalidId kind.typeName)

/-- A required id. -/
def reqId (kind : Pb.IdKind) (field : Option (Pb.Id kind)) (name : String) : Read Nat := do
  let id ← req field name
  idFromPb L kind id

end

section Lawful

variable {L : Libs} [L.Lawful]

@[simp] theorem idFromPb_idToPb (kind : Pb.IdKind) (id : Nat) :
    idFromPb L kind (idToPb L kind id) = .ok id := by
  simp [idFromPb, idToPb, stripStart_append, Libs.Lawful.parse_display]

@[simp] theorem reqId_idToPb (kind : Pb.IdKind) (id : Nat) (name : String) :
    reqId L kind (some (idToPb L kind id)) name = .ok id :=
  idFromPb_idToPb kind id

@[simp] theorem readOption_idToPb (kind : Pb.IdKind) (id : Option Nat) :
    readOption (idFromPb L kind) (id.map (idToPb L kind)) = .ok id :=
  readOption_map fun id _ => idFromPb_idToPb kind id

@[simp] theorem readList_idToPb (kind : Pb.IdKind) (ids : List Nat) :
    readList (idFromPb L kind) (ids.map (idToPb L kind)) = .ok ids :=
  readList_map fun id _ => idFromPb_idToPb kind id

end Lawful

/-! ## Quantities by resource kind -/

def kindOf : Int → Option Dim
  | 1 => some .cpuMillis
  | 2 => some .memory
  | 3 => some .disk
  | _ => none

def setKind (r : Resources) (d : Dim) (amount : UInt64) : Resources :=
  match d with
  | .cpuMillis => { r with cpuMillis := amount }
  | .memory => { r with memory := amount }
  | .disk => { r with disk := amount }

/-- Ascending kind, zeros omitted. -/
def writeByKind (r : Resources) : List (Int × UInt64) :=
  let push (kind : Int) (amount : UInt64) := if amount ≠ 0 then [(kind, amount)] else []
  push 1 r.cpuMillis ++ push 2 r.memory ++ push 3 r.disk

/-- Any order, each known kind at most once. -/
def readByKind (field duplicates : String) (out : Resources) (seen : List Dim) :
    List (Int × UInt64) → Read Resources
  | [] => .ok out
  | (kind, amount) :: rest =>
    match kindOf kind with
    | none => .error (.unknownEnum field kind)
    | some d =>
      if d ∈ seen then .error (.duplicateEntry duplicates)
      else readByKind field duplicates (setKind out d amount) (d :: seen) rest

theorem readByKind_writeByKind (field duplicates : String) (r : Resources) :
    readByKind field duplicates .zero [] (writeByKind r) = .ok r := by
  obtain ⟨cpu, memory, disk⟩ := r
  by_cases hcpu : cpu = 0 <;> by_cases hmem : memory = 0 <;> by_cases hdisk : disk = 0 <;>
    simp [writeByKind, readByKind, kindOf, setKind, Resources.zero, hcpu, hmem, hdisk]

def resourcesToPb (r : Resources) : Pb.Resources := ⟨(writeByKind r).map fun q => ⟨q.1, q.2⟩⟩

def resourcesFromPb (r : Pb.Resources) : Read Resources :=
  readByKind "ResourceQuantity.kind" "Resources.quantities" .zero []
    (r.quantities.map fun q => (q.kind, q.amount))

def costWeightsToPb (w : CostWeights) : Pb.CostWeights :=
  ⟨(writeByKind ⟨w.perCpuMilliSecond, w.perMemoryByteSecond, w.perDiskByteSecond⟩).map
    fun q => ⟨q.1, q.2⟩⟩

def costWeightsFromPb (w : Pb.CostWeights) : Read CostWeights := do
  let out ← readByKind "CostWeight.kind" "CostWeights.weights" .zero []
    (w.weights.map fun q => (q.kind, q.weightQ32))
  pure ⟨out.cpuMillis, out.memory, out.disk⟩

@[simp] theorem resourcesFromPb_toPb (r : Resources) :
    resourcesFromPb (resourcesToPb r) = .ok r := by
  simp [resourcesFromPb, resourcesToPb, Function.comp_def, readByKind_writeByKind]

@[simp] theorem costWeightsFromPb_toPb (w : CostWeights) :
    costWeightsFromPb (costWeightsToPb w) = .ok w := by
  simp [costWeightsFromPb, costWeightsToPb, Function.comp_def, readByKind_writeByKind]

/-! ## Text entries -/

/-- Ascending by key. -/
def entriesToPb (m : TextMap) : List Pb.Entry := m.entries.map fun e => ⟨e.1, e.2⟩

/-- Entries in any order; no key twice, and none that `check` refuses. -/
def entriesFromPb (check : String → Read Unit) (duplicates : String) (entries : List Pb.Entry) :
    Read TextMap :=
  readMap check (.duplicateEntry duplicates) (entries.map fun e => (e.key, e.value))

def nonemptyKey (field reason : String) (key : String) : Read Unit :=
  if key = "" then .error (.invalid field reason) else .ok ()

def labelsFromPb (labels : List Pb.Entry) : Read TextMap :=
  entriesFromPb (fun _ => .ok ()) "labels" labels

def metadataFromPb (entries : List Pb.Entry) (field : String) : Read TextMap :=
  entriesFromPb (nonemptyKey field "metadata key must not be empty") field entries

def envFromPb (vars : List Pb.Entry) (field : String) : Read TextMap :=
  entriesFromPb (nonemptyKey field "environment variable name must not be empty") field vars

theorem entriesFromPb_toPb {check : String → Read Unit} (h : ∀ k ∈ m.keys, check k = .ok ())
    (duplicates : String) : entriesFromPb check duplicates (entriesToPb m) = .ok m := by
  simp only [entriesFromPb, entriesToPb, map_map, Function.comp_def, Prod.mk.eta, map_id']
  exact readMap_entries h

@[simp] theorem labelsFromPb_toPb (m : TextMap) : labelsFromPb (entriesToPb m) = .ok m :=
  entriesFromPb_toPb (fun _ _ => rfl) _

/-- No key of the map is empty. -/
def KeysNonempty (m : TextMap) : Prop := "" ∉ m.keys

theorem nonemptyKey_eq_ok {reason key : String} :
    nonemptyKey field reason key = .ok () ↔ key ≠ "" := by
  unfold nonemptyKey
  split <;> simp_all

theorem keysNonempty_iff {reason : String} :
    KeysNonempty m ↔ ∀ k ∈ m.keys, nonemptyKey field reason k = .ok () := by
  simp only [nonemptyKey_eq_ok]
  exact ⟨fun h k hk hempty => h (hempty ▸ hk), fun h hk => h "" hk rfl⟩

theorem metadataFromPb_toPb (h : KeysNonempty m) (field : String) :
    metadataFromPb (entriesToPb m) field = .ok m :=
  entriesFromPb_toPb (keysNonempty_iff.mp h) _

theorem envFromPb_toPb (h : KeysNonempty m) (field : String) :
    envFromPb (entriesToPb m) field = .ok m :=
  entriesFromPb_toPb (keysNonempty_iff.mp h) _

theorem keysNonempty_of_metadataFromPb {entries : List Pb.Entry}
    (h : metadataFromPb entries field = .ok m) : KeysNonempty m :=
  keysNonempty_iff.mpr (readMap_checked h)

theorem keysNonempty_of_envFromPb {vars : List Pb.Entry} (h : envFromPb vars field = .ok m) :
    KeysNonempty m :=
  keysNonempty_iff.mpr (readMap_checked h)

/-! ## Jobs -/

def noticeSignalToPb : NoticeSignal → Int
  | .sighup => 1
  | .sigint => 2
  | .sigusr1 => 3
  | .sigusr2 => 4
  | .sigterm => 5

def noticeSignalFromPb (value : Int) (field : String) : Read NoticeSignal :=
  match value with
  | 1 => .ok .sighup
  | 2 => .ok .sigint
  | 3 => .ok .sigusr1
  | 4 => .ok .sigusr2
  | 5 => .ok .sigterm
  | _ => .error (.unknownEnum field value)

@[simp] theorem noticeSignalFromPb_toPb (signal : NoticeSignal) (field : String) :
    noticeSignalFromPb (noticeSignalToPb signal) field = .ok signal := by
  cases signal <;> rfl

def preemptionSpecToPb (spec : PreemptionSpec) : Pb.PreemptionSpec where
  preemptible := spec.preemptible
  noticeUs := spec.notice.map spanToPb
  noticeSignal := noticeSignalToPb spec.noticeSignal

def preemptionSpecFromPb (spec : Pb.PreemptionSpec) : Read PreemptionSpec := do
  let notice ← readOption (nonnegativeDuration · "PreemptionSpec.notice_us") spec.noticeUs
  let noticeSignal ← noticeSignalFromPb spec.noticeSignal "PreemptionSpec.notice_signal"
  pure ⟨spec.preemptible, notice, noticeSignal⟩

/-- `PreemptionSpec::default()`. -/
def defaultPreemptionSpec : PreemptionSpec := ⟨false, none, .sigusr1⟩

def retryPolicyToPb (retry : RetryPolicy) : Pb.RetryPolicy :=
  ⟨retry.maxRetries, retry.retryUserErrors⟩

def retryPolicyFromPb (retry : Pb.RetryPolicy) : RetryPolicy :=
  ⟨retry.maxRetries, retry.retryUserErrors⟩

def abortRequestToPb (abort : AbortRequest) : Pb.AbortRequest :=
  ⟨abort.reason, micros abort.requestedAt⟩

def abortRequestFromPb (abort : Pb.AbortRequest) : Read AbortRequest := do
  let requestedAt ← timestamp abort.requestedAtUs "AbortRequest.requested_at_us"
  pure ⟨abort.reason, requestedAt⟩

@[simp] theorem abortRequestFromPb_toPb (abort : AbortRequest) :
    abortRequestFromPb (abortRequestToPb abort) = .ok abort := by
  simp [abortRequestFromPb, abortRequestToPb]

/-- An override is present only with something in it. -/
def entrypointFromPb (entrypoint : Option Pb.Entrypoint) : Read (Option (List String)) :=
  match entrypoint with
  | none => .ok none
  | some e =>
    if e.argv = [] then .error (.invalid "Job.entrypoint" "override argv must be non-empty")
    else .ok (some e.argv)

def jobToPb (L : Libs) (job : Job) : Pb.Job where
  id := some (idToPb L .job job.id)
  image := job.image
  command := job.command
  entrypoint := job.entrypoint.map fun argv => ⟨argv⟩
  requests := some (resourcesToPb job.requests)
  priority := job.priority
  maxRuntimeUs := job.maxRuntime.map spanToPb
  quotaEntity := some (idToPb L .quotaEntity job.quotaEntity)
  retry := some (retryPolicyToPb job.retry)
  abortRequested := job.abortRequested.map abortRequestToPb
  submittedBy := job.submittedBy
  metadata := entriesToPb job.metadata
  env := entriesToPb job.env
  preemption := some (preemptionSpecToPb job.preemption)

def jobFromPb (L : Libs) (job : Pb.Job) : Read Job := do
  -- an empty repeated field reads the same as an absent one
  if job.command = [] then throw (.missingField "Job.command")
  let entrypoint ← entrypointFromPb job.entrypoint
  let id ← reqId L .job job.id "Job.id"
  let requests ← req job.requests "Job.requests" >>= resourcesFromPb
  let maxRuntime ← readOption (positiveDuration · "Job.max_runtime_us") job.maxRuntimeUs
  let quotaEntity ← reqId L .quotaEntity job.quotaEntity "Job.quota_entity"
  let retry ← req job.retry "Job.retry"
  let abortRequested ← readOption abortRequestFromPb job.abortRequested
  let metadata ← metadataFromPb job.metadata "Job.metadata"
  let env ← envFromPb job.env "Job.env"
  let preemption ← readOption preemptionSpecFromPb job.preemption
  pure { id, image := job.image, command := job.command, entrypoint, env, requests,
         priority := job.priority, maxRuntime, quotaEntity, retry := retryPolicyFromPb retry,
         abortRequested, submittedBy := job.submittedBy, metadata,
         preemption := preemption.getD defaultPreemptionSpec }

/-- The notice, if there is one, is not negative. -/
def PreemptionOnWire (spec : PreemptionSpec) : Prop := ∀ d ∈ spec.notice, 0 ≤ d.val

/-- The jobs the wire can carry. -/
structure JobOnWire (job : Job) : Prop where
  command : job.command ≠ []
  entrypoint : job.entrypoint ≠ some []
  maxRuntime : ∀ d ∈ job.maxRuntime, 0 < d.val
  metadata : KeysNonempty job.metadata
  env : KeysNonempty job.env
  preemption : PreemptionOnWire job.preemption

theorem preemptionSpecFromPb_toPb (h : PreemptionOnWire spec) :
    preemptionSpecFromPb (preemptionSpecToPb spec) = .ok spec := by
  have hnotice : readOption (nonnegativeDuration · "PreemptionSpec.notice_us")
      (spec.notice.map spanToPb) = .ok spec.notice :=
    readOption_map fun d hd => nonnegativeDuration_spanToPb (h d hd) _
  simp [preemptionSpecFromPb, preemptionSpecToPb, hnotice]

theorem preemptionOnWire_of_fromPb {w : Pb.PreemptionSpec} {spec : PreemptionSpec}
    (h : preemptionSpecFromPb w = .ok spec) : PreemptionOnWire spec := by
  simp only [preemptionSpecFromPb, bind_eq_ok, pure_eq_ok, Except.ok.injEq] at h
  obtain ⟨notice, hnotice, -, -, rfl⟩ := h
  intro d hd
  cases (Option.mem_def.mp hd : notice = some d)
  obtain ⟨us, -, hus⟩ := readOption_some hnotice
  exact nonneg_of_nonnegativeDuration hus

variable {L : Libs}

theorem jobFromPb_toPb [L.Lawful] (h : JobOnWire job) : jobFromPb L (jobToPb L job) = .ok job := by
  have hentry : entrypointFromPb (job.entrypoint.map fun argv => ⟨argv⟩) = .ok job.entrypoint := by
    cases hargv : job.entrypoint with
    | none => rfl
    | some argv =>
      have hne : argv ≠ [] := fun hnil => h.entrypoint (hnil ▸ hargv)
      simp [entrypointFromPb, hne]
  have hruntime : readOption (positiveDuration · "Job.max_runtime_us")
      (job.maxRuntime.map spanToPb) = .ok job.maxRuntime :=
    readOption_map fun d hd => positiveDuration_spanToPb (h.maxRuntime d hd) _
  have habort : readOption abortRequestFromPb (job.abortRequested.map abortRequestToPb) =
      .ok job.abortRequested := readOption_map fun _ _ => abortRequestFromPb_toPb _
  have hpre : readOption preemptionSpecFromPb (some (preemptionSpecToPb job.preemption)) =
      .ok (some job.preemption) := by
    simp [readOption, preemptionSpecFromPb_toPb h.preemption]
  simp only [jobFromPb, jobToPb, h.command, if_false, hentry, reqId_idToPb, req_some, hruntime,
    resourcesFromPb_toPb, habort, metadataFromPb_toPb h.metadata, envFromPb_toPb h.env, hpre,
    ok_bind, pure_eq_ok, Option.getD_some]
  rfl

theorem entrypoint_nonempty {w : Option Pb.Entrypoint} {argv : Option (List String)}
    (h : entrypointFromPb w = .ok argv) : argv ≠ some [] := by
  unfold entrypointFromPb at h
  split at h
  next => cases h; exact nofun
  next e =>
    split at h
    next => cases h
    next hne =>
      cases h
      exact fun hempty => hne (Option.some.inj hempty)

theorem jobOnWire_of_fromPb {w : Pb.Job} {job : Job} (h : jobFromPb L w = .ok job) :
    JobOnWire job := by
  unfold jobFromPb at h
  split at h
  next => cases h
  next hcommand =>
    simp only [bind_eq_ok, pure_eq_ok, Except.ok.injEq] at h
    obtain ⟨entry, hentry, id, -, requests, -, runtime, hruntime, entity, -, retry, -, abort, -,
      metadata, hmeta, env, henv, spec, hspec, rfl⟩ := h
    refine ⟨hcommand, ?_, ?_, keysNonempty_of_metadataFromPb hmeta,
      keysNonempty_of_envFromPb henv, ?_⟩
    · exact entrypoint_nonempty hentry
    · intro d hd
      cases (Option.mem_def.mp hd : runtime = some d)
      obtain ⟨us, -, hus⟩ := readOption_some hruntime
      exact pos_of_positiveDuration hus
    · cases spec with
      | none => exact fun d hd => nomatch hd
      | some spec =>
        obtain ⟨w', -, hw⟩ := readOption_some hspec
        exact preemptionOnWire_of_fromPb hw

/-! ## Attempts and nodes -/

section

variable (L : Libs)

def preemptReasonToPb (reason : PreemptReason) : Pb.PreemptReason :=
  ⟨some <|
    match reason with
    | .priority forJob => .priority (some (idToPb L .job forJob))
    | .relocation forJob => .relocation (some (idToPb L .job forJob))
    | .drain => .drain
    | .interruption => .interruption⟩

def preemptReasonFromPb (reason : Pb.PreemptReason) : Read PreemptReason := do
  match ← req reason.reason "PreemptReason.reason" with
  | .priority forJob =>
    let forJob ← reqId L .job forJob "PreemptReason.priority.for_job"
    pure (.priority forJob)
  | .relocation forJob =>
    let forJob ← reqId L .job forJob "PreemptReason.relocation.for_job"
    pure (.relocation forJob)
  | .drain => pure .drain
  | .interruption => pure .interruption

def attemptOutcomeToPb (outcome : AttemptOutcome) : Pb.AttemptOutcome :=
  ⟨some <|
    match outcome with
    | .exited code => .exited code
    | .memoryLimitExceeded => .memoryLimitExceeded
    | .runtimeLimitExceeded => .runtimeLimitExceeded
    | .diskLimitExceeded => .diskLimitExceeded
    | .aborted => .aborted
    | .revoked => .revoked
    | .pullFailed userError => .pullFailed userError
    | .startFailed userError => .startFailed userError
    | .nodeLost => .nodeLost
    | .agentError => .agentError
    | .preempted reason => .preempted (some (preemptReasonToPb L reason))⟩

def attemptOutcomeFromPb (outcome : Pb.AttemptOutcome) : Read AttemptOutcome := do
  match ← req outcome.outcome "AttemptOutcome.outcome" with
  | .exited code => pure (.exited code)
  | .memoryLimitExceeded => pure .memoryLimitExceeded
  | .runtimeLimitExceeded => pure .runtimeLimitExceeded
  | .diskLimitExceeded => pure .diskLimitExceeded
  | .aborted => pure .aborted
  | .revoked => pure .revoked
  | .pullFailed userError => pure (.pullFailed userError)
  | .startFailed userError => pure (.startFailed userError)
  | .nodeLost => pure .nodeLost
  | .agentError => pure .agentError
  | .preempted reason =>
    let reason ← req reason "AttemptOutcome.preempted.reason" >>= preemptReasonFromPb L
    pure (.preempted reason)

end

@[simp] theorem preemptReasonFromPb_toPb [L.Lawful] (reason : PreemptReason) :
    preemptReasonFromPb L (preemptReasonToPb L reason) = .ok reason := by
  cases reason <;>
    simp [preemptReasonFromPb, preemptReasonToPb]

@[simp] theorem attemptOutcomeFromPb_toPb [L.Lawful] (outcome : AttemptOutcome) :
    attemptOutcomeFromPb L (attemptOutcomeToPb L outcome) = .ok outcome := by
  cases outcome <;>
    simp [attemptOutcomeFromPb, attemptOutcomeToPb]

def drainToPb (drain : Drain) : Pb.Drain := ⟨micros drain.requestedAt, drain.deadline.map micros⟩

def drainFromPb (drain : Pb.Drain) : Read Drain := do
  let requestedAt ← timestamp drain.requestedAtUs "Drain.requested_at_us"
  let deadline ← readOption (timestamp · "Drain.deadline_us") drain.deadlineUs
  pure ⟨requestedAt, deadline⟩

@[simp] theorem readOption_micros (t : Option Timestamp) (field : String) :
    readOption (timestamp · field) (t.map micros) = .ok t :=
  readOption_map fun t _ => timestamp_micros t field

@[simp] theorem drainFromPb_toPb (drain : Drain) : drainFromPb (drainToPb drain) = .ok drain := by
  simp [drainFromPb, drainToPb]

def hostFactsToPb (facts : HostFacts) : Pb.HostFacts where
  os := facts.os
  osVersion := facts.osVersion
  kernelVersion := facts.kernelVersion
  arch := facts.arch
  cpuModel := facts.cpuModel
  physicalCores := facts.physicalCores
  logicalCores := facts.logicalCores
  totalMemoryBytes := facts.totalMemoryBytes
  totalDiskBytes := facts.totalDiskBytes
  agentVersion := facts.agentVersion

def hostFactsFromPb (facts : Pb.HostFacts) : HostFacts where
  os := facts.os
  osVersion := facts.osVersion
  kernelVersion := facts.kernelVersion
  arch := facts.arch
  cpuModel := facts.cpuModel
  physicalCores := facts.physicalCores
  logicalCores := facts.logicalCores
  totalMemoryBytes := facts.totalMemoryBytes
  totalDiskBytes := facts.totalDiskBytes
  agentVersion := facts.agentVersion

@[simp] theorem hostFactsFromPb_comp_toPb : hostFactsFromPb ∘ hostFactsToPb = id := rfl

/-! ## Authorization and identity -/

def actorToPb (actor : Actor) : Pb.Actor :=
  ⟨actor.principal, actor.groups, actor.operatorCert, actor.authDisabled⟩

def actorFromPb (actor : Pb.Actor) : Actor :=
  ⟨actor.principal, actor.groups, actor.operatorCert, actor.authDisabled⟩

@[simp] theorem actorFromPb_comp_toPb : actorFromPb ∘ actorToPb = id := rfl

def roleToPb : Role → Int
  | .submitter => 1
  | .operator => 2
  | .admin => 3

def roleFromPb (value : Int) (field : String) : Read Role :=
  match value with
  | 1 => .ok .submitter
  | 2 => .ok .operator
  | 3 => .ok .admin
  | _ => .error (.unknownEnum field value)

@[simp] theorem roleFromPb_toPb (role : Role) (field : String) :
    roleFromPb (roleToPb role) field = .ok role := by
  cases role <;> rfl

def bindingToPb (L : Libs) (binding : Binding) : Pb.Binding where
  subject := some <|
    match binding.subject with
    | .group name => .group name
    | .principal sub => .principal sub
  role := roleToPb binding.role
  scope := binding.scope.map (idToPb L .quotaEntity)

def bindingFromPb (L : Libs) (binding : Pb.Binding) : Read Binding := do
  let subject : Subject ← match ← req binding.subject "Binding.subject" with
    | .group name => pure (.group name)
    | .principal sub => pure (.principal sub)
  let role ← roleFromPb binding.role "Binding.role"
  let scope ← readOption (idFromPb L .quotaEntity) binding.scope
  pure ⟨subject, role, scope⟩

@[simp] theorem bindingFromPb_toPb [L.Lawful] (binding : Binding) :
    bindingFromPb L (bindingToPb L binding) = .ok binding := by
  obtain ⟨subject, role, scope⟩ := binding
  cases subject <;>
    simp [bindingFromPb, bindingToPb]

def enrollRoleToPb : EnrollRole → Int
  | .coordinator => 1
  | .agent => 2

def enrollRoleFromPb (value : Int) (field : String) : Read EnrollRole :=
  match value with
  | 1 => .ok .coordinator
  | 2 => .ok .agent
  | _ => .error (.unknownEnum field value)

@[simp] theorem enrollRoleFromPb_toPb (role : EnrollRole) (field : String) :
    enrollRoleFromPb (enrollRoleToPb role) field = .ok role := by
  cases role <;> rfl

def revokedIdentityToPb (L : Libs) (identity : RevokedIdentity) : Pb.RevokedIdentity :=
  ⟨some <|
    match identity with
    | .machine m => .machine (idToPb L .machine m)
    | .node n => .node (idToPb L .node n)⟩

def revokedIdentityFromPb (L : Libs) (identity : Pb.RevokedIdentity) : Read RevokedIdentity := do
  match ← req identity.identity "RevokedIdentity.identity" with
  | .machine m =>
    let m ← idFromPb L .machine m
    pure (.machine m)
  | .node n =>
    let n ← idFromPb L .node n
    pure (.node n)

@[simp] theorem revokedIdentityFromPb_toPb [L.Lawful] (identity : RevokedIdentity) :
    revokedIdentityFromPb L (revokedIdentityToPb L identity) = .ok identity := by
  cases identity <;>
    simp [revokedIdentityFromPb, revokedIdentityToPb]

/-! ## Policy -/

def multipliersToPb (multipliers : OrdMap Int PriorityMultiplier) :
    List Pb.PriorityMultiplierEntry :=
  multipliers.entries.map fun e => ⟨e.1, e.2⟩

def multipliersFromPb (entries : List Pb.PriorityMultiplierEntry) :
    Read (OrdMap Int PriorityMultiplier) :=
  readMap (fun _ => .ok ()) (.duplicateEntry "PolicyConfig.priority_multipliers")
    (entries.map fun e => (e.priority, e.multiplierQ32))

@[simp] theorem multipliersFromPb_toPb (m : OrdMap Int PriorityMultiplier) :
    multipliersFromPb (multipliersToPb m) = .ok m := by
  simp only [multipliersFromPb, multipliersToPb, map_map, Function.comp_def, Prod.mk.eta,
    map_id']
  exact readMap_entries fun _ _ => rfl

def decayPolicyToPb (decay : DecayPolicy) : Pb.DecayPolicy := ⟨decay.tick, decay.decayPerTick⟩

def decayPolicyFromPb (decay : Pb.DecayPolicy) : DecayPolicy := ⟨decay.tickUs, decay.decayPerTickQ0⟩

def policyConfigToPb (policy : PolicyConfig) : Pb.PolicyConfig where
  costWeights := some (costWeightsToPb policy.costWeights)
  decay := some (decayPolicyToPb policy.decay)
  penaltyExponentMilli := policy.penaltyExponentMilli
  priorityMultipliers := multipliersToPb policy.priorityMultipliers
  accrualLimit := policy.accrualLimit
  terminalRetentionUs := policy.terminalRetention
  nodeRetentionUs := some policy.nodeRetention
  abortGraceUs := policy.abortGrace
  unboundedRuntimeMultiplierQ32 := some policy.unboundedRuntimeMultiplier
  refundFractionMilli := some policy.refundFractionMilli
  groupsClaim := some policy.groupsClaim
  unboundedChargeIntervalS := some policy.unboundedChargeIntervalS
  preemptibleMultiplierQ32 := some policy.preemptibleMultiplier
  preemptionNoticeFloorUs := some policy.preemptionNoticeFloor
  preemptionNoticeCapUs := some policy.preemptionNoticeCap
  drainCleanupMarginUs := some policy.drainCleanupMargin

/-- A field older coordinators did not write reads as its documented default; the two of
    the charging rules read as the values that leave charges as they were. -/
def policyConfigFromPb (policy : Pb.PolicyConfig) : Read PolicyConfig := do
  let costWeights ← req policy.costWeights "PolicyConfig.cost_weights" >>= costWeightsFromPb
  let decay ← req policy.decay "PolicyConfig.decay"
  let priorityMultipliers ← multipliersFromPb policy.priorityMultipliers
  pure {
    costWeights
    decay := decayPolicyFromPb decay
    penaltyExponentMilli := policy.penaltyExponentMilli
    priorityMultipliers
    accrualLimit := policy.accrualLimit
    unboundedChargeIntervalS := policy.unboundedChargeIntervalS.getD 1800
    terminalRetention := policy.terminalRetentionUs
    abortGrace := policy.abortGraceUs
    nodeRetention := policy.nodeRetentionUs.getD (Duration.ofSecs (24 * 3600))
    unboundedRuntimeMultiplier := policy.unboundedRuntimeMultiplierQ32.getD PriorityMultiplier.one
    refundFractionMilli := policy.refundFractionMilli.getD 1000
    groupsClaim := policy.groupsClaim.getD "groups"
    preemptibleMultiplier := policy.preemptibleMultiplierQ32.getD 3221225472
    preemptionNoticeFloor := policy.preemptionNoticeFloorUs.getD (Duration.ofSecs 60)
    preemptionNoticeCap := policy.preemptionNoticeCapUs.getD (Duration.ofSecs 300)
    drainCleanupMargin := policy.drainCleanupMarginUs.getD (Duration.ofSecs 30) }

@[simp] theorem policyConfigFromPb_toPb (policy : PolicyConfig) :
    policyConfigFromPb (policyConfigToPb policy) = .ok policy := by
  simp only [policyConfigFromPb, policyConfigToPb, req_some, ok_bind, costWeightsFromPb_toPb,
    multipliersFromPb_toPb, pure_eq_ok, Option.getD_some]
  rfl

end Coppice.Proto
