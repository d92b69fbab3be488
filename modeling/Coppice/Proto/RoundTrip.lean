/-
  Coppice.Proto.RoundTrip

  A command that was read from an envelope reads back from the envelope it is
  written to: reading establishes `CommandOnWire`, under which the reader inverts
  the writer.
-/

import Coppice.Proto.Command

namespace Coppice.Proto

open Lib State Except

/-! ## Commands that always read back -/

section Flat

variable {L : Libs} [L.Lawful]

@[simp] theorem evictionFromPb_toPb (e : Eviction) :
    evictionFromPb L (evictionToPb L e) = .ok e := by
  obtain ⟨allocation, rule⟩ := e
  cases rule <;> simp [evictionFromPb, evictionToPb, evictionRuleToPb, evictionRuleFromPb]

@[simp] theorem allocationSpecFromPb_toPb (spec : AllocationSpec) :
    allocationSpecFromPb L (allocationSpecToPb L spec) = .ok spec := by
  simp [allocationSpecFromPb, allocationSpecToPb]

@[simp] theorem placementFromPb_toPb (p : Placement) :
    placementFromPb L (placementToPb L p) = .ok p := by
  have hallocs : readList (allocationSpecFromPb L) (p.allocations.map (allocationSpecToPb L)) =
      .ok p.allocations := readList_map fun spec _ => allocationSpecFromPb_toPb spec
  have hevictions : readList (evictionFromPb L) (p.preemptions.map (evictionToPb L)) =
      .ok p.preemptions := readList_map fun e _ => evictionFromPb_toPb e
  simp [placementFromPb, placementToPb, hallocs, hevictions]

@[simp] theorem commitPlacementsFromPb_toPb (c : CommitPlacements) :
    commitPlacementsFromPb L (commitPlacementsToPb L c) = .ok c := by
  have hplacements : readList (placementFromPb L) (c.placements.map (placementToPb L)) =
      .ok c.placements := readList_map fun p _ => placementFromPb_toPb p
  simp [commitPlacementsFromPb, commitPlacementsToPb, hplacements]

@[simp] theorem renewIntervalChargesFromPb_toPb (c : RenewIntervalCharges) :
    renewIntervalChargesFromPb L (renewIntervalChargesToPb L c) = .ok c := by
  have hrenewals : readList (intervalRenewalFromPb L) (c.renewals.map (intervalRenewalToPb L)) =
      .ok c.renewals :=
    readList_map fun r _ => by simp [intervalRenewalFromPb, intervalRenewalToPb]
  simp [renewIntervalChargesFromPb, renewIntervalChargesToPb, hrenewals]

@[simp] theorem setNodeDrainFromPb_toPb (c : SetNodeDrain) :
    setNodeDrainFromPb L (setNodeDrainToPb L c) = .ok c := by
  have hdrain : readOption drainFromPb (c.drain.map drainToPb) = .ok c.drain :=
    readOption_map fun drain _ => drainFromPb_toPb drain
  simp [setNodeDrainFromPb, setNodeDrainToPb, hdrain]

@[simp] theorem updateAuthorizationFromPb_toPb (c : UpdateAuthorization) :
    updateAuthorizationFromPb L (updateAuthorizationToPb L c) = .ok c := by
  have hbindings : readList (bindingFromPb L) (c.bindings.map (bindingToPb L)) = .ok c.bindings :=
    readList_map fun b _ => bindingFromPb_toPb b
  simp [updateAuthorizationFromPb, updateAuthorizationToPb, hbindings]

end Flat

/-! ## Commands with a condition -/

/-- A set of keys in order, none of them empty. -/
def UnsetOnWire (unset : List String) : Prop :=
  "" ∉ unset ∧ ∃ keys : OrdMap String Unit, keys.keys = unset

def UpdateOnWire : JobMetadataUpdate → Prop
  | .replace metadata => KeysNonempty metadata
  | .patch set unset => KeysNonempty set ∧ UnsetOnWire unset

/-- The commands the wire can carry. -/
def CommandOnWire (L : Libs) : Command → Prop
  | .submitJob c => JobOnWire c.job
  | .updateJobMetadata c => UpdateOnWire c.update
  | .recordAttemptOutcome c => 0 ≤ c.actualRuntime.val
  | .recordAttemptNotified c => 0 ≤ c.remaining.val ∧ 0 ≤ c.shortfall.val
  | .reconcileNode c => ∀ l ∈ c.lost, 0 ≤ l.actualRuntime.val
  | .registerNode c => c.serviceAddr ≠ some ""
  | .recordCaCertificate c => Bundle.OnWire L c.bundle ∧ c.stagedRootSerial ≠ some ""
  | _ => True

theorem nonemptyText_eq_self {text : Option String} (h : text ≠ some "") :
    nonemptyText text = text := by
  cases text with
  | none => rfl
  | some t =>
    have hne : t ≠ "" := fun heq => h (heq ▸ rfl)
    simp [nonemptyText, Option.filter_some, hne]

theorem nonemptyText_ne (text : Option String) : nonemptyText text ≠ some "" := by
  intro h
  have hkept := (Option.filter_eq_some_iff.mp h).2
  simp at hkept

theorem unsetFromPb_self (h : UnsetOnWire unset) : unsetFromPb unset = .ok unset := by
  obtain ⟨hempty, keys, rfl⟩ := h
  have hentries : keys.keys.map (fun key => (key, ())) = keys.entries := by
    simp only [OrdMap.keys, List.map_map]
    exact List.map_id' _
  have hkeys : ∀ k ∈ keys.keys, nonemptyKey "MetadataPatch.unset"
      "metadata key must not be empty" k = .ok () :=
    fun k hk => nonemptyKey_eq_ok.mpr fun heq => hempty (heq ▸ hk)
  simp [unsetFromPb, hentries, readMap_entries hkeys]

theorem unsetOnWire_of_fromPb {w unset : List String} (h : unsetFromPb w = .ok unset) :
    UnsetOnWire unset := by
  simp only [unsetFromPb, bind_eq_ok, pure_eq_ok, ok.injEq] at h
  obtain ⟨keys, hkeys, rfl⟩ := h
  exact ⟨fun hk => nonemptyKey_eq_ok.mp (readMap_checked hkeys "" hk) rfl, keys, rfl⟩

section Conditional

variable {L : Libs} [L.Lawful]

theorem submitJobFromPb_toPb {c : SubmitJob} (h : JobOnWire c.job) :
    submitJobFromPb L (submitJobToPb L c) = .ok c := by
  simp [submitJobFromPb, submitJobToPb, jobFromPb_toPb h]

omit [L.Lawful] in
theorem metadataUpdateFromPb_toPb (h : UpdateOnWire update) :
    metadataUpdateFromPb (metadataUpdateToPb update) = .ok update := by
  cases update with
  | replace metadata =>
    have hmeta : KeysNonempty metadata := h
    simp [metadataUpdateFromPb, metadataUpdateToPb, metadataFromPb_toPb hmeta]
  | patch set unset =>
    obtain ⟨hset, hunset⟩ : KeysNonempty set ∧ UnsetOnWire unset := h
    simp [metadataUpdateFromPb, metadataUpdateToPb, metadataFromPb_toPb hset,
      unsetFromPb_self hunset]

theorem updateJobMetadataFromPb_toPb {c : UpdateJobMetadata} (h : UpdateOnWire c.update) :
    updateJobMetadataFromPb L (updateJobMetadataToPb L c) = .ok c := by
  simp [updateJobMetadataFromPb, updateJobMetadataToPb, metadataUpdateFromPb_toPb h]

theorem recordAttemptOutcomeFromPb_toPb {c : RecordAttemptOutcome} (h : 0 ≤ c.actualRuntime.val) :
    recordAttemptOutcomeFromPb L (recordAttemptOutcomeToPb L c) = .ok c := by
  simp [recordAttemptOutcomeFromPb, recordAttemptOutcomeToPb, nonnegativeDuration_spanToPb h]

theorem recordAttemptNotifiedFromPb_toPb {c : RecordAttemptNotified}
    (h : 0 ≤ c.remaining.val ∧ 0 ≤ c.shortfall.val) :
    recordAttemptNotifiedFromPb L (recordAttemptNotifiedToPb L c) = .ok c := by
  simp [recordAttemptNotifiedFromPb, recordAttemptNotifiedToPb,
    nonnegativeDuration_clippedSpanToPb h.1, nonnegativeDuration_clippedSpanToPb h.2]

theorem lostAttemptFromPb_toPb {l : LostAttempt} (h : 0 ≤ l.actualRuntime.val) :
    lostAttemptFromPb L (lostAttemptToPb L l) = .ok l := by
  simp [lostAttemptFromPb, lostAttemptToPb, nonnegativeDuration_spanToPb h]

theorem reconcileNodeFromPb_toPb {c : ReconcileNode} (h : ∀ l ∈ c.lost, 0 ≤ l.actualRuntime.val) :
    reconcileNodeFromPb L (reconcileNodeToPb L c) = .ok c := by
  have hlost : readList (lostAttemptFromPb L) (c.lost.map (lostAttemptToPb L)) = .ok c.lost :=
    readList_map fun l hl => lostAttemptFromPb_toPb (h l hl)
  simp [reconcileNodeFromPb, reconcileNodeToPb, hlost]

theorem registerNodeFromPb_toPb {c : RegisterNode} (h : c.serviceAddr ≠ some "") :
    registerNodeFromPb L (registerNodeToPb L c) = .ok c := by
  have hdetected : readOption resourcesFromPb (c.detectedCapacity.map resourcesToPb) =
      .ok c.detectedCapacity := readOption_map fun r _ => resourcesFromPb_toPb r
  simp [registerNodeFromPb, registerNodeToPb, hdetected, nonemptyText_eq_self h]

omit [L.Lawful] in
theorem recordCaCertificateFromPb_toPb {c : RecordCaCertificate}
    (h : Bundle.OnWire L c.bundle ∧ c.stagedRootSerial ≠ some "") :
    recordCaCertificateFromPb L (recordCaCertificateToPb c) = .ok c := by
  have hbundle : caBundleFromPb L c.bundle.pem = .ok c.bundle := by
    unfold caBundleFromPb
    rw [h.1]
  simp [recordCaCertificateFromPb, recordCaCertificateToPb, hbundle, nonemptyText_eq_self h.2]

-- these commands need no condition and no lemma of their own
attribute [simp] abortJobFromPb abortJobToPb dispatchAttemptFromPb dispatchAttemptToPb
  attemptAtFromPb recordAttemptStartedFromPb recordAttemptStartedToPb recordAttemptExitedFromPb
  recordAttemptExitedToPb declareNodeLostFromPb declareNodeLostToPb setNodeDrainingFromPb
  setNodeDrainingToPb evictTerminalJobsFromPb evictTerminalJobsToPb evictNodesFromPb evictNodesToPb
  configureQuotaEntityFromPb configureQuotaEntityToPb updatePolicyFromPb updatePolicyToPb
  bumpClusterVersionFromPb bumpClusterVersionToPb bindMachineIdentityFromPb bindMachineIdentityToPb
  mintEnrollTokenFromPb mintEnrollTokenToPb revokeEnrollTokenFromPb revokeEnrollTokenToPb
  revokeIdentityFromPb revokeIdentityToPb confirmKeyPossessionFromPb confirmKeyPossessionToPb
  replicaAtFromPb recordEnrolledIdentityFromPb recordEnrolledIdentityToPb machineAtFromPb
  rebindMachineAddressFromPb rebindMachineAddressToPb retireMachineBindingFromPb
  retireMachineBindingToPb recordKeyTransferIntentFromPb recordKeyTransferIntentToPb
  recordStagedKeyTransferIntentFromPb recordStagedKeyTransferIntentToPb stagedReplicaAtFromPb
  confirmStagedKeyPossessionFromPb confirmStagedKeyPossessionToPb

theorem bodyFromPb_toPb (h : CommandOnWire L c) : bodyFromPb L (bodyToPb L c) = .ok c := by
  cases c with
  | submitJob c => exact map_ok (submitJobFromPb_toPb h)
  | updateJobMetadata c => exact map_ok (updateJobMetadataFromPb_toPb h)
  | recordAttemptOutcome c => exact map_ok (recordAttemptOutcomeFromPb_toPb h)
  | reconcileNode c => exact map_ok (reconcileNodeFromPb_toPb h)
  | recordAttemptNotified c => exact map_ok (recordAttemptNotifiedFromPb_toPb h)
  | registerNode c => exact map_ok (registerNodeFromPb_toPb h)
  | recordCaCertificate c => exact map_ok (recordCaCertificateFromPb_toPb h)
  | commitPlacements c => exact map_ok (commitPlacementsFromPb_toPb c)
  | renewIntervalCharges c => exact map_ok (renewIntervalChargesFromPb_toPb c)
  | setNodeDrain c => exact map_ok (setNodeDrainFromPb_toPb c)
  | updateAuthorization c => exact map_ok (updateAuthorizationFromPb_toPb c)
  | _ c => exact map_ok (by simp)

/-- What the wire can carry reads back, under the version it is written with. -/
theorem commandFromPb_toPb (h : CommandOnWire L c) (version : Nat) :
    commandFromPb L (commandToPb L c version) = .ok (version, c) := by
  simp [commandFromPb, commandToPb, bodyFromPb_toPb h]

end Conditional

/-! ## What was read -/

section Accepted

variable {L : Libs}

theorem updateOnWire_of_fromPb {w : Pb.UpdateJobMetadata.Update} {update : JobMetadataUpdate}
    (h : metadataUpdateFromPb w = .ok update) : UpdateOnWire update := by
  cases w with
  | replace entries =>
    simp only [metadataUpdateFromPb, bind_eq_ok, pure_eq_ok, ok.injEq] at h
    obtain ⟨metadata, hmeta, rfl⟩ := h
    exact keysNonempty_of_metadataFromPb hmeta
  | patch set unset =>
    simp only [metadataUpdateFromPb, bind_eq_ok, pure_eq_ok, ok.injEq] at h
    obtain ⟨set', hset, unset', hunset, rfl⟩ := h
    exact ⟨keysNonempty_of_metadataFromPb hset, unsetOnWire_of_fromPb hunset⟩

theorem lostOnWire_of_fromPb {w : Pb.LostAttempt} {l : LostAttempt}
    (h : lostAttemptFromPb L w = .ok l) : 0 ≤ l.actualRuntime.val := by
  simp only [lostAttemptFromPb, bind_eq_ok, pure_eq_ok, ok.injEq] at h
  obtain ⟨_, -, _, -, runtime, hruntime, rfl⟩ := h
  exact nonneg_of_nonnegativeDuration hruntime

theorem bundleOnWire_of_fromPb {pem : String} {bundle : CaCertBundle}
    (h : caBundleFromPb L pem = .ok bundle) : Bundle.OnWire L bundle := by
  unfold caBundleFromPb at h
  split at h
  next bundle' hparse =>
    cases h
    exact Bundle.onWire_of_parse hparse
  next => cases h

/-- What the reader accepts, the wire can carry. -/
theorem commandOnWire_of_bodyFromPb {w : Pb.Body} {c : Command} (h : bodyFromPb L w = .ok c) :
    CommandOnWire L c := by
  cases w with
  | submitJob w =>
    obtain ⟨c, hc, rfl⟩ := map_eq_ok.mp h
    simp only [submitJobFromPb, bind_eq_ok, pure_eq_ok, ok.injEq] at hc
    obtain ⟨job, ⟨_, -, hjob⟩, _, -, rfl⟩ := hc
    exact jobOnWire_of_fromPb hjob
  | updateJobMetadata w =>
    obtain ⟨c, hc, rfl⟩ := map_eq_ok.mp h
    simp only [updateJobMetadataFromPb, bind_eq_ok, pure_eq_ok, ok.injEq] at hc
    obtain ⟨update, ⟨_, -, hupdate⟩, _, -, _, -, rfl⟩ := hc
    exact updateOnWire_of_fromPb hupdate
  | recordAttemptOutcome w =>
    obtain ⟨c, hc, rfl⟩ := map_eq_ok.mp h
    simp only [recordAttemptOutcomeFromPb, bind_eq_ok, pure_eq_ok, ok.injEq] at hc
    obtain ⟨_, -, _, -, runtime, hruntime, _, -, rfl⟩ := hc
    exact nonneg_of_nonnegativeDuration hruntime
  | recordAttemptNotified w =>
    obtain ⟨c, hc, rfl⟩ := map_eq_ok.mp h
    simp only [recordAttemptNotifiedFromPb, bind_eq_ok, pure_eq_ok, ok.injEq] at hc
    obtain ⟨_, -, _, -, remaining, hremaining, shortfall, hshortfall, _, -, rfl⟩ := hc
    exact ⟨nonneg_of_nonnegativeDuration hremaining, nonneg_of_nonnegativeDuration hshortfall⟩
  | reconcileNode w =>
    obtain ⟨c, hc, rfl⟩ := map_eq_ok.mp h
    simp only [reconcileNodeFromPb, bind_eq_ok, pure_eq_ok, ok.injEq] at hc
    obtain ⟨_, -, _, -, lost, hlost, _, -, rfl⟩ := hc
    intro l hl
    obtain ⟨wire, hwire⟩ := mem_readList hlost l hl
    exact lostOnWire_of_fromPb hwire
  | registerNode w =>
    obtain ⟨c, hc, rfl⟩ := map_eq_ok.mp h
    simp only [registerNodeFromPb, bind_eq_ok, pure_eq_ok, ok.injEq] at hc
    obtain ⟨_, -, _, -, _, -, _, -, _, -, _, -, rfl⟩ := hc
    exact nonemptyText_ne _
  | recordCaCertificate w =>
    obtain ⟨c, hc, rfl⟩ := map_eq_ok.mp h
    simp only [recordCaCertificateFromPb, bind_eq_ok, pure_eq_ok, ok.injEq] at hc
    obtain ⟨bundle, hbundle, _, -, rfl⟩ := hc
    exact ⟨bundleOnWire_of_fromPb hbundle, nonemptyText_ne _⟩
  | _ =>
    obtain ⟨c, -, rfl⟩ := map_eq_ok.mp h
    trivial

theorem commandOnWire_of_commandFromPb {w : Pb.Command} {v : Nat} {c : Command}
    (h : commandFromPb L w = .ok (v, c)) : CommandOnWire L c := by
  simp only [commandFromPb, bind_eq_ok, pure_eq_ok, ok.injEq, Prod.mk.injEq] at h
  obtain ⟨_, ⟨body, -, hbody⟩, -, rfl⟩ := h
  exact commandOnWire_of_bodyFromPb hbody

end Accepted

end Coppice.Proto
