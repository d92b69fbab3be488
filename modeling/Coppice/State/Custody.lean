/-
  Coppice.State.Custody

  Who holds what.  A machine has one seat, for good; the records of the CA key never
  lose a node, and those of a staged root become those of the active one when it is
  activated.
-/

import Coppice.State.QuotaTree

namespace Coppice.State

open Lib Coppice.Core StateMachine OrdMap Option

/-- The node is a confirmed holder of the active key. -/
def Confirmed (s : StateMachine) (n : Nat) : Prop := s.keyConfirmations.contains n = true

/-- The active key may have reached the node. -/
def Intended (s : StateMachine) (n : Nat) : Prop := s.keyTransferIntents.contains n = true

/-- The node is on record for the active key. -/
def OnRecord (s : StateMachine) (n : Nat) : Prop := Confirmed s n ∨ Intended s n

namespace StateMachine

theorem contains_orInsert {m : OrdMap Nat Timestamp} {k n : Nat} {v : Timestamp} :
    (orInsert m k v).contains n = true ↔ k = n ∨ m.contains n = true := by
  unfold orInsert
  cases hk : m.get? k with
  | none => exact contains_insert
  | some w =>
    refine ⟨.inr, fun h => h.elim (fun e => ?_) id⟩
    exact e ▸ contains_iff.mpr ⟨w, hk⟩

theorem promoteHolder_confirmed (t : StateMachine) (x : Nat × Timestamp) (n : Nat) :
    Confirmed (promoteHolder t x) n ↔ x.1 = n ∨ Confirmed t n := by
  unfold promoteHolder Confirmed
  cases hx : t.keyConfirmations.get? x.1 with
  | none => exact contains_insert
  | some w =>
    simp only
    split_ifs
    · refine ⟨.inr, fun h => h.elim (fun e => ?_) id⟩
      exact e ▸ contains_iff.mpr ⟨w, hx⟩
    · exact contains_insert

/-- The certificates and bindings are the same. -/
structure Promotes (t t' : StateMachine) : Prop where
  staged : t'.stagedRoot = t.stagedRoot
  bindings : t'.machineBindings = t.machineBindings

theorem Promotes.trans (h : Promotes s t) (h' : Promotes t u) : Promotes s u :=
  ⟨h'.staged.trans h.staged, h'.bindings.trans h.bindings⟩

/-- The holders of the staged root are confirmed, and their transfers resolved. -/
theorem promoteHolders_spec (l : List (Nat × Timestamp)) (t : StateMachine) :
    Promotes t (l.foldl promoteHolder t) ∧ ∀ n,
      (Confirmed (l.foldl promoteHolder t) n ↔ Confirmed t n ∨ n ∈ l.map Prod.fst) ∧
      (Intended (l.foldl promoteHolder t) n ↔ Intended t n ∧ n ∉ l.map Prod.fst) := by
  refine ⟨foldl_trans (fun _ => ⟨rfl, rfl⟩) .trans (fun _ _ => ⟨rfl, rfl⟩) l t, fun n => ?_⟩
  induction l generalizing t with
  | nil => simp
  | cons x rest ih =>
    have hone : Intended (promoteHolder t x) n ↔ x.1 ≠ n ∧ Intended t n := contains_erase
    rw [List.foldl_cons, (ih _).1, (ih _).2, promoteHolder_confirmed, hone, List.map_cons,
      List.mem_cons, eq_comm (a := n)]
    tauto

theorem promoteIntent_spec (t : StateMachine) (x : Nat × Timestamp) :
    Promotes t (promoteIntent t x) ∧ ∀ n,
      (Confirmed (promoteIntent t x) n ↔ Confirmed t n) ∧
      (Intended (promoteIntent t x) n ↔ Intended t n ∨ x.1 = n ∧ ¬Confirmed t n) := by
  unfold promoteIntent
  by_cases hx : t.keyConfirmations.contains x.1 = true
  · rw [if_pos hx]
    refine ⟨⟨rfl, rfl⟩, fun n => ⟨Iff.rfl, (or_iff_left ?_).symm⟩⟩
    rintro ⟨rfl, hno⟩
    exact hno hx
  · rw [if_neg hx]
    refine ⟨⟨rfl, rfl⟩, fun n => ⟨Iff.rfl, contains_orInsert.trans (or_comm.trans ?_)⟩⟩
    refine or_congr_right ⟨?_, And.left⟩
    rintro rfl
    exact ⟨rfl, hx⟩

/-- The transfers of the staged root are pending, unless the node is confirmed. -/
theorem promoteIntents_spec (l : List (Nat × Timestamp)) (t : StateMachine) :
    Promotes t (l.foldl promoteIntent t) ∧ ∀ n,
      (Confirmed (l.foldl promoteIntent t) n ↔ Confirmed t n) ∧
      (Intended (l.foldl promoteIntent t) n ↔
        Intended t n ∨ n ∈ l.map Prod.fst ∧ ¬Confirmed t n) := by
  refine ⟨foldl_trans (fun _ => ⟨rfl, rfl⟩) .trans (fun t x => (promoteIntent_spec t x).1) l t,
    fun n => ?_⟩
  induction l generalizing t with
  | nil => simp
  | cons x rest ih =>
    obtain ⟨hconf, hint⟩ := (promoteIntent_spec t x).2 n
    rw [List.foldl_cons, (ih _).1, (ih _).2, hconf, hint, List.map_cons, List.mem_cons,
      eq_comm (a := n)]
    exact ⟨Iff.rfl, by tauto⟩

end StateMachine

/-! ## Seats -/

/-- What may become of a binding: the seat stays, and a retired one stays as it is. -/
structure MachineBinding.Keeps (b b' : MachineBinding) : Prop where
  seat : b'.raftNodeId = b.raftNodeId
  boundAt : b'.boundAt = b.boundAt
  retired : b.retiredAt ≠ none → b' = b

variable {b : MachineBinding}

theorem MachineBinding.Keeps.trans (h : b.Keeps b') (h' : b'.Keeps b'') : b.Keeps b'' := by
  refine ⟨h'.seat.trans h.seat, h'.boundAt.trans h.boundAt, fun hr => ?_⟩
  have hb := h.retired hr
  subst hb
  exact h'.retired hr

/-- No two machines have one seat. -/
def OneSeat (s : StateMachine) : Prop :=
  ∀ m m' b b', s.machineBindings.get? m = some b → s.machineBindings.get? m' = some b' →
    b.raftNodeId = b'.raftNodeId → m = m'

/-- What one command does to the bindings. -/
inductive Binds (s s' : StateMachine) : Prop where
  | same (h : s'.machineBindings = s.machineBindings)
  | bound {m : MachineId} {b : MachineBinding} (new : s.machineBindings.get? m = none)
      (free : ∀ x c, s.machineBindings.get? x = some c → c.raftNodeId ≠ b.raftNodeId)
      (h : s'.machineBindings = s.machineBindings.insert m b)
  | changed {m : MachineId} {b b' : MachineBinding} (old : s.machineBindings.get? m = some b)
      (keeps : b.Keeps b') (h : s'.machineBindings = s.machineBindings.insert m b')

namespace StateMachine

variable {s : StateMachine} {n : Nat} {m : MachineId}

theorem machineForRaftNode_some (h : s.machineForRaftNode n = some m) :
    ∃ b, s.machineBindings.get? m = some b ∧ b.raftNodeId = n := by
  obtain ⟨e, he, rfl⟩ := map_eq_some_iff.mp h
  exact ⟨e.2, mem_entries.mp (List.mem_of_find?_eq_some he), by simpa using List.find?_some he⟩

theorem machineForRaftNode_none (h : s.machineForRaftNode n = none) {b : MachineBinding}
    (hb : s.machineBindings.get? m = some b) : b.raftNodeId ≠ n := by
  have hno := List.find?_eq_none.mp (map_eq_none_iff.mp h) (m, b)
    (mem_entries.mpr hb)
  simpa using hno

theorem apply_binds (s : StateMachine) (c : Command) : Binds s (s.apply c).1 := by
  by_cases hc : c.writesKeys = true
  · cases c with
    | bindMachineIdentity c =>
      cases hb : s.machineBindings.get? c.machine with
      | some b =>
        refine .same ?_
        simp only [apply, dispatch, bindMachineIdentity, hb]
        repeat' split
        all_goals rfl
      | none =>
        cases hn : s.machineForRaftNode c.raftNodeId with
        | none =>
          exact .bound hb (fun x r hr => machineForRaftNode_none hn hr) (by
            simp only [apply, dispatch, bindMachineIdentity, hb, hn]
            rfl)
        | some m =>
          obtain ⟨b, hm, -⟩ := machineForRaftNode_some hn
          have hne := (ne_of_get? hb hm).symm
          refine .same ?_
          simp only [apply, dispatch, bindMachineIdentity, hb, hn, ne_eq, hne]
          rfl
    | rebindMachineAddress c =>
      simp only [apply, dispatch, rebindMachineAddress]
      split
      · exact .same rfl
      · split
        · exact .same rfl
        · rename_i _ _ b hb
          split_ifs with hr
          · exact .same rfl
          · have hnone : b.retiredAt = none := by simpa using hr
            have hkeeps : b.Keeps { b with address := c.address } :=
              ⟨rfl, rfl, fun h => absurd hnone h⟩
            exact .changed hb hkeeps rfl
    | retireMachineBinding c =>
      simp only [apply, dispatch, retireMachineBinding]
      split
      · exact .same rfl
      · rename_i b hb
        split_ifs with hr
        · have hnone : b.retiredAt = none := by simpa using hr
          have hkeeps : b.Keeps { b with retiredAt := some c.retiredAt } :=
            ⟨rfl, rfl, fun h => absurd hnone h⟩
          exact .changed hb hkeeps rfl
        · exact .same rfl
    | recordCaCertificate c =>
      refine .same ?_
      simp only [apply, dispatch, recordCaCertificate]
      repeat' split
      all_goals first
        | rfl
        | exact (promoteIntents_spec _ _).1.bindings.trans (promoteHolders_spec _ _).1.bindings
    | confirmStagedKeyPossession c | recordStagedKeyTransferIntent c
    | recordKeyTransferIntent c =>
      refine .same ?_
      simp only [apply, dispatch, confirmStagedKeyPossession, recordStagedKeyTransferIntent,
        recordKeyTransferIntent]
      repeat' split
      all_goals rfl
    | confirmKeyPossession c => exact .same rfl
    | _ c => cases hc
  · exact .same ((s.dispatch_step _).sameKeys (by simpa using hc)).bindings

end StateMachine

namespace Binds

variable {s s' : StateMachine}

theorem keeps (h : Binds s s') {m : MachineId} {b : MachineBinding}
    (hb : s.machineBindings.get? m = some b) :
    ∃ b', s'.machineBindings.get? m = some b' ∧ b.Keeps b' := by
  have hself : b.Keeps b := ⟨rfl, rfl, fun _ => rfl⟩
  cases h with
  | same h => exact ⟨b, by rw [h, hb], hself⟩
  | @bound x r new free h =>
    exact ⟨b, by rw [h, get?_insert_of_ne _ _ (ne_of_get? new hb), hb], hself⟩
  | @changed x r r' old keeps h =>
    by_cases hx : x = m
    · subst hx
      cases old.symm.trans hb
      exact ⟨r', by rw [h, get?_insert_self], keeps⟩
    · exact ⟨b, by rw [h, get?_insert_of_ne _ _ hx, hb], hself⟩

theorem oneSeat (h : Binds s s') (hs : OneSeat s) : OneSeat s' := by
  intro m m' b b' hb hb' hseat
  cases h with
  | same h =>
    rw [h] at hb hb'
    exact hs m m' b b' hb hb' hseat
  | @bound x r new free h =>
    rw [h, get?_insert] at hb hb'
    split_ifs at hb hb' with h1 h2 h2
    · exact h1.symm.trans h2
    · cases hb
      exact absurd hseat.symm (free m' b' hb')
    · cases hb'
      exact absurd hseat (free m b hb)
    · exact hs m m' b b' hb hb' hseat
  | @changed x r r' old keeps h =>
    rw [h, get?_insert] at hb hb'
    split_ifs at hb hb' with h1 h2 h2
    · exact h1.symm.trans h2
    · cases hb
      exact h1.symm.trans (hs x m' r b' old hb' (keeps.seat.symm.trans hseat))
    · cases hb'
      exact (hs m x b r hb old (hseat.trans keeps.seat)).trans h2
    · exact hs m m' b b' hb hb' hseat

end Binds

variable {s : StateMachine}

/-- A retired machine is not admitted again, nor another one to its seat. -/
theorem OneSeat.refused (hs : OneSeat s) {m : MachineId} (hb : s.machineBindings.get? m = some b)
    (hr : b.retiredAt ≠ none) {c : BindMachineIdentity}
    (hc : c.machine = m ∨ c.raftNodeId = b.raftNodeId) :
    (s.apply (.bindMachineIdentity c)).2.isOk = false := by
  have hret : b.retiredAt.isSome = true := isSome_iff_ne_none.mpr hr
  by_cases hm : c.machine = m
  · simp only [apply, dispatch, bindMachineIdentity, hm, hb, hret]
    rfl
  · have hseat := hc.resolve_left hm
    cases hn : s.machineForRaftNode c.raftNodeId with
    | none => exact absurd hseat.symm (machineForRaftNode_none hn hb)
    | some x =>
      obtain ⟨r, hx, hrx⟩ := machineForRaftNode_some hn
      have hxm : x = m := hs x m r b hx hb (hrx.trans hseat)
      have hne : x ≠ c.machine := fun e => hm (e.symm.trans hxm)
      simp only [apply, dispatch, bindMachineIdentity, hn,
        ne_eq, hne, not_false_eq_true, decide_true]
      repeat' split
      all_goals first
        | rfl
        | contradiction

theorem Reachable.oneSeat (h : Reachable s) : OneSeat s := by
  refine Reach.invariant OneSeat (fun m m' b b' hb => ?_)
    (fun s c hs _ => (s.apply_binds c).oneSeat hs) h
  cases hb

/-- One seat ever. -/
theorem one_seat_ever {s : StateMachine} (h : Reachable s) :
    OneSeat s ∧ ∀ s', Onward s s' → ∀ m b, s.machineBindings.get? m = some b →
      ∃ b', s'.machineBindings.get? m = some b' ∧ b.Keeps b' ∧
        (b.retiredAt ≠ none → ∀ c : BindMachineIdentity,
          c.machine = m ∨ c.raftNodeId = b.raftNodeId →
            (s'.apply (.bindMachineIdentity c)).2.isOk = false) := by
  refine ⟨h.oneSeat, fun s' hrun m b hb => ?_⟩
  have hall := Reach.invariant
    (fun t => Reachable t ∧ ∃ b', t.machineBindings.get? m = some b' ∧ b.Keeps b')
    ⟨h, b, hb, rfl, rfl, fun _ => rfl⟩
    (fun t c ht _ => by
      obtain ⟨hreach, b', hb', hk⟩ := ht
      obtain ⟨b'', hb'', hk'⟩ := (t.apply_binds c).keeps hb'
      exact ⟨hreach.apply c, b'', hb'', hk.trans hk'⟩) hrun
  obtain ⟨hreach, b', hb', hk⟩ := hall
  refine ⟨b', hb', hk, fun hr c hc => ?_⟩
  have hsame := hk.retired hr
  subst hsame
  exact hreach.oneSeat.refused hb' hr hc

/-- Machine 1 takes seat 7 and leaves it. -/
def Sample.retired : List Command :=
  [.bindMachineIdentity ⟨1, 7, "a", epoch⟩, .retireMachineBinding ⟨1, epoch⟩]

open Sample

/-- Its seat is not given to machine 2. -/
theorem one_seat_ever_retired :
    ((run retired).machineBindings.get? 1).bind MachineBinding.retiredAt = some epoch ∧
      ((run retired).apply (.bindMachineIdentity ⟨2, 7, "b", epoch⟩)).2.isOk = false := by
  have hreach : Reachable (run retired) := reachable_run _
  have hb : (run retired).machineBindings.get? 1 =
      some ⟨7, "a", epoch, some epoch⟩ := by decide +kernel
  obtain ⟨b', -, -, hrefused⟩ := (one_seat_ever hreach).2 _ .init 1 _ hb
  refine ⟨by rw [hb]; rfl, hrefused (by simp) _ (.inr rfl)⟩

/-! ## Keys -/

/-- The serial of the active root. -/
def StateMachine.firstSerial (s : StateMachine) : Option String :=
  s.ca.bind fun ca => ca.bundle.serials.head?

/-- The records of the active key are the same. -/
structure SameActive (s s' : StateMachine) : Prop where
  confirmations : s'.keyConfirmations = s.keyConfirmations
  intents : s'.keyTransferIntents = s.keyTransferIntents

variable {s' : StateMachine}

theorem SameActive.confirmed (h : SameActive s s') (n : Nat) : Confirmed s' n ↔ Confirmed s n := by
  rw [Confirmed, Confirmed, h.confirmations]

theorem SameActive.intended (h : SameActive s s') (n : Nat) : Intended s' n ↔ Intended s n := by
  rw [Intended, Intended, h.intents]

/-- What one command does to the records of keys. -/
inductive Rekeys (s : StateMachine) (c : Command) (s' : StateMachine) : Prop where
  | same (ca : s'.ca = s.ca) (staged : s'.stagedRoot = s.stagedRoot) (active : SameActive s s')
  | confirms {x : ConfirmKeyPossession} (hc : c = .confirmKeyPossession x) (ca : s'.ca = s.ca)
      (staged : s'.stagedRoot = s.stagedRoot)
      (confirmed : ∀ n, Confirmed s' n ↔ x.raftNodeId = n ∨ Confirmed s n)
      (intended : ∀ n, Intended s' n ↔ x.raftNodeId ≠ n ∧ Intended s n)
  | intends {x : RecordKeyTransferIntent} (hc : c = .recordKeyTransferIntent x) (ca : s'.ca = s.ca)
      (staged : s'.stagedRoot = s.stagedRoot) (unconfirmed : ¬Confirmed s x.raftNodeId)
      (confirmed : ∀ n, Confirmed s' n ↔ Confirmed s n)
      (intended : ∀ n, Intended s' n ↔ x.raftNodeId = n ∨ Intended s n)
  | stagedConfirms {x : ConfirmStagedKeyPossession} {st st' : StagedRoot}
      (hc : c = .confirmStagedKeyPossession x) (ca : s'.ca = s.ca) (active : SameActive s s')
      (before : s.stagedRoot = some st) (after : s'.stagedRoot = some st')
      (named : x.rootSerial = st.serial) (serial : st'.serial = st.serial)
      (holders : ∀ n, st'.holders.contains n = true ↔
        x.raftNodeId = n ∨ st.holders.contains n = true)
      (intents : ∀ n, st'.intents.contains n = true ↔
        x.raftNodeId ≠ n ∧ st.intents.contains n = true)
  | stagedIntends {m : Nat} {st st' : StagedRoot} (ca : s'.ca = s.ca) (active : SameActive s s')
      (before : s.stagedRoot = some st) (after : s'.stagedRoot = some st')
      (unconfirmed : st.holders.contains m ≠ true) (serial : st'.serial = st.serial)
      (holders : st'.holders = st.holders)
      (intents : ∀ n, st'.intents.contains n = true ↔ m = n ∨ st.intents.contains n = true)
  | stages {x : RecordCaCertificate} {st' : StagedRoot} (hc : c = .recordCaCertificate x)
      (ca : s'.ca = some ⟨x.bundle, x.recordedAt⟩) (active : SameActive s s')
      (named : x.stagedRootSerial = some st'.serial) (after : s'.stagedRoot = some st')
      (second : st'.serial ∈ x.bundle.serials.drop 1)
      (carried : (∃ st, s.stagedRoot = some st ∧ st'.serial = st.serial ∧
        st'.holders = st.holders ∧ st'.intents = st.intents) ∨
          st'.holders = .empty ∧ st'.intents = .empty)
  | drops {x : RecordCaCertificate} (hc : c = .recordCaCertificate x)
      (ca : s'.ca = some ⟨x.bundle, x.recordedAt⟩) (active : SameActive s s')
      (named : x.stagedRootSerial = none) (after : s'.stagedRoot = none)
      (passive : ∀ st, s.stagedRoot = some st → x.bundle.serials.head? ≠ some st.serial)
  | activates {x : RecordCaCertificate} {st : StagedRoot} (hc : c = .recordCaCertificate x)
      (ca : s'.ca = some ⟨x.bundle, x.recordedAt⟩) (named : x.stagedRootSerial = none)
      (before : s.stagedRoot = some st) (after : s'.stagedRoot = none)
      (first : x.bundle.serials.head? = some st.serial)
      (confirmed : ∀ n, Confirmed s' n ↔ Confirmed s n ∨ st.holders.contains n = true)
      (intended : ∀ n, Intended s' n ↔ Intended s n ∧ ¬st.holders.contains n = true ∨
        st.intents.contains n = true ∧ ¬Confirmed s' n)

namespace StateMachine

variable {st : StagedRoot}

theorem stagedRootInScope_ok {staged : Option StagedRoot} {r : String}
    (h : stagedRootInScope staged r = .ok st) : staged = some st ∧ r = st.serial := by
  unfold stagedRootInScope at h
  split at h
  · split_ifs at h with hs
    cases h
    exact ⟨rfl, hs.symm⟩
  · cases h

theorem mem_map_entries {m : OrdMap Nat Timestamp} {n : Nat} :
    n ∈ m.entries.map Prod.fst ↔ m.contains n = true := by
  rw [contains_iff]
  exact mem_keys

/-- The commit that activates the staged root. -/
theorem recordCaCertificate_activates {x : RecordCaCertificate} (hx : x.stagedRootSerial = none)
    (hst : s.stagedRoot = some st) (hfirst : x.bundle.serials.head? = some st.serial)
    {s' : StateMachine} (hs' : s' = (s.apply (.recordCaCertificate x)).1) :
    s'.ca = some ⟨x.bundle, x.recordedAt⟩ ∧ s'.stagedRoot = none ∧
      (∀ n, Confirmed s' n ↔ Confirmed s n ∨ st.holders.contains n = true) ∧
      ∀ n, Intended s' n ↔ Intended s n ∧ ¬st.holders.contains n = true ∨
        st.intents.contains n = true ∧ ¬Confirmed s' n := by
  simp only [apply, dispatch, recordCaCertificate, hx, hst, hfirst] at hs'
  obtain ⟨hrest, hheld⟩ := promoteHolders_spec st.holders.entries { s with stagedRoot := none }
  obtain ⟨hrest', hpend⟩ := promoteIntents_spec st.intents.entries
    (st.holders.entries.foldl promoteHolder { s with stagedRoot := none })
  subst hs'
  refine ⟨rfl, hrest'.staged.trans hrest.staged, fun n => ?_, fun n => (hpend n).2.trans ?_⟩
  · refine (hpend n).1.trans ((hheld n).1.trans ?_)
    rw [mem_map_entries]
    rfl
  · rw [(hheld n).2, mem_map_entries, mem_map_entries, ← (hpend n).1]
    rfl

theorem recordCaCertificate_rekeys (s : StateMachine) (x : RecordCaCertificate) :
    Rekeys s (.recordCaCertificate x) (s.apply (.recordCaCertificate x)).1 := by
  cases hx : x.stagedRootSerial with
  | some serial =>
    by_cases hin : (x.bundle.serials.drop 1).contains serial = true
    · have hmem : serial ∈ x.bundle.serials.drop 1 := by simpa using hin
      cases hst : s.stagedRoot with
      | none =>
        simp only [apply, dispatch, recordCaCertificate, hx, hin, hst]
        exact .stages rfl rfl ⟨rfl, rfl⟩ hx rfl hmem (.inr ⟨rfl, rfl⟩)
      | some st =>
        by_cases hs : st.serial = serial
        · simp only [apply, dispatch, recordCaCertificate, hx, hin, hst, hs]
          exact .stages rfl rfl ⟨rfl, rfl⟩ hx rfl hmem (.inl ⟨st, hst, hs.symm, rfl, rfl⟩)
        · simp only [apply, dispatch, recordCaCertificate, hx, hin, hst, hs]
          exact .stages rfl rfl ⟨rfl, rfl⟩ hx rfl hmem (.inr ⟨rfl, rfl⟩)
    · simp only [apply, dispatch, recordCaCertificate, hx, hin]
      exact .same rfl rfl ⟨rfl, rfl⟩
  | none =>
    cases hst : s.stagedRoot with
    | none =>
      simp only [apply, dispatch, recordCaCertificate, hx, hst]
      refine .drops rfl rfl ⟨rfl, rfl⟩ hx rfl fun st h => ?_
      rw [hst] at h
      cases h
    | some st =>
      by_cases hfirst : x.bundle.serials.head? = some st.serial
      · obtain ⟨hca, hafter, hconf, hint⟩ := recordCaCertificate_activates hx hst hfirst rfl
        exact .activates rfl hca hx hst hafter hfirst hconf hint
      · simp only [apply, dispatch, recordCaCertificate, hx, hst, hfirst]
        refine .drops rfl rfl ⟨rfl, rfl⟩ hx rfl fun st' h => ?_
        rw [hst] at h
        cases h
        exact hfirst

theorem apply_rekeys (s : StateMachine) (c : Command) : Rekeys s c (s.apply c).1 := by
  by_cases hc : c.writesKeys = true
  · cases c with
    | recordCaCertificate x => exact s.recordCaCertificate_rekeys x
    | confirmKeyPossession x =>
      exact .confirms rfl rfl rfl (fun _ => contains_insert) fun _ => contains_erase
    | recordKeyTransferIntent x =>
      by_cases hn : s.keyConfirmations.contains x.raftNodeId = true
      · simp only [apply, dispatch, recordKeyTransferIntent, hn]
        exact .same rfl rfl ⟨rfl, rfl⟩
      · simp only [apply, dispatch, recordKeyTransferIntent, hn]
        exact .intends rfl rfl rfl hn (fun _ => Iff.rfl) fun _ => contains_orInsert
    | confirmStagedKeyPossession x =>
      cases hs : stagedRootInScope s.stagedRoot x.rootSerial with
      | error e =>
        simp only [apply, dispatch, confirmStagedKeyPossession, hs]
        exact .same rfl rfl ⟨rfl, rfl⟩
      | ok st =>
        obtain ⟨hst, hnamed⟩ := stagedRootInScope_ok hs
        simp only [apply, dispatch, confirmStagedKeyPossession, hs]
        exact .stagedConfirms rfl rfl ⟨rfl, rfl⟩ hst rfl hnamed rfl
          (fun _ => contains_insert) fun _ => contains_erase
    | recordStagedKeyTransferIntent x =>
      cases hs : stagedRootInScope s.stagedRoot x.rootSerial with
      | error e =>
        simp only [apply, dispatch, recordStagedKeyTransferIntent, hs]
        exact .same rfl rfl ⟨rfl, rfl⟩
      | ok st =>
        obtain ⟨hst, -⟩ := stagedRootInScope_ok hs
        by_cases hn : st.holders.contains x.raftNodeId = true
        · simp only [apply, dispatch, recordStagedKeyTransferIntent, hs, hn]
          exact .same rfl rfl ⟨rfl, rfl⟩
        · simp only [apply, dispatch, recordStagedKeyTransferIntent, hs, hn]
          exact .stagedIntends rfl ⟨rfl, rfl⟩ hst rfl hn rfl rfl fun _ => contains_orInsert
    | bindMachineIdentity x | rebindMachineAddress x | retireMachineBinding x =>
      simp only [apply, dispatch, bindMachineIdentity, rebindMachineAddress, retireMachineBinding]
      repeat' split
      all_goals exact .same rfl rfl ⟨rfl, rfl⟩
    | _ x => cases hc
  · have h := (s.dispatch_step _).sameKeys (by simpa using hc)
    exact .same h.ca h.staged ⟨h.confirmations, h.intents⟩

end StateMachine

/-! ## Accounting -/

/-- No node is on record twice, and the staged root is in the bundle, but not first. -/
structure KeysAccounted (s : StateMachine) : Prop where
  apart : ∀ n, Confirmed s n → ¬Intended s n
  stagedApart : ∀ st, s.stagedRoot = some st → ∀ n, st.holders.contains n = true →
    ¬st.intents.contains n = true
  staged : ∀ st, s.stagedRoot = some st →
    ∃ ca, s.ca = some ca ∧ st.serial ∈ ca.bundle.serials.drop 1

namespace Rekeys

variable {c : Command}

theorem onRecord (h : Rekeys s c s') (hn : OnRecord s n) : OnRecord s' n := by
  cases h with
  | same _ _ active | stagedConfirms _ _ active | stagedIntends _ active | stages _ _ active
  | drops _ _ active =>
    exact hn.imp (active.confirmed n).mpr (active.intended n).mpr
  | @confirms x hc _ _ confirmed intended =>
    rw [OnRecord, confirmed, intended]
    unfold OnRecord at hn
    tauto
  | intends _ _ _ _ confirmed intended =>
    exact hn.imp (confirmed n).mpr fun h => (intended n).mpr (.inr h)
  | @activates x st _ _ _ _ _ _ confirmed intended =>
    rw [OnRecord, intended, confirmed]
    unfold OnRecord at hn
    tauto

theorem keysAccounted (h : Rekeys s c s') (hs : KeysAccounted s) : KeysAccounted s' := by
  -- the active records and the staged root are accounted for separately
  have hactive n : Confirmed s' n → ¬Intended s' n := by
    have hapart := hs.apart n
    cases h with
    | same _ _ active | stagedConfirms _ _ active | stagedIntends _ active | stages _ _ active
    | drops _ _ active =>
      rw [active.confirmed, active.intended]
      exact hapart
    | @confirms x hc _ _ confirmed intended =>
      rw [confirmed, intended]
      tauto
    | intends _ _ _ unconfirmed confirmed intended =>
      rw [confirmed, intended]
      rintro hn (rfl | hi)
      · exact unconfirmed hn
      · exact hapart hn hi
    | @activates x st _ _ _ _ _ _ confirmed intended =>
      rw [intended]
      rintro hn (⟨hi, hno⟩ | ⟨-, hno⟩)
      · exact ((confirmed n).mp hn).elim (fun h => hapart h hi) hno
      · exact hno hn
  cases h with
  | same ca staged _ | confirms _ ca staged | intends _ ca staged =>
    refine ⟨hactive, fun st hst => ?_, fun st hst => ?_⟩
    · exact hs.stagedApart st (staged ▸ hst)
    · rw [ca]
      exact hs.staged st (staged ▸ hst)
  | @stagedConfirms x st st' _ ca _ before after _ serial holders intents =>
    refine ⟨hactive, fun r hr n hn => ?_, fun r hr => ?_⟩
    · cases after.symm.trans hr
      rw [intents]
      rintro ⟨hne, hi⟩
      exact ((holders n).mp hn).elim hne fun h => hs.stagedApart st before n h hi
    · cases after.symm.trans hr
      rw [ca, serial]
      exact hs.staged st before
  | @stagedIntends m st st' ca _ before after unconfirmed serial holders intents =>
    refine ⟨hactive, fun r hr n hn => ?_, fun r hr => ?_⟩
    · cases after.symm.trans hr
      rw [holders] at hn
      rw [intents]
      rintro (rfl | hi)
      · exact unconfirmed hn
      · exact hs.stagedApart st before n hn hi
    · cases after.symm.trans hr
      rw [ca, serial]
      exact hs.staged st before
  | @stages x st' _ ca _ _ after second carried =>
    refine ⟨hactive, fun r hr n hn => ?_, fun r hr => ?_⟩
    · cases after.symm.trans hr
      rcases carried with ⟨st, before, -, hh, hi⟩ | ⟨hh, -⟩
      · rw [hh] at hn
        rw [hi]
        exact hs.stagedApart st before n hn
      · rw [hh] at hn
        cases hn
    · cases after.symm.trans hr
      exact ⟨_, ca, second⟩
  | drops _ _ _ _ after | activates _ _ _ _ after =>
    refine ⟨hactive, fun r hr => ?_, fun r hr => ?_⟩
    all_goals
      rw [after] at hr
      cases hr

end Rekeys

theorem Reachable.keysAccounted (h : Reachable s) : KeysAccounted s := by
  refine Reach.invariant KeysAccounted ⟨fun n hn => ?_, fun st hst => ?_, fun st hst => ?_⟩
    (fun s c hs _ => (s.apply_rekeys c).keysAccounted hs) h
  · cases hn
  · cases hst
  · cases hst

/-- The records of the staged root have become records of the active key. -/
def Graduated (st : StagedRoot) (s : StateMachine) : Prop :=
  ∀ n, (st.holders.contains n = true → Confirmed s n) ∧
    (st.intents.contains n = true → OnRecord s n)

/-- Key custody is accounted for, except that a commit which makes the staged root the active one
    and stages another forgets who holds its key. -/
theorem key_custody {s : StateMachine} (h : Reachable s) :
    KeysAccounted s ∧ (∀ s', Onward s s' → ∀ n, OnRecord s n → OnRecord s' n) ∧
      ∀ x st, s.stagedRoot = some st → (s.apply (.recordCaCertificate x)).2.isOk = true →
        x.bundle.serials.head? = some st.serial →
          (Graduated st (s.apply (.recordCaCertificate x)).1 ↔
            x.stagedRootSerial = none ∨ Graduated st s) := by
  refine ⟨h.keysAccounted, fun s' hrun n hn => ?_, fun x st hst _ hfirst => ?_⟩
  · exact Reach.invariant (OnRecord · n) hn (fun t c ht _ => (t.apply_rekeys c).onRecord ht)
      hrun
  · have hkept {s'} (active : SameActive s s') : (Graduated st s' ↔ Graduated st s) := by
      simp [Graduated, OnRecord, active.confirmed, active.intended]
    cases hx : x.stagedRootSerial with
    | some serial =>
      simp only [reduceCtorEq, false_or]
      refine hkept ?_
      cases s.apply_rekeys (.recordCaCertificate x) with
      | same _ _ active | stagedConfirms _ _ active | stagedIntends _ active
      | stages _ _ active | drops _ _ active => exact active
      | confirms hc | intends hc => cases hc
      | activates hc _ named =>
        cases hc
        rw [hx] at named
        cases named
    | none =>
      obtain ⟨-, -, hconf, hint⟩ := recordCaCertificate_activates hx hst hfirst rfl
      simp only [true_or, iff_true]
      refine fun n => ⟨fun hn => (hconf n).mpr (.inr hn), fun hn => ?_⟩
      rw [OnRecord, hint]
      tauto

/-- Root `b` is staged beside root `a`, and node 7 confirms its key. -/
def Sample.staged : List Command :=
  [.recordCaCertificate ⟨⟨"", ["a", "b"]⟩, some "b", epoch⟩,
    .confirmStagedKeyPossession ⟨7, "b", epoch⟩]

/-- The activation of `b` graduates node 7. -/
theorem key_custody_activated :
    ∃ st, (run staged).stagedRoot = some st ∧ st.holders.contains 7 = true ∧
      Graduated st ((run staged).apply
        (.recordCaCertificate ⟨⟨"", ["b", "a"]⟩, none, epoch⟩)).1 := by
  have hreach : Reachable (run staged) := reachable_run _
  have hholds : ((run staged).stagedRoot.map fun st =>
      (st.serial, st.holders.contains 7)) = some ("b", true) := by decide +kernel
  obtain ⟨st, hst, hfields⟩ := map_eq_some_iff.mp hholds
  obtain ⟨hserial, hseven⟩ := Prod.mk.inj hfields
  have hok : ((run staged).apply
      (.recordCaCertificate ⟨⟨"", ["b", "a"]⟩, none, epoch⟩)).2.isOk = true := by
    decide +kernel
  exact ⟨st, hst, hseven, ((key_custody hreach).2.2 _ st hst hok (by rw [hserial]; rfl)).mpr
    (.inl rfl)⟩

/-- The commit that activates `b` and stages `c` forgets that node 7 holds the key of `b`. -/
theorem activation_forgets_holder :
    ((run staged).stagedRoot.map fun st => (st.serial, st.holders.contains 7)) = some ("b", true) ∧
      ((run staged).apply
        (.recordCaCertificate ⟨⟨"", ["b", "c"]⟩, some "c", epoch⟩)).2.isOk = true ∧
      ((run staged).apply
        (.recordCaCertificate ⟨⟨"", ["b", "c"]⟩, some "c", epoch⟩)).1.firstSerial = some "b" ∧
      ¬OnRecord ((run staged).apply
        (.recordCaCertificate ⟨⟨"", ["b", "c"]⟩, some "c", epoch⟩)).1 7 := by
  unfold OnRecord Confirmed Intended
  decide +kernel

/-! ## What confirmations speak about -/

/-- What was confirmed in the course of a run. -/
structure Testimony where
  /-- nodes that confirmed since the first certificate became what it is -/
  live : List Nat
  /-- nodes that confirmed the key of a root while that root was staged -/
  staged : List (Nat × String)

/-- One command, heard in the state it is applied to. -/
def Testimony.hear (t : Testimony) (s : StateMachine) (c : Command) : Testimony where
  live :=
    let since := if (s.apply c).1.firstSerial = s.firstSerial then t.live else []
    match c with
    | .confirmKeyPossession x => x.raftNodeId :: since
    | _ => since
  staged :=
    match c with
    | .confirmStagedKeyPossession x =>
      if s.stagedRoot.map StagedRoot.serial = some x.rootSerial then
        (x.raftNodeId, x.rootSerial) :: t.staged
      else t.staged
    | _ => t.staged

/-- A state with what was confirmed on the way to it. -/
abbrev Heard : Type := StateMachine × Testimony

def Heard.next (p : Heard) (c : Command) : Heard := ((p.1.apply c).1, p.2.hear p.1 c)

def Heard.start : Heard := (StateMachine.default, ⟨[], []⟩)

/-- The node confirmed the active key since it is active, or while it was staged. -/
def Testimony.vouches (t : Testimony) (n : Nat) (root : String) : Prop :=
  n ∈ t.live ∨ (n, root) ∈ t.staged

instance (t : Testimony) (n : Nat) (root : String) : Decidable (t.vouches n root) := instDecidableOr

/-- A bundle with another first certificate than the recorded one has the staged root there, and
    every confirmed node is a holder of that root's key. -/
def Succeeds (s : StateMachine) : Command → Prop
  | .recordCaCertificate x => x.bundle.serials.head? ≠ s.firstSerial → ∀ n, Confirmed s n →
      ∃ st, s.stagedRoot = some st ∧ x.bundle.serials.head? = some st.serial ∧
        st.holders.contains n = true
  | _ => True

variable {c : Command}

theorem Succeeds.of_empty (h : s.keyConfirmations = .empty) : Succeeds s c := by
  cases c with
  | recordCaCertificate x =>
    intro _ n hn
    rw [Confirmed, h] at hn
    cases hn
  | _ => trivial

/-- Confirmed nodes are vouched for, for the active and for the staged root. -/
structure VouchedFor (s : StateMachine) (t : Testimony) : Prop where
  active : ∀ n root, Confirmed s n → s.firstSerial = some root → t.vouches n root
  staged : ∀ st n, s.stagedRoot = some st → st.holders.contains n = true → (n, st.serial) ∈ t.staged

namespace Testimony

theorem mem_staged (t : Testimony) (s : StateMachine) (c : Command) {x : Nat × String}
    (h : x ∈ t.staged) : x ∈ (t.hear s c).staged := by
  unfold hear
  simp only
  split
  · split_ifs
    · exact List.mem_cons_of_mem _ h
    · exact h
  · exact h

theorem mem_live (t : Testimony) {s : StateMachine} {c : Command} {n : Nat}
    (hsame : (s.apply c).1.firstSerial = s.firstSerial) (h : n ∈ t.live) :
    n ∈ (t.hear s c).live := by
  simp only [hear, if_pos hsame]
  split
  · exact List.mem_cons_of_mem _ h
  · exact h

end Testimony

/-- Who is newly confirmed has just confirmed, or held the key of the root made active. -/
theorem Rekeys.confirmed_cases (h : Rekeys s c s') (hn : Confirmed s' n) :
    Confirmed s n ∨ (∃ x, c = .confirmKeyPossession x ∧ x.raftNodeId = n) ∨
      ∃ st, s.stagedRoot = some st ∧ s'.firstSerial = some st.serial ∧
        st.holders.contains n = true := by
  cases h with
  | same _ _ active | stagedConfirms _ _ active | stagedIntends _ active | stages _ _ active
  | drops _ _ active => exact .inl ((active.confirmed n).mp hn)
  | intends _ _ _ _ confirmed => exact .inl ((confirmed n).mp hn)
  | @confirms x hc _ _ confirmed =>
    rcases (confirmed n).mp hn with hx | hold
    · exact .inr (.inl ⟨x, hc, hx⟩)
    · exact .inl hold
  | @activates x st _ ca _ before _ first confirmed =>
    rcases (confirmed n).mp hn with hold | hst
    · exact .inl hold
    · refine .inr (.inr ⟨st, before, ?_, hst⟩)
      rw [firstSerial, ca]
      exact first

/-- Only a recorded bundle changes the first serial, to its own. -/
theorem Rekeys.first_cases (h : Rekeys s c s') : s'.firstSerial = s.firstSerial ∨
    ∃ x, c = .recordCaCertificate x ∧ s'.firstSerial = x.bundle.serials.head? := by
  unfold firstSerial
  cases h with
  | same ca | confirms _ ca | intends _ ca | stagedConfirms _ ca | stagedIntends ca =>
    exact .inl (by rw [ca])
  | stages hc ca | drops hc ca | activates hc ca => exact .inr ⟨_, hc, by rw [ca]; rfl⟩

theorem VouchedFor.step (h : VouchedFor s t) (hc : Succeeds s c) :
    VouchedFor (s.apply c).1 (t.hear s c) := by
  have hre := s.apply_rekeys c
  refine ⟨fun n root hn hroot => ?_, fun st n hst hn => ?_⟩
  · by_cases hsame : (s.apply c).1.firstSerial = s.firstSerial
    · rcases hre.confirmed_cases hn with hold | ⟨x, rfl, rfl⟩ | ⟨st, hst, hfirst, hheld⟩
      · exact (h.active n root hold (hsame ▸ hroot)).imp (t.mem_live hsame) (t.mem_staged s c)
      · exact .inl List.mem_cons_self
      · cases hroot.symm.trans hfirst
        exact .inr (t.mem_staged s c (h.staged st n hst hheld))
    · -- a new root: who was confirmed holds its key, and so does who is newly confirmed
      obtain ⟨x, rfl, hhead⟩ := hre.first_cases.resolve_left hsame
      have hheld : ∃ st, s.stagedRoot = some st ∧ x.bundle.serials.head? = some st.serial ∧
          st.holders.contains n = true := by
        rcases hre.confirmed_cases hn with hold | ⟨_, hx, -⟩ | ⟨st, hst, hfirst, hheld⟩
        · exact hc (hhead ▸ hsame) n hold
        · cases hx
        · exact ⟨st, hst, hhead.symm.trans hfirst, hheld⟩
      obtain ⟨st, hst, hfirst, hheld⟩ := hheld
      cases hroot.symm.trans (hhead.trans hfirst)
      exact .inr (t.mem_staged s _ (h.staged st n hst hheld))
  · cases hre with
    | same _ staged | confirms _ _ staged | intends _ _ staged =>
      exact t.mem_staged s c (h.staged st n (staged ▸ hst) hn)
    | @stagedConfirms x r r' hc _ _ before after named serial holders =>
      cases after.symm.trans hst
      rw [serial]
      rcases (holders n).mp hn with hx | hold
      · subst hc
        simp only [Testimony.hear, before, map_some, named, if_true, hx]
        exact List.mem_cons_self
      · exact t.mem_staged s c (h.staged r n before hold)
    | @stagedIntends m r r' _ _ before after _ serial holders =>
      cases after.symm.trans hst
      rw [serial]
      exact t.mem_staged s c (h.staged r n before (holders ▸ hn))
    | @stages x r' _ _ _ _ after _ carried =>
      cases after.symm.trans hst
      rcases carried with ⟨r, before, hserial, hholders, -⟩ | ⟨hempty, -⟩
      · rw [hserial]
        exact t.mem_staged s c (h.staged r n before (hholders ▸ hn))
      · rw [hempty] at hn
        cases hn
    | drops _ _ _ _ after | activates _ _ _ _ after =>
      rw [after] at hst
      cases hst

/-- In a run that changes the active root only to a staged one whose key every confirmed node
    holds, every confirmation speaks about the active root. -/
theorem confirmations_speak {p : Heard}
    (h : Reach Heard.start Heard.next (fun p c => Succeeds p.1 c) p) {n : Nat} {root : String}
    (hn : Confirmed p.1 n) (hroot : p.1.firstSerial = some root) : p.2.vouches n root := by
  have hall : VouchedFor p.1 p.2 := by
    refine Reach.invariant (fun p : Heard => VouchedFor p.1 p.2) ⟨fun n root hn => ?_,
      fun st n hst => ?_⟩ (fun p c hp hc => hp.step hc) h
    · cases hn
    · cases hst
  exact hall.active n root hn hroot

namespace Sample

def heard (cmds : List Command) : Heard := cmds.foldl Heard.next Heard.start

def root : Command := .recordCaCertificate ⟨⟨"", ["a"]⟩, none, epoch⟩

/-- Node 7 confirms the key of the first root. -/
def confirm : Command := .confirmKeyPossession ⟨7, epoch⟩

def stage : Command := .recordCaCertificate ⟨⟨"", ["a", "b"]⟩, some "b", epoch⟩

def holds : Command := .confirmStagedKeyPossession ⟨7, "b", epoch⟩

def activate : Command := .recordCaCertificate ⟨⟨"", ["b", "a"]⟩, none, epoch⟩

end Sample

/-- Node 7 alone is confirmed and holds the key of `b`, so the activation of `b` is a proper one. -/
theorem confirmations_speak_staged :
    Confirmed (heard [root, confirm, stage, holds, activate]).1 7 ∧
      (heard [root, confirm, stage, holds, activate]).2.vouches 7 "b" := by
  have h₁ : Succeeds (heard []).1 root := .of_empty (by decide +kernel)
  have h₂ : Succeeds (heard [root]).1 confirm := trivial
  have h₃ : Succeeds (heard [root, confirm]).1 stage := fun hne => absurd (by decide +kernel) hne
  have h₄ : Succeeds (heard [root, confirm, stage]).1 holds := trivial
  have h₅ : Succeeds (heard [root, confirm, stage, holds]).1 activate := by
    intro _ n hn
    have hheld : (heard [root, confirm, stage, holds]).1.stagedRoot =
        some ⟨"b", epoch, empty.insert 7 epoch, .empty⟩ := by decide +kernel
    have hconf : (heard [root, confirm, stage, holds]).1.keyConfirmations =
        empty.insert 7 epoch := by decide +kernel
    rw [Confirmed, hconf] at hn
    exact ⟨_, hheld, by decide +kernel, hn⟩
  have hrun : Reach Heard.start Heard.next (fun p c => Succeeds p.1 c)
      (heard [root, confirm, stage, holds, activate]) :=
    .step (.step (.step (.step (.step .init h₁) h₂) h₃) h₄) h₅
  have hconf : Confirmed
      (heard [root, confirm, stage, holds, activate]).1 7 := by
    unfold Confirmed
    decide +kernel
  exact ⟨hconf, confirmations_speak hrun hconf (by decide +kernel)⟩

/-- Node 5 confirms the key of root `a`, node 7 that of root `b`, and `b` becomes active. -/
def Sample.rotated : Heard := heard [root, .confirmKeyPossession ⟨5, epoch⟩, stage, holds, activate]

/-- Node 5 stays a confirmed holder, though it only confirmed the key of `a`. -/
theorem rotation_keeps_confirmation :
    Confirmed rotated.1 5 ∧ rotated.1.firstSerial = some "b" ∧ ¬rotated.2.vouches 5 "b" := by
  unfold Confirmed
  decide +kernel

end Coppice.State
