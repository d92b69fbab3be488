/-
  Coppice.State.Local

  Which nodes a command reaches: the commands about the attempts of a node leave the
  attempts and allocations of all others as they are.
-/

import Coppice.State.Reachable

namespace Coppice.State

open Lib Coppice.Core Effects OrdMap List

/-- Only attempts and allocations on `node` differ, and none comes or goes. -/
structure Local (node : NodeId) (s s' : StateMachine) : Prop where
  attempts : ∀ id, s'.attempts.get? id = s.attempts.get? id ∨
    ∃ a a', s.attempts.get? id = some a ∧ s'.attempts.get? id = some a' ∧
      a.attempt.node = node ∧ a'.attempt.node = node
  allocations : ∀ al, s'.allocations.get? al = s.allocations.get? al ∨
    ∃ r r', s.allocations.get? al = some r ∧ s'.allocations.get? al = some r' ∧
      r.allocation.node = node ∧ r'.allocation.node = node

namespace Local

variable {node : NodeId} {s s' s'' : StateMachine} {id : AttemptId} {al : AllocationId}

theorem refl (node : NodeId) (s : StateMachine) : Local node s s :=
  ⟨fun _ => .inl rfl, fun _ => .inl rfl⟩

theorem of_eq (ha : s'.attempts = s.attempts) (hal : s'.allocations = s.allocations) :
    Local node s s' :=
  ⟨fun _ => .inl (by rw [ha]), fun _ => .inl (by rw [hal])⟩

section

variable (h : Local node s s')

include h

theorem trans (h' : Local node s' s'') : Local node s s'' := by
  refine ⟨fun id => ?_, fun al => ?_⟩
  · rcases h'.attempts id with e' | ⟨b, b', hb, hb', hn, hn'⟩
    · rw [e']
      exact h.attempts id
    · rcases h.attempts id with e | ⟨a, a', ha, -, hm, -⟩
      · exact .inr ⟨b, b', e ▸ hb, hb', hn, hn'⟩
      · exact .inr ⟨a, b', ha, hb', hm, hn'⟩
  · rcases h'.allocations al with e' | ⟨b, b', hb, hb', hn, hn'⟩
    · rw [e']
      exact h.allocations al
    · rcases h.allocations al with e | ⟨a, a', ha, -, hm, -⟩
      · exact .inr ⟨b, b', e ▸ hb, hb', hn, hn'⟩
      · exact .inr ⟨a, b', ha, hb', hm, hn'⟩

/-- An attempt of another node is as it was. -/
theorem attempt_eq {a : AttemptRecord} (ha : s.attempts.get? id = some a)
    (hn : a.attempt.node ≠ node) : s'.attempts.get? id = some a := by
  rcases h.attempts id with e | ⟨b, b', hb, -, hbn, -⟩
  · rw [e, ha]
  · rw [ha] at hb
    cases hb
    exact absurd hbn hn

theorem allocation_eq {r : AllocationRecord} (hr : s.allocations.get? al = some r)
    (hn : r.allocation.node ≠ node) : s'.allocations.get? al = some r := by
  rcases h.allocations al with e | ⟨b, b', hb, -, hbn, -⟩
  · rw [e, hr]
  · rw [hr] at hb
    cases hb
    exact absurd hbn hn

/-- An attempt is on `node` after the step if it was before. -/
theorem attempt_back {a' : AttemptRecord} (ha' : s'.attempts.get? id = some a') :
    s.attempts.get? id = some a' ∨ a'.attempt.node = node := by
  rcases h.attempts id with e | ⟨b, b', -, hb', -, hn'⟩
  · exact .inl (e ▸ ha')
  · rw [ha'] at hb'
    cases hb'
    exact .inr hn'

theorem on_node (hon : ∀ a, s.attempts.get? id = some a → a.attempt.node = node) :
    ∀ a, s'.attempts.get? id = some a → a.attempt.node = node := by
  intro a ha
  rcases h.attempt_back ha with ha0 | hn
  · exact hon a ha0
  · exact hn

end

/-- One attempt of the node is rewritten. -/
theorem modifyAttempt {f : AttemptRecord → AttemptRecord}
    (hon : ∀ a, s.attempts.get? id = some a → a.attempt.node = node)
    (hf : ∀ a, (f a).attempt.node = a.attempt.node) (hs : s'.attempts = s.attempts.modify id f)
    (hal : s'.allocations = s.allocations) : Local node s s' := by
  refine ⟨fun i => ?_, fun _ => .inl (by rw [hal])⟩
  rw [hs, get?_modify]
  split_ifs with hi
  · cases ha : s.attempts.get? i with
    | none => exact .inl rfl
    | some a =>
      have hn := hon a (hi ▸ ha)
      exact .inr ⟨a, f a, rfl, rfl, hn, (hf a).trans hn⟩
  · exact .inl rfl

/-- One allocation of the node is rewritten. -/
theorem modifyAllocation {f : AllocationRecord → AllocationRecord}
    (hon : ∀ r, s.allocations.get? al = some r → r.allocation.node = node)
    (hf : ∀ r, (f r).allocation.node = r.allocation.node)
    (hs : s'.allocations = s.allocations.modify al f) (ha : s'.attempts = s.attempts) :
    Local node s s' := by
  refine ⟨fun _ => .inl (by rw [ha]), fun i => ?_⟩
  rw [hs, get?_modify]
  split_ifs with hi
  · cases hr : s.allocations.get? i with
    | none => exact .inl rfl
    | some r =>
      have hn := hon r (hi ▸ hr)
      exact .inr ⟨r, f r, rfl, rfl, hn, (hf r).trans hn⟩
  · exact .inl rfl

end Local

/-! ## Effects -/

variable {fx : Effects}

/-- A pledge pass reaches its own node only: an attempt becomes ready when its
    allocation is funded, and that is one of the node's queue. -/
theorem Books.pledgeNode_local (h : Books fx) (node : NodeId) :
    Local node fx.st (fx.pledgeNode node).st := by
  obtain ⟨hL, -, hP, -⟩ := pledgeNode_spec node h.linked h.fit h.memo
  have hall al : (fx.pledgeNode node).st.allocations.get? al = fx.st.allocations.get? al ∨ ∃ r r',
      fx.st.allocations.get? al = some r ∧ (fx.pledgeNode node).st.allocations.get? al = some r' ∧
      r.allocation.node = node ∧ r'.allocation.node = node := by
    rcases hP.allocations al with e | ⟨r, r', hr, hr', -, hsame, -⟩
    · exact .inl e
    · rcases pledgeNode_cases node h.linked h.fit h.memo with
        ⟨-, heq⟩ | ⟨fx', fresh, -, hD, hex, heq⟩
      · exact .inl (by rw [heq])
      · by_cases hq : al ∈ (fx.st.nodeQueue node).map Prod.snd
        · obtain ⟨e, he, rfl⟩ := mem_map.mp hq
          obtain ⟨q, hq', -, hqn, -⟩ := (h.linked.queued node).accruing e he
          rw [hr] at hq'
          cases hq'
          exact .inr ⟨r, r', hr, hr', hqn, hsame.node.trans hqn⟩
        · obtain ⟨-, -, -, ha'⟩ := readyAll_spec (fresh.append_nil ▸ hD.linked) hD.fresh_nodup hex
          left
          rw [heq, ha', hD.others al hq]
  refine ⟨fun id => ?_, hall⟩
  rcases hP.attempts id with e | ⟨a, ha, hacc, ha'⟩
  · exact .inl e
  · -- the allocation left the accruing state with its attempt
    obtain ⟨r, hr, ht⟩ := h.linked.allocation_of ha
    obtain ⟨r', hr', ht'⟩ := hL.allocation_of ha'
    have hstep := ht.step (by simp)
    have hstep' := ht'.step (by simp)
    have hr'' : (fx.pledgeNode node).st.allocations.get? a.attempt.allocation = some r' := hr'
    rcases hall a.attempt.allocation with e | ⟨q, q', hq, -, hqn, -⟩
    · rw [e, hr] at hr''
      cases hr''
      rw [hacc] at hstep
      have hready : a.readied.attempt.state = .ready := rfl
      rw [hready] at hstep'
      cases hst : r.allocation.state <;> simp [hst, InStep] at hstep hstep'
    · rw [hr] at hq
      cases hq
      have hn : a.attempt.node = node := ht.node.symm.trans hqn
      exact .inr ⟨a, a.readied, ha, ha', hn, hn⟩

variable {id : AttemptId} {node : NodeId}

/-- Ending an attempt reaches the node of the attempt only. -/
theorem Books.terminateAttempt_local (outcome : AttemptOutcome) (rt : Duration) (at_ : Timestamp)
    (pledge : Bool) (h : Books fx)
    (hon : ∀ a, fx.st.attempts.get? id = some a → a.attempt.node = node) :
    Local node fx.st (fx.terminateAttempt id outcome rt at_ pledge).st := by
  rcases fx.terminateAttempt_idle_or_live id outcome rt at_ pledge with ⟨-, heq⟩ | ⟨a, ha, hlive⟩
  · rw [heq]
    exact .refl node fx.st
  · have hn := hon a ha
    obtain ⟨r, fx1, fx2, x, he⟩ := h.ends outcome rt at_ pledge ha hlive
    generalize fx.terminateAttempt id outcome rt at_ pledge = fx' at *
    have hrn : r.allocation.node = node := he.ties.node.trans hn
    have h1 : Local node fx.st fx1.st := by
      rw [he.st1]
      refine ⟨fun i => ?_, fun al => ?_⟩
      · rw [get?_insert]
        split_ifs with hi
        · exact .inr ⟨a, _, hi ▸ ha, rfl, hn, hn⟩
        · exact .inl rfl
      · rw [get?_insert]
        split_ifs with hi
        · exact .inr ⟨r, _, hi ▸ he.allocation, rfl, hrn, hrn⟩
        · exact .inl rfl
    have h2 : Local node fx1.st fx2.st := by
      rw [he.second]
      cases pledge with
      | false => exact .refl node fx1.st
      | true =>
        rw [hrn]
        exact he.books1.pledgeNode_local node
    refine (h1.trans h2).trans ⟨fun i => ?_, fun al => .inl (by rw [he.allocations])⟩
    by_cases hi : i = id
    · rw [hi]
      refine .inr ⟨_, _, he.ended, he.self, hn, ?_⟩
      rw [((a.endWith outcome at_).settleWith_attempt x).1]
      exact hn
    · exact .inl (he.attempts_of_ne hi)

theorem Effects.attemptTransition_local (fx : Effects) (to_ : AttemptState)
    (hon : ∀ a, fx.st.attempts.get? id = some a → a.attempt.node = node) :
    Local node fx.st (fx.attemptTransition id to_).st := by
  rw [attemptTransition_st]
  refine .modifyAttempt hon (fun b => ?_) rfl rfl
  rfl

/-- A start writes the attempt and its allocation. -/
theorem Books.markAttemptRunning_local (at_ : Timestamp) (h : Books fx)
    (hon : ∀ a, fx.st.attempts.get? id = some a → a.attempt.node = node) :
    Local node fx.st (fx.markAttemptRunning id at_).st := by
  unfold markAttemptRunning
  cases ha : fx.st.attempts.get? id with
  | none => exact .refl node fx.st
  | some a =>
    obtain ⟨r, hr, ht⟩ := h.linked.allocation_of ha
    let fx1 := fx.modifyAttempt id fun a =>
      if a.startedAt.isNone then { a with startedAt := some at_ } else a
    have h1 : Local node fx.st fx1.st := by
      refine .modifyAttempt hon (fun b => ?_) rfl rfl
      split_ifs <;> rfl
    have h2 : Local node fx1.st (fx1.attemptTransition id .running).st :=
      fx1.attemptTransition_local .running (h1.on_node hon)
    refine (h1.trans h2).trans (.modifyAllocation (fun q hq => ?_) (fun q => ?_) rfl rfl)
    · rw [attemptTransition_st] at hq
      have hq' : fx.st.allocations.get? a.attempt.allocation = some q := hq
      rw [hr] at hq'
      cases hq'
      exact ht.node.trans (hon a ha)
    · split_ifs <;> rfl

/-! ## Commands -/

namespace StateMachine

variable {s : StateMachine} {idx : Nat}

/-- The attempt that a command found in the state it asks for. -/
theorem on_node_of_state {a : AttemptRecord} {st : AttemptState} (ha : s.attempts.get? id = some a)
    (hst : a.attempt.state = st)
    (hon : ∀ a, s.attempts.get? id = some a → a.attempt.node = node ∨ a.attempt.state ≠ st) :
    ∀ b, s.attempts.get? id = some b → b.attempt.node = node := by
  intro b hb
  rw [ha] at hb
  cases hb
  exact (hon a ha).resolve_right (not_not.mpr hst)

/-- A batch without rejections names attempts of the node only. -/
theorem reconcileAdopted_on_node {l : List AttemptId} (h : s.reconcileAdopted node idx l = []) :
    ∀ id ∈ l, ∀ a, s.attempts.get? id = some a → a.attempt.node = node := by
  induction l generalizing idx with
  | nil => simp
  | cons x rest ih =>
    simp only [reconcileAdopted, append_eq_nil_iff] at h
    obtain ⟨hx, hrest⟩ := h
    intro id hid a ha
    rcases mem_cons.mp hid with rfl | hmem
    · by_contra hne
      simp [ha, hne] at hx
    · exact ih hrest id hmem a ha

theorem reconcileLost_on_node {l : List LostAttempt} (h : s.reconcileLost node idx l = []) :
    ∀ x ∈ l, ∀ a, s.attempts.get? x.attempt = some a → a.attempt.node = node := by
  induction l generalizing idx with
  | nil => simp
  | cons x rest ih =>
    simp only [reconcileLost, append_eq_nil_iff] at h
    obtain ⟨hx, hrest⟩ := h
    intro y hy a ha
    rcases mem_cons.mp hy with rfl | hmem
    · by_contra hne
      simp [ha, hne] at hx
    · exact ih hrest y hmem a ha

/-- A fold of steps over attempts of the node. -/
theorem foldl_local {α : Type} {f : Effects → α → Effects} {k : α → AttemptId}
    (hsound : ∀ fx x, Sound ∅ fx → Sound ∅ (f fx x) ∧ Settles fx.st (f fx x).st)
    (hlocal : ∀ fx x, Sound ∅ fx →
      (∀ a, fx.st.attempts.get? (k x) = some a → a.attempt.node = node) →
      Local node fx.st (f fx x).st)
    (l : List α) (fx : Effects) (h : Sound ∅ fx)
    (hon : ∀ x ∈ l, ∀ a, fx.st.attempts.get? (k x) = some a → a.attempt.node = node) :
    Sound ∅ (l.foldl f fx) ∧ Local node fx.st (l.foldl f fx).st := by
  induction l generalizing fx with
  | nil => exact ⟨h, .refl node fx.st⟩
  | cons x rest ih =>
    have hx := hlocal fx x h (hon x (by simp))
    obtain ⟨hS, hL⟩ := ih (f fx x) (hsound fx x h).1
      fun y hy => hx.on_node (hon y (mem_cons_of_mem _ hy))
    exact ⟨hS, hx.trans hL⟩

theorem adoptOne_local (at_ : Timestamp) (fx : Effects) (id : AttemptId) (h : Sound ∅ fx)
    (hon : ∀ a, fx.st.attempts.get? id = some a → a.attempt.node = node) :
    Local node fx.st (adoptOne at_ fx id).st := by
  unfold adoptOne
  split
  · exact .refl node fx.st
  · split_ifs
    · exact h.books.markAttemptRunning_local at_ hon
    · exact .refl node fx.st

theorem loseOne_local (at_ : Timestamp) (fx : Effects) (l : LostAttempt) (h : Sound ∅ fx)
    (hon : ∀ a, fx.st.attempts.get? l.attempt = some a → a.attempt.node = node) :
    Local node fx.st (loseOne at_ fx l).st := by
  unfold loseOne
  split
  · exact .refl node fx.st
  · split_ifs
    · exact .refl node fx.st
    · exact h.books.terminateAttempt_local _ _ _ _ hon

theorem reconcileNode_local (h : Consistent s) {c : ReconcileNode}
    (hitems : s.reconcileAdopted c.node 0 c.adopted ++
      s.reconcileLost c.node c.adopted.length c.lost = []) :
    Local c.node s (s.reconciling c).st := by
  obtain ⟨hadopted, hlost⟩ := append_eq_nil_iff.mp hitems
  obtain ⟨hS, hL⟩ := foldl_local (k := id) (adoptOne_sound c.observedAt)
    (adoptOne_local c.observedAt) c.adopted (start s) (h.sound ∅ [])
    (reconcileAdopted_on_node hadopted)
  obtain ⟨-, hL'⟩ := foldl_local (k := LostAttempt.attempt) (loseOne_sound c.observedAt)
    (loseOne_local c.observedAt) c.lost _ hS
    (fun x hx => hL.on_node (reconcileLost_on_node hlost x hx))
  exact hL.trans hL'

end StateMachine

end Coppice.State
