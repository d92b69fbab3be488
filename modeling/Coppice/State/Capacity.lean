/-
  Coppice.State.Capacity

  Exact capacity bookkeeping.  As long as the funded holds of a node (`heldOn`) stay
  within a word, the saturating sums of the source are plain ones.
-/

import Coppice.State.Linked

namespace Coppice.State

open Lib Coppice.Core StateMachine OrdMap List

/-- What one allocation holds on `node` in dimension `d`. -/
def holdOf (node : NodeId) (d : Dim) (r : AllocationRecord) : Nat :=
  if r.allocation.node = node ∧ r.isLive then r.allocation.funded.get d else 0

namespace StateMachine

section

variable (s : StateMachine) (node : NodeId) (d : Dim)

/-- Exact sum of the funded holds on a node. -/
def heldOn : Nat :=
  s.allocations.sumBy fun _ r => holdOf node d r

/-- Advertised capacity of a node, zero when it is not registered. -/
def capacityOf : Nat :=
  match s.nodes.get? node with
  | none => 0
  | some rec => rec.node.capacity.get d

theorem capacityOf_le : s.capacityOf node d ≤ u64Max := by
  unfold capacityOf
  split
  · exact Nat.zero_le _
  · exact Resources.get_le_u64Max _ _

end

variable {s s' : StateMachine} {al : AllocationId} {r' : AllocationRecord}

theorem capacityOf_congr (h : s'.nodes = s.nodes) (node : NodeId) (d : Dim) :
    s'.capacityOf node d = s.capacityOf node d := by
  unfold capacityOf
  rw [h]

theorem heldOn_congr (h : s'.allocations = s.allocations) (node : NodeId) (d : Dim) :
    s'.heldOn node d = s.heldOn node d := by
  unfold heldOn
  rw [h]

/-- Replacing one allocation exchanges its hold. -/
theorem heldOn_update {r : AllocationRecord} (hr : s.allocations.get? al = some r)
    (hall : ∀ j, s'.allocations.get? j = if al = j then some r' else s.allocations.get? j)
    (node : NodeId) (d : Dim) :
    holdOf node d r + s'.heldOn node d = holdOf node d r' + s.heldOn node d := by
  have heq : s'.allocations = s.allocations.insert al r' :=
    ext_get? fun j => by rw [hall, get?_insert]
  unfold heldOn
  rw [heq]
  exact sumBy_insert_of_some r' (fun _ r => holdOf node d r) hr

theorem heldOn_insert (hr : s.allocations.get? al = none)
    (hall : s'.allocations = s.allocations.insert al r') (node : NodeId) (d : Dim) :
    s'.heldOn node d = holdOf node d r' + s.heldOn node d := by
  unfold heldOn
  rw [hall]
  exact sumBy_insert_of_none r' (fun _ r => holdOf node d r) hr

/-! ## The saturating sums -/

/-- A saturating fold of holds is the exact sum, clamped. -/
theorem foldl_holds (node : NodeId) (d : Dim) (l : List AllocationRecord) (u : Resources) :
    (l.foldl (fun u r => if r.allocation.node = node ∧ r.isLive then
        u.saturatingAdd r.allocation.funded else u) u).get d
      = min (u.get d + (l.map (holdOf node d)).sum) u64Max := by
  induction l generalizing u with
  | nil =>
    have := u.get_le_u64Max d
    simp only [foldl_nil, map_nil, sum_nil]
    omega
  | cons r rest ih =>
    simp only [foldl_cons, map_cons, sum_cons, ih]
    by_cases hc : r.allocation.node = node ∧ r.isLive
    · simp only [if_pos hc, Resources.get_saturatingAdd, holdOf]
      omega
    · simp only [if_neg hc, holdOf]
      omega

theorem usedHere_get (s : StateMachine) (node : NodeId) (d : Dim) :
    (s.usedHere node).get d = min (s.heldOn node d) u64Max := by
  unfold usedHere heldOn sumBy
  rw [foldl_holds]
  simp [values, Function.comp_def]

section

variable (memo : Memo) (n node : NodeId) (amount : Resources) (d : Dim)

theorem memo_get_add :
    (((memo.add n amount).get? node).getD .zero).get d =
      if n = node then min (((memo.get? node).getD .zero).get d + amount.get d) u64Max
      else ((memo.get? node).getD .zero).get d := by
  unfold Memo.add
  rw [get?_insert]
  split_ifs with h
  · subst h
    simp
  · rfl

theorem memo_get_sub :
    (((memo.sub n amount).get? node).getD .zero).get d =
      if n = node then ((memo.get? node).getD .zero).get d - amount.get d
      else ((memo.get? node).getD .zero).get d := by
  unfold Memo.sub
  rw [get?_modify]
  split_ifs with h
  · cases memo.get? node <;> simp
  · rfl

end

theorem foldl_memo (node : NodeId) (d : Dim) (l : List AllocationRecord) (memo : Memo) :
    (((l.foldl (fun used r => if r.isLive then
        Memo.add used r.allocation.node r.allocation.funded else used) memo).get? node).getD
          .zero).get d
      = min (((memo.get? node).getD .zero).get d + (l.map (holdOf node d)).sum) u64Max := by
  induction l generalizing memo with
  | nil =>
    have := ((memo.get? node).getD .zero).get_le_u64Max d
    simp only [foldl_nil, map_nil, sum_nil]
    omega
  | cons r rest ih =>
    simp only [foldl_cons, map_cons, sum_cons, ih, holdOf]
    by_cases hl : r.isLive
    · simp only [hl, if_true, memo_get_add, and_true]
      by_cases hn : r.allocation.node = node
      · simp only [hn, if_true]
        omega
      · simp only [hn, if_false]
        omega
    · simp [hl]

theorem usedCapacityMemo_get (s : StateMachine) (node : NodeId) (d : Dim) :
    ((s.usedCapacityMemo.get? node).getD .zero).get d = min (s.heldOn node d) u64Max := by
  unfold usedCapacityMemo heldOn sumBy
  rw [foldl_memo]
  simp [values, Function.comp_def]

end StateMachine

/-! ## Exactness -/

/-- No node holds more than a word can count. -/
def HoldsFit (s : StateMachine) : Prop := ∀ node d, s.heldOn node d ≤ u64Max

/-- The batch memo, when there is one, is the exact sum. -/
def MemoExact (fx : Effects) : Prop :=
  ∀ memo, fx.used = some memo → ∀ node d, ((memo.get? node).getD .zero).get d = fx.st.heldOn node d

variable {s : StateMachine}

theorem memoExact_usedCapacityMemo (h : HoldsFit s) (events : List Event) :
    MemoExact ⟨s, events, some s.usedCapacityMemo⟩ := by
  rintro memo hmemo node d
  cases hmemo
  rw [s.usedCapacityMemo_get]
  exact Nat.min_eq_left (h node d)

theorem memoExact_none (s : StateMachine) (events : List Event) : MemoExact ⟨s, events, none⟩ := by
  rintro memo hmemo
  cases hmemo

/-- Free capacity is the plain difference of capacity and holds. -/
theorem freeCapacity_get {fx : Effects} (h : HoldsFit fx.st) (hm : MemoExact fx) (node : NodeId)
    (d : Dim) :
    (fx.st.freeCapacity node fx.used).get d = fx.st.capacityOf node d - fx.st.heldOn node d := by
  unfold freeCapacity capacityOf
  cases fx.st.nodes.get? node with
  | none => simp
  | some rec =>
    simp only [Resources.get_saturatingSub]
    cases hu : fx.used with
    | none =>
      rw [usedHere_get, Nat.min_eq_left (h node d)]
    | some memo => rw [hm memo hu]

/-- Free capacity in every dimension either is used up or unwanted by every
    accruing allocation of the node. -/
def ConservedOn (s : StateMachine) (node : NodeId) : Prop :=
  ∀ al r, s.allocations.get? al = some r → r.allocation.state = .accruing →
    r.allocation.node = node → ∀ d,
      s.capacityOf node d ≤ s.heldOn node d ∨
        r.allocation.requested.get d ≤ r.allocation.funded.get d

theorem ConservedOn.congr {s' : StateMachine} (h : ConservedOn s node)
    (hall : s'.allocations = s.allocations) (hcap : ∀ d, s'.capacityOf node d = s.capacityOf node d)
    : ConservedOn s' node := by
  intro al r hr hacc hnode d
  rw [hcap, heldOn_congr hall]
  exact h al r (hall ▸ hr) hacc hnode d

/-- Holds on every node stay within what they were or what the node advertises. -/
def HoldsBounded (s s' : StateMachine) : Prop :=
  ∀ node d, s'.heldOn node d ≤ max (s.heldOn node d) (s'.capacityOf node d)

namespace HoldsBounded

variable {s' s'' : StateMachine}

theorem refl (s : StateMachine) : HoldsBounded s s := fun _ _ => Nat.le_max_left _ _

theorem of_le (h : ∀ node d, s'.heldOn node d ≤ s.heldOn node d) : HoldsBounded s s' :=
  fun node d => le_trans (h node d) (Nat.le_max_left _ _)

theorem of_eq (h : s'.allocations = s.allocations) : HoldsBounded s s' :=
  of_le fun node d => le_of_eq (heldOn_congr h node d)

/-- Composition, as long as the later part leaves the nodes alone. -/
theorem trans (h1 : HoldsBounded s s') (h2 : HoldsBounded s' s'') (hn : s''.nodes = s'.nodes) :
    HoldsBounded s s'' := by
  intro node d
  have h1' := h1 node d
  have h2' := h2 node d
  rw [capacityOf_congr hn] at h2' ⊢
  omega

theorem holdsFit (h : HoldsBounded s s') (hs : HoldsFit s) : HoldsFit s' := by
  intro node d
  have h' := h node d
  have hs' := hs node d
  have hc := s'.capacityOf_le node d
  omega

end HoldsBounded

end Coppice.State
