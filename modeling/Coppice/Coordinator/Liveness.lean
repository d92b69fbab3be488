/-
  Coppice.Coordinator.Liveness

  Who is declared lost: the marks of `coppice-coordinator/src/liveness.rs`, and
  `declare_lost_nodes` of `tasks/housekeeping.rs`, which reads them.  A verdict
  holds if the node has not reported since the scan; a tick finds every node tracked
  if nothing was ingested under a newer term and no node entered the view without a
  report.
-/

import Coppice.State.Reachable

namespace Coppice.Coordinator.Liveness

open Lib Coppice.Core State List OrdMap

/-! ## Marks -/

/-- The map and the term it belongs to; a node stands with the instant of its last report or of
    its grace grant. -/
structure Tracked where
  term : Option Nat := none
  nodes : OrdMap NodeId Nat := .empty

namespace Tracked

/-- Make the map that of `term`; false for a term the map has moved past. -/
def enter (m : Tracked) (term : Nat) : Tracked × Bool :=
  match m.term with
  | some held =>
    if held = term then (m, true)
    else if term < held then (m, false)
    else (⟨some term, .empty⟩, true)
  | none => (⟨some term, .empty⟩, true)

/-- Write to the map as the leader of `term`; a write of a term gone by is dropped. -/
def write (m : Tracked) (term : Nat) (update : OrdMap NodeId Nat → OrdMap NodeId Nat) : Tracked :=
  let (m, entered) := m.enter term
  if entered then { m with nodes := update m.nodes } else m

def mark (m : Tracked) (term : Nat) (node : NodeId) (now : Nat) : Tracked :=
  m.write term (·.insert node now)

/-- A grant leaves a mark of the term alone. -/
def grant (now : Nat) (nodes : OrdMap NodeId Nat) (node : NodeId) : OrdMap NodeId Nat :=
  if nodes.contains node then nodes else nodes.insert node now

def seed (m : Tracked) (term : Nat) (nodes : List NodeId) (now : Nat) : Tracked :=
  m.write term (nodes.foldl (grant now))

def lastSeen (m : Tracked) (node : NodeId) : Option Nat := m.nodes.get? node

end Tracked

/-- `AGENT_LIVENESS_DEADLINE`, in nanoseconds. -/
def agentLivenessDeadline : Nat := 90_000_000_000

def hasLiveAllocation (view : StateMachine) (node : NodeId) : Bool :=
  view.allocations.values.any fun r => r.allocation.node = node && r.allocation.state ≠ .released

def staleNodes (view : StateMachine) (m : Tracked) (now : Nat) : List NodeId :=
  (view.nodes.entries.filter fun e =>
    (m.lastSeen e.1).any (fun seen => agentLivenessDeadline ≤ now - seen) &&
      (!e.2.isDraining || hasLiveAllocation view e.1)).map Prod.fst

/-! ## Runs -/

/-- A report that was ingested, with the term it was ingested under. -/
structure Report where
  node : NodeId
  term : Nat
  instant : Nat

/-- The leader's side of liveness: its clock, the view it reads, the marks, and what housekeeping
    is at; with the history of what was ingested and which terms were gained. -/
structure World where
  /-- the monotonic clock, in nanoseconds -/
  clock : Nat := 0
  view : StateMachine
  marks : Tracked := {}
  /-- the term that housekeeping acts for -/
  task : Option Nat := none
  /-- the stale nodes of a tick that are still to be proposed -/
  pending : List NodeId := []
  /-- every report ingested -/
  heard : List Report := []
  /-- the nodes that reported since the last scan -/
  since : List NodeId := []
  /-- the terms of leadership so far -/
  gained : List Nat := []

/-- What can happen: time passes, a report is ingested under some term, a view is published, the
    task gains or loses leadership, scans, or proposes a verdict. -/
inductive Deed where
  | wait (span : Nat)
  | report (term : Nat) (node : NodeId)
  | publish (view : StateMachine)
  | gain (term : Nat)
  | lose
  | tick
  /-- the next verdict is proposed; an error that is no rejection ends the round -/
  | propose (goesOn : Bool)

namespace World

def step (x : World) : Deed → World
  | .wait span => { x with clock := x.clock + span }
  | .report term node => { x with
      marks := x.marks.mark term node x.clock
      heard := ⟨node, term, x.clock⟩ :: x.heard
      since := node :: x.since }
  | .publish view => { x with view := view }
  | .gain term => { x with
      task := some term
      marks := x.marks.seed term x.view.nodes.keys x.clock
      gained := term :: x.gained }
  | .lose => { x with task := none }
  | .tick => { x with pending := staleNodes x.view x.marks x.clock, since := [] }
  | .propose goesOn => { x with pending := if goesOn then x.pending.tail else [] }

/-- The order the task goes through its work in; terms of leadership only go up. -/
def Allows (x : World) : Deed → Prop
  | .gain term => x.task = none ∧ ∀ t ∈ x.gained, t < term
  | .lose | .tick => x.task ≠ none ∧ x.pending = []
  | .propose _ => x.pending ≠ []
  | _ => True

/-- A node about to be declared lost has not reported since the scan.  At a tick no report has
    been ingested under a newer term, and no node enters the view of a leader without having
    reported in its term. -/
def Settled (x : World) : Deed → Prop
  | .tick => ∀ h ∈ x.heard, ∀ t, x.task = some t → h.term ≤ t
  | .publish view => ∀ t, x.task = some t → ∀ node r, view.nodes.get? node = some r →
      (x.view.nodes.get? node).isSome = true ∨ ∃ h ∈ x.heard, h.node = node ∧ h.term = t
  | .propose _ => ∀ node ∈ x.pending.head?, node ∉ x.since
  | _ => True

/-- A verdict rests on silence in the current term, and a tick tracks every node it reads. -/
def Justified (x : World) : Deed → Prop
  | .propose _ => ∀ node ∈ x.pending.head?, ∀ h ∈ x.heard, h.node = node →
      x.marks.term = some h.term → h.instant + agentLivenessDeadline ≤ x.clock
  | .tick => x.marks.term = x.task ∧ ∀ node r, x.view.nodes.get? node = some r →
      (x.marks.lastSeen node).isSome = true
  | _ => True

end World

/-! ## Entering a term -/

namespace Tracked

/-- No mark is ahead of the clock. -/
def Stamped (now : Nat) (nodes : OrdMap NodeId Nat) : Prop := ∀ n i, nodes.get? n = some i → i ≤ now

/-- Every mark stands, with no earlier instant. -/
def Keeps (nodes nodes' : OrdMap NodeId Nat) : Prop :=
  ∀ n i, nodes.get? n = some i → ∃ j, nodes'.get? n = some j ∧ i ≤ j

theorem enter_cases (m : Tracked) (term : Nat) :
    (m.enter term = (m, true) ∧ m.term = some term) ∨
      (m.enter term = (m, false) ∧ ∃ held, m.term = some held ∧ term < held) ∨
      (m.enter term = (⟨some term, .empty⟩, true) ∧ ∀ held, m.term = some held → held < term) := by
  unfold enter
  rcases m.term with _ | held
  · simp
  · rcases Nat.lt_trichotomy held term with h | h | h
    · simp [h, h.ne, h.not_gt]
    · simp [h]
    · simp [h, h.ne']

/-- What a write leaves: the map of the same term with its marks kept, or that of a later term. -/
structure Written (m : Tracked) (term : Nat) (m' : Tracked) : Prop where
  grows : (m'.term = m.term ∧ Keeps m.nodes m'.nodes) ∨
    ∃ t, m'.term = some t ∧ ∀ held, m.term = some held → held < t
  reached : ∃ held, m'.term = some held ∧ term ≤ held

theorem write_spec {m : Tracked} (term : Nat) (hm : Stamped now m.nodes)
    (hu : ∀ nodes, Stamped now nodes → Stamped now (update nodes) ∧ Keeps nodes (update nodes)) :
    Written m term (m.write term update) ∧ Stamped now (m.write term update).nodes ∧
      ((m.write term update).term = some term →
        ∃ l, Stamped now l ∧ (m.write term update).nodes = update l) := by
  unfold write
  rcases m.enter_cases term with ⟨he, ht⟩ | ⟨he, held, ht, hlt⟩ | ⟨he, hlt⟩ <;> rw [he]
  · exact ⟨⟨.inl ⟨rfl, (hu _ hm).2⟩, term, ht, le_refl _⟩, (hu _ hm).1, fun _ => ⟨_, hm, rfl⟩⟩
  · refine ⟨⟨.inl ⟨rfl, fun n i h => ⟨i, h, le_refl i⟩⟩, held, ht, hlt.le⟩, hm, fun h => ?_⟩
    exact absurd (Option.some.inj (ht.symm.trans h)) hlt.ne'
  · have hempty : Stamped now empty := by simp [Stamped]
    exact ⟨⟨.inr ⟨term, rfl, hlt⟩, term, rfl, le_refl _⟩, (hu _ hempty).1, fun _ =>
      ⟨_, hempty, rfl⟩⟩

/-- A write leaves the term or makes it its own. -/
theorem write_term (m : Tracked) (term : Nat) (update : OrdMap NodeId Nat → OrdMap NodeId Nat) :
    (m.write term update).term = m.term ∨ (m.write term update).term = some term := by
  unfold write
  rcases m.enter_cases term with ⟨he, -⟩ | ⟨he, -⟩ | ⟨he, -⟩ <;> simp [he]

theorem insert_keeps (node : NodeId) (nodes : OrdMap NodeId Nat) (h : Stamped now nodes) :
    Stamped now (nodes.insert node now) ∧ Keeps nodes (nodes.insert node now) := by
  constructor
  · intro n i hi
    rcases updated_cases (fun j => get?_insert nodes node j now) hi with hn | hn
    · exact hn.2.le
    · exact h n i hn.2
  · intro n i hi
    by_cases hn : node = n
    · exact ⟨now, by simp [hn], h n i hi⟩
    · exact ⟨i, (get?_insert_of_ne _ _ hn).trans hi, le_refl i⟩

/-- Grants leave the marks there are, and every node has one after them. -/
theorem grants_keep (l : List NodeId) (nodes : OrdMap NodeId Nat) (h : Stamped now nodes) :
    Stamped now (l.foldl (grant now) nodes) ∧ Keeps nodes (l.foldl (grant now) nodes) ∧
      ∀ n ∈ l, ((l.foldl (grant now) nodes).get? n).isSome = true := by
  induction l generalizing nodes with
  | nil => exact ⟨h, fun n i hi => ⟨i, hi, le_refl i⟩, by simp⟩
  | cons k rest ih =>
    have hk : Stamped now (grant now nodes k) ∧ Keeps nodes (grant now nodes k) ∧
        ∃ i, (grant now nodes k).get? k = some i := by
      unfold grant
      split
      · next hc => exact ⟨h, fun n i hi => ⟨i, hi, le_refl i⟩, contains_iff.mp hc⟩
      · exact ⟨(insert_keeps k nodes h).1, (insert_keeps k nodes h).2, now, by simp⟩
    obtain ⟨hst, hkeep, hall⟩ := ih _ hk.1
    refine ⟨hst, fun n i hi => ?_, fun n hn => ?_⟩
    · obtain ⟨j, hj, hij⟩ := hk.2.1 n i hi
      obtain ⟨j', hj', hjj'⟩ := hkeep n j hj
      exact ⟨j', hj', hij.trans hjj'⟩
    · rcases mem_cons.mp hn with rfl | hn
      · obtain ⟨i, hi⟩ := hk.2.2
        obtain ⟨j, hj, _⟩ := hkeep n i hi
        exact Option.isSome_of_eq_some hj
      · exact hall n hn

end Tracked

/-! ## What every run keeps -/

namespace World

/-- A report of the current term is no later than the node's mark, and a node awaiting its verdict
    has been silent for the deadline unless it reported since the scan. -/
structure Inv (x : World) : Prop where
  stamped : Tracked.Stamped x.clock x.marks.nodes
  heard : ∀ h ∈ x.heard, ∃ held, x.marks.term = some held ∧ h.term ≤ held
  marked : ∀ h ∈ x.heard, x.marks.term = some h.term →
    ∃ i, x.marks.nodes.get? h.node = some i ∧ h.instant ≤ i
  silent : ∀ node ∈ x.pending, node ∉ x.since → ∀ h ∈ x.heard, h.node = node →
    x.marks.term = some h.term → h.instant + agentLivenessDeadline ≤ x.clock
  led : ∀ t, x.task = some t → ∃ held, x.marks.term = some held ∧ t ≤ held
  tracked : ∀ t, x.task = some t → x.marks.term = some t →
    ∀ node r, x.view.nodes.get? node = some r → (x.marks.nodes.get? node).isSome = true

/-- A write to the map makes no report current that was not. -/
theorem Inv.written {x : World} {term : Nat} {m : Tracked} (h : Inv x)
    (hw : Tracked.Written x.marks term m) (hm : Tracked.Stamped x.clock m.nodes) :
    Inv { x with marks := m } := by
  -- in a later term nothing that was led or heard is current
  have hpast (t : Nat) (ht : ∃ held, x.marks.term = some held ∧ t ≤ held) (hc : m.term = some t) :
      x.marks.term = some t ∧ Tracked.Keeps x.marks.nodes m.nodes := by
    obtain ⟨held, hheld, hle⟩ := ht
    rcases hw.grows with hg | ⟨t', ht', hlt⟩
    · exact ⟨hg.1.symm.trans hc, hg.2⟩
    · have := Option.some.inj (ht'.symm.trans hc)
      have := hlt held hheld
      omega
  have hbound (t : Nat) (ht : ∃ held, x.marks.term = some held ∧ t ≤ held) :
      ∃ held, m.term = some held ∧ t ≤ held := by
    obtain ⟨held, hheld, hle⟩ := ht
    rcases hw.grows with hg | ⟨t', ht', hlt⟩
    · exact ⟨held, hg.1.trans hheld, hle⟩
    · exact ⟨t', ht', hle.trans (hlt held hheld).le⟩
  refine ⟨hm, fun r hr => hbound _ (h.heard r hr), fun r hr hc => ?_,
    fun node hn hs r hr hrn hc => ?_,
    fun t ht => hbound t (h.led t ht), fun t ht hc node r hr => ?_⟩
  · obtain ⟨hc, hk⟩ := hpast _ (h.heard r hr) hc
    obtain ⟨i, hi, hri⟩ := h.marked r hr hc
    obtain ⟨j, hj, hij⟩ := hk _ i hi
    exact ⟨j, hj, hri.trans hij⟩
  · exact h.silent node hn hs r hr hrn (hpast _ (h.heard r hr) hc).1
  · obtain ⟨hc, hk⟩ := hpast t (h.led t ht) hc
    obtain ⟨i, hi⟩ := Option.isSome_iff_exists.mp (h.tracked t ht hc node r hr)
    obtain ⟨j, hj, _⟩ := hk _ i hi
    exact Option.isSome_of_eq_some hj

theorem Inv.step {x : World} {d : Deed} (h : Inv x) (hd : x.Settled d) : Inv (x.step d) := by
  cases d with
  | wait span =>
    exact { h with
      stamped := fun n i hi => (h.stamped n i hi).trans (Nat.le_add_right _ _)
      silent := fun node hn hs r hr hrn hc =>
        (h.silent node hn hs r hr hrn hc).trans (Nat.le_add_right _ _) }
  | report term node =>
    obtain ⟨hw, hm, hmark⟩ := Tracked.write_spec term h.stamped (Tracked.insert_keeps node)
    have hi := h.written hw hm
    refine { hi with heard := ?_, marked := ?_, silent := ?_ }
    · simpa [World.step] using ⟨hw.reached, hi.heard⟩
    · intro r hr hc
      rcases mem_cons.mp hr with rfl | hr
      · obtain ⟨l, _, hl⟩ := hmark hc
        exact ⟨x.clock, by simp [World.step, Tracked.mark, hl], le_refl _⟩
      · exact hi.marked r hr hc
    · intro n hn hs r hr hrn hc
      rcases mem_cons.mp hr with rfl | hr
      · exact absurd (hrn ▸ mem_cons_self) hs
      · exact hi.silent n hn (fun hx => hs (mem_cons_of_mem _ hx)) r hr hrn hc
  | publish view =>
    refine { h with tracked := fun t ht hc node r hr => ?_ }
    rcases hd t ht node r hr with hold | ⟨rep, hrep, rfl, rfl⟩
    · obtain ⟨r', hr'⟩ := Option.isSome_iff_exists.mp hold
      exact h.tracked t ht hc node r' hr'
    · obtain ⟨i, hi, -⟩ := h.marked rep hrep hc
      exact Option.isSome_of_eq_some hi
  | gain term =>
    have hgrant nodes := @Tracked.grants_keep x.clock x.view.nodes.keys nodes
    obtain ⟨hw, hm, hmark⟩ := Tracked.write_spec term h.stamped fun nodes hn =>
      ⟨(hgrant nodes hn).1, (hgrant nodes hn).2.1⟩
    refine { h.written hw hm with led := ?_, tracked := ?_ }
    · rintro t ⟨⟩
      exact hw.reached
    · rintro t ⟨⟩ hc node r hr
      obtain ⟨l, hst, hl⟩ := hmark hc
      have hkey : node ∈ x.view.nodes.keys := OrdMap.mem_keys.mpr ⟨r, hr⟩
      simpa [World.step, Tracked.seed, hl] using (hgrant l hst).2.2 node hkey
  | lose => exact { h with led := nofun, tracked := nofun }
  | tick =>
    refine { h with silent := ?_ }
    intro node hn _ r hr hrn hc
    obtain ⟨i, hi, hri⟩ := h.marked r hr hc
    simp only [World.step, staleNodes, mem_map, mem_filter] at hn
    obtain ⟨e, ⟨_, he⟩, rfl⟩ := hn
    rw [← hrn] at he
    simp [Tracked.lastSeen, hi] at he
    have := h.stamped _ i hi
    simp only [World.step]
    omega
  | propose goesOn =>
    refine { h with silent := fun node hn => h.silent node ?_ }
    simp only [World.step] at hn
    split at hn
    · exact mem_of_mem_tail hn
    · simp at hn

/-- The map is that of a term gained or reported under, and a leader's term is the newest gained. -/
structure Termed (x : World) : Prop where
  newest : ∀ t, x.task = some t → ∀ g ∈ x.gained, g ≤ t
  entered : ∀ held, x.marks.term = some held → held ∈ x.gained ∨ ∃ h ∈ x.heard, h.term = held

theorem Termed.step {x : World} {d : Deed} (h : Termed x) (ha : x.Allows d) :
    Termed (x.step d) := by
  cases d with
  | report term node =>
    refine ⟨h.newest, fun held hheld => ?_⟩
    rcases x.marks.write_term term (·.insert node x.clock) with hsame | hnew
    · refine (h.entered held (hsame.symm.trans hheld)).imp_right ?_
      rintro ⟨r, hr, rfl⟩
      exact ⟨r, mem_cons_of_mem _ hr, rfl⟩
    · exact .inr ⟨_, mem_cons_self, Option.some.inj (hnew.symm.trans hheld)⟩
  | gain term =>
    refine ⟨?_, fun held hheld => ?_⟩
    · rintro t ⟨⟩ g hg
      rcases mem_cons.mp hg with rfl | hg
      · exact le_refl _
      · exact (ha.2 g hg).le
    · rcases x.marks.write_term term (x.view.nodes.keys.foldl (Tracked.grant x.clock)) with
        hsame | hnew
      · exact (h.entered held (hsame.symm.trans hheld)).imp_left (mem_cons_of_mem _)
      · exact .inl (by rw [Option.some.inj (hnew.symm.trans hheld)]; exact mem_cons_self)
  | lose => exact { h with newest := nofun }
  | _ => exact { h with }

/-- Where nothing was ingested under a newer term, the map is that of the leader's own. -/
theorem Termed.eq_task {x : World} (h : Termed x) (hi : Inv x) (hd : x.Settled .tick)
    (ht : x.task = some t) : x.marks.term = some t := by
  obtain ⟨held, hheld, hle⟩ := hi.led t ht
  have hge : held ≤ t := by
    rcases h.entered held hheld with hg | ⟨r, hr, rfl⟩
    · exact h.newest t ht held hg
    · exact hd r hr t ht
  rw [hheld, Nat.le_antisymm hge hle]

/-- A verdict is proposed only for a node that the current term has not heard for the deadline,
    and a tick finds every node of its view tracked in its term, in every run whose steps are all
    settled. -/
theorem verdicts_justified {x : World} {view : StateMachine} {d : Deed}
    (h : Reach { view := view } World.step (fun x d => x.Allows d ∧ x.Settled d) x)
    (ha : x.Allows d) (hd : x.Settled d) : x.Justified d := by
  have hx : Inv x ∧ Termed x := by
    refine h.invariant (fun x => Inv x ∧ Termed x) ⟨?_, by simp, by simp⟩ fun _ d hi hok =>
      ⟨hi.1.step hok.2, hi.2.step hok.1⟩
    constructor <;> simp [Tracked.Stamped]
  cases d with
  | propose goesOn =>
    intro node hn
    exact hx.1.silent node (mem_of_mem_head? hn) (hd node hn)
  | tick =>
    obtain ⟨t, ht⟩ := Option.ne_none_iff_exists'.mp ha.1
    have hterm := hx.2.eq_task hx.1 hd ht
    exact ⟨hterm.trans ht.symm, hx.1.tracked t ht hterm⟩
  | _ => trivial

/-- A term begins with one node, and the deadline passes before the first scan. -/
def sampleScan : List Deed := [.gain 1, .wait agentLivenessDeadline, .tick]

def sampleView : StateMachine := Sample.run [Sample.register 4]

theorem verdicts_justified_sample :
    (sampleScan.foldl step { view := sampleView }).pending = [1] ∧
      (sampleScan.foldl step { view := sampleView }).Justified (.propose true) := by
  have hpending : (sampleScan.foldl step { view := sampleView }).pending = [1] := by decide +kernel
  have hreach : Reach { view := sampleView } step (fun x d => x.Allows d ∧ x.Settled d)
      (sampleScan.foldl step { view := sampleView }) :=
    Along.reach .init ⟨⟨⟨rfl, nofun⟩, trivial⟩, ⟨trivial, trivial⟩, ⟨⟨nofun, rfl⟩, nofun⟩, trivial⟩
  exact ⟨hpending, verdicts_justified hreach (by simp [Allows, hpending])
    (by simp [Settled, step, sampleScan])⟩

/-- A node reports while its verdict waits.  Another was registered under an earlier leader and is
    not yet in the view that the grants are made from. -/
theorem verdicts_justified_fails :
    (∃ x : World, Reach { view := sampleView } step Allows x ∧ x.Allows (.propose true) ∧
      ¬ x.Justified (.propose true)) ∧
    ∃ x : World, Reach { view := .default } step Allows x ∧ x.Allows .tick ∧
      ¬ x.Justified .tick := by
  constructor
  · have hpending : (sampleScan.foldl step { view := sampleView }).pending = [1] := by
      decide +kernel
    refine ⟨(sampleScan ++ [Deed.report 1 1]).foldl step { view := sampleView },
      Along.reach .init ⟨⟨rfl, nofun⟩, trivial, ⟨nofun, rfl⟩, trivial, trivial⟩, ?_, fun h => ?_⟩
    · simp [Allows, step, hpending]
    · have := h 1 (by simp [step, hpending]) ⟨1, 1, _⟩ mem_cons_self rfl rfl
      simp [step, sampleScan, agentLivenessDeadline] at this
  · refine ⟨[Deed.gain 1, .publish sampleView].foldl step { view := .default },
      Along.reach .init ⟨⟨rfl, nofun⟩, trivial, trivial⟩, ⟨nofun, rfl⟩, fun h => ?_⟩
    have hnode : (sampleView.nodes.get? 1).isSome = true := by decide +kernel
    obtain ⟨r, hr⟩ := Option.isSome_iff_exists.mp hnode
    exact absurd (h.2 1 r hr) (by decide +kernel)

end World

end Coppice.Coordinator.Liveness
