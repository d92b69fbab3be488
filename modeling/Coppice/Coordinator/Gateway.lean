/-
  Coppice.Coordinator.Gateway

  The numbering of agent commands (`coppice-
  coordinator/src/tasks/agent_gateway.rs`), and what `Session::admit` makes of the
  numbers.  Where every stamp finds its term handled, the numbers of a term go up; a
  stamp in between takes a number of the old count into the new term.
-/

import Coppice.Agent.Lifetime
import Coppice.Coordinator.Ingestion
import Coppice.State.DrainRecord

namespace Coppice.Coordinator.Gateway

open Lib Coppice.Core State Protocol Agent OrdMap List Eff

/-! ## The session manager -/

inductive Role where
  | leader (term : UInt64)
  | follower (leader : Option Nat)
  /-- no leader is known, or an election is going on -/
  | unknown
  deriving DecidableEq

def Role.term : Role → Option UInt64
  | .leader term => some term
  | _ => none

/-- The locals of `run_manager`; a session stands for its id, its queue for what was sent. -/
structure Manager where
  sessions : OrdMap NodeId UInt64 := .empty
  seqs : OrdMap NodeId UInt64 := .empty
  /-- the term the numbers belong to -/
  term : Option UInt64 := none

/-- A stamped command, and whether the session's queue had room for it. -/
structure Stamped where
  node : NodeId
  session : UInt64
  token : FencingToken
  seq : UInt64
  body : Option CommandBody
  queued : Bool
  deriving DecidableEq

def Stamped.header (m : Stamped) : CommandHeader := ⟨some m.token, m.seq⟩

namespace Manager

/-- The manager is woken by a change of status. -/
def statusChanged (m : Manager) : Role → Manager
  | .leader new => if m.term = some new then m else { m with seqs := .empty, term := some new }
  | _ => {}

def openSession (m : Manager) (node : NodeId) (id : UInt64) : Manager :=
  { m with sessions := m.sessions.insert node id }

def closeSession (m : Manager) (node : NodeId) (id : UInt64) : Manager :=
  if m.sessions.get? node = some id then { m with sessions := m.sessions.erase node } else m

/-- `full` says that the outbound queue refused the command. -/
def stampAndRoute (m : Manager) (view : StateMachine) (status : Role) (node : NodeId)
    (body : Option CommandBody) (full : Bool) : Manager × List Stamped :=
  match m.sessions.get? node, status, view.nodes.get? node with
  | some session, .leader term, some record =>
    let seq := (m.seqs.get? node).getD 0 + 1
    ({ m with
        seqs := m.seqs.insert node seq
        sessions := if full then m.sessions.erase node else m.sessions },
      [⟨node, session, ⟨term, UInt64.ofNat record.epoch⟩, seq, body, !full⟩])
  | _, _, _ => (m, [])

end Manager

/-! ## Runs -/

structure World where
  manager : Manager := {}
  /-- the live status, and whether the manager has still to be woken for it -/
  status : Role
  changed : Bool := false
  /-- the terms this replica has led -/
  led : List UInt64
  view : StateMachine
  /-- every command stamped so far -/
  sent : List Stamped := []

/-- A replica that has just started. -/
def World.start (view : StateMachine) : World where
  status := .unknown
  led := []
  view := view

inductive Deed where
  | status (role : Role)
  | wake
  | openSession (node : NodeId) (id : UInt64)
  | closeSession (node : NodeId) (id : UInt64)
  | route (node : NodeId) (body : Option CommandBody) (full : Bool)
  /-- the next view has one more command applied -/
  | publish (c : Command)

namespace World

def step (x : World) : Deed → World
  | .status role => { x with
      status := role
      changed := true
      led := role.term.toList ++ x.led }
  | .wake => { x with manager := x.manager.statusChanged x.status, changed := false }
  | .openSession node id => { x with manager := x.manager.openSession node id }
  | .closeSession node id => { x with manager := x.manager.closeSession node id }
  | .route node body full =>
      let out := x.manager.stampAndRoute x.view x.status node body full
      { x with manager := out.1, sent := x.sent ++ out.2 }
  | .publish c => { x with view := (x.view.apply c).1 }

/-- What consensus and the watch channel allow: a replica that leads anew does so in a term above
    all it has led, and the manager wakes for a change. -/
def Allows (x : World) : Deed → Prop
  | .status (.leader term) => x.status = .leader term ∨ ∀ t ∈ x.led, t < term
  | .wake => x.changed = true
  | _ => True

/-- A stamp finds the live term handled and no counter at its end, and no command removes a
    node that had a stamp. -/
def Timely (x : World) : Deed → Prop
  | .route node _ _ =>
      (∀ term ∈ x.status.term, x.manager.term = some term) ∧
      (∀ q ∈ x.manager.seqs.get? node, q.toNat + 1 < 2 ^ 64) ∧
      ∀ r ∈ x.view.nodes.get? node, r.epoch < 2 ^ 64
  | .publish c => ∀ m ∈ x.sent, (x.view.apply c).1.nodes.contains m.node = true
  | _ => True

-- by the listed terms and numbers, not by all words
instance (x : World) (d : Deed) : Decidable (x.Allows d) := by
  letI (term : UInt64) : Decidable (∀ t ∈ x.led, t < term) := decidableBAll _ _
  unfold Allows
  split <;> infer_instance

instance (x : World) (d : Deed) : Decidable (x.Timely d) := by
  letI (p : UInt64 → Prop) [DecidablePred p] (o : Option UInt64) : Decidable (∀ q ∈ o, p q) :=
    Option.decidableForallMem o
  unfold Timely
  split <;> infer_instance

end World

/-- `h` is the header of an earlier command. -/
structure Precedes (h h' : CommandHeader) : Prop where
  term : (h.token.getD {}).leaderTerm ≤ (h'.token.getD {}).leaderTerm
  epoch : (h.token.getD {}).nodeEpoch ≤ (h'.token.getD {}).nodeEpoch
  seq : (h.token.getD {}).leaderTerm = (h'.token.getD {}).leaderTerm → h.commandSeq < h'.commandSeq

/-- The headers stamped for one node, in order. -/
def World.headers (x : World) (node : NodeId) : List CommandHeader :=
  (x.sent.filter (·.node = node)).map Stamped.header

/-- The headers that one session was given. -/
def World.sessionHeaders (x : World) (node : NodeId) (session : UInt64) : List CommandHeader :=
  (x.sent.filter fun m => m.node = node ∧ m.session = session ∧ m.queued).map Stamped.header

/-- The agent takes the commands in turn; in between it does what leaves its watermark and its
    last number alone. -/
inductive Hears (w : JournalWire) : Process → List (CommandHeader × Admit) → Prop where
  | nil (a : Process) : Hears w a []
  | cons {a b : Process} {h : CommandHeader} {v : Admit} {rest : List (CommandHeader × Admit)}
      (hv : (admitHeader w h a).result = .ok v)
      (hwm : b.session.state.watermark = (admitHeader w h a).state.session.state.watermark)
      (hseq : b.session.lastSeq = (admitHeader w h a).state.session.lastSeq)
      (hrest : Hears w b rest) : Hears w a ((h, v) :: rest)

/-! ## Epochs -/

variable {s : StateMachine} {node : NodeId} {r r' : NodeRecord} {w : JournalWire} {a : Process}
  {h : CommandHeader} {v : Admit}

/-- A node that is not removed keeps its epoch or gets a higher one. -/
theorem apply_epoch (c : Command) (hr : s.nodes.get? node = some r)
    (hr' : (s.apply c).1.nodes.get? node = some r') : r.epoch ≤ r'.epoch := by
  replace hr' : (s.dispatch c).1.nodes.get? node = some r' := hr'
  have hsame (h : s.nodes.get? node = some r') : r.epoch ≤ r'.epoch := by
    rw [hr] at h
    cases h
    exact le_rfl
  have hput n x (hx : ∀ y, s.nodes.get? n = some y → y.epoch ≤ x.epoch)
      (h : (s.nodes.insert n x).get? node = some r') : r.epoch ≤ r'.epoch := by
    rcases updated_cases (s.nodes.get?_insert n · x) h with ⟨rfl, rfl⟩ | ⟨-, h⟩
    · exact hx r hr
    · exact hsame h
  by_cases hev : ∃ x, c = .evictNodes x
  · obtain ⟨x, rfl⟩ := hev
    exact hsame (s.evictNodes_nodes x hr')
  have hstep := s.dispatch_step c
  generalize s.dispatch c = out at hr' hstep
  by_cases hc : c.writesNodes = false
  · exact hsame (hstep.nodes hc ▸ hr')
  cases hstep with
  | reject | noop => exact hsame hr'
  | register c =>
    refine hput c.node _ (fun y hy => ?_) ((s.registering_framed c).nodes ▸ hr')
    simp [StateMachine.registeredRecord, hy]
  | @lost c n hn =>
    refine hput c.node _ (fun y hy => ?_) ((s.losing_framed c n).nodes ▸ hr')
    rw [hn] at hy
    cases hy
    exact Nat.le_succ _
  | setDrain _ hn | setDraining hn =>
    refine hput _ _ (fun y hy => ?_) ((congrArg (·.get? node) (modify_of_some _ hn)).symm.trans hr')
    rw [hn] at hy
    cases hy
    exact le_rfl
  | evictNodes => exact absurd ⟨_, rfl⟩ hev
  | setting _ hset => exact hsame (hset.nodes ▸ hr')
  | _ => exact absurd rfl hc

/-- An epoch a node has left is left for good: for as long as its record stays, a report stamped
    with it yields no command and changes nothing, unless it registers, and a reconciliation under
    way is refused. -/
theorem epoch_fences {s s' : StateMachine} {r r' : NodeRecord} (hr : s.nodes.get? node = some r)
    (hrun : Reach s (fun s c => (s.apply c).1)
      (fun s c => ((s.apply c).1.nodes.get? node).isSome = true) s')
    (hr' : s'.nodes.get? node = some r') (epoch : Nat) (hepoch : epoch < r.epoch) :
    (∀ body now, (∀ reg, body ≠ some (.register reg)) →
      (normalize s' ⟨node, epoch, body⟩ now).commands = [] ∧
        ingest s' ⟨node, epoch, body⟩ now = s') ∧
    ∀ adopted lost now, (s'.apply (.reconcileNode ⟨node, epoch, adopted, lost, now⟩)).2 =
      .error (.staleNodeEpoch node r'.epoch epoch) := by
  have hle : ∃ y, s'.nodes.get? node = some y ∧ r.epoch ≤ y.epoch := by
    refine Reach.invariant (fun t => ∃ y, t.nodes.get? node = some y ∧ r.epoch ≤ y.epoch)
      ⟨r, hr, le_rfl⟩ ?_ hrun
    rintro t c ⟨y, hy, hle⟩ hstays
    obtain ⟨z, hz⟩ := Option.isSome_iff_exists.mp hstays
    exact ⟨z, hz, hle.trans (apply_epoch c hy hz)⟩
  have hne : epoch ≠ r'.epoch := by grind
  refine ⟨fun body now hbody => ?_, fun adopted lost now => ?_⟩
  · have hnone : (normalize s' ⟨node, epoch, body⟩ now).commands = [] := by
      grind [normalize, fenced, observedSetDiff, Normalized.empty]
    refine ⟨hnone, ?_⟩
    rw [ingest, hnone]
    rfl
  · grind [StateMachine.apply, StateMachine.dispatch, StateMachine.reconcileNode,
      StateMachine.reject]

/-- A heartbeat from the first epoch of a node that has registered twice more. -/
theorem epoch_fences_twice :
    let s := Sample.run [Sample.register 10, Sample.register 20, Sample.register 30]
    let beat := ⟨1, 1, some (.heartbeat ⟨[some 1], false, none, none⟩)⟩
    (normalize s beat Sample.epoch).commands = [] ∧ ingest s beat Sample.epoch = s := by
  intro s beat
  have hsecond : ((Sample.run [Sample.register 10, Sample.register 20]).nodes.get? 1).map
      NodeRecord.epoch = some 2 := by decide +kernel
  have hthird : (s.nodes.get? 1).isSome = true := by decide +kernel
  obtain ⟨r, hr, hepoch⟩ := Option.map_eq_some_iff.mp hsecond
  obtain ⟨r', hr'⟩ := Option.isSome_iff_exists.mp hthird
  exact (epoch_fences hr (Reach.init.step (a := Sample.register 30) hthird) hr' 1
    (by omega)).1 _ _ (by simp)

/-! ## Numbers -/

/-- What the manager's numbers rest on. -/
structure World.Inv (x : World) : Prop where
  latest : ∀ term, x.status = .leader term → term ∈ x.led ∧ ∀ t ∈ x.led, t ≤ term
  known : ∀ m ∈ x.sent, m.token.leaderTerm ∈ x.led
  epoch : ∀ m ∈ x.sent, ∃ r, x.view.nodes.get? m.node = some r ∧ m.token.nodeEpoch.toNat ≤ r.epoch
  /-- what was stamped in the live term is in the term the manager handles -/
  handled : ∀ m ∈ x.sent, x.status = .leader m.token.leaderTerm →
    x.manager.term = some m.token.leaderTerm
  counted : ∀ m ∈ x.sent, x.manager.term = some m.token.leaderTerm →
    ∃ q, x.manager.seqs.get? m.node = some q ∧ m.seq ≤ q
  ordered : x.sent.Pairwise fun m m' => m.node = m'.node → Precedes m.header m'.header

namespace World

variable {x : World}

theorem Inv.status (h : x.Inv) (role : Role) (hok : x.Allows (.status role)) :
    (x.step (.status role)).Inv := by
  cases role with
  | leader term =>
    have hnew : x.status = .leader term ∨ ∀ t ∈ x.led, t < term := hok
    refine ⟨?_, fun m hm => .tail _ (h.known m hm), h.epoch, ?_, h.counted, h.ordered⟩
    · rintro _ ⟨⟩
      refine ⟨.head _, fun t ht => ?_⟩
      rcases mem_cons.mp ht with rfl | ht
      · exact UInt64.le_refl t
      · rcases hnew with hlive | hlt
        · exact (h.latest term hlive).2 t ht
        · exact UInt64.le_of_lt (hlt t ht)
    · rintro m hm ⟨⟩
      rcases hnew with hlive | hlt
      · exact h.handled m hm hlive
      · exact absurd (hlt _ (h.known m hm)) (UInt64.lt_irrefl _)
  | follower | unknown =>
    exact ⟨fun _ e => (by cases e), h.known, h.epoch, fun _ _ e => (by cases e), h.counted,
      h.ordered⟩

theorem Inv.wake (h : x.Inv) : (x.step .wake).Inv := by
  refine ⟨h.latest, h.known, h.epoch, ?_, ?_, h.ordered⟩
  · intro m _ hlive
    replace hlive : x.status = .leader m.token.leaderTerm := hlive
    simp only [step, hlive, Manager.statusChanged]
    split_ifs with heq
    · exact heq
    · rfl
  · intro m hm hterm
    cases hs : x.status with
    | leader term =>
      simp only [step, hs, Manager.statusChanged] at hterm ⊢
      split_ifs at hterm ⊢ with heq
      · exact h.counted m hm hterm
      · -- nothing was stamped in a term before the manager handled it
        cases hterm
        exact absurd (h.handled m hm hs) heq
    | follower | unknown =>
      simp only [step, hs, Manager.statusChanged] at hterm
      cases hterm

/-- The sessions are not part of it. -/
theorem Inv.sessions (h : x.Inv) {m : Manager} (hterm : m.term = x.manager.term)
    (hseqs : m.seqs = x.manager.seqs) : ({ x with manager := m } : World).Inv :=
  ⟨h.latest, h.known, h.epoch, hterm ▸ h.handled, hterm ▸ hseqs ▸ h.counted, h.ordered⟩

theorem Inv.publish (h : x.Inv) {c : Command} (hok : x.Timely (.publish c)) :
    (x.step (.publish c)).Inv := by
  refine ⟨h.latest, h.known, fun m hm => ?_, h.handled, h.counted, h.ordered⟩
  obtain ⟨r, hr, hle⟩ := h.epoch m hm
  obtain ⟨r', hr'⟩ := contains_iff.mp (hok m hm)
  exact ⟨r', hr', hle.trans (apply_epoch c hr hr')⟩

theorem Inv.route (h : x.Inv) {body : Option CommandBody} {full : Bool}
    (hok : x.Timely (.route node body full)) : (x.step (.route node body full)).Inv := by
  obtain ⟨hterm, hseq, hepoch⟩ := hok
  simp only [step, Manager.stampAndRoute]
  split
  case h_2 =>
    rw [append_nil]
    exact h
  rename_i session term r _ hs hr
  have hterm := hterm term (congrArg Role.term hs)
  have hepoch := UInt64.toNat_ofNat_of_lt' (hepoch r hr)
  -- the new number is above every one of this term
  have hnext q (hq : x.manager.seqs.get? node = some q) : q < q + 1 := by
    rw [UInt64.lt_iff_toNat_lt, UInt64.toNat_add]
    have := hseq q hq
    simp only [UInt64.toNat_one]
    omega
  refine ⟨h.latest, ?_, ?_, ?_, ?_, ?_⟩
  all_goals simp only [mem_append, mem_singleton]
  · rintro m (hm | rfl)
    · exact h.known m hm
    · exact (h.latest term hs).1
  · rintro m (hm | rfl)
    · exact h.epoch m hm
    · exact ⟨r, hr, hepoch.le⟩
  · rintro m (hm | rfl) hlive
    · exact h.handled m hm hlive
    · exact hterm
  · rintro m (hm | rfl) hmt
    · obtain ⟨q, hq, hle⟩ := h.counted m hm hmt
      by_cases hn : node = m.node
      · subst hn
        refine ⟨_, get?_insert_self _ _ _, ?_⟩
        rw [hq]
        exact UInt64.le_trans hle (UInt64.le_of_lt (hnext q hq))
      · exact ⟨q, (get?_insert_of_ne _ _ hn).trans hq, hle⟩
    · exact ⟨_, get?_insert_self _ _ _, UInt64.le_refl _⟩
  · refine pairwise_append.mpr ⟨h.ordered, pairwise_singleton _ _, ?_⟩
    rintro m hm _ hm' hn
    cases mem_singleton.mp hm'
    refine ⟨(h.latest term hs).2 _ (h.known m hm), ?_, fun heq => ?_⟩
    · obtain ⟨r', hr', hle⟩ := h.epoch m hm
      rw [show m.node = node from hn, hr] at hr'
      cases hr'
      exact UInt64.le_iff_toNat_le.mpr (hepoch.symm ▸ hle)
    · obtain ⟨q, hq, hle⟩ := h.counted m hm (heq ▸ hterm)
      rw [show m.node = node from hn] at hq
      rw [hq]
      exact UInt64.lt_of_le_of_lt hle (hnext q hq)

theorem Inv.step (h : x.Inv) (d : Deed) (hallow : x.Allows d) (htimely : x.Timely d) :
    (x.step d).Inv := by
  cases d with
  | status role => exact h.status role hallow
  | wake => exact h.wake
  | openSession => exact h.sessions rfl rfl
  | closeSession =>
    refine h.sessions ?_ ?_ <;> simp only [Manager.closeSession] <;> split_ifs <;> rfl
  | route => exact h.route htimely
  | publish => exact h.publish htimely

end World

/-! ## The agent's side -/

/-- A watermark that is not above the token takes its term; a raise forgets the last number. -/
theorem raiseWatermark_spec (token : FencingToken)
    (hterm : ¬token.leaderTerm < a.session.state.watermark.leaderTerm) :
    Eff.wp false (fun _ _ => True) (fun _ => True) (raiseWatermark w token) (fun _ b =>
      b.session.state.watermark.leaderTerm = token.leaderTerm ∧
        (b.session.lastSeq = none ∨ b.session.lastSeq = a.session.lastSeq ∧
          a.session.state.watermark.leaderTerm = token.leaderTerm)) a := by
  have hle := UInt64.not_lt.mp hterm
  refine wp_session.mpr ?_
  dsimp only
  split_ifs with hraise
  · have hany (x : Agent.Act Unit) :
        wp false (fun _ _ => True) (fun _ => True) x (fun _ _ => True) a := by
      simp only [wp, implies_true, true_and]
      split <;> exact fun _ => trivial
    refine wp_bind.mpr ((hany _).imp fun _ b _ => wp_update.mpr ⟨?_, .inl rfl⟩)
    exact max_eq_of_ge hle
  · have heq := UInt64.le_antisymm hle (UInt64.not_lt.mp (not_or.mp hraise).1)
    exact wp_pure.mpr ⟨heq, .inr ⟨rfl, heq⟩⟩

/-- A refused command changes nothing, an accepted one sets the term and the last number, and a
    duplicate is one whose number in the term in force is not new. -/
theorem admitHeader_spec (h : CommandHeader) (a : Process) :
    Eff.wp false (fun _ _ => True) (fun _ => True) (admitHeader w h) (fun v b =>
      (v = .reject ∧ b = a) ∨
      (v = .fresh ∧ b.session.lastSeq = some h.commandSeq ∧
        b.session.state.watermark.leaderTerm = (h.token.getD {}).leaderTerm) ∨
      v = .duplicate ∧ a.session.state.watermark.leaderTerm = (h.token.getD {}).leaderTerm ∧
        ∃ last, a.session.lastSeq = some last ∧ h.commandSeq ≤ last) a := by
  refine wp_session.mpr ?_
  dsimp only
  split_ifs with hstale
  · exact wp_pure.mpr (.inl ⟨rfl, rfl⟩)
  · refine wp_bind.mpr ((raiseWatermark_spec _ (not_or.mp hstale).1).imp ?_)
    rintro _ b ⟨hterm, hlast⟩
    refine wp_session.mpr ?_
    split_ifs with hdup
    · refine wp_bind.mpr (wp_log.mpr (wp_pure.mpr (.inr (.inr ⟨rfl, ?_⟩))))
      rcases hlast with hnone | ⟨hsame, heq⟩
      · rw [hnone] at hdup
        cases hdup
      · refine ⟨heq, ?_⟩
        rw [hsame] at hdup
        cases hq : a.session.lastSeq with
        | none =>
          rw [hq] at hdup
          cases hdup
        | some last => exact ⟨last, rfl, by simpa [hq] using hdup⟩
    · exact wp_bind.mpr (wp_update.mpr (wp_bind.mpr (wp_log.mpr (wp_pure.mpr
        (.inr (.inl ⟨rfl, rfl, hterm⟩))))))

/-- Headers in order are never duplicates for an agent whose last number they follow. -/
theorem Hears.no_duplicate {hs : List (CommandHeader × Admit)} (hh : Hears w a hs)
    (hord : (hs.map Prod.fst).Pairwise Precedes)
    (hlast : ∀ last, a.session.lastSeq = some last → ∀ h ∈ hs.map Prod.fst,
      a.session.state.watermark.leaderTerm ≤ (h.token.getD {}).leaderTerm ∧
        (a.session.state.watermark.leaderTerm = (h.token.getD {}).leaderTerm →
          last < h.commandSeq)) : ∀ p ∈ hs, p.2 ≠ .duplicate := by
  induction hh with
  | nil => simp
  | @cons a b h v rest hv hwm hseq _ ih =>
    rw [map_cons, pairwise_cons] at hord
    simp only [map_cons, forall_mem_cons] at hlast ⊢
    rw [hwm, hseq] at ih
    rcases (admitHeader_spec h a).ok hv with
      ⟨rfl, hst⟩ | ⟨rfl, hq, hterm⟩ | ⟨-, hterm, last, hq, hle⟩
    · rw [hst] at ih
      exact ⟨by simp, ih hord.2 fun last hl => (hlast last hl).2⟩
    · refine ⟨by simp, ih hord.2 fun last hl h' hh' => ?_⟩
      rw [hq] at hl
      cases hl
      rw [hterm]
      exact ⟨(hord.1 h' hh').term, (hord.1 h' hh').seq⟩
    · exact absurd ((hlast last hq).1.2 hterm) (UInt64.not_lt.mpr hle)

/-! ## Runs of the two together -/

/-- In every run whose stamps are timely and which removes no stamped node, the headers of a node
    are in order, and an agent that takes those of one session from a reset finds no duplicate. -/
theorem commands_numbered {view : StateMachine} {x : World}
    (h : Reach (World.start view) World.step (fun x d => x.Allows d ∧ x.Timely d) x)
    (node : NodeId) :
    (x.headers node).Pairwise Precedes ∧
      ∀ session w a hs, a.session.lastSeq = none → Hears w a hs →
        (hs.map Prod.fst).Sublist (x.sessionHeaders node session) → ∀ p ∈ hs, p.2 ≠ .duplicate := by
  have hstart : (World.start view).Inv := by constructor <;> simp [World.start]
  have hinv := h.invariant World.Inv hstart fun x d hx hok => hx.step d hok.1 hok.2
  have hord (p : Stamped → Bool) (hp : ∀ m, p m = true → m.node = node) :
      ((x.sent.filter p).map Stamped.header).Pairwise Precedes := by
    rw [pairwise_map, pairwise_filter]
    exact hinv.ordered.imp fun hm hn hn' => hm ((hp _ hn).trans (hp _ hn').symm)
  refine ⟨hord _ fun m hm => by simpa using hm, fun session w a hs hnone hh hsub => ?_⟩
  refine hh.no_duplicate (.sublist hsub (hord _ fun m hm => ?_)) fun last hl => ?_
  · simp only [decide_eq_true_eq] at hm
    exact hm.1
  · rw [hnone] at hl
    cases hl

/-- A session opens on a node under the first term. -/
def sampleOpened : List Deed :=
  [.status (.leader 1), .wake, .publish (Sample.register 10), .openSession 1 1]

/-- An agent that has just opened its journal. -/
def sampleAgent : Process :=
  let x := Agent.World.boot Codec.wire 1 {}
  ⟨x.fs, Agent.Session.new 1 0 {}, []⟩

/-- It gets two commands. -/
def sampleNumbered : List Deed := sampleOpened ++ [.route 1 none false, .route 1 none false]

/-- Two commands of one session, both fresh. -/
theorem commands_numbered_sample :
    ∃ x, Reach (World.start .default) World.step (fun x d => x.Allows d ∧ x.Timely d) x ∧
      x.headers 1 = [⟨some ⟨1, 1⟩, 1⟩, ⟨some ⟨1, 1⟩, 2⟩] ∧ (x.headers 1).Pairwise Precedes ∧
      ∀ session w a hs, a.session.lastSeq = none → Hears w a hs →
        (hs.map Prod.fst).Sublist (x.sessionHeaders 1 session) → ∀ p ∈ hs, p.2 ≠ .duplicate := by
  have hreach : Reach (World.start .default) World.step (fun x d => x.Allows d ∧ x.Timely d)
      (sampleNumbered.foldl World.step (.start .default)) := Along.reach .init (by decide +kernel)
  exact ⟨_, hreach, by decide +kernel, commands_numbered hreach 1⟩

/-- The term changes between the manager's look at the status and its stamp. -/
def sampleTardy : List Deed :=
  sampleOpened ++ [.route 1 none false, .status (.leader 2), .route 1 none false, .wake,
    .route 1 none false]

theorem commands_numbered_tardy :
    ∃ x, Reach (World.start .default) World.step World.Allows x ∧
      ¬(x.headers 1).Pairwise Precedes ∧
      ∃ a hs, a.session.lastSeq = none ∧ Hears Codec.wire a hs ∧
        hs.map Prod.fst = x.sessionHeaders 1 1 ∧ ∃ p ∈ hs, p.2 = .duplicate := by
  have hsent : (sampleTardy.foldl World.step (.start .default)).headers 1 =
      [⟨some ⟨1, 1⟩, 1⟩, ⟨some ⟨2, 1⟩, 2⟩, ⟨some ⟨2, 1⟩, 1⟩] := by decide +kernel
  refine ⟨_, Along.reach (l := sampleTardy) .init (by decide +kernel), fun h => ?_, sampleAgent,
    [(⟨some ⟨1, 1⟩, 1⟩, .fresh), (⟨some ⟨2, 1⟩, 2⟩, .fresh), (⟨some ⟨2, 1⟩, 1⟩, .duplicate)],
    rfl, ?_,
    by decide +kernel, by simp⟩
  · rw [hsent] at h
    simp only [pairwise_cons] at h
    exact absurd ((h.2.1 _ (.head _)).seq rfl) (by decide)
  · exact .cons (by decide +kernel) rfl rfl (.cons (by decide +kernel) rfl rfl
      (.cons (by decide +kernel) rfl rfl (.nil _)))

end Coppice.Coordinator.Gateway
