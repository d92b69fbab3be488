/-
  Coppice.State.QuotaTree

  The quota tree of a reachable state: every entity has a line of ancestors up to a
  root, within the depth cap, and siblings differ in name, so that a path names one
  entity.
-/

import Coppice.State.Ledger

namespace Coppice.State

open Lib Coppice.Core StateMachine OrdMap List Option

/-! ## Paths -/

namespace StateMachine

/-- The names from an entity up, walking at most `fuel` levels. -/
def pathNamesFuel (s : StateMachine) : Nat → Option QuotaEntityId → List String
  | 0, _ => []
  | _ + 1, none => []
  | fuel + 1, some id =>
    match s.quotaEntities.get? id with
    | none => []
    | some e => e.name :: s.pathNamesFuel fuel e.parent

def quotaEntityPath (s : StateMachine) (entity : QuotaEntityId) : Option String :=
  match s.quotaEntities.get? entity with
  | none => none
  | some _ => some (joinPath (s.pathNamesFuel quotaTreeDepthCap (some entity)).reverse)

/-- The child of `parent` with a name. -/
def childNamed (s : StateMachine) (parent : Option QuotaEntityId) (name : String) :
    Option QuotaEntityId :=
  (s.quotaEntities.entries.find? fun e => e.2.parent = parent && e.2.name = name).map Prod.fst

/-- Down from `parent`, one segment at a time, at most `fuel` levels. -/
def resolveFuel (s : StateMachine) : Nat → Option QuotaEntityId → List String → Option QuotaEntityId
  | _, parent, [] => parent
  | 0, _, _ :: _ => none
  | fuel + 1, parent, segment :: rest =>
    match s.childNamed parent segment with
    | none => none
    | some id => s.resolveFuel fuel (some id) rest

def resolveQuotaEntityPath (s : StateMachine) (path : QuotaEntityPath) : Option QuotaEntityId :=
  s.resolveFuel quotaTreeDepthCap none path.segments

end StateMachine

/-! ## The tree -/

/-- `line` is the entity and all its ancestors, up to a root. -/
inductive Lineage (s : StateMachine) : QuotaEntityId → List QuotaEntityId → Prop where
  | root {e : QuotaEntityId} {q : QuotaEntity} : s.quotaEntities.get? e = some q →
      q.parent = none → Lineage s e [e]
  | under {e p : QuotaEntityId} {q : QuotaEntity} {line : List QuotaEntityId} :
      s.quotaEntities.get? e = some q → q.parent = some p → Lineage s p line →
      Lineage s e (e :: line)

/-- A forest of bounded depth with valid names, distinct among siblings. -/
structure WellNamed (s : StateMachine) : Prop where
  lines : ∀ {e q}, s.quotaEntities.get? e = some q →
    ∃ line, Lineage s e line ∧ line.length ≤ quotaTreeDepthCap
  siblings : ∀ {e e' q q'}, s.quotaEntities.get? e = some q → s.quotaEntities.get? e' = some q' →
    q.parent = q'.parent → q.name = q'.name → e = e'
  names : ∀ {e q}, s.quotaEntities.get? e = some q → Segment.validate q.name = .ok ()

/-- Entities stay, with their names and parents. -/
def KeepsTree (s s' : StateMachine) : Prop :=
  ∀ e q, s.quotaEntities.get? e = some q →
    ∃ q', s'.quotaEntities.get? e = some q' ∧ q'.name = q.name ∧ q'.parent = q.parent

namespace KeepsTree

variable {s s' s'' : StateMachine}

theorem trans (h : KeepsTree s s') (h' : KeepsTree s' s'') : KeepsTree s s'' := by
  intro e q hq
  obtain ⟨q', hq', hname, hparent⟩ := h e q hq
  obtain ⟨q'', hq'', hname', hparent'⟩ := h' e q' hq'
  exact ⟨q'', hq'', hname'.trans hname, hparent'.trans hparent⟩

theorem of_billed (h : OrdMap.Rel QuotaEntity.Billed s.quotaEntities s'.quotaEntities) :
    KeepsTree s s' := by
  intro e q hq
  obtain ⟨q', hq', hb⟩ := h.some hq
  exact ⟨q', hq', by rw [hb.rest], hb.parent⟩

theorem lineage (h : KeepsTree s s') (hl : Lineage s e line) : Lineage s' e line := by
  induction hl with
  | root hq hroot =>
    obtain ⟨q', hq', -, hparent⟩ := h _ _ hq
    exact .root hq' (hparent.trans hroot)
  | under hq hp _ ih =>
    obtain ⟨q', hq', -, hparent⟩ := h _ _ hq
    exact .under hq' (hparent.trans hp) ih

end KeepsTree

namespace WellNamed

variable {s s' : StateMachine}

/-- A tree with the same entities. -/
theorem kept (h : WellNamed s) (hk : KeepsTree s s')
    (hback : ∀ {e q'}, s'.quotaEntities.get? e = some q' → ∃ q, s.quotaEntities.get? e = some q) :
    WellNamed s' := by
  have hbefore {e q'} (hq' : s'.quotaEntities.get? e = some q') : ∃ q, s.quotaEntities.get? e = some
      q ∧ q'.name = q.name ∧ q'.parent = q.parent := by
    obtain ⟨q, hq⟩ := hback hq'
    obtain ⟨q'', hq'', hsame⟩ := hk e q hq
    cases hq'.symm.trans hq''
    exact ⟨q, hq, hsame⟩
  refine ⟨fun hq' => ?_, fun hq1 hq2 hparent hname => ?_, fun hq' => ?_⟩
  · obtain ⟨q, hq, -⟩ := hbefore hq'
    obtain ⟨line, hline, hlen⟩ := h.lines hq
    exact ⟨line, hk.lineage hline, hlen⟩
  · obtain ⟨q1, h1, hname1, hparent1⟩ := hbefore hq1
    obtain ⟨q2, h2, hname2, hparent2⟩ := hbefore hq2
    exact h.siblings h1 h2 (by rw [← hparent1, ← hparent2, hparent])
      (by rw [← hname1, ← hname2, hname])
  · obtain ⟨q, hq, hname, -⟩ := hbefore hq'
    rw [hname]
    exact h.names hq

end WellNamed

/-! ## Walks -/

namespace Lineage

variable {s : StateMachine} {e : QuotaEntityId} {line : List QuotaEntityId}

theorem entityChainFuel (h : Lineage s e line) {fuel : Nat} (hlen : line.length ≤ fuel) :
    s.entityChainFuel fuel (some e) = line := by
  induction h generalizing fuel with
  | @root e q hq hroot =>
    obtain _ | fuel := fuel
    · cases hlen
    · show e :: s.entityChainFuel fuel ((s.quotaEntities.get? e).bind QuotaEntity.parent) = [e]
      rw [hq, bind_some, hroot, entityChainFuel_none]
  | @under e p q line hq hp _ ih =>
    obtain _ | fuel := fuel
    · cases hlen
    · show e :: s.entityChainFuel fuel ((s.quotaEntities.get? e).bind QuotaEntity.parent) = _
      rw [hq, bind_some, hp, ih (Nat.le_of_succ_le_succ hlen)]

/-- The names on the line are names of entities. -/
theorem pathNames (h : Lineage s e line) {fuel : Nat} (hlen : line.length ≤ fuel) :
    s.pathNamesFuel fuel (some e) ≠ [] ∧ ∀ name ∈ s.pathNamesFuel fuel (some e),
      ∃ x q, s.quotaEntities.get? x = some q ∧ q.name = name := by
  induction h generalizing fuel with
  | @root e q hq hroot =>
    obtain _ | fuel := fuel
    · cases hlen
    · have hnil : s.pathNamesFuel fuel none = [] := by cases fuel <;> rfl
      simp only [pathNamesFuel, hq, hroot, hnil]
      exact ⟨cons_ne_nil _ _, fun name hname =>
        ⟨e, q, hq, (mem_singleton.mp hname).symm⟩⟩
  | @under e p q line hq hp _ ih =>
    obtain _ | fuel := fuel
    · cases hlen
    · simp only [pathNamesFuel, hq, hp]
      refine ⟨cons_ne_nil _ _, fun name hname => ?_⟩
      rcases mem_cons.mp hname with rfl | hname
      · exact ⟨e, q, hq, rfl⟩
      · exact (ih (Nat.le_of_succ_le_succ hlen)).2 name hname

end Lineage

namespace StateMachine

variable {s : StateMachine}

/-- Among siblings with distinct names the scan finds the one there is. -/
theorem childNamed_eq (h : WellNamed s) {e : QuotaEntityId} {q : QuotaEntity}
    (hq : s.quotaEntities.get? e = some q) : s.childNamed q.parent q.name = some e := by
  unfold childNamed
  cases hfind : s.quotaEntities.entries.find? fun x =>
      x.2.parent = q.parent && x.2.name = q.name with
  | none =>
    have hno := find?_eq_none.mp hfind (e, q) (mem_entries.mpr hq)
    simp at hno
  | some x =>
    have hmem := mem_entries.mp (mem_of_find?_eq_some hfind)
    have hx := find?_some hfind
    simp only [Bool.and_eq_true, decide_eq_true_eq] at hx
    exact congrArg some (h.siblings hmem hq hx.1 hx.2)

/-- Down the names of a line and on from its entity. -/
theorem resolveFuel_line (h : WellNamed s) (hl : Lineage s e line) {fuel : Nat}
    (hlen : line.length ≤ fuel) (left : Nat) (rest : List String) :
    s.resolveFuel (left + line.length) none ((s.pathNamesFuel fuel (some e)).reverse ++ rest) =
      s.resolveFuel left (some e) rest := by
  induction hl generalizing fuel left rest with
  | @root e q hq hroot =>
    obtain _ | fuel := fuel
    · cases hlen
    · have hnil : s.pathNamesFuel fuel none = [] := by cases fuel <;> rfl
      have hchild := childNamed_eq h hq
      rw [hroot] at hchild
      simp [pathNamesFuel, hq, hroot, hnil, resolveFuel, hchild]
  | @under e p q line hq hp _ ih =>
    obtain _ | fuel := fuel
    · cases hlen
    · have hchild := childNamed_eq h hq
      rw [hp] at hchild
      simp only [pathNamesFuel, hq, hp, reverse_cons, append_assoc, singleton_append, length_cons]
      rw [Nat.add_comm line.length 1, ← Nat.add_assoc, ih (Nat.le_of_succ_le_succ hlen)]
      simp [resolveFuel, hchild]

/-- `covers` looks for the scope on the chain. -/
theorem coversFuel_iff (scope : QuotaEntityId) (fuel : Nat) (e : Option QuotaEntityId) :
    Authz.coversFuel s.quotaEntities scope fuel e = true ↔ scope ∈ s.entityChainFuel fuel e := by
  induction fuel generalizing e with
  | zero => simp [Authz.coversFuel, entityChainFuel]
  | succ fuel ih =>
    cases e with
    | none => simp [Authz.coversFuel, entityChainFuel]
    | some id =>
      show (if id = scope then true else _) = true ↔ _ ∈ id :: _
      rw [mem_cons, ← ih]
      split_ifs with hid
      · simp [hid]
      · simp [Ne.symm hid]

end StateMachine

/-- Every walk from the entity visits its line, and nothing else. -/
structure FullWalks (s : StateMachine) (e : QuotaEntityId) (line : List QuotaEntityId) : Prop where
  chain : s.entityChain e = line
  nodup : line.Nodup
  charged : ∀ amount at_ x, (s.chargeAncestors e amount at_).quotaEntities.get? x =
    if x ∈ line then (s.quotaEntities.get? x).map
      (StateMachine.billed fun u => u.charge amount at_ s.policy.decay)
    else s.quotaEntities.get? x
  settled : ∀ adjustment at_ x, (s.settleAncestors e adjustment at_).quotaEntities.get? x =
    if x ∈ line then (s.quotaEntities.get? x).map
      (StateMachine.billed fun u => u.settle adjustment at_ s.policy.decay)
    else s.quotaEntities.get? x
  covered : ∀ b : Binding, Authz.covers b e s.quotaEntities = true ↔
    ∀ scope, b.scope = some scope → scope ∈ line

/-- The path of the entity is one, of valid names, and leads back to it. -/
def Addressed (s : StateMachine) (e : QuotaEntityId) : Prop :=
  ∃ path, s.quotaEntityPath e = some path.text ∧ QuotaEntityPath.fromStr path.text = .ok path ∧
    (∀ segment ∈ path.segments, Segment.validate segment = .ok ()) ∧
    s.resolveQuotaEntityPath path = some e

namespace WellNamed

variable {s : StateMachine}

theorem forest (h : WellNamed s) : s.Forest := by
  intro e q p hq hp
  obtain ⟨line, hline, hlen⟩ := h.lines hq
  rw [entityChain, hline.entityChainFuel hlen]
  cases hline with
  | root hq' hroot =>
    cases hq.symm.trans hq'
    rw [hp] at hroot
    cases hroot
  | under hq' hp' hrest =>
    cases hq.symm.trans hq'
    cases hp.symm.trans hp'
    rw [length_cons] at hlen
    rw [entityChain, hrest.entityChainFuel (by omega)]

theorem fullWalks (h : WellNamed s) (hl : Lineage s e line) (hlen : line.length ≤ quotaTreeDepthCap)
    : FullWalks s e line := by
  have hchain : s.entityChain e = line := hl.entityChainFuel hlen
  have hnodup := h.forest.nodup _ e rfl
  have hwalk f x : (walkAncestors f quotaTreeDepthCap (some e) s).quotaEntities.get? x = if x ∈ line
      then (s.quotaEntities.get? x).map (billed f) else s.quotaEntities.get? x := by
    rw [← hchain]
    exact walkAncestors_get? f quotaTreeDepthCap (some e) s hnodup x
  refine ⟨hchain, hchain ▸ hnodup, fun _ _ x => hwalk _ x, fun _ _ x => hwalk _ x, fun b => ?_⟩
  unfold Authz.covers
  cases hscope : b.scope with
  | none => simp
  | some scope =>
    rw [coversFuel_iff, hl.entityChainFuel hlen]
    exact ⟨fun hmem x hx => some.inj hx ▸ hmem, fun hall => hall scope rfl⟩

theorem addressed (h : WellNamed s) {e : QuotaEntityId} {q : QuotaEntity}
    (hq : s.quotaEntities.get? e = some q) : Addressed s e := by
  obtain ⟨line, hline, hlen⟩ := h.lines hq
  obtain ⟨hne, hnames⟩ := hline.pathNames hlen
  have hvalid : ∀ name ∈ (s.pathNamesFuel quotaTreeDepthCap (some e)).reverse,
      Segment.validate name = .ok () := by
    intro name hname
    obtain ⟨x, r, hr, rfl⟩ := hnames name (mem_reverse.mp hname)
    exact h.names hr
  obtain ⟨path, hparse, hsegments⟩ := QuotaEntityPath.fromStr_joinPath (by simpa using hne) hvalid
  have htext := QuotaEntityPath.text_of_fromStr hparse
  refine ⟨path, ?_, htext ▸ hparse, path.valid, ?_⟩
  · simp [quotaEntityPath, hq, htext]
  · have hdown := resolveFuel_line h hline hlen
      (quotaTreeDepthCap - line.length) []
    rw [Nat.sub_add_cancel hlen, append_nil] at hdown
    rw [resolveQuotaEntityPath, hsegments, hdown]
    cases quotaTreeDepthCap - line.length <;> rfl

end WellNamed

/-! ## Runs -/

namespace StateMachine

variable {s : StateMachine}

/-- Planting an entity with a fresh name under an entity that is not too deep. -/
theorem wellNamed_plant (h : WellNamed s) {e : QuotaEntityId} {q : QuotaEntity}
    (hnew : s.quotaEntities.get? e = none) (hname : Segment.validate q.name = .ok ())
    (hparent : ∀ p, q.parent = some p → s.quotaEntities.contains p = true ∧
      (s.entityChain p).length < quotaTreeDepthCap)
    (hfree : ∀ x r, s.quotaEntities.get? x = some r → r.parent = q.parent → r.name ≠ q.name)
    {s' : StateMachine} (hs' : s'.quotaEntities = s.quotaEntities.insert e q) :
    KeepsTree s s' ∧ WellNamed s' := by
  have hget x : s'.quotaEntities.get? x = if e = x then some q else s.quotaEntities.get? x := by
    rw [hs', get?_insert]
  have hold {x r} (hr : s'.quotaEntities.get? x = some r) : e = x ∧ r = q ∨ s.quotaEntities.get? x =
      some r := by
    rw [hget] at hr
    split_ifs at hr with hx
    · exact .inl ⟨hx, (some.inj hr).symm⟩
    · exact .inr hr
  have hkeep : KeepsTree s s' := by
    intro x r hr
    exact ⟨r, by rw [hget, if_neg (ne_of_get? hnew hr), hr], rfl, rfl⟩
  have hq : s'.quotaEntities.get? e = some q := by rw [hget, if_pos rfl]
  refine ⟨hkeep, fun {x r} hr => ?_, fun {x x' r r'} hr hr' hpar hnm => ?_, fun {x r} hr => ?_⟩
  · rcases hold hr with ⟨rfl, rfl⟩ | hr
    · cases hp : r.parent with
      | none => exact ⟨[e], .root hq hp, by simp [quotaTreeDepthCap]⟩
      | some p =>
        obtain ⟨hthere, hdeep⟩ := hparent p hp
        obtain ⟨rp, hrp⟩ := contains_iff.mp hthere
        obtain ⟨line, hline, hlen⟩ := h.lines hrp
        rw [entityChain, hline.entityChainFuel hlen] at hdeep
        exact ⟨e :: line, .under hq hp (hkeep.lineage hline), hdeep⟩
    · obtain ⟨line, hline, hlen⟩ := h.lines hr
      exact ⟨line, hkeep.lineage hline, hlen⟩
  · rcases hold hr with ⟨rfl, rfl⟩ | hr <;> rcases hold hr' with ⟨rfl, rfl⟩ | hr'
    · rfl
    · exact absurd hnm.symm (hfree x' r' hr' hpar.symm)
    · exact absurd hnm (hfree x r hr hpar)
    · exact h.siblings hr hr' hpar hnm
  · rcases hold hr with ⟨rfl, rfl⟩ | hr
    · exact hname
    · exact h.names hr

theorem configureQuotaEntity_wellNamed (h : WellNamed s) (c : ConfigureQuotaEntity) :
    KeepsTree s (s.configureQuotaEntity c).1 ∧ WellNamed (s.configureQuotaEntity c).1 := by
  have hself : KeepsTree s s := fun _ q hq => ⟨q, hq, rfl, rfl⟩
  unfold configureQuotaEntity
  cases hq : s.quotaEntities.get? c.entity with
  | some existing =>
    simp only
    unfold reconfigureQuotaEntity
    split
    · exact ⟨hself, h⟩
    · split_ifs
      · exact ⟨hself, h⟩
      · have hkeep : ∀ r : QuotaEntity, r.name = existing.name → r.parent = existing.parent →
            KeepsTree s { s with quotaEntities := s.quotaEntities.insert c.entity r } := by
          intro r hname hparent x q hx
          by_cases he : c.entity = x
          · subst he
            cases hq.symm.trans hx
            exact ⟨r, get?_insert_self _ _ _, hname, hparent⟩
          · exact ⟨q, by rw [get?_insert_of_ne _ _ he, hx], rfl, rfl⟩
        refine ⟨hkeep _ rfl rfl, h.kept (hkeep _ rfl rfl) fun {x r} hr => ?_⟩
        by_cases he : c.entity = x
        · exact ⟨existing, he ▸ hq⟩
        · rw [get?_insert_of_ne _ _ he] at hr
          exact ⟨r, hr⟩
  | none =>
    simp only
    unfold createQuotaEntity
    split
    · exact ⟨hself, h⟩
    · rename_i hname
      split
      · exact ⟨hself, h⟩
      · rename_i hparent
        split
        · exact ⟨hself, h⟩
        · split
          · exact ⟨hself, h⟩
          · rename_i hfree
            refine wellNamed_plant h hq hname (fun p hp => ?_) (fun x r hr hpar hnm => ?_) rfl
            · have hp' : c.parent = some p := hp
              simp only [checkParent, hp'] at hparent
              split_ifs at hparent with hthere hdepth
              exact ⟨by simpa using hthere, Nat.lt_of_not_le hdepth⟩
            · have hno := find?_eq_none.mp hfree (x, r) (mem_entries.mpr hr)
              simp only [Bool.and_eq_true, decide_eq_true_eq, not_and] at hno
              exact hno hpar hnm

theorem apply_wellNamed (h : WellNamed s) (c : Command) :
    KeepsTree s (s.apply c).1 ∧ WellNamed (s.apply c).1 := by
  have hbump : ∀ {s' : StateMachine}, KeepsTree s s' ∧ WellNamed s' →
      KeepsTree s { s' with version := s'.version + 1 } ∧
        WellNamed { s' with version := s'.version + 1 } := by
    intro s' ⟨hk, hw⟩
    have hsame : KeepsTree s' { s' with version := s'.version + 1 } :=
      fun _ q hq => ⟨q, hq, rfl, rfl⟩
    exact ⟨hk, hw.kept hsame fun {e q} hq => ⟨q, hq⟩⟩
  by_cases hc : ∃ x, c = .configureQuotaEntity x
  · obtain ⟨x, rfl⟩ := hc
    exact hbump (configureQuotaEntity_wellNamed h x)
  · have htend := ((s.dispatch_step c).tended fun x hx => hc ⟨x, hx⟩).entities
    have hkeep := KeepsTree.of_billed htend
    refine hbump ⟨hkeep, h.kept hkeep fun {e q'} hq' => ?_⟩
    obtain ⟨q, hq, -⟩ := htend.back hq'
    exact ⟨q, hq⟩

end StateMachine

theorem Reachable.wellNamed (h : Reachable s) : WellNamed s := by
  refine Reach.invariant WellNamed ⟨fun {e q} hq => ?_, fun {e e' q q'} hq => ?_,
    fun {e q} hq => ?_⟩ (fun s c hs _ => (apply_wellNamed hs c).2) h
  · cases hq
  · cases hq
  · cases hq

/-- A run from one state to another. -/
def Onward (s : StateMachine) : StateMachine → Prop :=
  Reach s (fun s c => (s.apply c).1) fun _ _ => True

/-- The quota tree of a reachable state. -/
theorem quota_tree {s : StateMachine} (h : Reachable s) :
    (∀ e q, s.quotaEntities.get? e = some q → Addressed s e ∧
      ∃ line, Lineage s e line ∧ line.length ≤ quotaTreeDepthCap ∧ FullWalks s e line) ∧
      (∀ e e' q q', s.quotaEntities.get? e = some q → s.quotaEntities.get? e' = some q' →
        q.parent = q'.parent → q.name = q'.name → e = e') ∧
      (∀ e e' q q', s.quotaEntities.get? e = some q → s.quotaEntities.get? e' = some q' →
        s.quotaEntityPath e = s.quotaEntityPath e' → e = e') ∧
      ∀ s', Onward s s' → KeepsTree s s' := by
  have hw := h.wellNamed
  refine ⟨fun e q hq => ⟨hw.addressed hq, ?_⟩, fun _ _ _ _ hq hq' => hw.siblings hq hq',
    fun e e' q q' hq hq' hpath => ?_, fun s' hrun => ?_⟩
  · obtain ⟨line, hline, hlen⟩ := hw.lines hq
    exact ⟨line, hline, hlen, hw.fullWalks hline hlen⟩
  · obtain ⟨path, htext, hparse, -, hdown⟩ := hw.addressed hq
    obtain ⟨path', htext', hparse', -, hdown'⟩ := hw.addressed hq'
    have hsame : path.text = path'.text := some.inj (htext.symm.trans (hpath.trans htext'))
    rw [hsame, hparse'] at hparse
    cases hparse
    exact some.inj (hdown.symm.trans hdown')
  · have hboth := Reach.invariant (fun s' => KeepsTree s s' ∧ WellNamed s')
      ⟨fun _ q hq => ⟨q, hq, rfl, rfl⟩, hw⟩
      (fun t c ht _ => ⟨ht.1.trans (apply_wellNamed ht.2 c).1, (apply_wellNamed ht.2 c).2⟩) hrun
    exact hboth.1

/-- Entity 2, `team`, under entity 1, `root`. -/
def Sample.nested : List Command :=
  [configure, .configureQuotaEntity ⟨2, some 1, "team", 0, none, none, epoch⟩]

open Sample

theorem quota_tree_nested :
    (run nested).quotaEntityPath 2 = some "root/team" ∧ (run nested).entityChain 2 = [2, 1] ∧
      Addressed (run nested) 2 ∧ FullWalks (run nested) 2 [2, 1] := by
  have hreach : Reachable (run nested) := reachable_run _
  have hchain : (run nested).entityChain 2 = [2, 1] := by decide +kernel
  have hthere : ((run nested).quotaEntities.get? 2).isSome = true := by
    decide +kernel
  obtain ⟨q, hq⟩ := isSome_iff_exists.mp hthere
  obtain ⟨haddr, line, -, -, hwalks⟩ := (quota_tree hreach).1 2 q hq
  have hline : line = [2, 1] := hwalks.chain.symm.trans hchain
  exact ⟨by decide +kernel, hchain, haddr, hline ▸ hwalks⟩

end Coppice.State
