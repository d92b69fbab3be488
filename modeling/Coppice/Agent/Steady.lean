/-
  Coppice.Agent.Steady

  What every handler of the agent keeps.  The journal backs the state in memory,
  both cover the deeds, and the deeds are proper.  `Live` holds between the steps of
  a handler, and at its crash points up to the part of a frame an append has
  written; what a crash leaves is `Recoverable`.
-/

import Coppice.Agent.Commands
import Coppice.Agent.Durable

namespace Coppice.Agent

open Lib Coppice.Core Storage Protocol OrdMap List Option JournalState

/-! ## Deeds -/

/-- No start comes after a tombstone or a start of the same allocation. -/
def Orderly (deeds : List Deed) : Prop :=
  deeds.Pairwise fun earlier later => ∀ spec, later = .start spec →
    earlier ≠ .tombstoned spec.allocation ∧
      ∀ spec', earlier = .start spec' → spec'.allocation ≠ spec.allocation

/-- The deed hands the allocation to the executor. -/
def Deed.starts (alloc : AllocationId) : Deed → Bool
  | .start spec => spec.allocation = alloc
  | _ => false

/-- The tokens of admitted commands never fall. -/
def Fenced (deeds : List Deed) : Prop :=
  deeds.Pairwise fun earlier later => ∀ t q f t' q' f', earlier = .admitted t q f →
    later = .admitted t' q' f' → t.leaderTerm ≤ t'.leaderTerm ∧ t.nodeEpoch ≤ t'.nodeEpoch

/-- The fresh commands since the last reset. -/
def freshSince (deeds : List Deed) : List (FencingToken × UInt64) :=
  deeds.foldl (fun fresh d =>
    match d with
    | .admitted token seq true => fresh ++ [(token, seq)]
    | .reset => []
    | _ => fresh) []

/-- A command that was fresh is not fresh again before a reset. -/
def Unrepeated (deeds : List Deed) : Prop :=
  ∀ before t q, before ++ [.admitted t q true] <+: deeds → (t, q) ∉ freshSince before

/-- What holds of the deeds of a node over all of its history. -/
structure Proper (deeds : List Deed) : Prop where
  orderly : Orderly deeds
  fenced : Fenced deeds
  unrepeated : Unrepeated deeds

/-- A deed that may follow any other. -/
def Deed.Plain : Deed → Prop
  | .tombstoned _ | .stop _ | .reap _ | .reset => True
  | .start _ | .admitted _ _ _ => False

/-- A deed the journal need not know of. -/
def Deed.Light : Deed → Prop
  | .stop _ | .reap _ | .reset => True
  | .tombstoned _ | .start _ | .admitted _ _ _ => False

theorem Deed.Light.plain {d : Deed} (h : d.Light) : d.Plain := by
  cases d <;> trivial

/-- The watermark is at or above the token in both components. -/
def Watermark.Covers (wm : Watermark) (token : FencingToken) : Prop :=
  token.leaderTerm ≤ wm.leaderTerm ∧ token.nodeEpoch ≤ wm.nodeEpoch

/-- The journal has an intent for each start, a tombstone for each tombstoned allocation and
    a watermark above each admitted token. -/
structure Covers (deeds : List Deed) (s : JournalState) : Prop where
  starts : ∀ spec, Deed.start spec ∈ deeds → ∃ rec, s.intents.get? spec.allocation = some rec ∧
    rec.attempt = spec.attempt ∧ rec.job = spec.job
  tombstones : ∀ alloc, Deed.tombstoned alloc ∈ deeds → ∃ r, s.tombstones.get? alloc = some r
  admitted : ∀ t q f, Deed.admitted t q f ∈ deeds → s.watermark.Covers t

section Deeds

variable {deeds more ds : List Deed} {s t : JournalState} {d : Deed} {spec : StartSpec}
  {token : FencingToken} {e : Entry}

/-! ### One more deed -/

theorem proper_nil : Proper [] :=
  ⟨.nil, .nil, fun before t q h => absurd (prefix_nil.mp h) (by simp)⟩

theorem freshSince_snoc (deeds : List Deed) (d : Deed) :
    freshSince (deeds ++ [d]) = match d with
      | .admitted token seq true => freshSince deeds ++ [(token, seq)]
      | .reset => []
      | _ => freshSince deeds := by
  rw [freshSince, foldl_append]
  rfl

/-- A pairwise relation that holds of the last against all others. -/
theorem pairwise_snoc {R : Deed → Deed → Prop} (h : deeds.Pairwise R) (hd : ∀ e ∈ deeds, R e d) :
    (deeds ++ [d]).Pairwise R := by
  refine pairwise_append.mpr ⟨h, pairwise_singleton _ _, fun e he d' hd' => ?_⟩
  rw [mem_singleton.mp hd']
  exact hd e he

theorem Deed.starts_iff {alloc : AllocationId} :
    d.starts alloc = true ↔ ∃ spec, d = .start spec ∧ spec.allocation = alloc := by
  cases d <;> simp [Deed.starts]

/-- Orderly deeds have at most one start of an allocation. -/
theorem Orderly.countP_starts_le (h : Orderly deeds) (alloc : AllocationId) :
    deeds.countP (·.starts alloc) ≤ 1 := by
  induction deeds with
  | nil => simp
  | cons d rest ih =>
    obtain ⟨hd, hrest⟩ := pairwise_cons.mp h
    rw [countP_cons]
    split
    · next hstart =>
        obtain ⟨spec, rfl, hspec⟩ := Deed.starts_iff.mp hstart
        have hnone : rest.countP (·.starts alloc) = 0 := by
          refine countP_eq_zero.mpr fun e he hstart' => ?_
          obtain ⟨spec', rfl, hspec'⟩ := Deed.starts_iff.mp hstart'
          exact (hd _ he spec' rfl).2 spec rfl (hspec.trans hspec'.symm)
        omega
    · exact ih hrest

theorem Unrepeated.snoc (h : Unrepeated deeds)
    (hd : ∀ t q, d = .admitted t q true → (t, q) ∉ freshSince deeds) :
    Unrepeated (deeds ++ [d]) := by
  intro before t q hpre
  rcases prefix_concat_iff.mp hpre with heq | hpre
  · obtain ⟨rfl, hlast⟩ := append_inj' heq rfl
    exact hd t q (singleton_inj.mp hlast).symm
  · exact h before t q hpre

theorem Proper.plain (h : Proper deeds) (hd : d.Plain) : Proper (deeds ++ [d]) where
  orderly := pairwise_snoc h.orderly fun e _ spec hspec => by subst hspec; exact hd.elim
  fenced := pairwise_snoc h.fenced fun e _ t q f t' q' f' _ hd' => by subst hd'; exact hd.elim
  unrepeated := h.unrepeated.snoc fun t q hd' => by subst hd'; exact hd.elim

/-- Plain deeds may always follow. -/
theorem Proper.append (h : Proper deeds) (hmore : ∀ d ∈ more, d.Plain) :
    Proper (deeds ++ more) := by
  induction more generalizing deeds with
  | nil => simpa using h
  | cons d rest ih =>
    have hnext := ih (h.plain (hmore d (by simp))) fun e he => hmore e (mem_cons_of_mem _ he)
    rwa [append_assoc, singleton_append] at hnext

theorem Proper.start (h : Proper deeds) (htomb : .tombstoned spec.allocation ∉ deeds)
    (hstart : ∀ spec', .start spec' ∈ deeds → spec'.allocation ≠ spec.allocation) :
    Proper (deeds ++ [.start spec]) where
  orderly := by
    refine pairwise_snoc h.orderly fun e he spec' hspec' => ?_
    cases hspec'
    exact ⟨fun heq => htomb (heq ▸ he), fun spec'' heq => hstart spec'' (heq ▸ he)⟩
  fenced := pairwise_snoc h.fenced fun e _ t q f t' q' f' _ hd => by cases hd
  unrepeated := h.unrepeated.snoc fun t q hd => by cases hd

theorem Proper.admitted (h : Proper deeds) {seq : UInt64} {fresh : Bool}
    (hfenced : ∀ t q f, .admitted t q f ∈ deeds →
      t.leaderTerm ≤ token.leaderTerm ∧ t.nodeEpoch ≤ token.nodeEpoch)
    (hfresh : fresh = true → (token, seq) ∉ freshSince deeds) :
    Proper (deeds ++ [.admitted token seq fresh]) where
  orderly := pairwise_snoc h.orderly fun e _ spec hspec => by cases hspec
  fenced := by
    refine pairwise_snoc h.fenced fun e he t q f t' q' f' he' hd => ?_
    cases hd
    exact hfenced t q f (he' ▸ he)
  unrepeated := by
    refine h.unrepeated.snoc fun t q hd => ?_
    cases hd
    exact hfresh rfl

theorem freshSince_append_subset (hmore : ∀ d ∈ more, d.Plain) :
    freshSince (deeds ++ more) ⊆ freshSince deeds := by
  induction more generalizing deeds with
  | nil => simp
  | cons d rest ih =>
    have hrest : freshSince ((deeds ++ [d]) ++ rest) ⊆ freshSince (deeds ++ [d]) :=
      ih fun e he => hmore e (mem_cons_of_mem _ he)
    rw [append_assoc, singleton_append] at hrest
    refine List.Subset.trans hrest ?_
    have hd := hmore d (by simp)
    rw [freshSince_snoc]
    cases d with
    | admitted t q f => exact hd.elim
    | reset => exact nil_subset _
    | _ => exact List.Subset.refl _

/-- Without a reset, a fresh command stays on the list. -/
theorem mem_freshSince_append {p : FencingToken × UInt64} (h : p ∈ freshSince ds)
    (hmore : Deed.reset ∉ more) : p ∈ freshSince (ds ++ more) := by
  induction more using List.reverseRecOn with
  | nil => simpa using h
  | append_singleton rest d ih =>
    obtain ⟨hrest, hd⟩ := not_or.mp (mt mem_append.mpr hmore)
    rw [← append_assoc, freshSince_snoc]
    split
    · exact mem_append_left _ (ih hrest)
    · exact absurd mem_cons_self hd
    · exact ih hrest

/-- Between two fresh admissions of one command the session was reset. -/
theorem Unrepeated.reset_between {before between after : List Deed} {t : FencingToken} {q : UInt64}
    (h : Unrepeated ds)
    (hds : ds = before ++ .admitted t q true :: (between ++ .admitted t q true :: after)) :
    Deed.reset ∈ between := by
  by_contra hno
  have hpre : (before ++ [.admitted t q true] ++ between) ++ [.admitted t q true] <+: ds :=
    ⟨after, by simp [hds]⟩
  refine h _ t q hpre (mem_freshSince_append ?_ hno)
  rw [freshSince_snoc]
  exact mem_append_right _ mem_cons_self

/-! ### What the journal covers -/

section

variable (h : Covers deeds s)

include h

theorem Covers.both (hmore : Covers more s) : Covers (deeds ++ more) s where
  starts spec hd := (mem_append.mp hd).elim (h.starts spec) (hmore.starts spec)
  tombstones a hd := (mem_append.mp hd).elim (h.tombstones a) (hmore.tombstones a)
  admitted t q f hd := (mem_append.mp hd).elim (h.admitted t q f) (hmore.admitted t q f)

/-- Light deeds need no cover. -/
theorem Covers.append (hmore : ∀ d ∈ more, d.Light) : Covers (deeds ++ more) s :=
  h.both ⟨fun _ hd => (hmore _ hd).elim, fun _ hd => (hmore _ hd).elim,
    fun _ _ _ hd => (hmore _ hd).elim⟩

theorem Covers.start {rec : IntentRec} (hrec : s.intents.get? spec.allocation = some rec)
    (hattempt : rec.attempt = spec.attempt) (hjob : rec.job = spec.job) :
    Covers (deeds ++ [.start spec]) s := by
  refine h.both ⟨fun spec' hd => ?_, by simp, by simp⟩
  cases mem_singleton.mp hd
  exact ⟨rec, hrec, hattempt, hjob⟩

theorem Covers.admitted_snoc (htoken : s.watermark.Covers token) (seq : UInt64) (fresh : Bool) :
    Covers (deeds ++ [.admitted token seq fresh]) s := by
  refine h.both ⟨by simp, by simp, fun t q f hd => ?_⟩
  cases mem_singleton.mp hd
  exact htoken

end

/-- Both components at least as high, and not both the same. -/
structure Watermark.Below (wm raised : Watermark) : Prop where
  leaderTerm : wm.leaderTerm ≤ raised.leaderTerm
  nodeEpoch : wm.nodeEpoch ≤ raised.nodeEpoch
  ne : wm ≠ raised

/-- The entry overwrites no intent, and a watermark only by a higher one. -/
def Entry.Novel (e : Entry) (s : JournalState) : Prop :=
  match e with
  | .intent rec => s.intents.get? rec.allocation = none
  | .fencing raised => s.watermark.Below raised
  | _ => True

theorem max_eq_of_le {a b : UInt64} (h : a ≤ b) : max a b = b := if_pos h

theorem note_fencing (h : s.watermark.Below raised) :
    s.note (.fencing raised) = { s with watermark := raised } := by
  simp [note, max_eq_of_le h.leaderTerm, max_eq_of_le h.nodeEpoch]

theorem get?_insert_ne_none {V : Type} {m : OrdMap AllocationId V} {a b : AllocationId} {v x : V}
    (h : m.get? a = some v) : ∃ u, (m.insert b x).get? a = some u := by
  rw [get?_insert]
  split
  · exact ⟨_, rfl⟩
  · exact ⟨_, h⟩

/-- Noting a novel entry keeps the cover. -/
theorem Covers.note (h : Covers deeds s) (he : e.Novel s) : Covers deeds (s.note e) := by
  cases e with
  | fencing raised =>
    rw [note_fencing he]
    refine ⟨h.starts, h.tombstones, fun t q f ht => ?_⟩
    obtain ⟨hterm, hepoch⟩ := h.admitted t q f ht
    exact ⟨UInt64.le_trans hterm he.leaderTerm, UInt64.le_trans hepoch he.nodeEpoch⟩
  | intent rec =>
    refine ⟨fun spec hspec => ?_, h.tombstones, h.admitted⟩
    obtain ⟨old, hold, hids⟩ := h.starts spec hspec
    have hnone : s.intents.get? rec.allocation = none := he
    exact ⟨old, get?_insert_fresh hnone hold, hids⟩
  | tombstone a r =>
    refine ⟨h.starts, fun alloc ha => ?_, h.admitted⟩
    obtain ⟨r', hr'⟩ := h.tombstones alloc ha
    exact get?_insert_ne_none hr'
  | _ => exact ⟨h.starts, h.tombstones, h.admitted⟩

/-- A noted entry covers its own deeds. -/
theorem Covers.note_deeds (h : Covers deeds s) (he : e.Novel s) :
    Covers (deeds ++ e.deeds) (s.note e) := by
  have hnote := h.note he
  cases e with
  | tombstone a r =>
    refine ⟨fun spec hspec => ?_, fun alloc ha => ?_, fun t q f ht => ?_⟩
    · rcases mem_append.mp hspec with hd | hd
      · exact hnote.starts spec hd
      · exact absurd (mem_singleton.mp hd) (by simp)
    · rcases mem_append.mp ha with hd | hd
      · exact hnote.tombstones alloc hd
      · cases mem_singleton.mp hd
        exact ⟨r, get?_insert_self _ _ _⟩
    · rcases mem_append.mp ht with hd | hd
      · exact hnote.admitted t q f hd
      · exact absurd (mem_singleton.mp hd) (by simp)
  | _ =>
    show Covers (deeds ++ []) _
    rw [append_nil]
    exact hnote

theorem Entry.plain_deeds (e : Entry) : ∀ d ∈ e.deeds, d.Plain := by
  cases e <;> simp [Entry.deeds, Deed.Plain]

/-! ## Disk and memory -/

/-- The disk's state stands for the one in memory, up to how spans are stored. -/
structure Backs (t s : JournalState) : Prop where
  intents : ∀ a, (t.intents.get? a).map (fun rec => (rec.attempt, rec.job)) =
    (s.intents.get? a).map fun rec => (rec.attempt, rec.job)
  tombstones : ∀ a, t.tombstones.get? a = s.tombstones.get? a
  watermark : t.watermark = s.watermark

theorem Backs.refl (s : JournalState) : Backs s s := ⟨fun _ => rfl, fun _ => rfl, rfl⟩

theorem Backs.covers (h : Backs t s) (hc : Covers deeds s) : Covers deeds t where
  starts spec hspec := by
    obtain ⟨rec, hrec, hattempt, hjob⟩ := hc.starts spec hspec
    have hmap := h.intents spec.allocation
    rw [hrec] at hmap
    obtain ⟨rec', hrec', hids⟩ := map_eq_some_iff.mp hmap
    obtain ⟨ha, hj⟩ := Prod.mk.inj hids
    exact ⟨rec', hrec', ha.trans hattempt, hj.trans hjob⟩
  tombstones alloc ha := by
    rw [h.tombstones]
    exact hc.tombstones alloc ha
  admitted u q f hu := by
    rw [h.watermark]
    exact hc.admitted u q f hu

/-- Memory and disk move together. -/
theorem Backs.note (h : Backs t s) (e : Entry) : Backs (t.note e.settled) (s.note e) := by
  cases e with
  | fencing raised =>
    refine ⟨h.intents, h.tombstones, ?_⟩
    show Watermark.mk _ _ = Watermark.mk _ _
    rw [h.watermark]
  | intent rec =>
    refine ⟨fun a => ?_, h.tombstones, h.watermark⟩
    show Option.map _ ((t.intents.insert rec.allocation _).get? a) =
      Option.map _ ((s.intents.insert rec.allocation rec).get? a)
    rw [get?_insert, get?_insert]
    split
    · rfl
    · exact h.intents a
  | tombstone a r =>
    refine ⟨h.intents, fun b => ?_, h.watermark⟩
    show (t.tombstones.insert a r).get? b = (s.tombstones.insert a r).get? b
    rw [get?_insert, get?_insert, h.tombstones b]
  | _ => exact ⟨h.intents, h.tombstones, h.watermark⟩

theorem Backs.novel (h : Backs t s) (he : e.Novel s) : e.settled.Novel t := by
  cases e with
  | fencing raised =>
    show t.watermark.Below raised
    rw [h.watermark]
    exact he
  | intent rec =>
    have hnone : s.intents.get? rec.allocation = none := he
    have hmap := h.intents rec.allocation
    rw [hnone] at hmap
    exact map_eq_none_iff.mp hmap
  | _ => trivial

end Deeds

/-! ## The invariant of a process -/

/-- The exit codes of the source's type. -/
def ExitInfo.InRange (info : ExitInfo) : Prop := -2 ^ 31 ≤ info.code ∧ info.code < 2 ^ 31

/-- Held exits and launch bounds are in range. -/
structure Session.InFlightRanged (s : Session) : Prop where
  deferred : ∀ a info, s.deferredExits.get? a = some info → info.InRange
  bounds : ∀ a b, s.launchBounds.get? a = some b →
    ∀ r, b.planReason = some r → Entry.InRange.ReasonInRange r

/-- What the session may journal is in range. -/
structure Session.Ranged (s : Session) : Prop where
  intents : ∀ {a rec}, s.state.intents.get? a = some rec →
    rec.allocation = a ∧ (Entry.intent rec).InRange
  tombstones : ∀ {a r}, s.state.tombstones.get? a = some r → (Entry.tombstone a r).InRange
  notices : ∀ {a r}, s.state.noticeIntents.get? a = some r → (Entry.noticeIntent a r).InRange
  inFlight : s.InFlightRanged

/-- Whatever a crash leaves here, what the next open finds covers the deeds. -/
structure Recoverable (w : JournalWire) (a : Process) : Prop where
  filed : a.fs.Holds journalPath (Filed w fun es => Covers a.deeds (foldEntries es))
  proper : Proper a.deeds

/-- A fresh command since the last reset, under the watermark's own token, is not beyond the
    last sequence number. -/
def Recent (deeds : List Deed) (s : Session) : Prop :=
  ∀ t q, (t, q) ∈ freshSince deeds → s.state.watermark = ⟨t.leaderTerm, t.nodeEpoch⟩ →
    ∃ last, s.lastSeq = some last ∧ q ≤ last

/-- The journal holds the entries for good; under `m` with a part of a frame behind them, of an
    entry that would be novel. -/
def Laid (w : JournalWire) (d : DataDir) (file : Nat) (es : List Entry) : Bool → Prop
  | false => Logged w d file es
  | true => ∃ d₀ e k, Logged w d₀ file es ∧ e.InRange ∧ e.settled.Novel (foldEntries es) ∧
      d = tear w file e k d₀

/-- Disk and memory agree on the deeds; `m` tells whether an append may have left a part of its
    frame. -/
structure Live (m : Bool) (w : JournalWire) (a : Process) : Prop where
  logged : ∃ es, Laid w a.fs a.session.journal es m ∧ Backs (foldEntries es) a.session.state
  ranged : a.session.Ranged
  covers : Covers a.deeds a.session.state
  proper : Proper a.deeds
  recent : Recent a.deeds a.session
  idle : a.session.pendingStarts = []

section Primitives

variable {m quiet : Bool} {w : JournalWire} {a : Process} {α β : Type}
  {E : IoError → Process → Prop} {C : Process → Prop}

theorem Live.recoverable (hw : w.Lawful) (h : Live m w a) : Recoverable w a := by
  obtain ⟨es, hlaid, hbacks⟩ := h.logged
  have hcover := hbacks.covers h.covers
  refine ⟨?_, h.proper⟩
  cases m with
  | false =>
    refine (Logged.holds hw hlaid).mono fun c hc => hc.mono ?_
    rintro l - rfl
    exact hcover
  | true =>
    obtain ⟨d₀, e, k, hlogged, hr, hnovel, hd⟩ := hlaid
    rw [hd]
    refine (hlogged.tear_holds hw hr k).mono fun c hc => hc.mono ?_
    rintro l - (rfl | rfl)
    · exact hcover
    · rw [foldEntries_append]
      exact hcover.note hnovel

/-- The part of a session that `Live` speaks of is unchanged, but for the last sequence number. -/
structure Session.Akin (s s' : Session) : Prop where
  intents : s'.state.intents = s.state.intents
  tombstones : s'.state.tombstones = s.state.tombstones
  notices : s'.state.noticeIntents = s.state.noticeIntents
  journal : s'.journal = s.journal
  starts : s'.pendingStarts = s.pendingStarts
  watermark : s'.state.watermark = s.state.watermark
  inFlight : s.InFlightRanged → s'.InFlightRanged

/-- The part of a session that `Live` speaks of is unchanged. -/
structure Session.Agrees (s s' : Session) : Prop extends s.Akin s' where
  lastSeq : s'.lastSeq = s.lastSeq

variable {s : Session}

theorem Session.agrees_of {s' : Session} (hstate : s'.state = s.state)
    (hjournal : s'.journal = s.journal) (hstarts : s'.pendingStarts = s.pendingStarts)
    (hseq : s'.lastSeq = s.lastSeq) (hin : s.InFlightRanged → s'.InFlightRanged) : s.Agrees s' where
  intents := by rw [hstate]
  tombstones := by rw [hstate]
  notices := by rw [hstate]
  journal := hjournal
  starts := hstarts
  watermark := by rw [hstate]
  inFlight := hin
  lastSeq := hseq

theorem Live.akin (h : Live m w a) (hs : a.session.Akin s) (hrecent : Recent a.deeds s) :
    Live m w { a with session := s } := by
  obtain ⟨es, hlogged, hbacks⟩ := h.logged
  refine ⟨⟨es, ?_, ?_⟩, ⟨?_, ?_, ?_, hs.inFlight h.ranged.inFlight⟩, ?_, h.proper, hrecent,
    hs.starts.trans h.idle⟩
  · rw [hs.journal]
    exact hlogged
  · exact ⟨fun b => by rw [hbacks.intents b, hs.intents],
      fun b => by rw [hbacks.tombstones b, hs.tombstones],
      hbacks.watermark.trans hs.watermark.symm⟩
  · intro b rec hrec
    rw [hs.intents] at hrec
    exact h.ranged.intents hrec
  · intro b r hr
    rw [hs.tombstones] at hr
    exact h.ranged.tombstones hr
  · intro b r hr
    rw [hs.notices] at hr
    exact h.ranged.notices hr
  · exact ⟨fun spec hspec => by rw [hs.intents]; exact h.covers.starts spec hspec,
      fun b hb => by rw [hs.tombstones]; exact h.covers.tombstones b hb,
      fun t q f ht => by rw [hs.watermark]; exact h.covers.admitted t q f ht⟩

theorem Live.agrees (h : Live m w a) (hs : a.session.Agrees s) :
    Live m w { a with session := s } := by
  refine h.akin hs.toAkin fun t q ht hwm => ?_
  rw [hs.watermark] at hwm
  rw [hs.lastSeq]
  exact h.recent t q ht hwm

@[simp] theorem wp_session {f : Session → Act α} {Q : α → Process → Prop} :
    Eff.wp quiet E C (Act.session >>= f) Q a ↔ Eff.wp quiet E C (f a.session) Q a := by
  simp [Act.session]

@[simp] theorem wp_update {f : Session → Session} {Q : Unit → Process → Prop} :
    Eff.wp quiet E C (Act.update f) Q a ↔ Q () { a with session := f a.session } := by
  simp [Act.update]

variable {t : FencingToken} {q : UInt64}

theorem mem_of_mem_freshSince {deeds : List Deed} (h : (t, q) ∈ freshSince deeds) :
    Deed.admitted t q true ∈ deeds := by
  induction deeds using List.reverseRecOn with
  | nil => cases h
  | append_singleton rest d ih =>
    rw [freshSince_snoc] at h
    split at h
    · rcases mem_append.mp h with h | h
      · exact mem_append_left _ (ih h)
      · cases mem_singleton.mp h
        simp
    · cases h
    · exact mem_append_left _ (ih h)

/-- A raised watermark is beyond every token admitted so far. -/
theorem Live.beyond (h : Live m w a) (hbelow : a.session.state.watermark.Below raised)
    (ht : (t, q) ∈ freshSince a.deeds) : raised ≠ ⟨t.leaderTerm, t.nodeEpoch⟩ := by
  rintro rfl
  obtain ⟨hterm, hepoch⟩ := h.covers.admitted t q true (mem_of_mem_freshSince ht)
  refine hbelow.ne ?_
  exact Watermark.ext (UInt64.le_antisymm hbelow.leaderTerm hterm)
    (UInt64.le_antisymm hbelow.nodeEpoch hepoch)

variable {e : Entry}

/-- Journaling appends. -/
theorem journalled_trace_ne (w : JournalWire) (e : Entry) (a : Process) :
    (Agent.journalled w e a).trace ≠ [] := by
  simp [Agent.journalled, Act.session, Act.onFs, Eff.within, appendEntry, Fs.append, Fs.syncData,
    Eff.gradual, Eff.act, Eff.modify, Bind.bind, Eff.bind, Eff.get, Pure.pure, Eff.pure]

theorem Live.recent_note (h : Live m w a) (hnovel : e.Novel a.session.state) :
    Recent a.deeds { a.session with state := a.session.state.note e } := by
  intro t q ht hwm
  cases e with
  | fencing raised =>
    have hnote : (a.session.state.note (.fencing raised)).watermark = _ := hwm
    rw [note_fencing hnovel] at hnote
    exact absurd hnote (h.beyond hnovel ht)
  | _ => exact h.recent t q ht hwm

/-- Journaling: wherever it is cut short a part of the frame is there, and afterwards memory has
    the entry too. -/
theorem Live.journalled (h : Live m w a) (hr : e.InRange) (hnovel : e.Novel a.session.state) :
    Eff.wp m never (Live true w) (Agent.journalled w e)
      (fun _ b => Live m w b ∧ b.session = { a.session with state := a.session.state.note e } ∧
        b.deeds = a.deeds ++ e.deeds) a := by
  cases m with
  | true => exact fun hq => absurd (hq rfl) (journalled_trace_ne w e a)
  | false =>
  obtain ⟨es, hlogged, hbacks⟩ := h.logged
  rw [Agent.journalled, wp_session, Eff.wp_bind, Act.onFs, Eff.wp_within]
  refine (appendEntry_spec hlogged hr).mono (fun _ _ hx => hx) (fun d hd => ?_) fun _ d hd => ?_
  · obtain ⟨k, rfl⟩ := hd
    exact { h with logged := ⟨es, ⟨a.fs, e, k, hlogged, hr, hbacks.novel hnovel, rfl⟩, hbacks⟩ }
  · rw [Eff.wp_modify]
    refine ⟨⟨⟨es ++ [e], hd, ?_⟩, ⟨?_, ?_, ?_, ⟨h.ranged.inFlight.deferred,
      h.ranged.inFlight.bounds⟩⟩, h.covers.note_deeds hnovel,
      h.proper.append e.plain_deeds, ?_, h.idle⟩, rfl, rfl⟩
    · rw [foldEntries_append]
      exact hbacks.note e
    · cases e with
      | intent rec => exact forall_insert h.ranged.intents ⟨rfl, hr⟩
      | _ => exact h.ranged.intents
    · cases e with
      | tombstone b r => exact forall_insert h.ranged.tombstones hr
      | _ => exact h.ranged.tombstones
    · cases e with
      | noticeIntent b r => exact forall_insert h.ranged.notices hr
      | _ => exact h.ranged.notices
    · intro t q ht hwm
      have hold := freshSince_append_subset e.plain_deeds ht
      exact h.recent_note hnovel t q hold hwm

/-- From `a`, the computation keeps the process live, and at each of its crash points live but for
    a part of a frame.  Behind such a part this is asked only of a run that appends nothing. -/
def Steady (m : Bool) (w : JournalWire) (x : Act α) (a : Process) : Prop :=
  Eff.wp m never (Live true w) x (fun _ b => Live m w b) a

theorem Live.pure (h : Live m w a) (v : α) : Steady m w (Pure.pure v) a := Eff.wp_pure.mpr h

theorem Steady.bind {f : α → Act β} (h : Steady m w x a)
    (hf : ∀ v b, Live m w b → Steady m w (f v) b) : Steady m w (x >>= f) a :=
  Eff.wp_bind.mpr (h.imp hf)

theorem steady_session {f : Session → Act α} (h : Steady m w (f a.session) a) :
    Steady m w (Act.session >>= f) a :=
  wp_session.mpr h

theorem Live.update (h : Live m w a) {f : Session → Session} (hf : a.session.Agrees (f a.session)) :
    Steady m w (Act.update f) a :=
  wp_update.mpr (h.agrees hf)

theorem Live.note (h : Live m w a) (e : Entry) (hr : e.InRange) (hnovel : e.Novel a.session.state) :
    Steady m w (Agent.journalled w e) a :=
  (h.journalled hr hnovel).imp fun _ _ hb => hb.1

theorem Steady.gather {R : Type} {f : AllocationId → Act (List R)} {l : List AllocationId}
    (hf : ∀ alloc b, Live m w b → Steady m w (f alloc) b) (h : Live m w a) :
    Steady m w (Act.gather f l) a := by
  induction l generalizing a with
  | nil => exact h.pure _
  | cons alloc rest ih =>
    exact (hf alloc a h).bind fun first b hb => (ih hb).bind fun others c hc => hc.pure _

end Primitives

/-! ## Ranges -/

section Ranges

variable {s : Session} {alloc : AllocationId} {intent : IntentRec} {info : ExitInfo}
  {x : Attribution} {o : AttemptOutcome}

theorem Session.Ranged.alloc_lt (h : s.Ranged) {rec : IntentRec}
    (hi : s.state.intents.get? alloc = some rec) : alloc < 2 ^ 128 := by
  obtain ⟨hkey, hrange⟩ := h.intents hi
  exact hkey ▸ hrange.1

theorem planTerms_reason {now : Timestamp} {terms : PlanTerms}
    (h : s.planTerms intent now = some terms) : Entry.InRange.ReasonInRange terms.reason := by
  simp only [Session.planTerms] at h
  split at h
  · cases h
  · cases h
    trivial
  · cases h
    trivial
  · cases h
    trivial

theorem Session.Ranged.stopReason (h : s.Ranged) (alloc : AllocationId) :
    Entry.InRange.ReasonInRange (s.stopReason alloc) := by
  unfold Session.stopReason
  cases hn : s.state.noticeIntents.get? alloc with
  | some r => exact (h.notices hn).2
  | none =>
    split <;> trivial

/-- An outcome whose values are those of the source's types. -/
structure OutcomeInRange (o : AttemptOutcome) : Prop where
  reason : ∀ r, o = .preempted r → Entry.InRange.ReasonInRange r
  code : ∀ code, o = .exited code → -2 ^ 31 ≤ code ∧ code < 2 ^ 31

theorem outcomeInRange_tombstone {r : TombstoneReason} (h : (Entry.tombstone alloc r).InRange) :
    OutcomeInRange r.outcome := by
  cases r with
  | abort => exact ⟨by simp [TombstoneReason.outcome], by simp [TombstoneReason.outcome]⟩
  | preempt reason =>
    refine ⟨?_, by simp [TombstoneReason.outcome]⟩
    rintro r ⟨⟩
    exact h.2 _ rfl

theorem outcomeInRange_preempted (h : Entry.InRange.ReasonInRange r) :
    OutcomeInRange (.preempted r) := by
  refine ⟨?_, by simp⟩
  rintro r' ⟨⟩
  exact h

theorem outcomeInRange_exited (h : info.InRange) : OutcomeInRange (.exited info.code) := by
  refine ⟨by simp, ?_⟩
  rintro code ⟨⟩
  exact h

theorem StartError.outcome_inRange (e : StartError) : OutcomeInRange e.outcome := by
  cases e <;> exact ⟨by simp [StartError.outcome], by simp [StartError.outcome]⟩

/-- What the attribution may turn an outcome into is in range. -/
structure Attribution.InRange (x : Attribution) : Prop where
  kill : ∀ o, x.kill = some o → OutcomeInRange o
  notice : ∀ r, x.notice = some r → Entry.InRange.ReasonInRange r

theorem Session.Ranged.attribution (h : s.Ranged) (alloc : AllocationId) :
    (s.state.attribution alloc).InRange where
  kill o ho := by
    obtain ⟨r, hr, rfl⟩ := map_eq_some_iff.mp ho
    exact outcomeInRange_tombstone (h.tombstones hr)
  notice r hr := (h.notices hr).2

theorem classifyExit_inRange (hinfo : info.InRange) (hx : x.InRange) :
    OutcomeInRange (classifyExit info x) := by
  have hexited := outcomeInRange_exited hinfo
  have hnotice o (ho : x.notice.map AttemptOutcome.preempted = some o) : OutcomeInRange o := by
    obtain ⟨r, hr, rfl⟩ := map_eq_some_iff.mp ho
    exact outcomeInRange_preempted (hx.notice r hr)
  unfold classifyExit
  split
  · exact ⟨by simp, by simp⟩
  · exact ⟨by simp, by simp⟩
  · cases hk : x.kill with
    | some o => exact hx.kill o hk
    | none =>
      cases hn : x.notice.map AttemptOutcome.preempted with
      | some o => exact hnotice o hn
      | none => exact hexited
  · split
    · cases hn : x.notice.map AttemptOutcome.preempted with
      | some o => exact hnotice o hn
      | none => exact hexited
    · exact hexited

/-- The evidence of a stop is in range. -/
def StopOutcome.InRange : StopOutcome → Prop
  | .stopped exit | .alreadyExited exit => exit.InRange
  | .unknown => True

theorem classifyStop_inRange {stopped : StopOutcome} (hs : stopped.InRange)
    (hkill : OutcomeInRange kill) (hx : x.InRange) {runtime : Duration}
    (h : classifyStop stopped kill x = some (o, runtime)) : OutcomeInRange o := by
  have hempty : Attribution.InRange {} := ⟨by simp, by simp⟩
  cases stopped with
  | stopped exit =>
    simp only [classifyStop] at h
    split at h
    · cases h
      exact hkill
    · cases h
      exact hkill
    · cases h
      exact classifyExit_inRange hs hempty
    · cases h
      exact classifyExit_inRange hs hempty
  | alreadyExited exit =>
    cases h
    exact classifyExit_inRange hs hx
  | unknown => cases h

/-- The exit of an allocation with an intent. -/
theorem Session.Ranged.exit (h : s.Ranged) (hi : s.state.intents.get? alloc = some intent)
    (ho : OutcomeInRange o) (runtime : Duration) :
    (Entry.exit ⟨alloc, intent.attempt, intent.job, o, runtime⟩).InRange := by
  obtain ⟨hkey, hrange⟩ := h.intents hi
  exact ⟨⟨hkey ▸ hrange.1, hrange.2⟩, ho.reason, ho.code⟩

end Ranges

end Coppice.Agent
