/-
  Coppice.State.AccrualLimit

  The accrual limits of a batch: at most one accruing job on a node, and no more
  accruing jobs than the policy allows unless there were as many before.
-/

import Coppice.State.AccrualSim
import Coppice.State.Landing

namespace Coppice.State

open Lib Coppice.Core StateMachine OrdMap List Serve

/-- No node accrues for more than one job. -/
def OneDeep (s : StateMachine) : Prop :=
  ∀ node j j', AccruesOn s node j → AccruesOn s node j' → j = j'

variable {s : StateMachine}

theorem NoNewAccrual.oneDeep (h : NoNewAccrual s s') (hs : OneDeep s) : OneDeep s' :=
  fun node j j' hj hj' => hs node j j' (h.accruesOn hj) (h.accruesOn hj')

/-- The size of an ordered set is the number of its members. -/
theorem card_eq_length {K : Type} [LinearOrder K] {m : OrdSet K} {F : Finset K}
    (h : ∀ k, m.get? k = some () ↔ k ∈ F) : F.card = m.entries.length := by
  have hF : F = m.keys.toFinset := by
    ext k
    rw [← h, mem_toFinset, OrdMap.mem_keys]
    exact ⟨fun hk => ⟨(), hk⟩, fun ⟨_, hk⟩ => hk⟩
  rw [hF, toFinset_card_of_nodup m.keys_nodup]
  simp [OrdMap.keys]

/-- A set with at most one entry has at most one member. -/
theorem eq_of_length_le_one {K : Type} [LinearOrder K] {m : OrdSet K} (h : m.entries.length ≤ 1)
    {k k' : K} (hk : m.get? k = some ()) (hk' : m.get? k' = some ()) : k = k' := by
  have hcard : m.keys.toFinset.card ≤ 1 := by
    rw [toFinset_card_of_nodup m.keys_nodup]
    simpa [OrdMap.keys] using h
  have hmem : ∀ {x}, m.get? x = some () → x ∈ m.keys.toFinset := fun hx => by
    rw [mem_toFinset, OrdMap.mem_keys]
    exact ⟨(), hx⟩
  exact Finset.card_le_one.mp hcard k (hmem hk) k' (hmem hk')

/-- The simulation agrees with the state on the nodes of `touched`. -/
structure SimMatches (sim : StateMachine.AccrualSim) (s : StateMachine) (touched : List NodeId) :
    Prop where
  free : ∀ n ∈ touched, ∃ f, sim.simFree.get? n = some f ∧
    ∀ d, f.get d = s.capacityOf n d - s.heldOn n d
  perNode : ∀ n ∈ touched, ∃ js, sim.perNode.get? n = some js ∧
    ∀ j, js.get? j = some () ↔ AccruesOn s n j
  accruing : ∀ j, sim.accruing.get? j = some () ↔ ∃ n, AccruesOn s n j

namespace StateMachine

variable {c : CommitPlacements} {ids : List AllocationId} {x : Demand} {j : JobId}

/-! ## The simulation and the effects -/

/-- The simulated room and the real one meet the same demands of the batch. -/
def ServedAlike (s : StateMachine) (c : CommitPlacements) : Prop :=
  served (s.simRoom c.revocations) (s.demands c) = served (s.room c.revocations) (s.demands c)

theorem BatchOk.room_le (hok : BatchOk s c) (hC : Consistent s) (n : NodeId) (d : Dim) :
    s.room c.revocations n d ≤ s.simRoom c.revocations n d ∧
      (RevocationsCovered s c.revocations →
        s.room c.revocations n d = s.simRoom c.revocations n d) := by
  refine room_le_freeAfterRevocation hC.fit (fun n d => ?_) n d
  refine revokedHold_le_heldOn hok.nodup (fun id hid => ?_) n d
  obtain ⟨r, hr, hacc⟩ := hok.accruing id hid
  exact ⟨r, hr, by simp [AllocationRecord.isLive, hacc]⟩

theorem BatchOk.servedAlike (hok : BatchOk s c) (hC : Consistent s)
    (hcov : RevocationsCovered s c.revocations) : ServedAlike s c :=
  serve_congr fun x _ d => ((hok.room_le hC x.node d).2 hcov).symm

theorem accruesOn_waits (hC : Consistent s) {n : NodeId} (hx : x ∈ s.waits ids n) :
    AccruesOn s n x.job := by
  obtain ⟨-, r, hr, hacc, hn, hxe⟩ := hC.linked.mem_waits.mp hx
  exact ⟨x.allocation, r, hr, hacc, hn, by rw [hxe]⟩

theorem mem_touchedNodes_of_demand (hx : x ∈ s.demands c) :
    x.node ∈ (s.touchedNodes c c.revocations).keys := by
  rcases mem_append.mp hx with hx | hx
  · obtain ⟨n, hn, hx⟩ := mem_flatMap.mp hx
    rwa [node_of_mem_waits n x hx]
  · obtain ⟨p, hp, hx⟩ := mem_flatMap.mp hx
    obtain ⟨spec, hspec, rfl⟩ := mem_map.mp hx
    exact BatchOk.touched p hp spec hspec

section

variable (hC : Consistent s)

include hC

/-- The jobs simulated to accrue on nodes the batch does not touch. -/
theorem waits_away_iff :
    (∃ n ∉ (s.touchedNodes c c.revocations).keys, ∃ x ∈ s.waits c.revocations n, x.job = j) ↔
      ∃ n ∉ (s.touchedNodes c c.revocations).keys, AccruesOn s n j := by
  constructor
  · rintro ⟨n, hn, x, hx, rfl⟩
    exact ⟨n, hn, accruesOn_waits hC hx⟩
  · rintro ⟨n, hn, al, r, hr, hacc, hrn, hj⟩
    have hal : al ∉ c.revocations := fun hid =>
      hn (mem_touchedNodes.mpr (.inl ⟨al, hid, r, hr, hrn⟩))
    exact ⟨n, hn, ⟨al, n, r.allocation.job, r.need⟩,
      hC.linked.mem_waits.mpr ⟨hal, r, hr, hacc, hrn, rfl⟩, hj⟩

/-- What is simulated to accrue accrues. -/
theorem accrues_of_simulated (hok : BatchOk s c)
    (hj : (s.simulateAccruals c c.revocations s.usedCapacityMemo).accruing.get? j = some ()) :
    ∃ n, AccruesOn (s.committing c).st n j := by
  have hlands := commitEffects_lands hC hok
  rcases ((simulateAccruals_serves hC hok).accruing j).mp hj with haway | ⟨x, hx, hxj⟩
  · obtain ⟨n, hn, hacc⟩ := (waits_away_iff hC).mp haway
    exact ⟨n, (hlands.accrues n j).mpr (.inl ⟨hn, hacc⟩)⟩
  · have hreal := unmet_mono (fun n d => (hok.room_le hC n d).1) hx
    exact ⟨x.node, (hlands.accrues _ j).mpr (.inr ⟨x, hreal, rfl, hxj⟩)⟩

/-- The simulation counts the jobs that accrue, and no others, exactly when the
    two rooms meet the same demands. -/
theorem servedAlike_iff (hok : BatchOk s c) :
    ServedAlike s c ↔ ∀ j,
      (s.simulateAccruals c c.revocations s.usedCapacityMemo).accruing.get? j = some () ↔
        ∃ n, AccruesOn (s.committing c).st n j := by
  have hsim := simulateAccruals_serves hC hok
  have hlands := commitEffects_lands hC hok
  constructor
  · intro h j
    refine ⟨accrues_of_simulated hC hok, fun ⟨n, hn⟩ => (hsim.accruing j).mpr ?_⟩
    rcases (hlands.accrues n j).mp hn with haway | ⟨x, hx, -, hxj⟩
    · exact .inl ((waits_away_iff hC).mpr ⟨n, haway⟩)
    · rw [← h] at hx
      exact .inr ⟨x, hx, hxj⟩
  · intro h
    have hnd := hok.demands_nodup hC
    refine (serve_eq_of_unmet (fun n d => (hok.room_le hC n d).1) (hnd.of_map _)
      fun x hx => ?_).symm
    have hmem := mem_of_mem_serve hx
    -- the job of an unmet demand accrues, so it is simulated to
    have hacc := (hlands.accrues x.node x.job).mpr (.inr ⟨x, hx, rfl, rfl⟩)
    rcases (hsim.accruing x.job).mp ((h x.job).mpr ⟨x.node, hacc⟩) with haway | ⟨y, hy, hyj⟩
    · obtain ⟨n, hn, hon⟩ := (waits_away_iff hC).mp haway
      exact absurd hon (hok.not_away hC hmem hn)
    · have hxy := inj_on_of_nodup_map hnd (mem_of_mem_serve hy) hmem hyj
      rwa [hxy] at hy

/-- With covered revocations the simulated outcome is the outcome. -/
theorem simulateAccruals_matches (hcov : RevocationsCovered s c.revocations) (hok : BatchOk s c) :
    SimMatches (s.simulateAccruals c c.revocations s.usedCapacityMemo)
      (s.committing c).st (s.touchedNodes c c.revocations).keys := by
  have hroom : s.simRoom c.revocations = s.room c.revocations :=
    funext₂ fun n d => ((hok.room_le hC n d).2 hcov).symm
  have hsim := simulateAccruals_serves hC hok
  have hlands := commitEffects_lands hC hok
  rw [hroom] at hsim
  refine ⟨fun n hn => ?_, fun n hn => ?_, fun j => ?_⟩
  · obtain ⟨f, hf, hfd⟩ := hsim.free n hn
    exact ⟨f, hf, fun d => (hfd d).trans (hlands.free n hn d).symm⟩
  · obtain ⟨js, hjs, hj⟩ := hsim.perNode n hn
    refine ⟨js, hjs, fun j => (hj j).trans ?_⟩
    rw [hlands.accrues]
    exact ⟨.inr, fun h => h.resolve_left fun haway => haway.1 hn⟩
  · exact (servedAlike_iff hC hok).mp (congrArg (served · (s.demands c)) hroom) j

/-! ## Counting -/

/-- The number of distinct jobs accruing once the batch has landed. -/
def accruingAfter (s : StateMachine) (c : CommitPlacements) : Nat :=
  (s.committing c).st.accruingJobs.card

/-- The number `check_accrual_limit` takes for it. -/
def simulatedAccruing (s : StateMachine) (c : CommitPlacements) : Nat :=
  (s.simulateAccruals c c.revocations s.usedCapacityMemo).accruing.entries.length

/-- The accruing jobs are those that survive the revocations and the revoked
    ones, and each is counted once. -/
theorem survivingJobs_length (hnd : ids.Nodup)
    (hacc : ∀ id ∈ ids, ∃ r, s.allocations.get? id = some r ∧ r.allocation.state = .accruing) :
    (s.survivingJobs ids).entries.length + ids.length = s.accruingJobs.card := by
  have hinj : Set.InjOn s.jobOf (ids.toFinset : Set AllocationId) := by
    intro al hal al' hal' heq
    rw [Finset.mem_coe, mem_toFinset] at hal hal'
    obtain ⟨r, hr, hst⟩ := hacc al hal
    obtain ⟨r', hr', hst'⟩ := hacc al' hal'
    rw [jobOf_of_some hr, jobOf_of_some hr'] at heq
    exact hC.linked.accrues_once hr hr' hst hst' heq
  have hsplit : s.accruingJobs =
      (s.survivingJobs ids).keys.toFinset ∪ ids.toFinset.image s.jobOf := by
    ext j
    rw [mem_accruingJobs, Finset.mem_union, Finset.mem_image, mem_toFinset, OrdMap.mem_keys]
    constructor
    · rintro ⟨n, al, r, hr, hst, hn, hj⟩
      by_cases hal : al ∈ ids
      · exact .inr ⟨al, mem_toFinset.mpr hal, (jobOf_of_some hr).trans hj⟩
      · refine .inl ⟨(), hC.linked.mem_survivors.mpr
          ⟨n, ⟨al, n, r.allocation.job, r.need⟩, ?_, hj⟩⟩
        exact hC.linked.mem_waits.mpr ⟨hal, r, hr, hst, hn, rfl⟩
    · rintro (⟨_, hj⟩ | ⟨al, hal, hj⟩)
      · obtain ⟨n, x, hx, rfl⟩ := hC.linked.mem_survivors.mp hj
        exact ⟨n, accruesOn_waits hC hx⟩
      · obtain ⟨r, hr, hst⟩ := hacc al (mem_toFinset.mp hal)
        exact ⟨_, al, r, hr, hst, rfl, (jobOf_of_some hr).symm.trans hj⟩
  have hdisj : Disjoint (s.survivingJobs ids).keys.toFinset (ids.toFinset.image s.jobOf) := by
    rw [Finset.disjoint_left]
    intro j hj hj'
    rw [mem_toFinset, OrdMap.mem_keys] at hj
    obtain ⟨_, hj⟩ := hj
    obtain ⟨n, x, hx, hxj⟩ := hC.linked.mem_survivors.mp hj
    obtain ⟨hnot, q, hq, hqacc, -, hxe⟩ := hC.linked.mem_waits.mp hx
    have hqj : q.allocation.job = j := by
      rw [hxe] at hxj
      exact hxj
    obtain ⟨al, hal, halj⟩ := Finset.mem_image.mp hj'
    rw [mem_toFinset] at hal
    obtain ⟨r, hr, hst⟩ := hacc al hal
    rw [jobOf_of_some hr] at halj
    have heq := hC.linked.accrues_once hr hq hst hqacc (halj.trans hqj.symm)
    exact hnot (heq ▸ hal)
  rw [hsplit, Finset.card_union_of_disjoint hdisj, Finset.card_image_of_injOn hinj,
    toFinset_card_of_nodup hnd, toFinset_card_of_nodup (keys_nodup _)]
  simp [OrdMap.keys]

/-- The simulation never counts a job that does not accrue, and counts all of
    them when the revocations are covered. -/
theorem simulatedAccruing_le (hok : BatchOk s c) :
    s.simulatedAccruing c ≤ s.accruingAfter c ∧
      (RevocationsCovered s c.revocations → s.simulatedAccruing c = s.accruingAfter c) := by
  refine ⟨?_, fun hcov => ?_⟩
  · have hlen : s.simulatedAccruing c = (s.simulateAccruals c c.revocations
        s.usedCapacityMemo).accruing.keys.toFinset.card := by
      rw [toFinset_card_of_nodup (keys_nodup _)]
      simp [simulatedAccruing, OrdMap.keys]
    rw [hlen]
    apply Finset.card_le_card
    intro j hj
    rw [mem_toFinset, OrdMap.mem_keys] at hj
    obtain ⟨_, hj⟩ := hj
    exact mem_accruingJobs.mpr (accrues_of_simulated hC hok hj)
  · refine (card_eq_length fun j => ?_).symm
    exact ((simulateAccruals_matches hC hcov hok).accruing j).trans mem_accruingJobs.symm

/-! ## The verdict -/

/-- The cap rejects when the simulated count exceeds the limit and what the
    revocations leave of the accruing jobs. -/
theorem checkAccrualLimit_cap_iff (hok : BatchOk s c) :
    (∃ limit, s.checkAccrualLimit c c.revocations s.usedCapacityMemo =
      some (.accrualLimitExceeded limit)) ↔
    s.policy.accrualLimit < s.simulatedAccruing c ∧
      s.accruingJobs.card < s.simulatedAccruing c + c.revocations.length := by
  have hcount := survivingJobs_length hC hok.nodup hok.accruing
  have hsim : s.policy.accrualLimit < s.simulatedAccruing c ∧
      s.accruingJobs.card < s.simulatedAccruing c + c.revocations.length ↔
      s.policy.accrualLimit < s.simulatedAccruing c ∧
        (s.survivingJobs c.revocations).entries.length < s.simulatedAccruing c := by
    omega
  rw [hsim]
  unfold checkAccrualLimit simulatedAccruing
  simp only
  constructor
  · rintro ⟨limit, hlimit⟩
    split_ifs at hlimit with hcap
    · exact hcap
    · obtain ⟨e, -, he⟩ := Option.map_eq_some_iff.mp hlimit
      cases he
  · intro hcap
    exact ⟨_, if_pos hcap⟩

/-- An accepted batch with covered revocations stays within both limits. -/
theorem commitPlacements_limits (hd : OneDeep s) (hcov : RevocationsCovered s c.revocations)
    {applied : Applied} (haccepted : (s.commitPlacements c).2 = .ok applied) :
    OneDeep (s.commitPlacements c).1 ∧
      (s.commitPlacements c).1.accruingJobs.card ≤
        max s.policy.accrualLimit s.accruingJobs.card := by
  unfold commitPlacements at haccepted ⊢
  simp only at haccepted ⊢
  split_ifs at haccepted ⊢ with hitems
  have hok : BatchOk s c := batchOk_of_items (by simpa using hitems)
  rw [hok.revoked] at haccepted ⊢
  cases hcheck : s.checkAccrualLimit c c.revocations s.usedCapacityMemo with
  | some reason =>
    rw [hcheck] at haccepted
    cases haccepted
  | none =>
    have hm := simulateAccruals_matches hC hcov hok
    unfold checkAccrualLimit at hcheck
    simp only at hcheck
    split_ifs at hcheck with hlimit
    rw [Option.map_eq_none_iff, find?_eq_none] at hcheck
    have hout {n j} (hn : n ∉ (s.touchedNodes c c.revocations).keys)
        (hacc : AccruesOn (s.committing c).st n j) : AccruesOn s n j := by
      rcases ((commitEffects_lands hC hok).accrues n j).mp hacc with haway | ⟨x, hx, hxn, -⟩
      · exact haway.2
      · exact absurd (hxn ▸ mem_touchedNodes_of_demand (mem_of_mem_serve hx)) hn
    refine ⟨fun n j j' hj hj' => ?_, ?_⟩
    · by_cases hn : n ∈ (s.touchedNodes c c.revocations).keys
      · obtain ⟨js, hjs, hmem⟩ := hm.perNode n hn
        have hlen := hcheck (n, js) (mem_entries.mpr hjs)
        exact eq_of_length_le_one (by simpa using hlen) ((hmem j).mpr hj) ((hmem j').mpr hj')
      · exact hd n j j' (hout hn hj) (hout hn hj')
    · have hafter := card_eq_length fun j =>
        (hm.accruing j).trans (mem_accruingJobs
          (s := (s.committing c).st)).symm
      have hsurv := survivingJobs_length hC hok.nodup hok.accruing
      rw [hafter]
      omega

end

end StateMachine

/-! ## Runs -/

/-- The revocations of a batch are covered; any other command is free. -/
def CoveredStep (s : StateMachine) : Command → Prop
  | .commitPlacements c => RevocationsCovered s c.revocations
  | _ => True

theorem StateMachine.default_oneDeep : OneDeep default := by
  rintro node j j' ⟨al, r, hr, -⟩
  simp [default] at hr

theorem StateMachine.apply_oneDeep (hC : Consistent s) (hd : OneDeep s) (c : Command)
    (hcov : CoveredStep s c) : OneDeep (s.apply c).1 := by
  by_cases hc : ∃ b, c = .commitPlacements b
  · obtain ⟨b, rfl⟩ := hc
    cases hres : (s.commitPlacements b).2 with
    | ok applied => exact (commitPlacements_limits hC hd hcov hres).1
    | error reason =>
      -- a rejected batch changes nothing
      have hsame : (s.commitPlacements b).1 = s := by
        unfold commitPlacements at hres ⊢
        simp only at hres ⊢
        split_ifs at hres ⊢
        · rfl
        · split at hres
          · rfl
          · cases hres
      change OneDeep { (s.commitPlacements b).1 with version := _ }
      rw [hsame]
      exact NoNewAccrual.oneDeep (.of_eq rfl) hd
  · exact (apply_kept hC c fun b e => hc ⟨b, e⟩).accruing.oneDeep hd

/-- Along every run whose batches have covered revocations, no node accrues for
    two jobs, and no accepted batch leaves more jobs accruing than the limit or
    than there were. -/
theorem covered_run_limits {s : StateMachine}
    (h : Reach StateMachine.default (fun s c => (s.apply c).1) CoveredStep s) :
    OneDeep s ∧ ∀ c applied, CoveredStep s (.commitPlacements c) →
      (s.apply (.commitPlacements c)).2 = .ok applied →
      (s.apply (.commitPlacements c)).1.accruingJobs.card ≤
        max s.policy.accrualLimit s.accruingJobs.card := by
  have hinv : Consistent s ∧ OneDeep s := by
    refine Reach.invariant (fun s => Consistent s ∧ OneDeep s) ?_ (fun s c hs hok => ?_) h
    · exact ⟨default_consistent, default_oneDeep⟩
    · exact ⟨(apply_consistent hs.1 c).1, apply_oneDeep hs.1 hs.2 c hok⟩
  exact ⟨hinv.2, fun c applied hcov hres =>
    (commitPlacements_limits hinv.1 hinv.2 hcov hres).2⟩

theorem Sample.accruesOn (al : AllocationId) {node : NodeId} {j : JobId}
    (h : (s.allocations.get? al).map (fun r =>
      (r.allocation.state, r.allocation.node, r.allocation.job)) = some (.accruing, node, j)) :
    AccruesOn s node j := by
  obtain ⟨r, hr, hrec⟩ := Option.map_eq_some_iff.mp h
  simp only [Prod.mk.injEq] at hrec
  exact ⟨al, r, hr, hrec.1, hrec.2.1, hrec.2.2⟩

open Sample

/-- The node holds no more than it advertises, so its accrual can be given up. -/
theorem covered_busy : RevocationsCovered (run busy) [3] := by
  have hnode : ((run busy).allocations.get? 3).map (fun r => r.allocation.node) =
      some 1 := by decide +kernel
  have hheld : ∀ d ∈ [Dim.cpuMillis, .memory, .disk], (run busy).heldOn 1 d ≤
      (run busy).capacityOf 1 d := by decide +kernel
  intro id hid r hr d _
  rw [mem_singleton] at hid
  subst hid
  obtain ⟨r', hr', hn⟩ := Option.map_eq_some_iff.mp hnode
  rw [hr] at hr'
  cases hr'
  rw [hn]
  exact hheld d (by cases d <;> simp)

/-- Revoking the accrual of a node that holds just what it advertises. -/
theorem covered_run_limits_busy :
    OneDeep (run busy) ∧ AccruesOn (run busy) 1 3 ∧
      ((run busy).apply (commit [3] [])).1.accruingJobs.card ≤
        max (run busy).policy.accrualLimit
          (run busy).accruingJobs.card := by
  have hreach : Reach default (fun s c => (s.apply c).1) CoveredStep
      (run busy) :=
    Reach.foldl busy _ .init fun s c hc => by
      simp only [busy, mem_cons, not_mem_nil, or_false] at hc
      rcases hc with rfl | rfl | rfl | rfl | rfl | rfl | rfl | rfl | rfl | rfl | rfl <;>
        simp [CoveredStep, RevocationsCovered, commit, configure, register, submit, send,
          Sample.submitJob, Sample.start]
  have hok : ((run busy).apply (commit [3] [])).2.isOk = true := by
    decide +kernel
  obtain ⟨hdeep, hcard⟩ := covered_run_limits hreach
  refine ⟨hdeep, accruesOn 3 (by decide +kernel), ?_⟩
  cases hres : ((run busy).apply (commit [3] [])).2 with
  | ok applied => exact hcard _ applied covered_busy hres
  | error reason => simp [hres, Except.isOk, Except.toBool] at hok

/-- The node shrinks under a running and an accruing allocation; then the accrual
    is revoked and two jobs are placed. -/
def Sample.shrunk : List Command :=
  [configure, register 10, submit 1 8, submit 2 5, submit 3 2, submit 4 5, commit [] [place 1 8],
    send 1, start 1, commit [] [place 2 5], register 6, commit [2] [place 3 2, place 4 5]]

/-- The simulation sees two units free where there are none: both placements
    accrue on the node. -/
theorem shrunk_node_accrues_twice : ∃ s, Reachable s ∧ ¬OneDeep s := by
  refine ⟨run shrunk, reachable_run shrunk, fun hd => ?_⟩
  have h₃ : AccruesOn (run shrunk) 1 3 := accruesOn 3 (by decide +kernel)
  have h₄ : AccruesOn (run shrunk) 1 4 := accruesOn 4 (by decide +kernel)
  exact absurd (hd 1 3 4 h₃ h₄) (by decide)

/-! ## What the cap rejects -/

/-- The batch is turned down by the accrual cap. -/
def StateMachine.CapRejects (s : StateMachine) (c : CommitPlacements) : Prop :=
  ∃ limit, (s.commitPlacements c).2 = .error (.accrualLimitExceeded limit)

theorem StateMachine.capRejects_iff {c : CommitPlacements} (hC : Consistent s)
    (hitems : (s.screen c).items = []) :
    s.CapRejects c ↔ s.policy.accrualLimit < s.simulatedAccruing c ∧
      s.accruingJobs.card < s.simulatedAccruing c + c.revocations.length := by
  have hok : BatchOk s c := batchOk_of_items (by rw [hitems]; rfl)
  rw [← checkAccrualLimit_cap_iff hC hok]
  unfold CapRejects commitPlacements
  simp only [hitems, isEmpty_nil, Bool.not_true, Bool.false_eq_true, if_false, hok.revoked]
  cases s.checkAccrualLimit c c.revocations s.usedCapacityMemo with
  | none => simp
  | some reason => simp

/-- A batch whose items are all valid and that revokes nothing, or that meets a
    state within the limit, is turned down by the cap only for growth over the
    limit.  In general this is so exactly when the batch really grows the set of
    accruing jobs, or the simulated count is within the limit, or it is no more
    than what the revocations leave of the accruing jobs. -/
theorem cap_rejects_only_growth {s : StateMachine} (h : Reachable s) (c : CommitPlacements)
    (hitems : (s.screen c).items = []) :
    (c.revocations = [] ∨ s.accruingJobs.card ≤ s.policy.accrualLimit → s.CapRejects c →
      s.policy.accrualLimit < s.accruingAfter c ∧ s.accruingJobs.card < s.accruingAfter c) ∧
    ((s.CapRejects c → s.policy.accrualLimit < s.accruingAfter c ∧
        s.accruingJobs.card < s.accruingAfter c) ↔
      s.accruingJobs.card < s.accruingAfter c ∨ s.simulatedAccruing c ≤ s.policy.accrualLimit ∨
        s.simulatedAccruing c + c.revocations.length ≤ s.accruingJobs.card) ∧
    s.simulatedAccruing c ≤ s.accruingAfter c ∧
    (RevocationsCovered s c.revocations → s.simulatedAccruing c = s.accruingAfter c) := by
  have hok : StateMachine.BatchOk s c := batchOk_of_items (by rw [hitems]; rfl)
  obtain ⟨hle, hexact⟩ := simulatedAccruing_le h.consistent hok
  rw [capRejects_iff h.consistent hitems]
  refine ⟨fun hcond hrej => ?_, ?_, hle, hexact⟩
  · rcases hcond with hnone | hwithin
    · rw [hnone, length_nil] at hrej
      omega
    · omega
  · omega

/-- Two nodes, each with a running and an accruing job; then the limit is lowered
    to one. -/
def Sample.overLimit : List Command :=
  [configure, register 10,
    .registerNode ⟨2, cpu 10, .empty, epoch, none, none, none, false, false, none⟩, submit 1 8,
    submit 2 8, submit 3 5, submit 4 5, commit [] [place 1 8, ⟨2, 2, 2, [⟨2, 2, cpu 8⟩], []⟩],
    commit [] [place 3 5, ⟨4, 4, 4, [⟨4, 2, cpu 5⟩], []⟩],
    .updatePolicy ⟨{ PolicyConfig.default with accrualLimit := 1 }, none, epoch⟩]

/-- One accrual is given up for another of the same job. -/
def Sample.swap : CommitPlacements := ⟨0, [4], [⟨4, 5, 4, [⟨5, 2, cpu 5⟩], []⟩], epoch⟩

/-- A swap within the limit: the node's accrual goes to another attempt. -/
theorem cap_rejects_only_growth_busy :
    ((run busy).screenBatch ⟨0, [3], [⟨3, 5, 3, [⟨5, 1, cpu 5⟩], []⟩], epoch⟩).2.items = [] ∧
    (run busy).accruingJobs.card = 1 ∧
    ¬((run busy).CapRejects ⟨0, [3], [⟨3, 5, 3, [⟨5, 1, cpu 5⟩], []⟩], epoch⟩) := by
  have hitems : ((run busy).screenBatch ⟨0, [3],
      [⟨3, 5, 3, [⟨5, 1, cpu 5⟩], []⟩], epoch⟩).2.items = [] := by
    decide +kernel
  have hcard : (run busy).accruingJobs.card = 1 := by decide +kernel
  refine ⟨hitems, hcard, fun hrej => ?_⟩
  -- one job would accrue after the batch, which is no growth
  have hafter : (run busy).accruingAfter ⟨0, [3],
      [⟨3, 5, 3, [⟨5, 1, cpu 5⟩], []⟩], epoch⟩ = 1 := by decide +kernel
  have hlimit : (run busy).policy.accrualLimit = 4 := by decide +kernel
  have hreach : Reachable (run busy) := reachable_run busy
  have hgrowth := (cap_rejects_only_growth hreach _ hitems).1 (.inr (by omega)) hrej
  omega

/-- Two jobs accrue before the swap and would after it, and the cap turns it down. -/
theorem swap_over_limit_refused :
    Reachable (run overLimit) ∧
    ((run overLimit).screenBatch swap).2.items = [] ∧
    (run overLimit).CapRejects swap ∧
    (run overLimit).accruingJobs.card = 2 ∧
    (run overLimit).accruingAfter swap = 2 := by
  refine ⟨reachable_run overLimit, ?_, ⟨1, ?_⟩, ?_, ?_⟩
  · decide +kernel
  · rfl
  · decide +kernel
  · decide +kernel

end Coppice.State
