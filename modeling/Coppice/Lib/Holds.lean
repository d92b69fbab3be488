/-
  Coppice.Lib.Holds

  What may be found at one path of a disk, whatever has been synced: `Disk.Holds d p
  P` says that the content visible at `p`, and every content a crash may leave
  there, satisfies `P`.  A file that no name table binds to the path (`Disk.Clear`)
  can be written freely, and renamed over the path once its contents satisfy `P`.
-/

import Coppice.Lib.Disk

namespace Coppice.Lib

open List

/-- What a read now, or after a crash, may find in the file. -/
def FileNode.contents (f : FileNode) : List Bytes := f.visible :: f.images

variable {f : FileNode} {b c : Bytes}

theorem FileNode.Synced.contents (h : f.Synced b) (hc : c ∈ f.contents) : c = b := by
  rw [FileNode.contents, h.images, mem_cons, mem_singleton, h.visible] at hc
  exact hc.elim (fun h => h) fun h => h

/-- A write to a synced file shows, now or after a crash, a prefix of the new bytes. -/
theorem FileNode.Synced.contents_append {bytes : Bytes} (h : f.Synced b)
    (hc : c ∈ (f.append bytes).contents) : ∃ k, c = b ++ bytes.take k := by
  rcases mem_cons.mp hc with rfl | himg
  · exact ⟨bytes.length, by simp [h.visible]⟩
  · obtain ⟨k, -, hk⟩ := h.images_append himg
    exact ⟨k, hk⟩

namespace Disk

variable {D N : Type} [DecidableEq N] {d d' : Disk D N} {dir : D} {op : NsOp N} {t : Table N}
  {p : D × N} {P : Option Bytes → Prop} {i : Nat}

/-- The name tables of a directory that are visible or may be left by a crash. -/
def tables (d : Disk D N) (dir : D) : List (Table N) := (d.dirs dir).visible :: (d.dirs dir).images

/-- Whatever is found at `p`, now or after a crash, satisfies `P`. -/
structure Holds (d : Disk D N) (p : D × N) (P : Option Bytes → Prop) : Prop where
  absent : ∀ t ∈ d.tables p.1, t.lookup p.2 = none → P none
  present : ∀ t ∈ d.tables p.1, ∀ i, t.lookup p.2 = some i →
    i < d.next ∧ ∀ b ∈ (d.files i).contents, P (some b)

/-- No name table binds `p` to the file `i`. -/
def Clear (d : Disk D N) (p : D × N) (i : Nat) : Prop := ∀ t ∈ d.tables p.1, t.lookup p.2 ≠ some i

namespace Holds

theorem mono (h : d.Holds p P) {P' : Option Bytes → Prop} (hP : ∀ c, P c → P' c) :
    d.Holds p P' where
  absent t ht hl := hP _ (h.absent t ht hl)
  present t ht i hl := ⟨(h.present t ht i hl).1, fun b hb => hP _ ((h.present t ht i hl).2 b hb)⟩

theorem read (h : d.Holds p P) : P (d.read p) := by
  unfold Disk.read
  cases hl : d.lookup p with
  | none => exact h.absent _ mem_cons_self hl
  | some i => exact (h.present _ mem_cons_self i hl).2 _ mem_cons_self

/-- An empty disk has nothing anywhere. -/
theorem initial (hP : P none) : Holds ({} : Disk D N) p P := by
  have hempty : ∀ t ∈ ({} : Disk D N).tables p.1, t.lookup p.2 = none := by
    intro t ht
    have hnil : t = ∅ := by simpa [tables, DirNode.images] using ht
    rw [hnil]
    rfl
  refine ⟨fun _ _ _ => hP, fun t ht i hi => ?_⟩
  cases (hempty t ht).symm.trans hi

section

variable (h : d.Holds p P)

include h

theorem setLocked (b : Bool) : Holds { d with locked := b } p P :=
  ⟨h.absent, h.present⟩

theorem crash (hc : Crash d d') : d'.Holds p P := by
  obtain ⟨t, ht, hdir⟩ := hc.dirs p.1
  have htables : ∀ u ∈ d'.tables p.1, u = t := by
    intro u hu
    simpa [tables, hdir, DirNode.images] using hu
  have hmem : t ∈ d.tables p.1 := mem_cons_of_mem _ ht
  refine ⟨fun u hu hl => ?_, fun u hu i hl => ?_⟩
  · rw [htables u hu] at hl
    exact h.absent t hmem hl
  · rw [htables u hu] at hl
    obtain ⟨hlt, hall⟩ := h.present t hmem i hl
    obtain ⟨b, hb, hfile⟩ := hc.files i
    refine ⟨by rw [hc.next]; exact hlt, fun c hcmem => ?_⟩
    have hcb : c = b := by simpa [FileNode.contents, hfile, FileNode.images] using hcmem
    rw [hcb]
    exact hall b (mem_cons_of_mem _ hb)

theorem halt (hd : Halt d d') : d'.Holds p P := by
  rcases hd with hc | rfl
  · exact h.crash hc
  · exact h.setLocked false

theorem onFile (hi : d.Clear p i) (f : FileNode → FileNode) : (d.onFile i f).Holds p P := by
  refine ⟨h.absent, fun t ht j hl => ?_⟩
  have hj : j ≠ i := fun e => hi t ht (e ▸ hl)
  obtain ⟨hlt, hall⟩ := h.present t ht j hl
  refine ⟨hlt, ?_⟩
  simpa [Disk.onFile, hj] using hall

theorem clear_next : d.Clear p d.next := fun t ht hl =>
  absurd (h.present t ht _ hl).1 (Nat.lt_irrefl _)

end

/-- A settled path to a file. -/
theorem of_settled (h : (d.dirs p.1).Settled p.2 (some i)) (hlt : i < d.next)
    (hall : ∀ b ∈ (d.files i).contents, P (some b)) : d.Holds p P := by
  have hlook : ∀ t ∈ d.tables p.1, t.lookup p.2 = some i := by
    intro t ht
    rcases mem_cons.mp ht with rfl | ht
    · exact h.visible
    · exact h.image t ht
  refine ⟨fun t ht hl => ?_, fun t ht j hl => ?_⟩
  · rw [hlook t ht] at hl
    cases hl
  · rw [hlook t ht] at hl
    cases hl
    exact ⟨hlt, hall⟩

variable [DecidableEq D]

theorem mem_tables_push {dir' : D} (ht : t ∈ (d.push dir' op).tables dir) :
    t ∈ d.tables dir ∨ dir = dir' ∧ ∃ u ∈ d.tables dir, t = op.apply u := by
  by_cases hdir : dir = dir'
  · subst hdir
    simp only [tables, push, Function.update_self, mem_cons] at ht
    rcases ht with rfl | ht
    · exact .inr ⟨rfl, _, mem_cons_self, rfl⟩
    · rw [DirNode.images_push, mem_append, mem_map] at ht
      rcases ht with ht | ⟨u, hu, rfl⟩
      · exact .inl (mem_cons_of_mem _ ht)
      · exact .inr ⟨rfl, u, mem_cons_of_mem _ hu, rfl⟩
  · left
    simpa [tables, push, hdir] using ht

theorem lookup_of_mem_tables_push (hop : dir = p.1 → ¬ op.Touches p.2)
    (ht : t ∈ (d.push dir op).tables p.1) : ∃ u ∈ d.tables p.1, t.lookup p.2 = u.lookup p.2 := by
  rcases mem_tables_push ht with ht | ⟨hdir, u, hu, rfl⟩
  · exact ⟨t, ht, rfl⟩
  · exact ⟨u, hu, NsOp.lookup_apply u (hop hdir.symm)⟩

theorem push (h : d.Holds p P) (hop : dir = p.1 → ¬ op.Touches p.2) :
    (d.push dir op).Holds p P := by
  refine ⟨fun t ht hl => ?_, fun t ht i hl => ?_⟩
  · obtain ⟨u, hu, heq⟩ := lookup_of_mem_tables_push hop ht
    exact h.absent u hu (heq ▸ hl)
  · obtain ⟨u, hu, heq⟩ := lookup_of_mem_tables_push hop ht
    exact h.present u hu i (heq ▸ hl)

theorem create (h : d.Holds p P) {q : D × N} (hq : q ≠ p) :
    (d.create q).Holds p P ∧ (d.create q).Clear p d.next := by
  have hpush : (d.push q.1 (.create q.2 d.next)).Holds p P :=
    h.push fun hdir hname => hq (Prod.ext hdir hname)
  refine ⟨⟨hpush.absent, fun t ht i hl => ?_⟩, hpush.clear_next⟩
  obtain ⟨hlt, hall⟩ := hpush.present t ht i hl
  have hi : i ≠ d.next := Nat.ne_of_lt hlt
  refine ⟨Nat.lt_succ_of_lt hlt, ?_⟩
  simpa [Disk.create, Disk.push, hi] using hall

/-- A file whose contents satisfy `P` may be renamed over the path. -/
theorem rename (h : d.Holds p P) {src dst : N} (hp : p = (dir, dst)) (hlt : i < d.next)
    (hall : ∀ b ∈ (d.files i).contents, P (some b)) :
    (d.push dir (.rename src dst i)).Holds p P := by
  subst hp
  have hcases : ∀ t ∈ (d.push dir (.rename src dst i)).tables dir,
      t.lookup dst = some i ∨ ∃ u ∈ d.tables dir, t.lookup dst = u.lookup dst := by
    intro t ht
    rcases mem_tables_push ht with ht | ⟨-, u, hu, rfl⟩
    · exact .inr ⟨t, ht, rfl⟩
    · simp only [NsOp.apply]
      split_ifs
      · exact .inl (AList.lookup_insert _)
      · exact .inr ⟨u, hu, rfl⟩
  refine ⟨fun t ht hl => ?_, fun t ht j hl => ?_⟩
  · rcases hcases t ht with hi | ⟨u, hu, heq⟩
    · rw [hi] at hl
      cases hl
    · exact h.absent u hu (heq ▸ hl)
  · rcases hcases t ht with hi | ⟨u, hu, heq⟩
    · rw [hi] at hl
      cases hl
      exact ⟨hlt, hall⟩
    · exact h.present u hu j (heq ▸ hl)

end Holds

end Disk

end Coppice.Lib
