/-
  Coppice.Lib.Disk

  A disk behind a write-back cache.  Every change is visible at once and durable
  only after the matching sync; a crash settles the changes of each file and each
  directory on their own (`Disk.Crash`).  `DirNode.Settled` and `FileNode.Synced`
  are the two facts no crash can change.
-/

import Mathlib.Algebra.Order.Ring.Nat
import Mathlib.Data.List.AList

namespace Coppice.Lib

open List

abbrev Bytes := List UInt8

/-! ## Files -/

/-- An un-synced change to a file's data. -/
inductive DataOp where
  /-- `offset` is the visible length when the write was made. -/
  | append (offset : Nat) (bytes : Bytes)
  | truncate (len : Nat)
  deriving DecidableEq

/-- Write `b` at `offset`, growing the file with zeros where it is too short. -/
def overwrite (img : Bytes) (offset : Nat) (b : Bytes) : Bytes :=
  if b = [] then img
  else
    let padded := img ++ List.replicate (offset + b.length - img.length) 0
    padded.take offset ++ b ++ padded.drop (offset + b.length)

@[simp] theorem overwrite_nil (img : Bytes) (offset : Nat) : overwrite img offset [] = img := rfl

theorem overwrite_length (img b : Bytes) : overwrite img img.length b = img ++ b := by
  by_cases hb : b = []
  · simp [hb]
  · have hpad : img.length + b.length - img.length = b.length := by omega
    simp [overwrite, hb, hpad]

/-- What a crash may leave of one un-synced change: an append keeps any prefix. -/
def DataOp.outcomes (img : Bytes) : DataOp → List Bytes
  | .truncate len => [img, img.take len]
  | .append offset bytes =>
    (List.range (bytes.length + 1)).map fun k => overwrite img offset (bytes.take k)

structure FileNode where
  durable : Bytes := []
  visible : Bytes := []
  journal : List DataOp := []
  deriving DecidableEq

namespace FileNode

def append (f : FileNode) (b : Bytes) : FileNode :=
  if b = [] then f
  else { f with
    visible := f.visible ++ b
    journal := f.journal ++ [.append f.visible.length b] }

def sync (f : FileNode) : FileNode := ⟨f.visible, f.visible, []⟩

/-- The contents a crash may leave. -/
def images (f : FileNode) : List Bytes :=
  f.journal.foldl (fun imgs op => imgs.flatMap op.outcomes) [f.durable]

/-- The file holds `b`, now and after any crash. -/
structure Synced (f : FileNode) (b : Bytes) : Prop where
  durable : f.durable = b
  visible : f.visible = b
  journal : f.journal = []

theorem synced_sync (f : FileNode) : f.sync.Synced f.visible := ⟨rfl, rfl, rfl⟩

theorem Synced.images {f : FileNode} (h : f.Synced b) : f.images = [b] := by
  simp [FileNode.images, h.journal, h.durable]

@[simp] theorem visible_append (f : FileNode) (b : Bytes) :
    (f.append b).visible = f.visible ++ b := by
  by_cases hb : b = [] <;> simp [append, hb]

/-- An append to a synced file leaves, at a crash, the old content and a
    prefix of the new bytes. -/
theorem Synced.images_append {f : FileNode} {bytes img : Bytes} (h : f.Synced b)
    (himg : img ∈ (f.append bytes).images) : ∃ k ≤ bytes.length, img = b ++ bytes.take k := by
  by_cases hb : bytes = []
  · simp only [append, hb, if_true, h.images, mem_singleton] at himg
    exact ⟨0, Nat.zero_le _, by simpa using himg⟩
  · simp only [append, hb, if_false, FileNode.images, h.journal, h.durable, h.visible,
      nil_append, foldl_cons, foldl_nil, flatMap_singleton,
      DataOp.outcomes, mem_map, mem_range] at himg
    obtain ⟨k, hk, rfl⟩ := himg
    exact ⟨k, by omega, overwrite_length b (bytes.take k)⟩

end FileNode

/-! ## Directories -/

abbrev Table (N : Type) := AList (fun _ : N => Nat)

/-- An un-synced change to a directory's name table. -/
inductive NsOp (N : Type) where
  | create (name : N) (ino : Nat)
  | remove (name : N) (ino : Nat)
  | rename (src dst : N) (ino : Nat)

structure DirNode (N : Type) where
  durable : Table N := ∅
  visible : Table N := ∅
  journal : List (NsOp N) := []

section Directories

variable {N : Type} [DecidableEq N]

/-- Replay one change; a change that an earlier casualty invalidates does nothing. -/
def NsOp.apply (t : Table N) : NsOp N → Table N
  | .create name ino => if (t.lookup name).isSome then t else t.insert name ino
  | .remove name ino => if t.lookup name = some ino then t.erase name else t
  | .rename src dst ino => if t.lookup src = some ino then (t.erase src).insert dst ino else t

/-- The change reads or writes the entry of `n`. -/
def NsOp.Touches (n : N) : NsOp N → Prop
  | .create name _ => name = n
  | .remove name _ => name = n
  | .rename src dst _ => src = n ∨ dst = n

theorem NsOp.lookup_apply {op : NsOp N} {n : N} (t : Table N) (h : ¬ op.Touches n) :
    (op.apply t).lookup n = t.lookup n := by
  cases op with
  | create name ino =>
    have hne : n ≠ name := fun he => h he.symm
    simp only [NsOp.apply]
    split_ifs
    · rfl
    · exact AList.lookup_insert_ne hne
  | remove name ino =>
    have hne : n ≠ name := fun he => h he.symm
    simp only [NsOp.apply]
    split_ifs
    · exact AList.lookup_erase_ne hne
    · rfl
  | rename src dst ino =>
    have hsrc : n ≠ src := fun he => h (.inl he.symm)
    have hdst : n ≠ dst := fun he => h (.inr he.symm)
    simp only [NsOp.apply]
    split_ifs
    · rw [AList.lookup_insert_ne hdst, AList.lookup_erase_ne hsrc]
    · rfl

namespace DirNode

def push (d : DirNode N) (op : NsOp N) : DirNode N :=
  { d with visible := op.apply d.visible, journal := d.journal ++ [op] }

def sync (d : DirNode N) : DirNode N := ⟨d.visible, d.visible, []⟩

/-- The name tables a crash may leave. -/
def images (d : DirNode N) : List (Table N) :=
  d.journal.foldl (fun ts op => ts ++ ts.map op.apply) [d.durable]

theorem images_push (d : DirNode N) (op : NsOp N) :
    (d.push op).images = d.images ++ d.images.map op.apply := by
  simp [images, push]

/-- `n` has the entry `v`, now and after any crash. -/
structure Settled (d : DirNode N) (n : N) (v : Option Nat) : Prop where
  visible : d.visible.lookup n = v
  image : ∀ t ∈ d.images, t.lookup n = v

theorem settled_sync (d : DirNode N) (n : N) : d.sync.Settled n (d.visible.lookup n) :=
  ⟨rfl, by simp [images, sync]⟩

end DirNode

end Directories

/-! ## Disks -/

/-- A fixed set of directories over one pool of files, and the advisory lock. -/
structure Disk (D N : Type) where
  dirs : D → DirNode N := fun _ => {}
  files : Nat → FileNode := fun _ => {}
  next : Nat := 0
  locked : Bool := false

namespace Disk

variable {D N : Type} [DecidableEq N]

/-- The file visible at a path. -/
def lookup (d : Disk D N) (p : D × N) : Option Nat := (d.dirs p.1).visible.lookup p.2

/-- The visible content at a path. -/
def read (d : Disk D N) (p : D × N) : Option Bytes :=
  (d.lookup p).map fun ino => (d.files ino).visible

/-- `d'` is a disk a crash of `d` may leave: every journal settled on its own,
    everything that is left durable, the lock released. -/
structure Crash (d d' : Disk D N) : Prop where
  dirs : ∀ dir, ∃ t ∈ (d.dirs dir).images, d'.dirs dir = ⟨t, t, []⟩
  files : ∀ ino, ∃ b ∈ (d.files ino).images, d'.files ino = ⟨b, b, []⟩
  next : d'.next = d.next
  locked : d'.locked = false

/-- `d'` is what the next process finds: after a crash of the machine, or after the
    process alone has gone, with every visible change still there. -/
def Halt (d d' : Disk D N) : Prop := Crash d d' ∨ d' = { d with locked := false }

theorem Halt.unlocked {d : Disk D N} (h : d.Halt d') : d'.locked = false := by
  rcases h with hc | rfl
  · exact hc.locked
  · rfl

variable [DecidableEq D]

def push (d : Disk D N) (dir : D) (op : NsOp N) : Disk D N :=
  { d with dirs := Function.update d.dirs dir ((d.dirs dir).push op) }

def onFile (d : Disk D N) (ino : Nat) (f : FileNode → FileNode) : Disk D N :=
  { d with files := Function.update d.files ino (f (d.files ino)) }

/-- A new empty file at a path that has none. -/
def create (d : Disk D N) (p : D × N) : Disk D N :=
  { d.push p.1 (.create p.2 d.next) with
    files := Function.update d.files d.next {}
    next := d.next + 1 }

def syncDir (d : Disk D N) (dir : D) : Disk D N :=
  { d with dirs := Function.update d.dirs dir (d.dirs dir).sync }

end Disk

end Coppice.Lib
