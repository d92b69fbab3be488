/-
  Coppice.Storage.Fs

  The filesystem seam the storage engine is written against, over the disk of
  `Coppice.Lib.Disk`.  Each operation is one effect, hence one crash point; an
  append has one for each part of its data.
-/

import Coppice.Lib.Eff
import Coppice.Lib.Bytes

namespace Coppice.Storage

open Lib Eff Disk

/-- The directories of a data directory: the root, `log/` and `snap/`. -/
inductive Dir where
  | root | log | snap
  deriving DecidableEq, Repr

/-- File names, by the pattern that produces them. -/
inductive Name where
  /-- `LOCK` -/
  | lock
  | manifest
  /-- `manifest.tmp` -/
  | manifestTmp
  | vote
  /-- `vote.tmp` -/
  | voteTmp
  /-- `{start}.seg` -/
  | seg (start : Nat)
  /-- `{id}.snap` -/
  | snap (id : String)
  /-- `{id}.snap.tmp` -/
  | snapTmp (id : String)
  /-- any other name -/
  | other (text : String)
  deriving DecidableEq, Repr

/-- A path relative to the data directory. -/
abbrev Path := Dir × Name

/-- The errors of the seam and of the engine. -/
inductive IoError where
  /-- damage that recovery must not repair, at an offset of a file -/
  | failStop (path : Path) (offset : Nat) (what : String)
  /-- a missing file, a bad identity: a fail-stop with no offset -/
  | failStopFile (path : Path) (what : String)
  | notFound (path : Path)
  | alreadyExists (path : Path)
  | invalidInput (what : String)
  /-- bytes that do not decode to what they should -/
  | invalidData (what : String)
  | unexpectedEof
  | wouldBlock
  /-- a container version outside the readable range -/
  | unsupportedVersion (path : Path) (version : Nat)
  /-- a failed `expect`: the process is gone -/
  | panicked (what : String)
  deriving DecidableEq, Repr

abbrev DataDir := Disk Dir Name

/-- A program over the seam. -/
abbrev Fs (α : Type) := Eff DataDir IoError α

namespace Fs

/-- Take the advisory lock, creating the file if absent. -/
def lock (path : Path) : Fs Unit := .act fun d =>
  if d.locked then .error .wouldBlock
  else
    match d.lookup path with
    | some _ => .ok ((), { d with locked := true })
    | none => .ok ((), { d.create path with locked := true })

/-- Whether a file is visible at the path. -/
def «exists» (path : Path) : Fs Bool := .act fun d => .ok ((d.lookup path).isSome, d)

def openRead (path : Path) : Fs Nat := .act fun d =>
  match d.lookup path with
  | some ino => .ok (ino, d)
  | none => .error (.notFound path)

def openAppend (path : Path) : Fs Nat := openRead path

def createNew (path : Path) : Fs Nat := .act fun d =>
  match d.lookup path with
  | some _ => .error (.alreadyExists path)
  | none => .ok (d.next, d.create path)

/-- Rename within one directory, replacing the target. -/
def rename (dir : Dir) (src dst : Name) : Fs Unit := .act fun d =>
  match d.lookup (dir, src) with
  | some ino => .ok ((), d.push dir (.rename src dst ino))
  | none => .error (.notFound (dir, src))

def removeFile (path : Path) : Fs Unit := .act fun d =>
  match d.lookup path with
  | some ino => .ok ((), d.push path.1 (.remove path.2 ino))
  | none => .error (.notFound path)

def syncDir (dir : Dir) : Fs Unit := .act fun d => .ok ((), d.syncDir dir)

/-- `FsFile::append`: the write can be cut short, or fail, with any part of the data in the file. -/
def append (file : Nat) (data : Bytes) : Fs Unit :=
  .gradual
    (fun d => (List.range (data.length + 1)).map fun k => d.onFile file (·.append (data.take k)))
    fun d => d.onFile file (·.append data)

/-- `FsFile::sync_data` -/
def syncData (file : Nat) : Fs Unit := .act fun d => .ok ((), d.onFile file FileNode.sync)

/-- The visible bytes of an open file.  Reads leave the disk as it is, so the
    chunks in which the source reads are one crash point. -/
def readAll (file : Nat) : Fs Bytes := .act fun d => .ok ((d.files file).visible, d)

end Fs

/-- Read a whole (small) file. -/
def readToVec (path : Path) : Fs Bytes := do
  let file ← Fs.openRead path
  Fs.readAll file

/-- Create a file in place of any stale one: a leftover of an earlier crash is
    expected at every path the engine creates. -/
def createFresh (path : Path) : Fs Nat := do
  if ← Fs.exists path then
    Fs.removeFile path
  Fs.createNew path

/-- Write-new to `tmp`, fsync, rename over `path`, fsync the parent directory. -/
def writeAtomic (dir : Dir) (path tmp : Name) (bytes : Bytes) : Fs Unit := do
  let file ← createFresh (dir, tmp)
  Fs.append file bytes
  Fs.syncData file
  Fs.rename dir tmp path
  Fs.syncDir dir

/-! ## What each operation does -/

/-- No error at all. -/
def never {σ : Type} : IoError → σ → Prop := fun _ _ => False

section Rules

variable {E : IoError → DataDir → Prop} {C : DataDir → Prop} {d : DataDir} {path : Path} {dir : Dir}
  {Q : Unit → DataDir → Prop} {file : Nat} {ino : Nat} {src dst : Name} {i : Nat}

@[simp] theorem wp_exists {Q : Bool → DataDir → Prop} :
    Eff.wp false E C (Fs.exists path) Q d ↔ C d ∧ Q (d.lookup path).isSome d :=
  wp_act_ok rfl

@[simp] theorem wp_syncDir : Eff.wp false E C (Fs.syncDir dir) Q d ↔ C d ∧ Q () (d.syncDir dir) :=
  wp_act_ok rfl

@[simp] theorem wp_append {data : Bytes} :
    Eff.wp false E C (Fs.append file data) Q d ↔
      (∀ k ≤ data.length, C (d.onFile file (·.append (data.take k)))) ∧
        Q () (d.onFile file (·.append data)) :=
  wp_gradual.trans (by simp only [List.forall_mem_map, List.mem_range, Nat.lt_succ_iff])

@[simp] theorem wp_syncData :
    Eff.wp false E C (Fs.syncData file) Q d ↔ C d ∧ Q () (d.onFile file FileNode.sync) :=
  wp_act_ok rfl

@[simp] theorem wp_readAll {Q : Bytes → DataDir → Prop} :
    Eff.wp false E C (Fs.readAll file) Q d ↔ C d ∧ Q (d.files file).visible d :=
  wp_act_ok rfl

theorem wp_lock (h : d.locked = false) :
    Eff.wp false E C (Fs.lock path) Q d ↔ C d ∧
      Q () { (if (d.lookup path).isSome then d else d.create path) with locked := true } :=
  wp_act_ok (by cases hl : d.lookup path <;> simp [h])

theorem wp_openRead (h : d.lookup path = some ino) {Q : Nat → DataDir → Prop} :
    Eff.wp false E C (Fs.openRead path) Q d ↔ C d ∧ Q ino d :=
  wp_act_ok (by simp [h])

theorem wp_openAppend (h : d.lookup path = some ino) {Q : Nat → DataDir → Prop} :
    Eff.wp false E C (Fs.openAppend path) Q d ↔ C d ∧ Q ino d :=
  wp_openRead h

theorem wp_createNew (h : d.lookup path = none) {Q : Nat → DataDir → Prop} :
    Eff.wp false E C (Fs.createNew path) Q d ↔ C d ∧ Q d.next (d.create path) :=
  wp_act_ok (by simp [h])

theorem wp_rename (h : d.lookup (dir, src) = some ino) :
    Eff.wp false E C (Fs.rename dir src dst) Q d ↔ C d ∧ Q () (d.push dir (.rename src dst ino)) :=
  wp_act_ok (by simp [h])

theorem wp_removeFile (h : d.lookup path = some ino) :
    Eff.wp false E C (Fs.removeFile path) Q d ↔ C d ∧ Q () (d.push path.1 (.remove path.2 ino)) :=
  wp_act_ok (by simp [h])

theorem wp_readToVec {bytes : Bytes} (h : d.read path = some bytes) {Q : Bytes → DataDir → Prop} :
    Eff.wp false E C (readToVec path) Q d ↔ C d ∧ Q bytes d := by
  obtain ⟨ino, hino, rfl⟩ := Option.map_eq_some_iff.mp h
  rw [readToVec, wp_bind, wp_openRead hino, wp_readAll]
  exact ⟨fun hq => ⟨hq.1, hq.2.2⟩, fun hq => ⟨hq.1, hq.1, hq.2⟩⟩

/-! ## Fresh files and atomic swaps -/

theorem lookup_push_remove (h : d.lookup path = some i) :
    (d.push path.1 (.remove path.2 i)).lookup path = none := by
  have hl : (d.dirs path.1).visible.lookup path.2 = some i := h
  simp [lookup, push, DirNode.push, NsOp.apply, hl]

theorem lookup_push_rename (hsrc : d.lookup (dir, src) = some i) :
    (d.push dir (.rename src dst i)).lookup (dir, dst) = some i := by
  have h : (d.dirs dir).visible.lookup src = some i := hsrc
  simp [lookup, push, DirNode.push, NsOp.apply, h]

theorem lookup_create (h : d.lookup path = none) : (d.create path).lookup path = some d.next := by
  have hl : (d.dirs path.1).visible.lookup path.2 = none := h
  simp [lookup, create, push, DirNode.push, NsOp.apply, hl]

end Rules

end Coppice.Storage
