/-
  Coppice.Core.Text

  Bounds on the free text a job carries (`metadata.rs`, `env.rs` and `entity_ref.rs`
  of `coppice-core`).  Lengths are in bytes of UTF-8.
-/

import Coppice.Lib.OrdMap
import Mathlib.Data.String.Basic

namespace Coppice.Core

open Lib List

/-- Text to text, in key order. -/
abbrev TextMap : Type := OrdMap String String

def isAsciiAlphanumeric (c : Char) : Bool :=
  ('a' ≤ c && c ≤ 'z') || ('A' ≤ c && c ≤ 'Z') || ('0' ≤ c && c ≤ '9')

def isAsciiAlphabetic (c : Char) : Bool := ('a' ≤ c && c ≤ 'z') || ('A' ≤ c && c ≤ 'Z')

/-- Unicode `White_Space`. -/
def isWhiteSpace (c : Char) : Bool :=
  let n := c.toNat
  (9 ≤ n && n ≤ 13) || n = 0x20 || n = 0x85 || n = 0xA0 || n = 0x1680 ||
    (0x2000 ≤ n && n ≤ 0x200A) || n = 0x2028 || n = 0x2029 || n = 0x202F || n = 0x205F ||
    n = 0x3000

/-- `?` over a list: the first error wins. -/
def forAll {ε α : Type*} (check : α → Except ε Unit) : List α → Except ε Unit
  | [] => .ok ()
  | a :: rest =>
    match check a with
    | .ok () => forAll check rest
    | .error e => .error e

/-! ## Metadata -/

inductive MetadataError where
  | tooManyKeys (count : Nat)
  | keyLength (key : String) (len : Nat)
  | keyCharset (key : String)
  | valueTooLarge (key : String) (size : Nat)
  deriving DecidableEq

namespace Metadata

def maxKeys : Nat := 64
def maxKeyBytes : Nat := 64
def maxValueBytes : Nat := 1024

def isKeyChar (c : Char) : Bool :=
  isAsciiAlphanumeric c || c = '.' || c = '_' || c = '-' || c = '/' || c = ':'

def validateKey (key : String) : Except MetadataError Unit :=
  if key.utf8ByteSize = 0 ∨ maxKeyBytes < key.utf8ByteSize then
    .error (.keyLength key key.utf8ByteSize)
  else if !key.toList.all isKeyChar then .error (.keyCharset key)
  else .ok ()

def validate (metadata : TextMap) : Except MetadataError Unit :=
  if maxKeys < metadata.entries.length then .error (.tooManyKeys metadata.entries.length)
  else
    forAll (fun e =>
      match validateKey e.1 with
      | .error err => .error err
      | .ok () =>
        if maxValueBytes < e.2.utf8ByteSize then .error (.valueTooLarge e.1 e.2.utf8ByteSize)
        else .ok ()) metadata.entries

end Metadata

/-! ## Environment -/

inductive EnvError where
  | tooManyVars (count : Nat)
  | nameLength (name : String) (len : Nat)
  | nameCharset (name : String)
  | valueTooLarge (name : String) (size : Nat)
  | valueNul (name : String)
  | tooLarge (total : Nat)
  | reservedName (name : String)
  deriving DecidableEq

namespace Env

def maxVars : Nat := 64
def maxNameBytes : Nat := 128
def maxValueBytes : Nat := 4096
def maxTotalBytes : Nat := 32 * 1024
def reservedPrefix : String := "COPPICE_"

def isNameTail (c : Char) : Bool := isAsciiAlphanumeric c || c = '_'

def isPortableName : List Char → Bool
  | [] => false
  | c :: rest => (isAsciiAlphabetic c || c = '_') && rest.all isNameTail

def validateName (name : String) : Except EnvError Unit :=
  if name.utf8ByteSize = 0 ∨ maxNameBytes < name.utf8ByteSize then
    .error (.nameLength name name.utf8ByteSize)
  else if reservedPrefix.toList.isPrefixOf name.toList then .error (.reservedName name)
  else if !isPortableName name.toList then .error (.nameCharset name)
  else .ok ()

def validate (env : TextMap) : Except EnvError Unit :=
  if maxVars < env.entries.length then .error (.tooManyVars env.entries.length)
  else
    let check := forAll (fun (e : String × String) =>
      match validateName e.1 with
      | .error err => .error err
      | .ok () =>
        if maxValueBytes < e.2.utf8ByteSize then .error (.valueTooLarge e.1 e.2.utf8ByteSize)
        else if e.2.toList.contains (Char.ofNat 0) then .error (.valueNul e.1)
        else .ok ()) env.entries
    match check with
    | .error err => .error err
    | .ok () =>
      let total := (env.entries.map fun e => e.1.utf8ByteSize + e.2.utf8ByteSize).sum
      if maxTotalBytes < total then .error (.tooLarge total) else .ok ()

end Env

/-! ## Quota entity names -/

/-- Why a quota entity name is refused. -/
inductive SegmentFault where
  | empty | tooLong | badStart | badChar | isEntityId
  deriving DecidableEq

structure InvalidSegment where
  input : List Char
  fault : SegmentFault
  deriving DecidableEq

namespace Segment

def maxSegmentLen : Nat := 63

def isHexDigit (c : Char) : Bool :=
  ('0' ≤ c && c ≤ '9') || ('a' ≤ c && c ≤ 'f') || ('A' ≤ c && c ≤ 'F')

/-- The two spellings of a UUID whose characters a name may contain: 32 hex digits, or
    8-4-4-4-12 with dashes.  `Uuid::try_parse` takes two more, in braces and behind a colon. -/
def isUuid (s : List Char) : Bool :=
  (s.length = 32 && s.all isHexDigit) ||
    (s.length = 36 &&
      s.zipIdx.all fun ci =>
        if ci.2 = 8 ∨ ci.2 = 13 ∨ ci.2 = 18 ∨ ci.2 = 23 then ci.1 = '-' else isHexDigit ci.1)

/-- `segment.parse::<QuotaEntityId>().is_ok()`. -/
def isEntityId (s : List Char) : Bool := "quota-".toList.isPrefixOf s && isUuid (s.drop 6)

def isNameChar (c : Char) : Bool := isAsciiAlphanumeric c || c = '.' || c = '_' || c = '-'

def fault (segment : String) : Option SegmentFault :=
  match segment.toList with
  | [] => some .empty
  | first :: rest =>
    if maxSegmentLen < segment.utf8ByteSize then some .tooLong
    else if !isAsciiAlphanumeric first then some .badStart
    else if !(first :: rest).all isNameChar then some .badChar
    else if isEntityId (first :: rest) then some .isEntityId
    else none

def validate (segment : String) : Except InvalidSegment Unit :=
  match fault segment with
  | some f => .error ⟨segment.toList.take 80, f⟩
  | none => .ok ()

/-- The characters and the length of a name. -/
theorem validate_ok {segment : String} (h : validate segment = .ok ()) :
    segment.toList ≠ [] ∧ ∀ c ∈ segment.toList, isNameChar c = true := by
  unfold validate fault at h
  cases hchars : segment.toList with
  | nil => simp [hchars] at h
  | cons first rest =>
    rw [hchars] at h
    simp only at h
    split at h
    · cases h
    · rename_i hfault
      split_ifs at hfault with _ _ hall
      refine ⟨cons_ne_nil first rest, fun c hc => ?_⟩
      simp only [Bool.not_eq_true', Bool.not_eq_false] at hall
      exact all_eq_true.mp hall c hc

end Segment

theorem forAll_ok_iff {ε α : Type*} {check : α → Except ε Unit} {l : List α} :
    forAll check l = .ok () ↔ ∀ a ∈ l, check a = .ok () := by
  induction l with
  | nil => simp [forAll]
  | cons a rest ih =>
    rw [forall_mem_cons, ← ih]
    cases ha : check a with
    | ok u => simp [forAll, ha]
    | error e => simp [forAll, ha]

/-! ## Quota entity paths -/

inductive ParsePathError where
  | empty
  | segment (input : List Char) (segment : InvalidSegment)
  deriving DecidableEq

def pathSeparator : Char := '/'

/-- `str::split` at the separator. -/
def splitPath (text : String) : List String := (text.toList.splitOn pathSeparator).map String.ofList

/-- Names joined by the separator. -/
def joinPath (names : List String) : String := (String.singleton pathSeparator).intercalate names

/-- A path whose segments all follow the grammar. -/
structure QuotaEntityPath where
  text : String
  valid : ∀ segment ∈ splitPath text, Segment.validate segment = .ok ()

namespace QuotaEntityPath

def segments (path : QuotaEntityPath) : List String := splitPath path.text

def fromStr (s : String) : Except ParsePathError QuotaEntityPath :=
  if s = "" then .error .empty
  else
    match h : forAll (fun segment =>
        (Segment.validate segment).mapError (.segment (s.toList.take 200))) (splitPath s) with
    | .error e => .error e
    | .ok () => .ok ⟨s, fun segment hmem => by
        have hcheck := forAll_ok_iff.mp h segment hmem
        cases hv : Segment.validate segment with
        | ok u => rfl
        | error e =>
          rw [hv] at hcheck
          cases hcheck⟩

/-- Splitting what was joined from names gives the names. -/
theorem splitPath_joinPath {names : List String} (hne : names ≠ [])
    (hvalid : ∀ name ∈ names, Segment.validate name = .ok ()) :
    splitPath (joinPath names) = names := by
  have hsep : ∀ l ∈ names.map String.toList, pathSeparator ∉ l := by
    intro l hl hmem
    obtain ⟨name, hname, rfl⟩ := mem_map.mp hl
    have hchar := (Segment.validate_ok (hvalid name hname)).2 _ hmem
    revert hchar
    decide
  have hne' : names.map String.toList ≠ [] := by simpa using hne
  unfold splitPath joinPath
  rw [String.toList_intercalate, String.toList_singleton, splitOn_intercalate _ hsep hne', map_map]
  conv_rhs => rw [← map_id names]
  exact map_congr_left fun name _ => String.ofList_toList

/-- A path joined from names parses, and has them as its segments. -/
theorem fromStr_joinPath {names : List String} (hne : names ≠ [])
    (hvalid : ∀ name ∈ names, Segment.validate name = .ok ()) :
    ∃ path, fromStr (joinPath names) = .ok path ∧ path.segments = names := by
  have hsplit := splitPath_joinPath hne hvalid
  have htext : joinPath names ≠ "" := by
    intro h
    rw [h] at hsplit
    have hempty : names = [""] := hsplit.symm
    have hbad := hvalid "" (by rw [hempty]; exact mem_singleton.mpr rfl)
    cases hbad
  have hall : forAll (fun segment => (Segment.validate segment).mapError
      (ParsePathError.segment ((joinPath names).toList.take 200))) (splitPath (joinPath names)) =
      .ok () := by
    rw [hsplit]
    refine forAll_ok_iff.mpr fun name hname => ?_
    rw [hvalid name hname]
    rfl
  refine ⟨⟨joinPath names, by rw [hsplit]; exact hvalid⟩, ?_, hsplit⟩
  unfold fromStr
  rw [if_neg htext]
  split
  · rename_i e he
    rw [hall] at he
    cases he
  · rfl

theorem text_of_fromStr {s : String} {path : QuotaEntityPath} (h : fromStr s = .ok path) :
    path.text = s := by
  unfold fromStr at h
  split_ifs at h
  split at h
  · cases h
  · cases h
    rfl

end QuotaEntityPath

end Coppice.Core
