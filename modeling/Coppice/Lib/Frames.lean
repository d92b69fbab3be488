/-
  Coppice.Lib.Frames

  A stream of checksummed frames, each `[len u32][crc u32][payload]`.  Written
  frames are read back (`frames_flatMap`), and a last frame cut short of its end is
  not read, whatever its checksum (`frames_torn`).
-/

import Coppice.Lib.Bytes

namespace Coppice.Lib

open List

variable {crc : Bytes → UInt32} {bytes payload rest : Bytes} {payloads : List Bytes}

/-- `[len u32][crc u32][payload]`; the length is cut to its field. -/
def frame (crc : Bytes → UInt32) (payload : Bytes) : Bytes :=
  leBytes 4 payload.length ++ (leBytes 4 (crc payload).toNat ++ payload)

/-- The first frame's payload and what follows the frame. -/
def splitFrame (crc : Bytes → UInt32) (bytes : Bytes) : Option (Bytes × Bytes) :=
  if bytes.length < 8 then none
  else
    let len := leNat (slice bytes 0 4)
    let stored := UInt32.ofNat (leNat (slice bytes 4 8))
    if bytes.length < 8 + len then none
    else
      let payload := slice bytes 8 (8 + len)
      if crc payload ≠ stored then none
      else some (payload, bytes.drop (8 + len))

theorem length_frame (crc : Bytes → UInt32) (payload : Bytes) :
    (frame crc payload).length = 8 + payload.length := by
  simp [frame]
  omega

theorem length_of_splitFrame (h : splitFrame crc bytes = some (payload, rest)) :
    rest.length < bytes.length := by
  simp only [splitFrame] at h
  split_ifs at h with h8 hlen hcrc
  cases h
  rw [length_drop]
  omega

theorem splitFrame_frame (crc : Bytes → UInt32) (h : payload.length < 2 ^ 32) (rest : Bytes) :
    splitFrame crc (frame crc payload ++ rest) = some (payload, rest) := by
  generalize hbytes : frame crc payload ++ rest = bytes
  have hsize : bytes.length = 8 + payload.length + rest.length := by
    rw [← hbytes, length_append, length_frame]
  have hlen : slice bytes 0 4 = leBytes 4 payload.length := by
    rw [← hbytes, frame, append_assoc]
    exact slice_append (b := leBytes 4 payload.length) (a := []) rfl (by simp)
  have hcrc : slice bytes 4 8 = leBytes 4 (crc payload).toNat := by
    rw [← hbytes, frame, append_assoc, append_assoc]
    exact slice_append (by simp) (by simp)
  have hpayload : slice bytes 8 (8 + payload.length) = payload := by
    rw [← hbytes, frame, ← append_assoc, append_assoc]
    exact slice_append (by simp) rfl
  have hrest : bytes.drop (8 + payload.length) = rest := by
    rw [← hbytes, ← length_frame crc, drop_left]
  have hlt : payload.length < 256 ^ 4 := by omega
  have h8 : ¬ bytes.length < 8 := by omega
  have hfit : ¬ bytes.length < 8 + payload.length := by omega
  simp [splitFrame, hlen, hcrc, leNat_leBytes hlt, ofNat32_leNat_leBytes, hpayload, hrest, h8, hfit]

/-- A frame cut short of its end is no frame. -/
theorem splitFrame_torn (h : payload.length < 2 ^ 32) {k : Nat}
    (hk : k < (frame crc payload).length) : splitFrame crc ((frame crc payload).take k) = none := by
  have hsize : ((frame crc payload).take k).length = k := by
    rw [length_take]
    omega
  by_cases h8 : k < 8
  · simp [splitFrame, hsize, h8]
  · -- the header is whole, so the length it gives is the true one
    have hlen : slice ((frame crc payload).take k) 0 4 = leBytes 4 payload.length := by
      rw [slice, take_take, Nat.min_eq_left (by omega), frame]
      exact slice_append (b := leBytes 4 payload.length) (a := []) rfl (by simp)
    have hlt : payload.length < 256 ^ 4 := by omega
    have hshort : k < 8 + payload.length := by
      rwa [length_frame] at hk
    simp [splitFrame, hsize, h8, hlen, leNat_leBytes hlt, hshort]

/-- The payloads of the longest well-formed prefix. -/
def frames (crc : Bytes → UInt32) (bytes : Bytes) : List Bytes :=
  match _h : splitFrame crc bytes with
  | none => []
  | some (payload, rest) => payload :: frames crc rest
  termination_by bytes.length
  decreasing_by exact length_of_splitFrame _h

theorem frames_of_none (h : splitFrame crc bytes = none) : frames crc bytes = [] := by
  rw [frames]
  split
  · rfl
  · next payload rest hsome => rw [h] at hsome; cases hsome

theorem frames_of_some (h : splitFrame crc bytes = some (payload, rest)) :
    frames crc bytes = payload :: frames crc rest := by
  rw [frames]
  split
  · next hnone => rw [h] at hnone; cases hnone
  · next payload' rest' hsome =>
      rw [h] at hsome
      cases hsome
      rfl

@[simp] theorem frames_nil : frames crc [] = [] := frames_of_none rfl

theorem frames_flatMap (crc : Bytes → UInt32) (h : ∀ p ∈ payloads, p.length < 2 ^ 32)
    (rest : Bytes) :
    frames crc (payloads.flatMap (frame crc) ++ rest) = payloads ++ frames crc rest := by
  induction payloads with
  | nil => rfl
  | cons p ps ih =>
    have hp := splitFrame_frame crc (h p mem_cons_self)
      (ps.flatMap (frame crc) ++ rest)
    rw [flatMap_cons, append_assoc, frames_of_some hp, ih fun q hq => h q (mem_cons_of_mem _ hq)]
    rfl

/-- Frames followed by a prefix of one more: the prefix counts only if it is whole. -/
theorem frames_torn (crc : Bytes → UInt32) (h : ∀ p ∈ payloads, p.length < 2 ^ 32)
    (hp : payload.length < 2 ^ 32) (k : Nat) :
    frames crc (payloads.flatMap (frame crc) ++ (frame crc payload).take k) = payloads ∨
      frames crc (payloads.flatMap (frame crc) ++ (frame crc payload).take k) =
        payloads ++ [payload] := by
  rw [frames_flatMap crc h]
  rcases Nat.lt_or_ge k (frame crc payload).length with hk | hk
  · left
    rw [frames_of_none (splitFrame_torn hp hk), append_nil]
  · right
    have hwhole := splitFrame_frame crc hp []
    rw [append_nil] at hwhole
    rw [take_of_length_le hk, frames_of_some hwhole, frames_nil]

end Coppice.Lib
