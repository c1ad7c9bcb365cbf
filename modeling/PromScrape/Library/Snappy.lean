import Mathlib

set_option autoImplicit false

/-! # Snappy blocks of one literal

A compressor looks for four bytes that it has seen before. It does not search a block of fewer than 17
bytes, nor the last 14 bytes of a longer one. What has no copies becomes one literal: the length of the
block, the tag of the literal, and the bytes. Other blocks are not covered. -/

namespace Snappy

/-- There is nothing to copy, and the tag holds the length. -/
def isLiteral (bytes : List UInt8) : Bool :=
  bytes.length < 17 || bytes.length ≤ 60 &&
    decide ((List.range (bytes.length - 14)).map fun i => (bytes.drop i).take 4).Nodup

def compressLiteral (bytes : List UInt8) : Option (List UInt8) :=
  if bytes.isEmpty then some [0]
  else if isLiteral bytes then
    some (UInt8.ofNat bytes.length :: UInt8.ofNat (4 * (bytes.length - 1)) :: bytes)
  else none

def decompressLiteral : List UInt8 → Option (List UInt8)
  | [0] => some []
  | n :: tag :: bytes =>
      if n.toNat = bytes.length ∧ tag.toNat = 4 * (bytes.length - 1) then some bytes else none
  | _ => none

theorem length_le_of_isLiteral {bytes : List UInt8} (h : isLiteral bytes = true) :
    bytes.length ≤ 60 := by
  rw [isLiteral, Bool.or_eq_true, Bool.and_eq_true, decide_eq_true_iff, decide_eq_true_iff] at h
  omega

theorem decompressLiteral_of_compressLiteral {bytes compressed : List UInt8}
    (h : compressLiteral bytes = some compressed) : decompressLiteral compressed = some bytes := by
  unfold compressLiteral at h
  split_ifs at h with hempty hliteral
  · cases h
    rw [List.isEmpty_iff.mp hempty]
    rfl
  · cases h
    have hlength := length_le_of_isLiteral hliteral
    have hbyte {n : Nat} (hn : n ≤ 60 * 4) : (UInt8.ofNat n).toNat = n := by
      refine UInt8.toNat_ofNat_of_lt' ?_
      rw [UInt8.size]
      omega
    rw [decompressLiteral, if_pos ⟨hbyte (by omega), hbyte (by omega)⟩]

end Snappy
