import Mathlib

set_option autoImplicit false

/-! # The process-internal hasher (`src/hash.rs`)

An FxHash-style hasher that folds eight bytes per multiplication. Series identities are hashed with
it for staleness tracking. -/

namespace PromScrape

structure FxHasher where
  hash : UInt64
deriving DecidableEq, Repr

namespace FxHasher

def default : FxHasher := ⟨0⟩

def seed : UInt64 := 0x517cc1b727220a95

/-- `u64::rotate_left(5)`. -/
def rotateLeft5 (x : UInt64) : UInt64 := (x <<< 5) ||| (x >>> 59)

def add (h : FxHasher) (word : UInt64) : FxHasher := ⟨(rotateLeft5 h.hash ^^^ word) * seed⟩

/-- `u64::from_le_bytes` of up to eight bytes, padded with zeros. -/
def leWord (bytes : List UInt8) : UInt64 :=
  UInt64.ofNat (bytes.foldr (fun b acc => b.toNat + 256 * acc) 0)

/-- One `add` for each full block of eight bytes and one for a non-empty tail. -/
def addBlocks (h : FxHasher) : List UInt8 → FxHasher
  | b0 :: b1 :: b2 :: b3 :: b4 :: b5 :: b6 :: b7 :: rest =>
      (h.add (leWord [b0, b1, b2, b3, b4, b5, b6, b7])).addBlocks rest
  | [] => h
  | rest => h.add (leWord rest)

/-- Fold in the blocks, then the length. -/
def write (h : FxHasher) (bytes : List UInt8) : FxHasher :=
  (h.addBlocks bytes).add (UInt64.ofNat bytes.length)

def finish (h : FxHasher) : UInt64 := h.hash

end FxHasher

end PromScrape
