import Mathlib

set_option autoImplicit false

/-! # IEEE 754 binary64, as bit patterns

A double is its 64 bits: transport code moves the pattern unchanged and only ever asks whether the
value is a zero of either sign. -/

/-- A double, by its bit pattern (so NaN payloads and the sign of zero are kept). -/
structure F64 where
  bits : UInt64
deriving DecidableEq, Repr

namespace F64

/-- Positive zero. -/
def zero : F64 := ⟨0⟩

/-- Negative zero. -/
def negZero : F64 := ⟨0x8000000000000000⟩

def one : F64 := ⟨0x3ff0000000000000⟩

/-- Positive infinity. -/
def infinity : F64 := ⟨0x7ff0000000000000⟩

/-- The quiet NaN with an empty payload. -/
def nan : F64 := ⟨0x7ff8000000000000⟩

/-- Flip the sign bit. -/
def neg (x : F64) : F64 := ⟨x.bits ^^^ 0x8000000000000000⟩

/-- Floating-point equality with zero: true of both zeros and of nothing else. -/
def isZero (x : F64) : Bool := x == zero || x == negZero

/-- The value with the sign of a zero forgotten. -/
def unsignZero (x : F64) : F64 := if x.isZero then zero else x

theorem unsignZero_of_isZero {x : F64} (h : x.isZero = true) : x.unsignZero = zero := by
  simp [unsignZero, h]

theorem unsignZero_of_not_isZero {x : F64} (h : x.isZero = false) : x.unsignZero = x := by
  simp [unsignZero, h]

end F64
