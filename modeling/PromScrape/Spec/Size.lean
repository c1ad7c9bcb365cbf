import PromScrape.Implementation.Size

set_option autoImplicit false

/-! # Byte sizes as they are written

A size component is a decimal number and a unit. It stands for the exact product, rounded down to
whole bytes; a size for the sum of its components. -/

namespace PromScrape

/-- A component: digits, possibly a point with further digits, at least one digit, and a unit. -/
structure SizeComponent where
  whole : List Char
  /-- The digits after the decimal point, if there is one. -/
  fraction : Option (List Char)
  unit : List Char × Nat
  decimal : ∀ c ∈ whole ++ fraction.getD [], c.isDigit = true
  nonempty : whole ++ fraction.getD [] ≠ []
  unit_mem : unit ∈ PromSize.units

namespace SizeComponent

def fractionDigits (c : SizeComponent) : List Char := c.fraction.getD []

def text (c : SizeComponent) : List Char :=
  c.whole ++ (c.fraction.elim [] ('.' :: ·) ++ c.unit.1)

/-- `number * unit`, rounded down. -/
def bytes (c : SizeComponent) : Nat :=
  Nat.ofDigitChars 10 (c.whole ++ c.fractionDigits) 0 * c.unit.2 / 10 ^ c.fractionDigits.length

/-- What the fraction up to its digit number `k` amounts to, in bytes: a numerator over the power of
    ten. -/
def fractionNumerator (c : SizeComponent) (k : Nat) : Nat :=
  Nat.ofDigitChars 10 (c.fractionDigits.take k) 0 * c.unit.2

/-- A whole number of bytes lies above the share of the first 19 fraction digits and not above that
    of all of them. -/
def CarriedByTail (c : SizeComponent) : Prop :=
  ∃ n, c.fractionNumerator 19 < n * 10 ^ (c.fractionDigits.take 19).length ∧
    n * 10 ^ c.fractionDigits.length ≤ c.fractionNumerator c.fractionDigits.length

/-- The component without the fraction digits past the 19th. -/
def dropTail (c : SizeComponent) : SizeComponent where
  whole := c.whole
  fraction := c.fraction.map (·.take 19)
  unit := c.unit
  decimal := by
    intro d hd
    apply c.decimal d
    cases hfraction : c.fraction with
    | none => simpa [hfraction] using hd
    | some f =>
        rw [hfraction] at hd
        rcases List.mem_append.mp hd with hd | hd
        · exact List.mem_append_left _ hd
        · exact List.mem_append_right _ (List.mem_of_mem_take hd)
  nonempty := by
    intro hnil
    apply c.nonempty
    cases hfraction : c.fraction with
    | none => simpa [hfraction] using hnil
    | some f => simpa [hfraction] using hnil
  unit_mem := c.unit_mem

end SizeComponent

def totalBytes (components : List SizeComponent) : Nat :=
  (components.map SizeComponent.bytes).sum

/-- A number of bytes, if it is a `u64`; a size too large otherwise. -/
def sizeOrOverflow (input : String) (bytes : Nat) : Except PromSizeError PromSize :=
  if bytes < 2 ^ 64 then .ok ⟨UInt64.ofNat bytes⟩ else .error (.numberOverflow input)

/-- What a size parser is for: components are summed exactly, bare digits are bytes, surrounding
    white space does not count, and nothing else is a size. A component that is too large makes the
    sum too large. -/
structure ReadsSize (parse : String → Except PromSizeError PromSize) (input : String) : Prop where
  components : ∀ components, components ≠ [] →
    (PromSize.trim input).toList = components.flatMap SizeComponent.text →
    parse input = sizeOrOverflow (PromSize.trim input) (totalBytes components)
  bare : ∀ digits, digits ≠ [] → (∀ c ∈ digits, c.isDigit = true) →
    (PromSize.trim input).toList = digits →
    parse input = sizeOrOverflow (PromSize.trim input) (Nat.ofDigitChars 10 digits 0)
  other : (∀ components, components ≠ [] →
      (PromSize.trim input).toList ≠ components.flatMap SizeComponent.text) →
    (∀ digits, digits ≠ [] → (∀ c ∈ digits, c.isDigit = true) →
      (PromSize.trim input).toList ≠ digits) →
    ∃ e, parse input = .error e

end PromScrape
