import PromScrape.Implementation.Config

set_option autoImplicit false

/-! # Byte sizes (`PromSize::parse` in `src/config.rs`)

A size is a bare number of bytes or a sequence of `<number><unit>` components, summed. Numbers may
have a fraction; every unit is a power of 1024. Machine integers are `Nat`s with the source's range
checks. -/

namespace PromScrape

inductive PromSizeError where
  | empty
  | invalidFormat (input : String)
  | unknownUnit (input : String)
  | numberOverflow (input : String)
deriving DecidableEq, Repr

/-- The message, given the `{:?}` form of a string. -/
def PromSizeError.message (debug : String → String) : PromSizeError → String
  | .empty => "size string must not be empty"
  | .invalidFormat input => "invalid size format: " ++ debug input
  | .unknownUnit input => "unknown unit in size: " ++ debug input
  | .numberOverflow input => "size number overflow: " ++ debug input

namespace PromSize

/-- The units, with their size in bytes. -/
def units : List (List Char × Nat) :=
  [(['B'], 1), (['K', 'B'], 1024), (['K', 'i', 'B'], 1024), (['M', 'B'], 1024 ^ 2),
    (['M', 'i', 'B'], 1024 ^ 2), (['G', 'B'], 1024 ^ 3), (['G', 'i', 'B'], 1024 ^ 3),
    (['T', 'B'], 1024 ^ 4), (['T', 'i', 'B'], 1024 ^ 4), (['P', 'B'], 1024 ^ 5),
    (['P', 'i', 'B'], 1024 ^ 5), (['E', 'B'], 1024 ^ 6), (['E', 'i', 'B'], 1024 ^ 6)]

/-- The size of a unit. -/
def bytesPerUnit (unit : List Char) : Option Nat :=
  (units.find? fun known => decide (known.1 = unit)).map (·.2)

/-- `char::is_whitespace`: the property `White_Space`. -/
def isWhitespace (c : Char) : Bool :=
  let n := c.toNat
  (0x09 ≤ n && n ≤ 0x0d) || n == 0x20 || n == 0x85 || n == 0xa0 || n == 0x1680 ||
    (0x2000 ≤ n && n ≤ 0x200a) || n == 0x2028 || n == 0x2029 || n == 0x202f || n == 0x205f ||
    n == 0x3000

/-- `str::trim`. -/
def trim (s : String) : String :=
  String.ofList
    (((s.toList.dropWhile isWhitespace).reverse.dropWhile isWhitespace).reverse)

/-- The digits after a decimal point, if there is one, and what follows. -/
def splitFraction : List Char → List Char × List Char
  | '.' :: rest => (rest.takeWhile Char.isDigit, rest.dropWhile Char.isDigit)
  | rest => ([], rest)

/-- A unit runs to the next digit or decimal point. -/
def isUnitChar (c : Char) : Bool := !c.isDigit && c != '.'

/-- `u64::checked_mul` and `u64::checked_add`. -/
def checked (n : Nat) : Option Nat := if n < 2 ^ 64 then some n else none

/-- The whole part of a component in bytes; `none` on overflow. -/
def wholeBytes (whole : List Char) (bytesPerUnit : Nat) : Option Nat :=
  if whole = [] then some 0
  else (PromDuration.u64FromDigits whole).bind fun number => checked (number * bytesPerUnit)

/-- What the fraction adds to `component`; `none` on overflow. The product is a `u128`. -/
def addFraction (component : Nat) (fraction : List Char) (bytesPerUnit : Nat) : Option Nat :=
  if fraction = [] then some component
  else
    let digits := fraction.take 19
    (PromDuration.u64FromDigits digits).bind fun number =>
      (checked (number * bytesPerUnit / 10 ^ digits.length)).bind fun part =>
        checked (component + part)

theorem length_splitFraction (cs : List Char) :
    (splitFraction cs).1.length + (splitFraction cs).2.length ≤ cs.length := by
  unfold splitFraction
  split
  · next rest =>
      have hlength := congrArg List.length
        (List.takeWhile_append_dropWhile (p := Char.isDigit) (l := rest))
      rw [List.length_append] at hlength
      rw [List.length_cons]
      dsimp only
      omega
  · simp

/-- Every round takes a digit. -/
theorem length_next_lt {remaining : List Char}
    (h : ¬ (remaining.takeWhile Char.isDigit = [] ∧
      (splitFraction (remaining.dropWhile Char.isDigit)).1 = [])) :
    ((splitFraction (remaining.dropWhile Char.isDigit)).2.dropWhile isUnitChar).length <
      remaining.length := by
  have hwhole := congrArg List.length
    (List.takeWhile_append_dropWhile (p := Char.isDigit) (l := remaining))
  have hsplit := length_splitFraction (remaining.dropWhile Char.isDigit)
  have hunit := (List.dropWhile_suffix (l := (splitFraction (remaining.dropWhile Char.isDigit)).2)
    isUnitChar).length_le
  rw [List.length_append] at hwhole
  by_contra hge
  exact h ⟨List.eq_nil_of_length_eq_zero (by omega), List.eq_nil_of_length_eq_zero (by omega)⟩

/-- The loop over the components that are left, with the bytes so far. -/
def parseComponents (input : String) (remaining : List Char) (total : Nat) :
    Except PromSizeError Nat :=
  if remaining.isEmpty then .ok total
  else
    let whole := remaining.takeWhile Char.isDigit
    let fraction := (splitFraction (remaining.dropWhile Char.isDigit)).1
    let rest := (splitFraction (remaining.dropWhile Char.isDigit)).2
    if _hnumber : whole = [] ∧ fraction = [] then .error (.invalidFormat input)
    else
      match bytesPerUnit (rest.takeWhile isUnitChar) with
      | none => .error (.unknownUnit input)
      | some bytes =>
          match (wholeBytes whole bytes).bind (addFraction · fraction bytes) with
          | none => .error (.numberOverflow input)
          | some component =>
              match checked (total + component) with
              | none => .error (.numberOverflow input)
              | some total => parseComponents input (rest.dropWhile isUnitChar) total
termination_by remaining.length
decreasing_by exact length_next_lt _hnumber

/-- Parse a Prometheus size string. -/
def parse (input : String) : Except PromSizeError PromSize :=
  let input := trim input
  if input.isEmpty then .error .empty
  else if input.toList.all Char.isDigit then
    match PromDuration.u64FromDigits input.toList with
    | none => .error (.numberOverflow input)
    | some bytes => .ok ⟨UInt64.ofNat bytes⟩
  else
    match parseComponents input input.toList 0 with
    | .error e => .error e
    | .ok total => .ok ⟨UInt64.ofNat total⟩

end PromSize

end PromScrape
