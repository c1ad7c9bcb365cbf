import PromScrape.Library.Numerals

set_option autoImplicit false

/-! # Durations (`PromDuration` in `src/config.rs`)

A `Duration` is its length in nanoseconds. Configured durations are written as `<number><unit>`
groups in strictly descending unit order; a bare `0` is a duration too. -/

namespace PromScrape

structure Duration where
  nanos : Nat
deriving DecidableEq, Repr

namespace Duration

def zero : Duration := ⟨0⟩

def fromMillis (millis : Nat) : Duration := ⟨millis * 1000000⟩

def fromSecs (secs : Nat) : Duration := ⟨secs * 1000000000⟩

end Duration

/-- A Prometheus-style duration. -/
structure PromDuration where
  asDuration : Duration
deriving DecidableEq, Repr

inductive PromDurationError where
  | empty
  | invalidFormat (input : String)
  | unknownUnit (input : String)
  | unitOrder (input : String)
  | numberOverflow (input : String)
deriving DecidableEq, Repr

/-- The message, given the `{:?}` form of a string. -/
def PromDurationError.message (debug : String → String) : PromDurationError → String
  | .empty => "duration string must not be empty"
  | .invalidFormat input => "invalid duration format: " ++ debug input
  | .unknownUnit input => "unknown or misplaced unit in duration: " ++ debug input
  | .unitOrder input =>
      "duration units must appear in descending order without repeats: " ++ debug input
  | .numberOverflow input => "duration number overflow: " ++ debug input

namespace PromDuration

def fromSecs (secs : Nat) : PromDuration := ⟨.fromSecs secs⟩

/-- Units in strictly descending order, with their length in milliseconds. -/
def units : List (List Char × Nat) :=
  [(['y'], 365 * 24 * 60 * 60 * 1000), (['w'], 7 * 24 * 60 * 60 * 1000),
    (['d'], 24 * 60 * 60 * 1000), (['h'], 60 * 60 * 1000), (['m'], 60 * 1000), (['s'], 1000),
    (['m', 's'], 1)]

/-- The longest unit that `rest` starts with, and its place in the table; the later one of two
equally long ones. -/
def longestUnit (rest : List Char) : Option (Nat × List Char × Nat) :=
  (units.zipIdx.filter fun unit => unit.1.1.isPrefixOf rest).foldl
    (fun longest unit =>
      match longest with
      | some (index, name, millis) =>
          if name.length ≤ unit.1.1.length then some (unit.2, unit.1) else some (index, name, millis)
      | none => some (unit.2, unit.1)) none

/-- `u64::from_str` for digits only. -/
def u64FromDigits (digits : List Char) : Option Nat :=
  (Numerals.digits? digits).filter (· < 2 ^ 64)

theorem length_dropWhile_lt {cs : List Char} (h : cs.takeWhile Char.isDigit ≠ []) :
    (cs.dropWhile Char.isDigit).length < cs.length := by
  have hlength := congrArg List.length (List.takeWhile_append_dropWhile (p := Char.isDigit) (l := cs))
  have hpos := List.length_pos_iff.mpr h
  rw [List.length_append] at hlength
  omega

/-- The loop over the groups that are left, with the unit of the last group and the milliseconds so
far. A number is a `u64`, the sum a `u128`. -/
def parseGroups (input : String) (remaining : List Char) (lastUnitIndex : Option Nat)
    (totalMs : Nat) : Except PromDurationError Nat :=
  if remaining.isEmpty then .ok totalMs
  else
    let digits := remaining.takeWhile Char.isDigit
    let rest := remaining.dropWhile Char.isDigit
    if _hdigits : digits = [] then .error (.invalidFormat input)
    else
      match u64FromDigits digits with
      | none => .error (.numberOverflow input)
      | some number =>
          match longestUnit rest with
          | none => .error (.unknownUnit input)
          | some (unitIndex, unit, msPerUnit) =>
              if lastUnitIndex.any (unitIndex ≤ ·) then .error (.unitOrder input)
              else if 2 ^ 128 ≤ number * msPerUnit then .error (.numberOverflow input)
              else if 2 ^ 128 ≤ totalMs + number * msPerUnit then .error (.numberOverflow input)
              else
                parseGroups input (rest.drop unit.length) (some unitIndex)
                  (totalMs + number * msPerUnit)
termination_by remaining.length
decreasing_by
  have hrest := length_dropWhile_lt _hdigits
  rw [List.length_drop]
  omega

/-- Parse a Prometheus duration string. -/
def parse (input : String) : Except PromDurationError PromDuration :=
  if input.isEmpty then .error .empty
  else if input = "0" then .ok ⟨.zero⟩
  else
    match parseGroups input input.toList none 0 with
    | .error e => .error e
    | .ok totalMs =>
        if 2 ^ 64 ≤ totalMs then .error (.numberOverflow input)
        else .ok ⟨.fromMillis totalMs⟩

end PromDuration

end PromScrape
