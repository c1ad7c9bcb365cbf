import PromScrape.Implementation.Duration

set_option autoImplicit false

/-! # Durations as they are written

A duration is a sequence of groups, each a decimal number and a unit, every unit shorter than the one
before it. Nothing here refers to how the parser finds the groups. -/

namespace PromScrape

inductive TimeUnit where
  | year
  | week
  | day
  | hour
  | minute
  | second
  | milli
deriving DecidableEq, Repr

namespace TimeUnit

def text : TimeUnit → List Char
  | year => ['y']
  | week => ['w']
  | day => ['d']
  | hour => ['h']
  | minute => ['m']
  | second => ['s']
  | milli => ['m', 's']

/-- The length in milliseconds; a year has 365 days. -/
def millis : TimeUnit → Nat
  | year => 365 * 24 * 60 * 60 * 1000
  | week => 7 * 24 * 60 * 60 * 1000
  | day => 24 * 60 * 60 * 1000
  | hour => 60 * 60 * 1000
  | minute => 60 * 1000
  | second => 1000
  | milli => 1

/-- The place in the order from the longest to the shortest. -/
def index : TimeUnit → Nat
  | year => 0
  | week => 1
  | day => 2
  | hour => 3
  | minute => 4
  | second => 5
  | milli => 6

theorem millis_lt_iff (u v : TimeUnit) : v.millis < u.millis ↔ u.index < v.index := by
  cases u <;> cases v <;> decide

theorem index_lt (u : TimeUnit) : u.index < 7 := by
  cases u <;> decide

theorem millis_le (u : TimeUnit) : u.millis ≤ 2 ^ 35 := by
  cases u <;> decide

end TimeUnit

/-- A number and its unit. -/
structure DurationGroup where
  digits : List Char
  unit : TimeUnit
  nonempty : digits ≠ []
  decimal : ∀ c ∈ digits, c.isDigit = true

namespace DurationGroup

def number (g : DurationGroup) : Nat := Nat.ofDigitChars 10 g.digits 0

def millis (g : DurationGroup) : Nat := g.number * g.unit.millis

def text (g : DurationGroup) : List Char := g.digits ++ g.unit.text

end DurationGroup

/-- Legal groups: each number is a `u64`, and the units get strictly shorter. -/
structure LegalGroups (groups : List DurationGroup) : Prop where
  number_lt : ∀ g ∈ groups, g.number < 2 ^ 64
  descending : groups.Pairwise fun g h => h.unit.millis < g.unit.millis

def totalMillis (groups : List DurationGroup) : Nat := (groups.map DurationGroup.millis).sum

end PromScrape
