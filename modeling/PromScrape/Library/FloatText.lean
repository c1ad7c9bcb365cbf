import PromScrape.Library.Float64

set_option autoImplicit false

/-! # Writing doubles in decimal

Rust's `Display` and `LowerExp` for `f64`: the shortest decimal that reads back as the same double,
and among those the one closest to it. -/

namespace FloatText

/-! ## Shortest digits -/

/-- The number of decimal digits. -/
def decimals (n : Nat) : Nat := (Nat.toDigits 10 n).length

/-- The largest `p` with `10 ^ p ≤ num / den`, for positive `num` and `den`. -/
def magnitude (num den : Nat) : Int :=
  if den ≤ num then (decimals (num / den) : Int) - 1 else -(decimals ((den - 1) / num) : Int)

/-- `num / den / 10 ^ s`, rounded down. -/
def scaleDown (num den : Nat) (s : Int) : Nat :=
  if 0 ≤ s then num / (den * 10 ^ s.toNat) else num * 10 ^ (-s).toNat / den

/-- `q * 10 ^ s` is at least as close to `num / den` as `(q + 1) * 10 ^ s`. -/
def lowerIsCloser (num den q : Nat) (s : Int) : Bool :=
  if 0 ≤ s then 2 * num ≤ (2 * q + 1) * den * 10 ^ s.toNat
  else 2 * num * 10 ^ (-s).toNat ≤ (2 * q + 1) * den

/-- `q * 10 ^ s` reads back as the double with these bits. -/
def readsBack (bits : UInt64) (q : Nat) (s : Int) : Bool :=
  (Float.Model.ofScientific q s).toBits == bits

/-- Try one more digit in each round; seventeen always suffice. -/
def shortestFrom (bits : UInt64) (num den : Nat) (p : Int) : Nat → Nat → Nat × Int
  | 0, k => (scaleDown num den (p + 1 - k), p + 1 - k)
  | n + 1, k =>
      let s := p + 1 - k
      let q := scaleDown num den s
      let low := readsBack bits q s
      let high := readsBack bits (q + 1) s
      if low && (!high || lowerIsCloser num den q s) then (q, s)
      else if high then (q + 1, s)
      else shortestFrom bits num den p n (k + 1)

/-- Digits without trailing zeros and the power of ten they are scaled by. -/
def trimZeros (q : Nat) (s : Int) : List Char × Int :=
  let digits := Nat.toDigits 10 q
  let kept := (digits.reverse.dropWhile (· == '0')).reverse
  (kept, s + (digits.length - kept.length : Nat))

/-- The shortest digits of a positive finite double. -/
def shortest (bits : UInt64) (mantissa : Nat) (exponent : Int) : List Char × Int :=
  let (num, den) :=
    if 0 ≤ exponent then (mantissa * 2 ^ exponent.toNat, 1)
    else (mantissa, 2 ^ (-exponent).toNat)
  let (q, s) := shortestFrom bits num den (magnitude num den) 17 1
  trimZeros q s

/-! ## Formats -/

def signText (x : F64) : String := if x.bits &&& 0x8000000000000000 = 0 then "" else "-"

/-- The digits of the magnitude of a finite double; zero is the digit `0`. -/
def digitsOf (x : F64) : List Char × Int :=
  match (Float.Model.ofBits x.bits).unpack with
  | .finite _ mantissa exponent _ =>
      shortest (x.bits &&& 0x7fffffffffffffff) mantissa exponent
  | _ => (['0'], 0)

/-- `format!("{x:e}")` of a finite double. -/
def lowerExp (x : F64) : String :=
  let (digits, s) := digitsOf x
  let fraction := digits.drop 1
  let point := if fraction = [] then [] else '.' :: fraction
  signText x ++ String.ofList (digits.take 1 ++ point) ++ "e" ++
    toString (s + (digits.length : Int) - 1)

/-- `format!("{x}")` of a finite double. -/
def display (x : F64) : String :=
  let (digits, s) := digitsOf x
  let whole := (digits.length : Int) + s
  let text :=
    if 0 ≤ s then digits ++ List.replicate s.toNat '0'
    else if 0 < whole then digits.take whole.toNat ++ '.' :: digits.drop whole.toNat
    else '0' :: '.' :: (List.replicate (-whole).toNat '0' ++ digits)
  signText x ++ String.ofList text

/-- `format!("{x}")` of any double. -/
def toText (x : F64) : String :=
  match (Float.Model.ofBits x.bits).unpack with
  | .notANumber => "NaN"
  | .infinity _ => signText x ++ "inf"
  | _ => display x

end FloatText
