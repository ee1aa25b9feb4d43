import Lockstep.Numeral.Power

/-!
# Binary floating-point numbers of 64 bits

A `Binary64` is `± m · 2 ^ e` in canonical form, an infinity, or the one value that is no
number.  Canonical means `m < 2 ^ 53` and `2 ^ 52 ≤ m` unless `e = -1074`, so that equal
numbers of equal sign have equal parts.  All arithmetic is exact: a number is a ratio of
integers, and `ofRatio` rounds a ratio to the nearest canonical number, a tie to the even
mantissa.
-/

namespace Lockstep

/-- A floating-point number of 64 bits. -/
inductive Binary64
  | finite (negative : Bool) (mantissa : Nat) (exponent : Int)
  | infinite (negative : Bool)
  | nan
  deriving DecidableEq, Repr

/-- The quotient rounded to the nearest integer, a tie to the even one. -/
def roundDiv (num den : Nat) : Nat :=
  let q := num / den
  let r := num % den
  if 2 * r < den then q
  else if den < 2 * r then q + 1
  else if q % 2 == 0 then q else q + 1

namespace Binary64

/-- The least exponent. -/
def minExponent : Int := -1074

/-- The greatest exponent. -/
def maxExponent : Int := 971

/-- Zero of either sign. -/
def zero (negative : Bool) : Binary64 := .finite negative 0 minExponent

/-- `num / den / 2 ^ e` as a ratio. -/
def scale (num den : Nat) (e : Int) : Nat × Nat :=
  if 0 ≤ e then (num, den * twoTo e.toNat) else (num * twoTo (-e).toNat, den)

/-- The exponent of the canonical form of `num / den`: the greatest at which the mantissa still
has 53 bits, but at least the least exponent. -/
def exponentOf (num den : Nat) : Int :=
  let k : Int := Int.ofNat num.log2 - Int.ofNat den.log2
  let s := scale num den k
  let e := if s.1 < s.2 then k - 53 else k - 52
  if e < minExponent then minExponent else e

/-- The number nearest to `± num / den`, where `den` is positive. -/
def ofRatio (negative : Bool) (num den : Nat) : Binary64 :=
  if num == 0 then zero negative
  else
    let e := exponentOf num den
    let s := scale num den e
    let m := roundDiv s.1 s.2
    let m' := if m == twoTo 53 then twoTo 52 else m
    let e' := if m == twoTo 53 then e + 1 else e
    if maxExponent < e' then .infinite negative
    else if m' == 0 then zero negative
    else .finite negative m' e'

/-- The number nearest to `± digits · 10 ^ exponent`. -/
def ofScientific (negative : Bool) (digits : Nat) (exponent : Int) : Binary64 :=
  if 0 ≤ exponent then
    -- Beyond these bounds the value is infinite or zero whatever the digits.
    if digits == 0 then zero negative
    else if 400 < exponent then .infinite negative
    else ofRatio negative (digits * tenTo exponent.toNat) 1
  else if exponent + Int.ofNat (Nat.log2 digits) < -1500 then zero negative
  else ofRatio negative digits (tenTo (-exponent).toNat)

/-- The magnitude `m · 2 ^ e` as a ratio with a positive denominator. -/
def magnitude (m : Nat) (e : Int) : Nat × Nat :=
  if 0 ≤ e then (m * twoTo e.toNat, 1) else (m, twoTo (-e).toNat)

/-- Whether the sign is negative. -/
def isNegative : Binary64 → Bool
  | .finite s _ _ => s
  | .infinite s => s
  | .nan => false

/-- Whether it is a number that is not infinite. -/
def isFinite : Binary64 → Bool
  | .finite .. => true
  | _ => false

/-- An exact value: a ratio of integers, or an infinity. -/
inductive Extended
  | ratio (num : Int) (den : Nat)
  | infinite (negative : Bool)
  deriving DecidableEq, Repr

/-- The exact value of a number. -/
def value? : Binary64 → Option Extended
  | .finite s m e =>
    let r := magnitude m e
    some (.ratio (if s then - Int.ofNat r.1 else Int.ofNat r.1) r.2)
  | .infinite s => some (.infinite s)
  | .nan => none

/-- The order of exact values. -/
def Extended.compare : Extended → Extended → Ordering
  | .ratio a b, .ratio c d =>
    let x := a * Int.ofNat d
    let y := c * Int.ofNat b
    if x < y then .lt else if x == y then .eq else .gt
  | .ratio .., .infinite s => if s then .gt else .lt
  | .infinite s, .ratio .. => if s then .lt else .gt
  | .infinite s, .infinite t => if s == t then .eq else if s then .lt else .gt

/-- The integer part, towards zero, and whether nothing was cut off. -/
def truncate (m : Nat) (e : Int) : Nat × Bool :=
  let r := magnitude m e
  (r.1 / r.2, r.1 % r.2 == 0)

/-- The number of opposite sign. -/
def negate : Binary64 → Binary64
  | .finite s m e => .finite (!s) m e
  | .infinite s => .infinite (!s)
  | .nan => .nan

/-- The number nearest to the `n`-fold of a number, for positive `n`. -/
def times (n : Nat) : Binary64 → Binary64
  | .finite s m e =>
    let r := magnitude m e
    ofRatio s (n * r.1) r.2
  | x => x

/-- The number nearest to a sum. -/
def add : Binary64 → Binary64 → Binary64
  | .finite s m e, .finite t n f =>
    let x := magnitude m e
    let y := magnitude n f
    let a := Int.ofNat (x.1 * y.2)
    let b := Int.ofNat (y.1 * x.2)
    let sum := (if s then -a else a) + (if t then -b else b)
    if sum == 0 then zero (s && t) else ofRatio (sum < 0) sum.natAbs (x.2 * y.2)
  | .infinite s, .infinite t => if s == t then .infinite s else .nan
  | .nan, _ => .nan
  | _, .nan => .nan
  | .infinite s, .finite .. => .infinite s
  | .finite .., .infinite t => .infinite t

@[simp] theorem negate_negate (x : Binary64) : x.negate.negate = x := by
  cases x <;> simp [negate]

/-- The number nearest to the given one rounded to `places` decimal places, a tie between two
decimals going to the even one. -/
def roundPlaces (places : Nat) : Binary64 → Binary64
  | .finite s m e =>
    let r := magnitude m e
    ofRatio s (roundDiv (r.1 * tenTo places) r.2) (tenTo places)
  | x => x

end Binary64

end Lockstep
