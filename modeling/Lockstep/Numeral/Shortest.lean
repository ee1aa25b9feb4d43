import Lockstep.Numeral.Binary64

/-!
# The digits of a floating-point number

`Binary64.shortest m e` is the shortest decimal that reads back as `m · 2 ^ e`, and among those
the nearest: the numbers that round to `m · 2 ^ e` form an interval, its ends included when `m`
is even, and for each count of digits from one up only the two neighbours of the value on that
decimal grid are tried.  `Binary64.significant` keeps a chosen count of digits instead.

A decimal is `digits · 10 ^ exponent`.
-/

namespace Lockstep

/-- `digits · 10 ^ exponent`. -/
structure Decimal where
  digits : Nat
  exponent : Int
  deriving DecidableEq, Repr

namespace Decimal

/-- How many digits a natural number has; zero has one. -/
def width (n : Nat) : Nat := (Nat.toDigits 10 n).length

/-- Drop up to `fuel` final zeros. -/
def stripZeros : (fuel : Nat) → Decimal → Decimal
  | 0, d => d
  | k + 1, d =>
    if d.digits != 0 && d.digits % 10 == 0 then stripZeros k ⟨d.digits / 10, d.exponent + 1⟩
    else d

/-- The same value without final zeros. -/
def normal (d : Decimal) : Decimal :=
  if d.digits == 0 then ⟨0, 0⟩ else stripZeros (width d.digits) d

/-- The power of ten of the first digit. -/
def leading (d : Decimal) : Int := d.exponent + Int.ofNat (width d.digits) - 1

end Decimal

namespace Binary64

/-- `num / den / 10 ^ k` as a ratio. -/
def scaleTen (num den : Nat) (k : Int) : Nat × Nat :=
  if 0 ≤ k then (num, den * tenTo k.toNat) else (num * tenTo (-k).toNat, den)

/-- The power of ten of the first digit of a positive ratio. -/
def leadingPower (num den : Nat) : Int :=
  let k : Int := Int.ofNat (Decimal.width num) - Int.ofNat (Decimal.width den)
  let s := scaleTen num den k
  if s.1 < s.2 then k - 1 else k

/-- The interval of the ratios that round to `m · 2 ^ e`, over the common denominator that is
the last component: low end, value, high end, denominator. -/
def interval (m : Nat) (e : Int) : Nat × Nat × Nat × Nat :=
  -- A quarter of the unit in the last place is the common grid.
  let r := magnitude 1 (e - 2)
  let low := if m == twoTo 52 && minExponent < e then 4 * m - 1 else 4 * m - 2
  (low * r.1, 4 * m * r.1, (4 * m + 2) * r.1, r.2)

/-- The decimal with unit `10 ^ k` nearest to the value that lies in the interval, if any. -/
def gridPoint? (closed : Bool) (low mid high den : Nat) (k : Int) : Option Nat :=
  let s := scaleTen mid den k
  let inside (d : Nat) : Bool :=
    -- `d · 10 ^ k` against the ends
    let p := if 0 ≤ k then (d * tenTo k.toNat * den, 1) else (d * den, tenTo (-k).toNat)
    if closed then low * p.2 ≤ p.1 && p.1 ≤ high * p.2
    else low * p.2 < p.1 && p.1 < high * p.2
  let near := roundDiv s.1 s.2
  let floor := s.1 / s.2
  let far := if near == floor then floor + 1 else floor
  if inside near then some near
  else if inside far then some far
  else none

/-- Try the decimal grids of `n`, `n + 1`, … digits. -/
def shortestFrom (closed : Bool) (low mid high den : Nat) (lead : Int) :
    (fuel : Nat) → (n : Nat) → Decimal
  | 0, n =>
    let k := lead - Int.ofNat n + 1
    let s := scaleTen mid den k
    ⟨roundDiv s.1 s.2, k⟩
  | f + 1, n =>
    let k := lead - Int.ofNat n + 1
    match gridPoint? closed low mid high den k with
    | some d => ⟨d, k⟩
    | none => shortestFrom closed low mid high den lead f (n + 1)

/-- The shortest decimal that reads back as `m · 2 ^ e`. -/
def shortest (m : Nat) (e : Int) : Decimal :=
  if m == 0 then ⟨0, 0⟩
  else
    let i := interval m e
    let r := magnitude m e
    (shortestFrom (m % 2 == 0) i.1 i.2.1 i.2.2.1 i.2.2.2 (leadingPower r.1 r.2) 17 1).normal

/-- The value `m · 2 ^ e` rounded to `n` significant digits, a tie to the even one. -/
def significant (n : Nat) (m : Nat) (e : Int) : Decimal :=
  if m == 0 then ⟨0, 0⟩
  else
    let r := magnitude m e
    let k := leadingPower r.1 r.2 - Int.ofNat n + 1
    let s := scaleTen r.1 r.2 k
    ⟨roundDiv s.1 s.2, k⟩

end Binary64

end Lockstep
