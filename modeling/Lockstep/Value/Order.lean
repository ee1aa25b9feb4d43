import Lockstep.Fault

/-!
# The order of values

Numbers are ordered by value, texts and byte strings by their items, lists by their first
difference, sets by inclusion.  The end mark is above every other value, whatever its kind.  All
else is not ordered, and asking is a fault.

`Value.relate` answers one relation.  `Value.least` and `Value.sort` only ask whether a later
value is lower than an earlier one, in a fixed order of questions, so that of several pairs that
are not ordered the first one asked about is the one reported.
-/

namespace Lockstep

/-- What a relation says of an order. -/
def Relation.holds : Relation → Ordering → Bool
  | .lt, o => o == .lt
  | .le, o => o != .gt
  | .gt, o => o == .gt
  | .ge, o => o != .lt

/-- The order of two byte strings. -/
def compareBytes : List UInt8 → List UInt8 → Ordering
  | [], [] => .eq
  | [], _ :: _ => .lt
  | _ :: _, [] => .gt
  | a :: r, b :: s => if a == b then compareBytes r s else if a < b then .lt else .gt

namespace Text

/-- The order of two texts by code points. -/
def compare (a b : Text) : Ordering :=
  if before a b then .lt else if a == b then .eq else .gt

end Text

namespace Value

/-- A relation between sets: a set is below another one if it is part of it. -/
def relateSets (r : Relation) (xs ys : List Value) : Bool :=
  match r with
  | .lt => within xs ys && !within ys xs
  | .le => within xs ys
  | .gt => within ys xs && !within xs ys
  | .ge => within ys xs

/-- A relation between an end mark and a value on either side. -/
def relateEnd (r : Relation) (leftEnd rightEnd : Bool) : Bool :=
  r.holds (if leftEnd && rightEnd then .eq else if rightEnd then .lt else .gt)

mutual

/-- Whether the relation holds between two values. -/
def relate (r : Relation) : Value → Value → Except Fault Bool
  | .endMark, .endMark => .ok (relateEnd r true true)
  | .endMark, _ => .ok (relateEnd r true false)
  | _, .endMark => .ok (relateEnd r false true)
  | .text a, .text b => .ok (r.holds (Text.compare a b))
  | .bytes a, .bytes b => .ok (r.holds (compareBytes a b))
  | .list xs, .list ys => relateList r xs ys
  | .set xs, .set ys => .ok (relateSets r xs ys)
  | .date a, .date b => .ok (r.holds (compareOfLessAndEq a.instant b.instant))
  | .dateTime a, .dateTime b => .ok (r.holds (compareOfLessAndEq a.instant b.instant))
  | a, b =>
    match number? a, number? b with
    | some (some x), some (some y) => .ok (r.holds (x.compare y))
    | some _, some _ => .ok false
    | _, _ => .error (.notOrdered r a.kind b.kind)

/-- Whether the relation holds between two lists: their first difference decides, and without
one their lengths do. -/
def relateList (r : Relation) : List Value → List Value → Except Fault Bool
  | [], [] => .ok (r.holds .eq)
  | [], _ :: _ => .ok (r.holds .lt)
  | _ :: _, [] => .ok (r.holds .gt)
  | a :: xs, b :: ys => if same a b then relateList r xs ys else relate r a b

end

/-- Whether `a` is lower than `b`. -/
def less (a b : Value) : Except Fault Bool := relate .lt a b

/-- The first least value, each later one asked whether it is lower than the least so far. -/
def least (best : Value) : List Value → Except Fault Value
  | [] => .ok best
  | v :: vs => do
    if ← less v best then least v vs else least best vs

/-- How many values from the second on continue a run: each lower than the one before it, or
each not. -/
def runLength (falling : Bool) (last : Value) : List Value → Except Fault Nat
  | [] => .ok 0
  | v :: vs => do
    if (← less v last) == falling then
      let n ← runLength falling v vs
      pure (n + 1)
    else pure 0

/-- The place of `v` in a sorted array, after its equals, between `low` and `high`. -/
def placeIn (xs : Array Value) (v : Value) : (fuel low high : Nat) → Except Fault Nat
  | 0, low, _ => .ok low
  | f + 1, low, high =>
    if low < high then do
      let mid := low + (high - low) / 2
      if ← less v (xs.getD mid v) then placeIn xs v f low mid
      else placeIn xs v f (mid + 1) high
    else .ok low

/-- Insert the values one by one into a sorted array. -/
def insertAll (xs : Array Value) : List Value → Except Fault (Array Value)
  | [] => .ok xs
  | v :: vs => do
    let i ← placeIn xs v (xs.size + 1) 0 xs.size
    insertAll (xs.insertIdxIfInBounds i v) vs

/-- Sort: the run at the start is kept, or turned round if it falls, and the others are
inserted into it by halving. -/
def sort : List Value → Except Fault (List Value)
  | [] => .ok []
  | [v] => .ok [v]
  | v :: w :: vs => do
    let falling ← less w v
    let n ← runLength falling w vs
    let run := v :: w :: vs.take n
    let start := if falling then run.reverse else run
    let sorted ← insertAll start.toArray (vs.drop n)
    pure sorted.toList

end Value

end Lockstep
