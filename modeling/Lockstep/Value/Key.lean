import Lockstep.Key.Frontier
import Lockstep.Value.Display
import Lockstep.Value.Order

/-!
# Values as keys

Any value may be handed in as a key; what cannot be compared or cut is a fault when it is
asked.  Two values agree when they are equal on the length of the shorter one, so a text and a
byte string never agree.
-/

namespace Lockstep.Value

/-- How many items a value has. -/
def length? : Value → Except Fault Nat
  | .text s => .ok s.length
  | .bytes b => .ok b.length
  | .list xs => .ok xs.length
  | .dict es => .ok es.length
  | .set xs => .ok xs.length
  | v => .error (.noLength v.kind)

/-- The part of a value that two cuts of a sequence leave; a dictionary has no parts. -/
def cut (text : Text → Text) (bytes : List UInt8 → List UInt8) (list : List Value → List Value) :
    Value → Except Fault Value
  | .text s => .ok (.text (text s))
  | .bytes b => .ok (.bytes (bytes b))
  | .list xs => .ok (.list (list xs))
  | .dict _ => .error .sliceAsKey
  | v => .error (.notSliceable v.kind)

/-- The first `n` items. -/
def take (n : Nat) : Value → Except Fault Value := cut (·.take n) (·.take n) (·.take n)

/-- The items from number `n` on. -/
def drop (n : Nat) : Value → Except Fault Value := cut (·.drop n) (·.drop n) (·.drop n)

/-- Whether two values agree on the length of the shorter one. -/
def agree (a b : Value) : Except Fault Bool := do
  let m ← length? a
  let n ← length? b
  let size := min m n
  let x ← take size a
  let y ← take size b
  pure (same x y)

instance : SyncKey Value where
  start := .text []
  less := less
  agree := agree
  same := same
  quoted := repr

/-- A value as a frontier: the end mark is the mark. -/
def toFrontier : Value → Frontier Value
  | .endMark => .done
  | v => .key v

/-- A frontier as a value. -/
def ofFrontier : Frontier Value → Value
  | .key v => v
  | .done => .endMark

/-- The extractor of the first `width` items; a negative width is refused. -/
def leading (width : Int) : Except Fault (Value → Except Fault Value) :=
  if width < 0 then .error .negativeCut else .ok (take width.toNat)

end Lockstep.Value
