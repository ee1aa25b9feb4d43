import Lockstep.Fault
import Lockstep.Text.Quoted

/-!
# Ordered streams

A stream lists what reading it brings: records, and at the end of a stream that fails the
fault.  `ordered` passes a stream on while its keys do not fall; the first record with a key
lower than the one before it ends the stream with a fault, and so does a record that has no key.
-/

namespace Lockstep

/-- The records of a stream in order; nothing after a fault counts. -/
abbrev Stream (ρ : Type) := List (Except Fault ρ)

namespace Stream

variable {ρ : Type}

/-- The records before the first fault. -/
def records : Stream ρ → List ρ
  | [] => []
  | .ok r :: s => r :: records s
  | .error _ :: _ => []

/-- The first fault. -/
def fault? : Stream ρ → Option Fault
  | [] => none
  | .ok _ :: s => fault? s
  | .error f :: _ => some f

/-- Pass on the records from number `index` on while their keys do not fall below the previous
key. -/
def orderedFrom (keyer : ρ → Except Fault Text) (name : Text) :
    (previous : Option Text) → (index : Nat) → Stream ρ → Stream ρ
  | _, _, [] => []
  | _, _, .error f :: _ => [.error f]
  | previous, index, .ok r :: s =>
    match keyer r with
    | .error f => [.error f]
    | .ok key =>
      match previous with
      | none => .ok r :: orderedFrom keyer name (some key) (index + 1) s
      | some last =>
        if Text.before key last then
          [.error (.unsorted name index (Text.quoted key) (Text.quoted last))]
        else .ok r :: orderedFrom keyer name (some key) (index + 1) s

/-- Pass on the records of a stream while their keys do not fall. -/
def ordered (keyer : ρ → Except Fault Text) (name : Text) (s : Stream ρ) : Stream ρ :=
  orderedFrom keyer name none 0 s

end Stream

end Lockstep
