import Lockstep.Key.Code
import Lockstep.Numeral.Reading
import Lockstep.Value.Display

/-!
# Key fields

A key field names a field of a record and the form in which its value enters the key: a text of
fixed width, an integer of fixed width, or a text as it is.  The key of a record is what its key
fields give, one after the other (`keyOf`).
-/

namespace Lockstep

/-- How the value of a field enters the key. -/
inductive FieldForm
  /-- The text of the value, as long as it is. -/
  | whole
  /-- The text of the value, cut or padded. -/
  | text (width : Nat)
  /-- The code of the value as an integer. -/
  | int (width : Nat)
  deriving DecidableEq, Repr

namespace FieldForm

/-- The fixed width, if there is one. -/
def width? : FieldForm → Option Nat
  | .whole => none
  | .text w => some w
  | .int w => some w

/-- Whether the value enters as an integer. -/
def isInt : FieldForm → Bool
  | .int _ => true
  | _ => false

/-- The word for the form. -/
def word (f : FieldForm) : String := if f.isInt then "int" else "text"

end FieldForm

/-- A field of a record and its form in the key. -/
structure KeyField where
  field : Text
  form : FieldForm
  deriving DecidableEq, Repr

namespace Value

/-- The value of a field of a record. -/
def field (name : Text) : Value → Except Fault Value
  | .dict es =>
    match find? name es with
    | some v => .ok v
    | Option.none => .error (.missingField name)
  | .list _ => .error .fieldOfList
  | .text _ => .error .fieldOfText
  | .bytes _ => .error .fieldOfBytes
  | v => .error (.notSliceable v.kind)

/-- An integer that was read, unless its numeral is too long or was none. -/
def readInteger (quoted : Text) : Option Numeral.Read → Except Fault Int
  | Option.none => .error (.notNumeral 10 quoted)
  | some r => if r.digits ≤ Key.maxDigits then .ok r.value else .error (.tooManyDigits r.digits)

/-- A value as an integer: numbers are cut towards zero, texts and byte strings are read. -/
def toInteger : Value → Except Fault Int
  | .bool b => .ok (if b then 1 else 0)
  | .int i => .ok i
  | .float x =>
    match x with
    | .nan => .error .nanToInteger
    | .infinite _ => .error .infinityToInteger
    | .finite s m e =>
      let n := Int.ofNat (Binary64.truncate m e).1
      .ok (if s then -n else n)
  | .text s => readInteger (Text.quoted s) (Numeral.integer? s)
  | .bytes b => readInteger (Text.quotedBytes b) (Numeral.integerBytes? b)
  | v => .error (.notNumeric v.kind)

/-- The code of a value that is an integer.  A floating-point number is held against the same
limits, but has no code. -/
def encodeIntTo (width : Int) (v : Value) : Except Fault Text :=
  match v with
  | .int i => Key.encodeIntTo width i
  | .bool b => Key.encodeShown v.display .bool width (if b then 1 else 0)
  | .float _ =>
    match v.toInteger.toOption with
    | Option.none => .error (.doesNotFit v.display width)
    | some i =>
      match Key.encodeShown v.display .float width i with
      | .ok _ => .error (.notDecimal .float)
      | .error f => .error f
  | v => .error (.notOrdered .lt (if width < 0 then .float else .int) v.kind)

end Value

namespace KeyField

/-- What a value gives in a form. -/
def encode (form : FieldForm) (v : Value) : Except Fault Text :=
  match form with
  | .whole => .ok v.display
  | .text w => Key.padTo w v.display
  | .int w =>
    match v.toInteger with
    | .ok i => Key.encodeIntTo w i
    | .error f => .error f

/-- What a record gives for a key field. -/
def encodeField (f : KeyField) (r : Value) : Except Fault Text :=
  match r.field f.field with
  | .ok v => encode f.form v
  | .error e => .error e

/-- The key of a record. -/
def keyOf : List KeyField → Value → Except Fault Text
  | [], _ => .ok []
  | f :: fs, r =>
    match f.encodeField r with
    | .error e => .error e
    | .ok a =>
      match keyOf fs r with
      | .error e => .error e
      | .ok b => .ok (a ++ b)

@[simp] theorem keyOf_nil (r : Value) : keyOf [] r = .ok [] := rfl

theorem keyOf_cons_ok {f : KeyField} {fs : List KeyField} {r : Value} {a b : Text}
    (ha : f.encodeField r = .ok a) (hb : keyOf fs r = .ok b) :
    keyOf (f :: fs) r = .ok (a ++ b) := by
  simp [keyOf, ha, hb]

end KeyField

end Lockstep
