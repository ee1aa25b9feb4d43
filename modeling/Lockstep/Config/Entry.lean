import Lockstep.Config.Checked
import Lockstep.Files.Path
import Lockstep.Numeral.Reading
import Lockstep.Text.Utf8
import Lockstep.Value.Basic

/-!
# Entries of a configuration

How a value is read as an entry of a given kind.  Reading is lenient where the meaning is plain:
bytes that are UTF-8 are a text, a whole number may be written as a text or with a fraction of
zeros, and a truth value may be a number or one of twelve words.
-/

namespace Lockstep.Config.Entry

/-- A text. -/
def text : Value → Checked Text
  | .text s => .ok s
  | .bytes b =>
    match Utf8.decode b with
    | .ok s => .ok s
    | .error _ => .fail .notUtf8
  | _ => .fail .notText

/-- A numeral without its fraction, which is a point and zeros, if it has one. -/
def withoutZeros? (s : Text) : Option Text :=
  match s.dropWhile (· != '.') with
  | [] => some s
  | _ :: zeros =>
    if !zeros.isEmpty && zeros.all (· == '0') then some (s.takeWhile (· != '.')) else none

/-- The most digits of a numeral. -/
def maxDigits : Nat := 4300

/-- A written integer: a sign or none, ASCII digits with single underscores between them, and a
fraction of zeros or none. -/
def numeral (s : Text) : Checked Int :=
  match (withoutZeros? (Text.trim Text.isWhiteSpace s)).bind Numeral.signed? with
  | none => .fail .notNumeral
  | some r => if r.digits ≤ maxDigits then .ok r.value else .fail .longNumeral

/-- A whole floating-point number of less than 63 bits. -/
def wholeFloat : Binary64 → Checked Int
  | .finite s m e =>
    let t := Binary64.truncate m e
    if !t.2 then .fail .fractional
    else if twoTo 63 ≤ t.1 then .fail .longNumeral
    else .ok (if s then -(Int.ofNat t.1) else Int.ofNat t.1)
  | _ => .fail .notFinite

/-- An integer. -/
def integer : Value → Checked Int
  | .bool b => .ok (if b then 1 else 0)
  | .int i => .ok i
  | .float x => wholeFloat x
  | .text s => numeral s
  | .bytes b =>
    match Utf8.decode b with
    | .ok s => numeral s
    | .error _ => .fail .notNumeral
  | _ => .fail .notInteger

/-- An integer that is not below `least`. -/
def integerFrom (least : Nat) (v : Value) : Checked Nat := do
  let i ← integer v
  if i < Int.ofNat least then .fail (.below least) else .ok i.toNat

/-- The words for a truth value, in any case. -/
def truthWord? (s : Text) : Option Bool :=
  let w := String.ofList (Text.lowerAscii s)
  if ["1", "t", "y", "on", "yes", "true"].contains w then some true
  else if ["0", "f", "n", "off", "no", "false"].contains w then some false
  else none

/-- A truth value. -/
def truth : Value → Checked Bool
  | .bool b => .ok b
  | .int i =>
    if i == 0 then .ok false
    else if i == 1 then .ok true
    else if i.natAbs < twoTo 63 then .fail .notTruthWord
    else .fail .notTruthValue
  | .float x =>
    match wholeFloat x with
    | .ok i => if i == 0 then .ok false else if i == 1 then .ok true else .fail .notTruthWord
    | .error _ => .fail .notTruthValue
  | .text s =>
    match truthWord? s with
    | some b => .ok b
    | none => .fail .notTruthWord
  | .bytes b =>
    match (Utf8.decode b).toOption.bind truthWord? with
    | some b => .ok b
    | none => .fail .notTruthWord
  | _ => .fail .notTruthValue

/-- One of two words. -/
def choice {α : Type} (first second : String × α) : Value → Checked α
  | .text s =>
    if s == first.1.toList then .ok first.2
    else if s == second.1.toList then .ok second.2
    else .fail (.notChoice first.1 second.1)
  | _ => .fail (.notChoice first.1 second.1)

/-- A path. -/
def path : Value → Checked Path
  | .text s => .ok (Path.ofText s)
  | _ => .fail .notPath

/-- A list with items of one kind, which may be written as a set. -/
def list {α : Type} (item : Value → Checked α) : Value → Checked (List α)
  | .list vs => Checked.itemsFrom item 0 vs
  | .set vs => Checked.itemsFrom item 0 vs
  | _ => .fail .notList

/-- An entry that may be left empty. -/
def optional {α : Type} (entry : Value → Checked α) : Value → Checked (Option α)
  | .none => .ok none
  | v => (entry v).map some

/-- The members of a value of the named model. -/
def members (model : String) : Value → Checked (List (Value × Value))
  | .dict es => .ok es
  | _ => .fail (.notModel model)

/-- A member that has to be there. -/
def required {α : Type} (name : String) (entry : Value → Checked α) (es : List (Value × Value)) :
    Checked α :=
  match Value.find? name.toList es with
  | some v => (entry v).within (.member name)
  | none => .error [⟨[.member name], .missing⟩]

/-- A member that has a default. -/
def defaulted {α : Type} (name : String) (default : α) (entry : Value → Checked α)
    (es : List (Value × Value)) : Checked α :=
  match Value.find? name.toList es with
  | some v => (entry v).within (.member name)
  | none => .ok default

end Lockstep.Config.Entry
