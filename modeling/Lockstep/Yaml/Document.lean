import Lockstep.Numeral.Reading
import Lockstep.Text.Base64
import Lockstep.Text.Quoted
import Lockstep.Value.Basic
import Lockstep.Yaml.Node

/-!
# YAML documents as values

`Yaml.value` reads a text as a value.  Entries that are merged into a mapping come before its
own, and a key of its own takes the place of a merged one.

A collection is filled only when everything at its level has been made, so of several faults in
one document the one nearest to the root is reported, and of those at one level the first.
-/

namespace Lockstep.Yaml

open Lockstep.Text

namespace Scalar

/-- The value of digits in a base, if there are any and all are below it. -/
def digitsIn? (base : Nat) (s : Text) : Option Nat :=
  if s.isEmpty then none
  else s.foldlM (fun n c => match hexValue? c with
    | some d => if d < base then some (base * n + d) else none
    | none => none) 0

/-- What follows the mark of a base, if there is one. -/
def unmarked (base : Nat) (s : Text) : Text :=
  match s with
  | '0' :: m :: r =>
    let m := m.toLower
    if (base == 2 && m == 'b') || (base == 8 && m == 'o') || (base == 16 && m == 'x') then r else s
  | s => s

/-- An integer in a base that is a power of two, with white space around it and digits of any
script. -/
def binaryInteger (base : Nat) (s : Text) : Except Fault Int :=
  let p := Numeral.sign (asciiDigits (trim isWhiteSpace s))
  match digitsIn? base (unmarked base p.2) with
  | some n => .ok (if p.1 then -(Int.ofNat n) else Int.ofNat n)
  | none => .error (.notNumeral base (quoted s))

/-- The most digits of an integer in base ten. -/
def maxDigits : Nat := 4300

/-- An integer in base ten. -/
def decimalInteger (s : Text) : Except Fault Int :=
  match Numeral.integer? s with
  | some r => if r.digits ≤ maxDigits then .ok r.value else .error (.tooManyDigits (some r.digits))
  | none => .error (.notNumeral 10 (quoted s))

/-- An integer without sign, in base two, eight, ten, sixteen or sixty. -/
def unsignedInteger (s : Text) : Except Fault Int :=
  match s with
  | [] => .error .emptyNumeral
  | ['0'] => .ok 0
  | '0' :: 'b' :: r => binaryInteger 2 r
  | '0' :: 'x' :: r => binaryInteger 16 r
  | '0' :: r => binaryInteger 8 ('0' :: r)
  | s =>
    if s.contains ':' then do
      let parts ← (splitOn (· == ':') s).mapM decimalInteger
      .ok (parts.foldl (fun n d => 60 * n + d) 0)
    else decimalInteger s

/-- Whether the sign of a numeral is a minus, and the rest of it; underscores are passed over. -/
def signOf (s : Text) : Except Fault (Bool × Text) :=
  match s.filter (· != '_') with
  | [] => .error .emptyNumeral
  | s => .ok (s.head? == some '-', Tag.unsigned s)

/-- An integer. -/
def integer (s : Text) : Except Fault Int := do
  let p ← signOf s
  let n ← unsignedInteger p.2
  .ok (if p.1 then -n else n)

/-- A floating-point number in base ten. -/
def decimalFloat (s : Text) : Except Fault Binary64 :=
  match Numeral.float? s with
  | some x => .ok x
  | none => .error (.notFloat (quoted s))

/-- The sum of floating-point numbers in base sixty, the last of which has the unit `unit`. -/
def sixtieths (unit : Nat) : (reversed : List Binary64) → Binary64 → Binary64
  | [], sum => sum
  | x :: xs, sum => sixtieths (60 * unit) xs (sum.add (x.times unit))

/-- A floating-point number without sign, in base ten or sixty. -/
def unsignedFloat (s : Text) : Except Fault Binary64 :=
  if s == ".inf".toList then .ok (.infinite false)
  else if s == ".nan".toList then .ok .nan
  else if s.contains ':' then do
    let parts ← (splitOn (· == ':') s).mapM decimalFloat
    .ok (sixtieths 1 parts.reverse (Binary64.zero false))
  else decimalFloat s

/-- A floating-point number. -/
def float (s : Text) : Except Fault Binary64 := do
  let p ← signOf (lowerAscii s)
  let x ← unsignedFloat p.2
  .ok (if p.1 then x.negate else x)

/-- A truth value. -/
def truth (s : Text) : Except Fault Bool :=
  let w := lowerAscii s
  if ["yes", "true", "on"].contains (String.ofList w) then .ok true
  else if ["no", "false", "off"].contains (String.ofList w) then .ok false
  else .error (.notTruthWord w)

/-- The parts of a date or time, if they are in range. -/
def moment (t : Tag.Stamp) (hour minute second micro : Nat) : Except Fault Moment :=
  match Moment.ofParts t.year t.month t.day hour minute second micro with
  | .ok m => .ok m
  | .error f => .error (.calendar f)

/-- A text without a line feed at its end. -/
def unended (s : Text) : Text := if s.getLast? == some '\n' then s.dropLast else s

/-- A date, or a date and a time of day; a time may be shifted by less than a day. -/
def timestamp (s : Text) : Except Fault Value :=
  match Tag.stamp? (unended s) with
  | none => .error .notTimestamp
  | some t =>
    match t.clock with
    | none => (moment t 0 0 0 0).map .date
    | some c =>
      let shift := c.shift.getD 0
      if shift.natAbs < 1440 then
        let micro := Numeral.ofDigits
          ((c.fraction.take 6) ++ List.replicate (6 - c.fraction.length) '0')
        (moment t c.hour c.minute c.second micro).map .dateTime
      else .error (.offsetRange shift)

/-- Bytes in base 64, written in ASCII. -/
def bytes (s : Text) : Except Fault Value :=
  if s.all fun c => c.toNat < 128 then
    match Base64.decode? s with
    | some bs => .ok (.bytes bs)
    | none => .error .yamlSyntax
  else .error .yamlSyntax

/-- The value of a scalar with the given tag. -/
def value (tag : Tag) (s : Text) : Except Fault Value :=
  match tag with
  | .none => .ok .none
  | .bool => (truth s).map .bool
  | .int => (integer s).map .int
  | .float => (float s).map .float
  | .timestamp => timestamp s
  | .bytes => bytes s
  | .text => .ok (.text s)
  | _ => .error .yamlSyntax

end Scalar

namespace Node

mutual

/-- The text of a scalar, or of the value that stands for a mapping. -/
def text? : Node → Option Text
  | .scalar _ s => some s
  | .mapping _ es => standIn? es
  | _ => none

/-- The text of the first value that stands for a mapping. -/
def standIn? : List (Node × Node) → Option Text
  | [] => none
  | (k, v) :: es => if k.tag == .value then text? v else standIn? es

end

/-- The same node as a text. -/
def asText : Node → Node
  | .scalar _ s => .scalar .text s
  | .sequence _ ns => .sequence .text ns
  | .mapping _ es => .mapping .text es
  | .again n => .again n

/-- The entries of a mapping, the merged ones first; of several mappings that are merged at once
the last comes first. -/
def mergedEntries : (fuel : Nat) → List (Node × Node) → Option (List (Node × Node))
  | 0, _ => none
  | fuel + 1, es => do
    let ofMapping : Node → Option (List (Node × Node))
      | .mapping _ fs => mergedEntries fuel fs
      | _ => none
    let parts ← es.mapM fun e =>
      if e.1.tag == .merge then
        match e.2 with
        | .sequence _ ns => (ns.mapM ofMapping).map fun ps => (ps.reverse.flatten, [])
        | n => (ofMapping n).map fun fs => (fs, [])
      else some ([], [(if e.1.tag == .value then e.1.asText else e.1, e.2)])
    some (parts.flatMap (·.1) ++ parts.flatMap (·.2))

/-- A value, or a fault and the level at which it was found. -/
abbrev Levelled (α : Type) := Except (Nat × Fault) α

/-- Two results, or the fault nearer to the root, the first if they are at one level. -/
def both {α β : Type} : Levelled α → Levelled β → Levelled (α × β)
  | .ok a, .ok b => .ok (a, b)
  | .ok _, .error f => .error f
  | .error e, .ok _ => .error e
  | .error e, .error f => .error (if f.1 < e.1 then f else e)

/-- All results, or the fault nearest to the root. -/
def all {α : Type} : List (Levelled α) → Levelled (List α)
  | [] => .ok []
  | a :: as => (both a (all as)).map fun p => p.1 :: p.2

/-- Whether a node makes a value that cannot be a key. -/
def isCollection (n : Node) : Bool :=
  n.tag == .list || n.tag == .dict || n.tag == .pairs || n.tag == .set

/-- The value of a node at a level below the root. -/
def valueAt : (fuel : Nat) → (level : Nat) → Node → Levelled Value
  | 0, level, _ => .error (level, .yamlSyntax)
  | fuel + 1, level, n =>
    let broken {α : Type} : Levelled α := .error (level + 1, .yamlSyntax)
    let entry (e : Node × Node) : Levelled (Value × Value) :=
      both (if e.1.isCollection then broken else valueAt fuel (level + 1) e.1)
        (valueAt fuel (level + 1) e.2)
    let entries : Levelled (List (Value × Value)) :=
      match n with
      | .mapping _ es =>
        match mergedEntries fuel es with
        | none => broken
        | some es => all (es.map entry)
      | _ => broken
    match n.tag with
    | .list =>
      match n with
      | .sequence _ ns => (all (ns.map (valueAt fuel (level + 1)))).map .list
      | _ => broken
    | .pairs =>
      match n with
      | .sequence _ ns =>
        (all (ns.map fun
          | .mapping _ [(k, v)] =>
            (both (valueAt fuel (level + 1) k) (valueAt fuel (level + 1) v)).map fun p =>
              .list [p.1, p.2]
          | _ => broken)).map .list
      | _ => broken
    | .dict => entries.map Value.dictOf
    | .set => entries.map fun es => Value.setOf (es.map (·.1))
    | tag =>
      match n, n.text? with
      | _, none => .error (level, .yamlSyntax)
      | .mapping .timestamp _, _ => .error (level, .timestampOfMapping)
      | _, some s =>
        match Scalar.value tag s with
        | .ok v => .ok v
        | .error f => .error (level, f)

end Node

/-- The value of a text: of its only document, or nothing if there is none. -/
def value (s : Text) : Except Fault Value := do
  match ← Node.ofTokens (Layout.tokensOf s) with
  | none => .ok .none
  | some n =>
    match n.valueAt (n.depth + 1) 0 with
    | .ok v => .ok v
    | .error e => .error e.2

end Lockstep.Yaml
