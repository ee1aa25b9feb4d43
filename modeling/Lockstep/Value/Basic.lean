import Lockstep.Text.Blank
import Lockstep.Calendar

/-!
# Values

A `Value` is what a record, a field of a record or an entry of a configuration can be.  A
dictionary is a list of pairs with distinct keys in the order of their first insertion, and a set
is a list of distinct values.  One value, `Value.endMark`, marks an exhausted stream.

`Value.same` is equality of values: numbers are equal by value whatever their kind, a text and
a byte string are never equal, the value that is no number differs from itself.
-/

namespace Lockstep

/-- A record, a field of one, or an entry of a configuration. -/
inductive Value
  | none
  | bool (b : Bool)
  | int (i : Int)
  | float (x : Binary64)
  | text (s : Text)
  | bytes (b : List UInt8)
  | list (xs : List Value)
  | dict (es : List (Value × Value))
  | set (xs : List Value)
  | date (m : Moment)
  | dateTime (m : Moment)
  | endMark
  deriving Repr

/-- The kinds of values. -/
inductive Kind
  | none
  | bool
  | int
  | float
  | text
  | bytes
  | list
  | dict
  | set
  | date
  | dateTime
  | endMark
  deriving DecidableEq, Repr

/-- The name of a kind in messages. -/
def Kind.name : Kind → String
  | .none => "NoneType"
  | .bool => "bool"
  | .int => "int"
  | .float => "float"
  | .text => "str"
  | .bytes => "bytes"
  | .list => "list"
  | .dict => "dict"
  | .set => "set"
  | .date => "datetime.date"
  | .dateTime => "datetime.datetime"
  | .endMark => "Exhausted"

namespace Value

/-- The kind of a value. -/
def kind : Value → Kind
  | .none => .none
  | .bool _ => .bool
  | .int _ => .int
  | .float _ => .float
  | .text _ => .text
  | .bytes _ => .bytes
  | .list _ => .list
  | .dict _ => .dict
  | .set _ => .set
  | .date _ => .date
  | .dateTime _ => .dateTime
  | .endMark => .endMark

/-- The exact value of a number; truth values count as 0 and 1. -/
def number? : Value → Option (Option Binary64.Extended)
  | .bool b => some (some (.ratio (if b then 1 else 0) 1))
  | .int i => some (some (.ratio i 1))
  | .float x => some x.value?
  | _ => Option.none

/-- Equality of numbers by value. -/
def sameNumber (a b : Option Binary64.Extended) : Bool :=
  match a, b with
  | some x, some y => x.compare y == .eq
  | _, _ => false

/-- Equality of values without parts. -/
def sameScalar : Value → Value → Bool
  | .none, .none => true
  | .text a, .text b => a == b
  | .bytes a, .bytes b => a == b
  | .date a, .date b => a == b
  | .dateTime a, .dateTime b => a == b
  | .endMark, .endMark => true
  | a, b =>
    match number? a, number? b with
    | some x, some y => sameNumber x y
    | _, _ => false

/-- Every member of the first set is one of the second; sets have members without parts. -/
def within (xs ys : List Value) : Bool := xs.all fun x => ys.any (sameScalar x)

mutual

/-- Equality of values. -/
def same : Value → Value → Bool
  | .list xs, .list ys => sameList xs ys
  | .dict es, .dict fs => es.length == fs.length && sameEntries es fs
  | .set xs, .set ys => xs.length == ys.length && within xs ys
  | a, b => sameScalar a b

/-- Equality of lists, item by item. -/
def sameList : List Value → List Value → Bool
  | [], [] => true
  | a :: r, b :: s => same a b && sameList r s
  | _, _ => false

/-- Every entry of the first dictionary is one of the second. -/
def sameEntries : List (Value × Value) → List (Value × Value) → Bool
  | [], _ => true
  | (k, v) :: r, fs => sameIn k v fs && sameEntries r fs

/-- The entry `(k, v)` is one of the dictionary's. -/
def sameIn (k v : Value) : List (Value × Value) → Bool
  | [] => false
  | (k', v') :: r => if same k k' then same v v' else sameIn k v r

end

/-- Whether a value counts as empty: nothing, false, zero, or no items. -/
def isEmpty : Value → Bool
  | .none => true
  | .bool b => !b
  | .int i => i == 0
  | .float x => match x with
    | .finite _ m _ => m == 0
    | _ => false
  | .text s => s.isEmpty
  | .bytes b => b.isEmpty
  | .list xs => xs.isEmpty
  | .dict es => es.isEmpty
  | .set xs => xs.isEmpty
  | _ => false

/-- Put an entry into a dictionary: a key that is there keeps its place and takes the value. -/
def insert (es : List (Value × Value)) (k v : Value) : List (Value × Value) :=
  match es with
  | [] => [(k, v)]
  | e :: r => if same e.1 k then (e.1, v) :: r else e :: insert r k v

/-- The dictionary of the given entries, put in one after the other. -/
def dictOf (es : List (Value × Value)) : Value :=
  .dict (es.foldl (fun d e => insert d e.1 e.2) [])

/-- The set of the given values. -/
def setOf (xs : List Value) : Value :=
  .set ((xs.foldl (fun d x => insert d x .none) []).map (·.1))

/-- Look a name up in a dictionary. -/
def find? (name : Text) : List (Value × Value) → Option Value
  | [] => Option.none
  | (.text s, v) :: r => if s == name then some v else find? name r
  | _ :: r => find? name r

end Value

end Lockstep
