import Lockstep.Fault
import Lockstep.Numeral.Reading

/-!
# JSON

`Json.ofText` reads one JSON value with JSON blanks around it.  An object is a dictionary in
which a repeated name keeps its first place and takes the last value.  A number without fraction
and exponent is an integer of any size up to a limit of digits, any other number is a
floating-point number; the names `NaN`, `Infinity` and `-Infinity` are read as well.

A surrogate that is not one of a pair is no character, and the reader gives up at it.
-/

namespace Lockstep.Json

/-- The blanks of JSON. -/
def isJsonBlank (c : Char) : Bool := c == ' ' || c == '\t' || c == '\n' || c == '\r'

/-- What follows the blanks. -/
def skip (s : Text) : Text := s.dropWhile isJsonBlank

/-- What follows the given word, if the text starts with it. -/
def after? (word : Text) (s : Text) : Option Text :=
  if word.isPrefixOf s then some (s.drop word.length) else none

/-- The number of four hexadecimal digits. -/
def fourDigits? (a b c d : Char) : Option Nat := Text.ofHex? [a, b, c, d]

/-- The character for a letter after a backslash. -/
def escape? : Char → Option Char
  | '"' => some '"'
  | '\\' => some '\\'
  | '/' => some '/'
  | 'b' => some '\x08'
  | 'f' => some '\x0c'
  | 'n' => some '\n'
  | 'r' => some '\r'
  | 't' => some '\t'
  | _ => none

/-- The code point of a pair of surrogates. -/
def pair (high low : Nat) : Nat := 0x10000 + (high - 0xD800) * 0x400 + (low - 0xDC00)

/-- A low surrogate written as an escape at the start of a text, and what follows it. -/
def lowSurrogate? : Text → Option (Nat × Text)
  | '\\' :: 'u' :: a :: b :: c :: d :: r =>
    match fourDigits? a b c d with
    | some n => if 0xDC00 ≤ n && n ≤ 0xDFFF then some (n, r) else none
    | none => none
  | _ => none

/-- The rest of a string after its opening quote, and what follows the closing one.  Pairs of
surrogates are one character. -/
def string : (fuel : Nat) → Text → Except Fault (Text × Text)
  | 0, _ => .error .jsonSyntax
  | fuel + 1, s =>
    match s with
    | [] => .error .jsonSyntax
    | '"' :: r => .ok ([], r)
    | '\\' :: 'u' :: a :: b :: c :: d :: r =>
      match fourDigits? a b c d with
      | none => .error .jsonSyntax
      | some n =>
        let low := if 0xD800 ≤ n && n ≤ 0xDBFF then lowSurrogate? r else none
        match low with
        | some (m, r) => (string fuel r).map fun p => (Char.ofNat (pair n m) :: p.1, p.2)
        | none =>
          if Text.isSurrogate n then .error .loneSurrogate
          else (string fuel r).map fun p => (Char.ofNat n :: p.1, p.2)
    | '\\' :: e :: r =>
      match escape? e with
      | none => .error .jsonSyntax
      | some c => (string fuel r).map fun p => (c :: p.1, p.2)
    | c :: r =>
      if c.toNat < 0x20 || c == '\\' then .error .jsonSyntax
      else (string fuel r).map fun p => (c :: p.1, p.2)

/-- The exponent at the start of a text, if there is one: its value and what follows it. -/
def exponent? : Text → Option (Int × Text)
  | e :: r =>
    if e == 'e' || e == 'E' then
      let p := Numeral.sign r
      let ds := p.2.takeWhile Char.isDigit
      if ds.isEmpty then none
      else
        let n := Int.ofNat (Numeral.ofDigits ds)
        some (if p.1 then -n else n, p.2.dropWhile Char.isDigit)
    else none
  | [] => none

/-- The digits after a point at the start of a text, if there are any, and what follows them. -/
def fraction? : Text → Option (Text × Text)
  | '.' :: r =>
    let ds := r.takeWhile Char.isDigit
    if ds.isEmpty then none else some (ds, r.dropWhile Char.isDigit)
  | _ => none

/-- The whole part of a number, which has no zeros in front, and what follows it. -/
def wholePart? : Text → Option (Text × Text)
  | '0' :: r => some (['0'], r)
  | s =>
    let ds := s.takeWhile Char.isDigit
    if ds.isEmpty then none else some (ds, s.dropWhile Char.isDigit)

/-- The most digits of an integer. -/
def maxDigits : Nat := 4300

/-- The number with the given sign at the start of a text, and what follows it. -/
def number (negative : Bool) (s : Text) : Except Fault (Value × Text) :=
  match wholePart? s with
  | none => .error .jsonSyntax
  | some (whole, r) =>
    let fraction := fraction? r
    let r := (fraction.map (·.2)).getD r
    let exponent := exponent? r
    let r := (exponent.map (·.2)).getD r
    if fraction.isNone && exponent.isNone then
      if maxDigits < whole.length then .error (.tooManyDigits (some whole.length))
      else
        let n := Int.ofNat (Numeral.ofDigits whole)
        .ok (.int (if negative then -n else n), r)
    else
      let places := (fraction.map (·.1)).getD []
      let e := (exponent.map (·.1)).getD 0 - Int.ofNat places.length
      .ok (.float (Binary64.ofScientific negative (Numeral.ofDigits (whole ++ places)) e), r)

/-- The words that stand for values. -/
def words : List (Text × Value) :=
  [("null".toList, .none), ("true".toList, .bool true), ("false".toList, .bool false),
    ("NaN".toList, .float .nan), ("Infinity".toList, .float (.infinite false)),
    ("-Infinity".toList, .float (.infinite true))]

/-- The word at the start of a text, and what follows it. -/
def word? (s : Text) : Option (Value × Text) :=
  words.findSome? fun w => (after? w.1 s).map fun r => (w.2, r)

mutual

/-- The value at the start of a text, and what follows it. -/
def value : (fuel : Nat) → Text → Except Fault (Value × Text)
  | 0, _ => .error .jsonSyntax
  | fuel + 1, s =>
    match s with
    | '"' :: r => (string (r.length + 1) r).map fun p => (.text p.1, p.2)
    | '[' :: r =>
      match skip r with
      | ']' :: r => .ok (.list [], r)
      | r => (items fuel r).map fun p => (.list p.1, p.2)
    | '\x7b' :: r =>
      match skip r with
      | '\x7d' :: r => .ok (.dict [], r)
      | r => (members fuel r).map fun p => (Value.dictOf p.1, p.2)
    | s =>
      match word? s with
      | some p => .ok p
      | none =>
        match s with
        | '-' :: r => number true r
        | s => number false s

/-- The items of an array from a first one on, and what follows the closing bracket. -/
def items : (fuel : Nat) → Text → Except Fault (List Value × Text)
  | 0, _ => .error .jsonSyntax
  | fuel + 1, s => do
    let (v, r) ← value fuel s
    match skip r with
    | ']' :: r => .ok ([v], r)
    | ',' :: r =>
      let (vs, r) ← items fuel (skip r)
      .ok (v :: vs, r)
    | _ => .error .jsonSyntax

/-- The members of an object from a first one on, and what follows the closing brace. -/
def members : (fuel : Nat) → Text → Except Fault (List (Value × Value) × Text)
  | 0, _ => .error .jsonSyntax
  | fuel + 1, s =>
    match s with
    | '"' :: r => do
      let (name, r) ← string (r.length + 1) r
      match skip r with
      | ':' :: r =>
        let (v, r) ← value fuel (skip r)
        match skip r with
        | '\x7d' :: r => .ok ([(.text name, v)], r)
        | ',' :: r =>
          let (es, r) ← members fuel (skip r)
          .ok ((.text name, v) :: es, r)
        | _ => .error .jsonSyntax
      | _ => .error .jsonSyntax
    | _ => .error .jsonSyntax

end

/-- Read one JSON value. -/
def ofText (s : Text) : Except Fault Value := do
  let (v, r) ← value (2 * s.length + 2) (skip s)
  if (skip r).isEmpty then .ok v else .error .jsonSyntax

end Lockstep.Json
