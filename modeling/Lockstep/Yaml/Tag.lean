import Lockstep.Numeral.Reading
import Lockstep.Text.Hex

/-!
# Tags

The tag of a node says what kind of value it is.  A plain scalar without a tag gets the tag of
the form that its text has: a truth word, a number, a date or time, nothing, or else a text.
-/

namespace Lockstep.Yaml

/-- What kind of value a node is. -/
inductive Tag
  | none
  | bool
  | int
  | float
  | timestamp
  | bytes
  | text
  | list
  | dict
  /-- A list of mappings with one entry each. -/
  | pairs
  | set
  /-- The key whose value is merged into its mapping. -/
  | merge
  /-- The key of the value that stands for its mapping. -/
  | value
  | unknown
  deriving DecidableEq, Repr

namespace Tag

/-- What the short handle of tags stands for. -/
def base : Text := "tag:yaml.org,2002:".toList

/-- The tags by their names behind the base. -/
def named : List (String × Tag) :=
  [("null", .none), ("bool", .bool), ("int", .int), ("float", .float),
    ("timestamp", .timestamp), ("binary", .bytes), ("str", .text), ("seq", .list), ("map", .dict),
    ("omap", .pairs), ("pairs", .pairs), ("set", .set), ("merge", .merge), ("value", .value)]

/-- The tag with the given full name. -/
def ofName (name : Text) : Tag :=
  match named.find? fun t => base ++ t.1.toList == name with
  | some t => t.2
  | Option.none => .unknown

/-- The words for truth values. -/
def truthWords : List String :=
  ["yes", "Yes", "YES", "no", "No", "NO", "true", "True", "TRUE", "false", "False", "FALSE",
    "on", "On", "ON", "off", "Off", "OFF"]

/-- The words for nothing. -/
def noneWords : List String := ["", "~", "null", "Null", "NULL"]

/-- The text without a sign in front. -/
def unsigned : Text → Text
  | '-' :: r => r
  | '+' :: r => r
  | s => s

/-- Not empty and all in `p`. -/
def someOf (p : Char → Bool) (s : Text) : Bool := !s.isEmpty && s.all p

/-- A digit or an underscore. -/
def isDigitMark (c : Char) : Bool := c.isDigit || c == '_'

/-- A digit and then digits and underscores. -/
def isRun : Text → Bool
  | [] => false
  | c :: r => c.isDigit && r.all isDigitMark

/-- A part of a number of base sixty: one digit, or two of which the first is below six. -/
def isSixtieth : Text → Bool
  | [a] => a.isDigit
  | [a, b] => '0' ≤ a && a ≤ '5' && b.isDigit
  | _ => false

/-- Parts of base sixty with colons between them, at least one. -/
def areSixtieths (s : Text) : Bool := (Text.splitOn (· == ':') s).all isSixtieth

/-- Whether an unsigned text is an integer. -/
def isUnsignedInt (s : Text) : Bool :=
  match s with
  | '0' :: 'b' :: r => someOf (fun c => c == '0' || c == '1' || c == '_') r
  | '0' :: 'x' :: r => someOf (fun c => (Text.hexValue? c).isSome || c == '_') r
  | '0' :: r => r.all fun c => ('0' ≤ c && c ≤ '7') || c == '_'
  | s =>
    let whole := s.takeWhile isDigitMark
    match s.dropWhile isDigitMark with
    | [] => isRun whole
    | ':' :: r => isRun whole && areSixtieths r
    | _ => false

/-- Whether a text is an exponent with its sign, or empty. -/
def isExponent : Text → Bool
  | [] => true
  | e :: s :: r => (e == 'e' || e == 'E') && (s == '-' || s == '+') && someOf Char.isDigit r
  | _ => false

/-- Whether the text behind the whole part of a number is a point, digits and an exponent. -/
def isFraction (exponent : Bool) : Text → Bool
  | '.' :: r =>
    let rest := r.dropWhile isDigitMark
    if exponent then isExponent rest else rest.isEmpty
  | _ => false

/-- Whether an unsigned text with a whole part is a floating-point number. -/
def isUnsignedFloat (s : Text) : Bool :=
  let whole := s.takeWhile isDigitMark
  let rest := s.dropWhile isDigitMark
  isRun whole &&
    (match rest with
      | ':' :: r =>
        areSixtieths (r.takeWhile (· != '.')) && isFraction false (r.dropWhile (· != '.'))
      | r => isFraction true r)

/-- Whether a text is a floating-point number. -/
def isFloat (s : Text) : Bool :=
  let u := unsigned s
  isUnsignedFloat u || [".inf", ".Inf", ".INF"].contains (String.ofList u) ||
    [".nan", ".NaN", ".NAN"].contains (String.ofList s) ||
    (match s with
      | '.' :: r => isRun (r.takeWhile isDigitMark) && isExponent (r.dropWhile isDigitMark)
      | _ => false)

/-- The parts of a time of day: digits of hour, minute and second, digits of the fraction, and the
shift from universal time in minutes if one is given. -/
structure Clock where
  hour : Nat
  minute : Nat
  second : Nat
  fraction : Text
  shift : Option Int
  deriving DecidableEq, Repr

/-- The parts of a date, and of a time of day if there is one. -/
structure Stamp where
  year : Nat
  month : Nat
  day : Nat
  clock : Option Clock
  /-- Whether month and day have two digits each. -/
  wide : Bool
  deriving DecidableEq, Repr

/-- One digit or two at the start of a text. -/
def oneOrTwo? (s : Text) : Option (Nat × Text) :=
  let ds := (s.take 2).takeWhile Char.isDigit
  if ds.isEmpty then Option.none else some (Numeral.ofDigits ds, s.drop ds.length)

/-- Exactly `n` digits at the start of a text. -/
def digitsOf? (n : Nat) (s : Text) : Option (Nat × Text) :=
  let ds := s.take n
  if ds.length == n && ds.all Char.isDigit then some (Numeral.ofDigits ds, s.drop n)
  else Option.none

/-- What follows a given character. -/
def behind? (c : Char) : Text → Option Text
  | [] => Option.none
  | d :: r => if c == d then some r else Option.none

/-- A blank or a tabulator. -/
def isBlankMark (c : Char) : Bool := c == ' ' || c == '\t'

/-- The shift at the end of a time. -/
def shift? (s : Text) : Option (Option Int) :=
  match s.dropWhile isBlankMark with
  | [] => if s.isEmpty then some Option.none else Option.none
  | ['Z'] => some (some 0)
  | sign :: r =>
    if sign != '-' && sign != '+' then Option.none
    else do
      let (hour, r) ← oneOrTwo? r
      let minute ← match r with
        | [] => some 0
        | r => do
          let r ← behind? ':' r
          let (m, r) ← digitsOf? 2 r
          if r.isEmpty then some m else Option.none
      let total := Int.ofNat (60 * hour + minute)
      some (some (if sign == '-' then -total else total))

/-- A time of day. -/
def clock? (s : Text) : Option Clock := do
  let (hour, r) ← oneOrTwo? s
  let r ← behind? ':' r
  let (minute, r) ← digitsOf? 2 r
  let r ← behind? ':' r
  let (second, r) ← digitsOf? 2 r
  let (fraction, r) := match r with
    | '.' :: t => (t.takeWhile Char.isDigit, t.dropWhile Char.isDigit)
    | r => ([], r)
  let shift ← shift? r
  some ⟨hour, minute, second, fraction, shift⟩

/-- A date, or a date and a time of day behind the letter `T` or blanks. -/
def stamp? (s : Text) : Option Stamp := do
  let (year, r) ← digitsOf? 4 s
  let r ← behind? '-' r
  let (month, behindMonth) ← oneOrTwo? r
  let dayOn ← behind? '-' behindMonth
  let (day, rest) ← oneOrTwo? dayOn
  let wide := r.length == behindMonth.length + 2 && dayOn.length == rest.length + 2
  match rest with
  | [] => some ⟨year, month, day, Option.none, wide⟩
  | c :: t =>
    let t := if isBlankMark c then t.dropWhile isBlankMark else t
    if c == 'T' || c == 't' || isBlankMark c then do
      let clock ← clock? t
      some ⟨year, month, day, some clock, wide⟩
    else Option.none

/-- Whether a text is a date or a date and a time of day; a date alone has all its digits. -/
def isTimestamp (s : Text) : Bool :=
  match stamp? s with
  | some t => t.clock.isSome || t.wide
  | Option.none => false

/-- The tag of a plain scalar. -/
def ofPlain (s : Text) : Tag :=
  let w := String.ofList s
  if truthWords.contains w then .bool
  else if isFloat s then .float
  else if isUnsignedInt (unsigned s) then .int
  else if w == "<<" then .merge
  else if noneWords.contains w then .none
  else if isTimestamp s then .timestamp
  else if w == "=" then .value
  else .text

end Tag

end Lockstep.Yaml
