import Lockstep.Fault
import Lockstep.Numeral.Reading
import Lockstep.Text.Quoted

/-!
# Columns of a table

The cells of a column decide what it holds: nothing or truth values, integers, floating-point
numbers, or texts, whichever is the most general.  A column of numbers is aligned at the point;
its floating-point numbers are written anew with six digits.
-/

namespace Lockstep.Table

open Lockstep.Text

/-- What a cell or a column holds, in rising generality. -/
inductive Content
  | nothing
  | truth
  | integer
  | float
  | text
  deriving DecidableEq, Repr

/-- The place of a content in the order of generality. -/
def Content.rank : Content → Nat
  | .nothing => 0
  | .truth => 1
  | .integer => 2
  | .float => 3
  | .text => 4

/-- The more general of two contents. -/
def Content.join (a b : Content) : Content := if a.rank < b.rank then b else a

/-- Whether a column of the content is aligned at the point. -/
def Content.isNumeric (c : Content) : Bool := c == .integer || c == .float

/-- The most digits of an integer. -/
def maxDigits : Nat := 4300

/-- Whether a text is an integer. -/
def isInteger (s : Text) : Bool :=
  match Numeral.integer? s with
  | some r => r.digits ≤ maxDigits
  | none => false

/-- Groups of three digits, each behind a comma, and what follows them. -/
def skipGroups : Text → Text
  | ',' :: a :: b :: c :: r =>
    if a.isDigit && b.isDigit && c.isDigit then skipGroups r else ',' :: a :: b :: c :: r
  | s => s

/-- Whether a text is a point and digits; `bare` tells whether no digit need follow the point. -/
def isFraction (bare : Bool) : Text → Bool
  | '.' :: r => r.all Char.isDigit && (bare || !r.isEmpty)
  | _ => false

/-- Whether a text is a number with a comma before each group of three digits, with or without a
fraction.  A line feed at the end does not count. -/
def hasGroups (s : Text) : Bool :=
  let s := if s.getLast? == some '\n' then s.dropLast else s
  let u := (Numeral.sign s).2
  let lead := (u.take 3).takeWhile Char.isDigit
  let rest := skipGroups (u.drop lead.length)
  s.isEmpty || isFraction false s ||
    (!lead.isEmpty && (rest.isEmpty || isFraction true rest))

/-- Whether a text is a floating-point number: finite, or named as one that is not. -/
def isNumber (s : Text) : Bool :=
  match Numeral.float? s with
  | none => false
  | some x =>
    x.isFinite || ["inf", "-inf", "nan"].contains (String.ofList (lowerAscii s))

/-- What a cell holds. -/
def contentOf (s : Text) : Content :=
  if s.isEmpty then .nothing
  else if s == "True".toList || s == "False".toList then .truth
  else if isInteger s || (hasGroups s && !s.contains '.') then .integer
  else if isNumber s || hasGroups s then .float
  else .text

/-- What a column holds. -/
def columnContent (cells : List Text) : Content :=
  cells.foldl (fun c s => c.join (contentOf s)) .truth

/-- A cell as it is shown in a column. -/
def showCell (c : Content) (s : Text) : Except Fault Text :=
  if s.isEmpty then .ok []
  else if c == .float then
    let digits := s.filter (· != ',')
    match Numeral.float? digits with
    | some x => .ok x.shortText
    | none => .error (.notFloat (quoted digits))
  else .ok s

/-- How many characters follow the last of the given character, if there is one. -/
def behindLast? (p : Char → Bool) (s : Text) : Option Nat :=
  let t := s.reverse.takeWhile (!p ·)
  if t.length < s.length then some t.length else none

/-- How many digits a number has after its point, or without one after its exponent mark; none
for an integer and for what is no number. -/
def places? (s : Text) : Option Nat :=
  if (isNumber s || hasGroups s) && !isInteger s then
    match behindLast? (· == '.') s with
    | some n => some n
    | none => behindLast? (fun c => c == 'e' || c == 'E') s
  else none

/-- Extend the cells of a column so that their points stand below each other. -/
def alignPoints (cells : List Text) : List Text :=
  let places (s : Text) : Nat := match places? s with
    | some n => n + 1
    | none => 0
  let most := (cells.map places).foldl max 0
  cells.map fun s => s ++ List.replicate (most - places s) ' '

end Lockstep.Table
