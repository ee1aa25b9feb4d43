import Lockstep.Text.Blank
import Lockstep.Text.Decimal
import Lockstep.Numeral.Binary64

/-!
# Reading numerals

A run of digits may hold single underscores between two digits.  `Numeral.integer?` reads an
optional sign and a run; `Numeral.float?` reads the decimal notations of a floating-point
number and the names of the infinities and of the value that is no number, in any case.  White
space around either is ignored, and the digits may be of any script.
-/

namespace Lockstep.Numeral

open Lockstep.Text

/-- The digits of a run, where `after` tells that a digit has just been read. -/
def digitRun (after : Bool) : List Char → Option (List Char)
  | [] => if after then some [] else none
  | c :: r =>
    if c.isDigit then (digitRun true r).map (c :: ·)
    else if c == '_' && after then digitRun false r
    else none

/-- The digits of a whole run. -/
def digits? (s : List Char) : Option (List Char) := digitRun false s

/-- The value of a list of ASCII digits. -/
def ofDigits (s : List Char) : Nat := s.foldl (fun n c => 10 * n + (c.toNat - 48)) 0

/-- An optional sign: whether it is a minus, and the rest. -/
def sign : List Char → Bool × List Char
  | '-' :: r => (true, r)
  | '+' :: r => (false, r)
  | s => (false, s)

/-- An integer as read: its value, and how many digits its numeral has. -/
structure Read where
  value : Int
  digits : Nat
  deriving DecidableEq, Repr

/-- An optional sign and a run of ASCII digits. -/
def signed? (s : List Char) : Option Read :=
  let p := sign s
  (digits? p.2).map fun ds =>
    let n := Int.ofNat (ofDigits ds)
    ⟨if p.1 then -n else n, ds.length⟩

/-- An integer, with white space around it and digits of any script. -/
def integer? (s : List Char) : Option Read := signed? (asciiDigits (trim isWhiteSpace s))

/-- The blanks of ASCII. -/
def isAsciiBlank (c : Char) : Bool := c == ' ' || (9 ≤ c.toNat && c.toNat ≤ 13)

/-- An integer in ASCII bytes, with blanks around it. -/
def integerBytes? (bs : List UInt8) : Option Read :=
  signed? (trim isAsciiBlank (bs.map fun b => Char.ofNat b.toNat))

/-- The exponent of a numeral, after its mantissa: nothing, or the letter `e` and an integer. -/
def exponent? : List Char → Option Int
  | [] => some 0
  | c :: r => if c == 'e' || c == 'E' then (signed? r).map (·.value) else none

/-- The mantissa and exponent of an unsigned decimal numeral, with a point or without. -/
def decimal? (s : List Char) : Option (Nat × Int) :=
  let isMark (c : Char) : Bool := c == '.' || c == 'e' || c == 'E'
  let whole := s.takeWhile (!isMark ·)
  match s.dropWhile (!isMark ·) with
  | '.' :: r =>
    let isLetter (c : Char) : Bool := c == 'e' || c == 'E'
    let part := r.takeWhile (!isLetter ·)
    let run (t : List Char) : Option (List Char) := if t.isEmpty then some [] else digits? t
    if whole.isEmpty && part.isEmpty then none
    else do
      let a ← run whole
      let b ← run part
      let e ← exponent? (r.dropWhile (!isLetter ·))
      pure (ofDigits (a ++ b), e - Int.ofNat b.length)
  | r => do
      let a ← digits? whole
      let e ← exponent? r
      pure (ofDigits a, e)

/-- A floating-point number in ASCII digits without blanks. -/
def plainFloat? (s : List Char) : Option Binary64 :=
  let p := sign s
  let name := lowerAscii p.2
  if name == "inf".toList || name == "infinity".toList then some (.infinite p.1)
  else if name == "nan".toList then some .nan
  else (decimal? p.2).map fun d => Binary64.ofScientific p.1 d.1 d.2

/-- A floating-point number, with white space around it and digits of any script. -/
def float? (s : List Char) : Option Binary64 :=
  plainFloat? (asciiDigits (trim isWhiteSpace s))

end Lockstep.Numeral
