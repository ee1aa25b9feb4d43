import Lockstep.Numeral.Shortest

/-!
# Writing numbers

`natText` and `intText` write integers.  A `FloatLayout` says how a decimal is laid out: which
powers of ten of the first digit are written without an exponent, and whether a whole number
then ends in `.0`.  Two layouts are in use: `FloatLayout.exact`, for the shortest digits that
read back, and `FloatLayout.short`, for six significant digits.
-/

namespace Lockstep

/-- The decimal numeral of a natural number. -/
def natText (n : Nat) : List Char := Nat.toDigits 10 n

/-- The decimal numeral of an integer. -/
def intText (i : Int) : List Char :=
  match i with
  | .ofNat n => natText n
  | .negSucc n => '-' :: natText (n + 1)

/-- Zeros in front up to the given width. -/
def zeroPad (width : Nat) (s : List Char) : List Char :=
  List.replicate (width - s.length) '0' ++ s

/-- How a decimal is laid out. -/
structure FloatLayout where
  /-- The least power of ten of the first digit that is written without an exponent. -/
  least : Int
  /-- The least power of ten above those. -/
  above : Int
  /-- Whether a whole number without an exponent ends in `.0`. -/
  keepPoint : Bool
  /-- The least count of digits of the exponent. -/
  exponentWidth : Nat

namespace FloatLayout

/-- Positional from `10⁻⁴` to below `10¹⁶`, with a point; exponents of two digits at least. -/
def exact : FloatLayout := ⟨-4, 16, true, 2⟩

/-- Positional from `10⁻⁴` to below `10⁶`; exponents of two digits at least. -/
def short : FloatLayout := ⟨-4, 6, false, 2⟩

/-- A decimal without final zeros, unsigned. -/
def write (l : FloatLayout) (d : Decimal) : List Char :=
  let ds := natText d.digits
  let lead := d.leading
  if l.least ≤ lead && lead < l.above then
    if 0 ≤ d.exponent then
      ds ++ List.replicate d.exponent.toNat '0' ++ (if l.keepPoint then ['.', '0'] else [])
    else if 0 ≤ lead then
      ds.take (lead.toNat + 1) ++ '.' :: ds.drop (lead.toNat + 1)
    else '0' :: '.' :: (List.replicate ((-lead).toNat - 1) '0' ++ ds)
  else
    let rest := ds.drop 1
    ds.take 1 ++ (if rest.isEmpty then [] else '.' :: rest) ++
      'e' :: (if lead < 0 then '-' else '+') :: zeroPad l.exponentWidth (natText lead.natAbs)

end FloatLayout

namespace Binary64

/-- A minus sign where there is one. -/
def signText (negative : Bool) : List Char := if negative then ['-'] else []

/-- The text of a number, given how its magnitude is written. -/
def textWith (write : Nat → Int → List Char) : Binary64 → List Char
  | .finite s m e => signText s ++ write m e
  | .infinite s => signText s ++ ['i', 'n', 'f']
  | .nan => ['n', 'a', 'n']

/-- The shortest text that reads back. -/
def text : Binary64 → List Char :=
  textWith fun m e => FloatLayout.exact.write (shortest m e)

/-- The text of six significant digits. -/
def shortText : Binary64 → List Char :=
  textWith fun m e => FloatLayout.short.write (significant 6 m e).normal

/-- The text with a fixed number of decimal places. -/
def fixedText (places : Nat) : Binary64 → List Char :=
  textWith fun m e =>
    let r := magnitude m e
    let n := roundDiv (r.1 * tenTo places) r.2
    natText (n / tenTo places) ++
      (if places == 0 then [] else '.' :: zeroPad places (natText (n % tenTo places)))

end Binary64

end Lockstep
