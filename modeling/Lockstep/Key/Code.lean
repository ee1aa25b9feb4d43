import Lockstep.Fault

/-!
# Codes for key fields

`pad` cuts or extends a text to a fixed width.  `encodeInt` writes an integer so that the order
of the codes is the order of the integers: what is not negative by its digits, what is negative
by a minus sign and its distance from the least integer that fits.

`padTo` and `encodeIntTo` take any width and say what is wrong with it, and keep to the longest
numeral and the greatest width that can be written.
-/

namespace Lockstep.Key

/-- Cut or extend with blanks to exactly `width` characters. -/
def pad (width : Nat) (s : Text) : Text :=
  let t := s.take width
  t ++ List.replicate (width - t.length) ' '

@[simp] theorem pad_length (width : Nat) (s : Text) : (pad width s).length = width := by
  simp only [pad, List.length_append, List.length_take, List.length_replicate]
  omega

/-- The code of an integer in `width` digits, if it fits. -/
def encodeInt (width : Nat) (v : Int) : Option Text :=
  let limit := Int.ofNat (tenTo width)
  if -limit < v && v < limit then
    some (if 0 ≤ v then zeroPad width (natText v.toNat)
      else '-' :: zeroPad width (natText (limit + v).toNat))
  else none

/-- The greatest width that a text can be padded to. -/
def maxWidth : Nat := twoTo 63 - 1

/-- The most digits that a numeral may have. -/
def maxDigits : Nat := 4300

/-- Whether the numeral of a natural number may be written. -/
def isWritable (n : Nat) : Bool := n < tenTo maxDigits

/-- `pad` for any width: it may not be negative, nor greater than the greatest. -/
def padTo (width : Int) (s : Text) : Except Fault Text :=
  if width < 0 then .error .missingPrecision
  else if Int.ofNat maxWidth < width then .error .tooWide
  else .ok (pad width.toNat s)

/-- Zero is the only integer between the limits of a negative width, which vanish below
`10⁻³²³`; but it cannot be written in that width. -/
def negativeWidth (shown : Text) (kind : Kind) (width v : Int) : Fault :=
  if v == 0 && -324 < width then .badWidth width kind else .doesNotFit shown width

/-- `encodeInt` for any width, of an integer that is shown as a value of some kind. -/
def encodeShown (shown : Text) (kind : Kind) (width v : Int) : Except Fault Text :=
  if width < 0 then .error (negativeWidth shown kind width v)
  else
    match encodeInt width.toNat v with
    | none =>
      .error (if isWritable v.natAbs then .doesNotFit shown width else .tooManyDigits none)
    | some s =>
      let written := if 0 ≤ v then v else Int.ofNat (tenTo width.toNat) + v
      if isWritable written.toNat then .ok s else .error (.tooManyDigits none)

/-- `encodeInt` for any width. -/
def encodeIntTo (width v : Int) : Except Fault Text := encodeShown (intText v) .int width v

end Lockstep.Key
