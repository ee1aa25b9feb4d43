import Lockstep.Text.Blank

/-!
# Base 64

Four characters of the alphabet stand for three bytes, six bits each.  `Base64.decode?` passes
over characters outside the alphabet.  Padding ends the data where it completes a group of four;
data that end within a group otherwise are refused.
-/

namespace Lockstep.Base64

/-- The six bits of a character. -/
def sextet? (c : Char) : Option Nat :=
  if 'A' ≤ c && c ≤ 'Z' then some (c.toNat - 65)
  else if 'a' ≤ c && c ≤ 'z' then some (c.toNat - 71)
  else if '0' ≤ c && c ≤ '9' then some (c.toNat + 4)
  else if c == '+' then some 62
  else if c == '/' then some 63
  else none

/-- What a character adds at a place in its group, given the bits that are left of the one before
it: the byte that it completes, if it does, and the bits that it leaves. -/
def advance (place left bits : Nat) : Option UInt8 × Nat :=
  match place with
  | 0 => (none, bits)
  | 1 => (some (left * 4 + bits / 16).toUInt8, bits % 16)
  | 2 => (some (left * 16 + bits / 4).toUInt8, bits % 4)
  | _ => (some (left * 64 + bits).toUInt8, 0)

/-- Decode from a place in a group, with so much padding just before. -/
def decodeFrom (place left pads : Nat) : Text → Option (List UInt8)
  | [] => if place == 0 then some [] else none
  | c :: r =>
    if c == '=' then
      if place < 2 then decodeFrom place left pads r
      else if 4 ≤ place + pads + 1 then some []
      else decodeFrom place left (pads + 1) r
    else
      match sextet? c with
      | none => decodeFrom place left pads r
      | some bits =>
        let p := advance place left bits
        (decodeFrom ((place + 1) % 4) p.2 0 r).map (p.1.toList ++ ·)

/-- Decode a text. -/
def decode? (s : Text) : Option (List UInt8) := decodeFrom 0 0 0 s

end Lockstep.Base64
