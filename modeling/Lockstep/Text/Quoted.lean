import Lockstep.Text.Hex
import Lockstep.Text.Printable

/-!
# Quoted text

A text or a byte string is shown between quotes: single ones, or double ones when it holds a
single quote and no double one.  The quote in use and the backslash are written after a
backslash, tab, line feed and carriage return as letters, and whatever is not printable by its
number.
-/

namespace Lockstep.Text

/-- The quote that needs the least escaping, single if in doubt. -/
def quoteFor (s : List Char) : Char :=
  if s.contains '\'' && !s.contains '"' then '"' else '\''

/-- A character by its number, as short as the number allows. -/
def escapeNumber (n : Nat) : List Char :=
  if n ≤ 0xFF then ['\\', 'x'] ++ hex 2 n
  else if n ≤ 0xFFFF then ['\\', 'u'] ++ hex 4 n
  else ['\\', 'U'] ++ hex 8 n

/-- One character between the quotes `q`, where `plain` tells what stands for itself. -/
def escapeChar (plain : Char → Bool) (q c : Char) : List Char :=
  if c == q || c == '\\' then ['\\', c]
  else if c == '\t' then ['\\', 't']
  else if c == '\n' then ['\\', 'n']
  else if c == '\r' then ['\\', 'r']
  else if plain c then [c]
  else escapeNumber c.toNat

/-- A text in quotes. -/
def quoted (s : List Char) : List Char :=
  let q := quoteFor s
  q :: s.flatMap (escapeChar isPrintable q) ++ [q]

/-- Bytes outside printable ASCII are written by number. -/
def isPlainByte (c : Char) : Bool := 0x20 ≤ c.toNat && c.toNat ≤ 0x7E

/-- A byte string in quotes, after the letter `b`. -/
def quotedBytes (bs : List UInt8) : List Char :=
  let s := bs.map fun b => Char.ofNat b.toNat
  let q := quoteFor s
  'b' :: q :: s.flatMap (escapeChar isPlainByte q) ++ [q]

end Lockstep.Text
