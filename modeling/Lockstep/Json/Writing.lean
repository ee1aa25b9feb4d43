import Lockstep.Text.Hex
import Lockstep.Value.Basic

/-!
# Writing JSON

`Json.write` writes a value over several lines, each level of nesting indented by two blanks.
Whatever is not printable ASCII is escaped; a character beyond the first plane is a pair of
surrogates.  What JSON has no form for is written as `null`.
-/

namespace Lockstep.Json

/-- The escape of a number of sixteen bits. -/
def unit (n : Nat) : Text := ['\\', 'u'] ++ Text.hex 4 n

/-- One character of a string. -/
def writeChar (c : Char) : Text :=
  if c == '"' || c == '\\' then ['\\', c]
  else if c == '\n' then ['\\', 'n']
  else if c == '\r' then ['\\', 'r']
  else if c == '\t' then ['\\', 't']
  else if c == '\x0c' then ['\\', 'f']
  else if c == '\x08' then ['\\', 'b']
  else if 0x20 ≤ c.toNat && c.toNat ≤ 0x7E then [c]
  else if c.toNat < 0x10000 then unit c.toNat
  else
    let n := c.toNat - 0x10000
    unit (0xD800 + n / 0x400) ++ unit (0xDC00 + n % 0x400)

/-- A string. -/
def writeString (s : Text) : Text := '"' :: s.flatMap writeChar ++ ['"']

/-- A floating-point number. -/
def writeFloat : Binary64 → Text
  | .infinite s => (if s then "-Infinity" else "Infinity").toList
  | .nan => "NaN".toList
  | x => x.text

/-- A new line at a level of nesting. -/
def newLine (level : Nat) : Text := '\n' :: List.replicate (2 * level) ' '

/-- The name of a member. -/
def nameOf : Value → Text
  | .text s => s
  | _ => []

mutual

/-- A value at a level of nesting. -/
def writeAt (level : Nat) : Value → Text
  | .bool b => (if b then "true" else "false").toList
  | .int i => intText i
  | .float x => writeFloat x
  | .text s => writeString s
  | .list [] => ['[', ']']
  | .list (v :: vs) =>
    '[' :: newLine (level + 1) ++ writeAt (level + 1) v ++ writeItems (level + 1) vs ++
      newLine level ++ [']']
  | .dict [] => ['\x7b', '\x7d']
  | .dict ((k, v) :: es) =>
    '\x7b' :: newLine (level + 1) ++ writeString (nameOf k) ++
      ':' :: ' ' :: writeAt (level + 1) v ++ writeMembers (level + 1) es ++
      newLine level ++ ['\x7d']
  | _ => "null".toList

/-- The items after the first one. -/
def writeItems (level : Nat) : List Value → Text
  | [] => []
  | v :: vs => ',' :: newLine level ++ writeAt level v ++ writeItems level vs

/-- The members after the first one. -/
def writeMembers (level : Nat) : List (Value × Value) → Text
  | [] => []
  | (k, v) :: es =>
    ',' :: newLine level ++ writeString (nameOf k) ++ ':' :: ' ' :: writeAt level v ++
      writeMembers level es

end

/-- A value. -/
def write (v : Value) : Text := writeAt 0 v

end Lockstep.Json
