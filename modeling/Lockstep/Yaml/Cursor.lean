import Lockstep.Fault

/-!
# A cursor in a YAML text

A cursor is what is left of the text, with the line and column of its first character.  The line
ends are the line feed and the three other breaks of Unicode; a byte order mark takes no column.
-/

namespace Lockstep.Yaml

/-- The line breaks. -/
def isBreak (c : Char) : Bool := c == '\n' || c == '\x85' || c == '\u2028' || c == '\u2029'

/-- Blanks and line breaks. -/
def isGap (c : Char) : Bool := c == ' ' || c == '\t' || isBreak c

/-- The characters that a text may hold. -/
def isAllowed (c : Char) : Bool :=
  let n := c.toNat
  n == 9 || n == 10 || n == 13 || (0x20 ≤ n && n ≤ 0x7E) || n == 0x85 ||
    (0xA0 ≤ n && n ≤ 0xD7FF) || (0xE000 ≤ n && n ≤ 0xFFFD) || 0x10000 ≤ n

/-- What is left of a text, and where it starts. -/
structure Cursor where
  rest : Text
  index : Nat
  line : Nat
  column : Nat

namespace Cursor

/-- At the start of a text. -/
def start (s : Text) : Cursor := ⟨s, 0, 0, 0⟩

/-- The character at the cursor. -/
def peek? (c : Cursor) : Option Char := c.rest.head?

/-- Whether nothing is left. -/
def atEnd (c : Cursor) : Bool := c.rest.isEmpty

/-- Behind the next character. -/
def next (c : Cursor) : Cursor :=
  match c.rest with
  | [] => c
  | ch :: r =>
    if isBreak ch then ⟨r, c.index + 1, c.line + 1, 0⟩
    else if ch == '\ufeff' then ⟨r, c.index + 1, c.line, c.column⟩
    else ⟨r, c.index + 1, c.line, c.column + 1⟩

/-- Behind the next `n` characters. -/
def advance : Nat → Cursor → Cursor
  | 0, c => c
  | n + 1, c => advance n c.next

/-- Whether the character at the cursor is in `p`. -/
def sees (p : Char → Bool) (c : Cursor) : Bool :=
  match c.rest with
  | [] => false
  | ch :: _ => p ch

/-- Whether the text ends `n` characters further on, or has a gap there. -/
def gapAt (n : Nat) (c : Cursor) : Bool :=
  match c.rest.drop n with
  | [] => true
  | ch :: _ => isGap ch

/-- The characters in `p` at the cursor, and the cursor behind them. -/
def span (p : Char → Bool) (c : Cursor) : Text × Cursor :=
  let s := c.rest.takeWhile p
  (s, c.advance s.length)

/-- Behind the characters in `p`. -/
def skip (p : Char → Bool) (c : Cursor) : Cursor := (c.span p).2

/-- Behind the blanks. -/
def skipSpaces (c : Cursor) : Cursor := c.skip (· == ' ')

/-- Behind at most `n` blanks. -/
def skipSpacesUpTo : Nat → Cursor → Cursor
  | 0, c => c
  | n + 1, c => if c.sees (· == ' ') then skipSpacesUpTo n c.next else c

/-- The line break at the cursor as it enters a scalar, and the cursor behind it. -/
def lineBreak? (c : Cursor) : Option (Char × Cursor) :=
  match c.rest with
  | [] => none
  | ch :: _ => if isBreak ch then some (if ch == '\x85' then '\n' else ch, c.next) else none

/-- Whether three equal marks and a gap follow: a line that parts documents. -/
def atSeparator (c : Cursor) : Bool :=
  (['-', '-', '-'].isPrefixOf c.rest || ['.', '.', '.'].isPrefixOf c.rest) && c.gapAt 3

/-- Behind the comment at the cursor, if there is one. -/
def skipComment (c : Cursor) : Cursor :=
  if c.sees (· == '#') then c.skip (!isBreak ·) else c

/-- Behind the rest of a line that holds nothing but a comment. -/
def lineRest (c : Cursor) : Except Fault Cursor :=
  let c := c.skipSpaces.skipComment
  if c.atEnd then .ok c
  else
    match c.lineBreak? with
    | some (_, c) => .ok c
    | none => .error .yamlSyntax

end Cursor

end Lockstep.Yaml
