/-!
# Lines

Four ways to see lines in a text:

* `unifyEnds` writes every line end (`\n`, `\r\n`, `\r`) as `\n`;
* `Lines.afterEnds` cuts after every line end and keeps the ends;
* `Lines.pieces` cuts at every line boundary of Unicode and drops the boundaries;
* `Text.splitOn` (in `Lockstep.Text.Blank`) cuts at chosen characters.
-/

namespace Lockstep.Text

/-- Every line end becomes a line feed. -/
def unifyEnds : List Char → List Char
  | [] => []
  | '\r' :: '\n' :: r => '\n' :: unifyEnds r
  | '\r' :: r => '\n' :: unifyEnds r
  | c :: r => c :: unifyEnds r

end Lockstep.Text

namespace Lockstep.Lines

/-- Put a character in front of the first line. -/
def push (c : Char) : List (List Char) → List (List Char)
  | [] => [[c]]
  | l :: ls => (c :: l) :: ls

/-- Cut after every `\n`, `\r\n` and lone `\r`; the lines keep their ends and none is empty. -/
def afterEnds : List Char → List (List Char)
  | [] => []
  | '\r' :: '\n' :: r => ['\r', '\n'] :: afterEnds r
  | '\r' :: r => ['\r'] :: afterEnds r
  | '\n' :: r => ['\n'] :: afterEnds r
  | c :: r => push c (afterEnds r)

/-- The characters at which Unicode ends a line. -/
def isBoundary (c : Char) : Bool :=
  let n := c.toNat
  (0x0A ≤ n && n ≤ 0x0D) || (0x1C ≤ n && n ≤ 0x1E) || n == 0x85 || n == 0x2028 || n == 0x2029

/-- Cut at every line boundary; a boundary at the very end opens no further line. -/
def pieces : List Char → List (List Char)
  | [] => []
  | '\r' :: '\n' :: r => [] :: pieces r
  | c :: r => if isBoundary c then [] :: pieces r else push c (pieces r)

end Lockstep.Lines
