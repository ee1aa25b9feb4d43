/-!
# Texts and blanks

A `Text` is a list of code points.  Two sets of blanks are in use:

* `isWhiteSpace`: the characters with the Unicode property `White_Space`;
* `isBlank`: those and the four information separators `U+001C` … `U+001F`.

`Text.trim p` drops the characters in `p` from both ends.
-/

namespace Lockstep

/-- A text is a list of code points. -/
abbrev Text := List Char

namespace Text

/-- The characters with the Unicode property `White_Space`. -/
def isWhiteSpace (c : Char) : Bool :=
  let n := c.toNat
  (9 ≤ n && n ≤ 13) || n == 0x20 || n == 0x85 || n == 0xA0 || n == 0x1680 ||
    (0x2000 ≤ n && n ≤ 0x200A) || n == 0x2028 || n == 0x2029 || n == 0x202F ||
    n == 0x205F || n == 0x3000

/-- White space and the information separators. -/
def isBlank (c : Char) : Bool :=
  isWhiteSpace c || (0x1C ≤ c.toNat && c.toNat ≤ 0x1F)

/-- Drop the characters in `p` from the end. -/
def trimEnd (p : Char → Bool) (s : Text) : Text :=
  (s.reverse.dropWhile p).reverse

/-- Drop the characters in `p` from both ends. -/
def trim (p : Char → Bool) (s : Text) : Text :=
  trimEnd p (s.dropWhile p)

/-- Drop the blanks from both ends. -/
def strip (s : Text) : Text := trim isBlank s

/-- Drop the blanks from the end. -/
def stripEnd (s : Text) : Text := trimEnd isBlank s

@[simp] theorem trimEnd_nil (p : Char → Bool) : trimEnd p [] = [] := rfl

@[simp] theorem strip_nil : strip [] = [] := rfl

/-- Split at every character in `p`; there is one piece more than such characters. -/
def splitOn (p : Char → Bool) : Text → List Text
  | [] => [[]]
  | c :: r =>
    if p c then [] :: splitOn p r
    else match splitOn p r with
      | w :: ws => (c :: w) :: ws
      | [] => [[c]]

/-- What stands before the first `c`, and what stands after it (nothing without a `c`). -/
def cutAt (c : Char) (s : Text) : Text × Text :=
  (s.takeWhile (· != c), (s.dropWhile (· != c)).drop 1)

/-- Join the pieces with `sep` between them. -/
def joinWith (sep : Text) : List Text → Text
  | [] => []
  | [w] => w
  | w :: ws => w ++ sep ++ joinWith sep ws

/-- Code-point order: the first difference decides, and a proper start is lower. -/
def before : Text → Text → Bool
  | _, [] => false
  | [], _ :: _ => true
  | a :: r, b :: s => if a == b then before r s else a.toNat < b.toNat

/-- Lower-case the ASCII letters. -/
def lowerAscii (s : Text) : Text := s.map Char.toLower

end Text

end Lockstep
