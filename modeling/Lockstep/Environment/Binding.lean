import Lockstep.Numeral.Reading
import Lockstep.Text.Hex

/-!
# Files of bindings

A file of bindings has lines `NAME=value`, with `export` in front or not and blanks around the
equals sign.  A value in single quotes is literal but for an escaped quote or backslash, a value
in double quotes has escapes, and either may run over several lines; any other value ends at a
comment or at the end of the line.  A line that is none of this is passed over.  A name without
an equals sign is bound to nothing.

`Binding.expand` replaces `${NAME}` and `${NAME:-default}` in a value.
-/

namespace Lockstep.Environment

open Lockstep.Text

/-- A name and its value, if it has one. -/
structure Binding where
  name : Text
  value : Option Text
  deriving DecidableEq, Repr

namespace Binding

/-- Whether a character ends a line. -/
def isLineEnd (c : Char) : Bool := c == '\n' || c == '\r'

/-- A blank within a line. -/
def isInnerBlank (c : Char) : Bool := isBlank c && !isLineEnd c

/-- What follows the blanks within a line. -/
def skipBlanks (s : Text) : Text := s.dropWhile isInnerBlank

/-- What follows the line. -/
def skipLine (s : Text) : Text :=
  match s.dropWhile (!isLineEnd ·) with
  | '\r' :: r => r
  | '\n' :: r => r
  | r => r

/-- What follows `export`, if it stands there with blanks behind it. -/
def skipExport (s : Text) : Text :=
  let word := "export".toList
  let r := s.drop word.length
  if word.isPrefixOf s && (r.head?.map isInnerBlank) == some true then skipBlanks r else s

/-- What stands before the closing quote `q`, and what follows it.  A quote after a backslash
closes only if there is no other one. -/
def untilQuote (q : Char) : Text → Option (Text × Text)
  | [] => none
  | '\\' :: c :: r =>
    if c == q then
      match untilQuote q r with
      | some p => some ('\\' :: c :: p.1, p.2)
      | none => some (['\\'], r)
    else (untilQuote q (c :: r)).map fun p => ('\\' :: p.1, p.2)
  | c :: r => if c == q then some ([], r) else (untilQuote q r).map fun p => (c :: p.1, p.2)

/-- The character that a letter after a backslash stands for in double quotes. -/
def escape? : Char → Option Char
  | '\\' => some '\\'
  | '\'' => some '\''
  | '"' => some '"'
  | 'a' => some '\x07'
  | 'b' => some '\x08'
  | 'f' => some '\x0c'
  | 'n' => some '\n'
  | 'r' => some '\r'
  | 't' => some '\t'
  | 'v' => some '\x0b'
  | _ => none

/-- The escapes of single quotes. -/
def quoteEscape? : Char → Option Char
  | '\\' => some '\\'
  | '\'' => some '\''
  | _ => none

/-- Replace the escapes; a backslash before any other character stays. -/
def unescape (escape? : Char → Option Char) : Text → Text
  | [] => []
  | '\\' :: c :: r =>
    match escape? c with
    | some d => d :: unescape escape? r
    | none => '\\' :: unescape escape? (c :: r)
  | c :: r => c :: unescape escape? r

/-- What stands before a comment: a number sign with blanks before it. -/
def beforeComment : Text → Text
  | [] => []
  | c :: r =>
    if isBlank c && ((c :: r).dropWhile isBlank).head? == some '#' then []
    else c :: beforeComment r

/-- The value at the start of a text, and what follows it; none if a quote is not closed. -/
def value? : Text → Option (Text × Text)
  | [] => some ([], [])
  | '\'' :: r => (untilQuote '\'' r).map fun p => (unescape quoteEscape? p.1, p.2)
  | '"' :: r => (untilQuote '"' r).map fun p => (unescape escape? p.1, p.2)
  | s =>
    let part := s.takeWhile (!isLineEnd ·)
    some (stripEnd (beforeComment part), s.drop part.length)

/-- The name at the start of a text, and what follows it: none in front of a comment.  The outer
option is empty when there is no name where one has to be. -/
def name? : Text → Option (Option Text × Text)
  | '#' :: r => some (none, '#' :: r)
  | '\'' :: r =>
    let n := r.takeWhile (· != '\'')
    match r.dropWhile (· != '\'') with
    | _ :: rest => if n.isEmpty then none else some (some n, rest)
    | [] => none
  | s =>
    let stop (c : Char) : Bool := c == '=' || c == '#' || isBlank c
    let n := s.takeWhile (!stop ·)
    if n.isEmpty then none else some (some n, s.dropWhile (!stop ·))

/-- What follows the rest of a line that holds nothing but a comment. -/
def lineEnd? (s : Text) : Option Text :=
  let r := skipBlanks s
  let r := if r.head? == some '#' then skipBlanks (r.dropWhile (!isLineEnd ·)) else r
  match r with
  | [] => some []
  | '\r' :: '\n' :: t => some t
  | c :: t => if isLineEnd c then some t else none

/-- The binding at the start of a text, if there is one, and what follows its line. -/
def read (s : Text) : Option Binding × Text :=
  let s := s.dropWhile isBlank
  if s.isEmpty then (none, [])
  else
    let s := skipExport s
    match name? s with
    | none => (none, skipLine s)
    | some (name, r) =>
      let r := skipBlanks r
      match r with
      | '=' :: t =>
        let t := skipBlanks t
        match value? t with
        | none => (none, skipLine t)
        | some (v, t) =>
          match lineEnd? t with
          | some t => (name.map fun n => ⟨n, some v⟩, t)
          | none => (none, skipLine t)
      | r =>
        match lineEnd? r with
        | some t => (name.map fun n => ⟨n, none⟩, t)
        | none => (none, skipLine r)

/-- The bindings of a text of at most `fuel` lines. -/
def readAll : (fuel : Nat) → Text → List Binding
  | 0, _ => []
  | fuel + 1, s =>
    if s.isEmpty then []
    else
      let p := read s
      p.1.toList ++ readAll fuel p.2

/-- The bindings of a text. -/
def ofText (s : Text) : List Binding := readAll (s.length + 1) s

/-- What stands between `${` and the closing brace: a name, a default, and what follows. -/
def reference? (s : Text) : Option (Text × Text × Text) :=
  let isStop (c : Char) : Bool := c == '\x7d' || c == ':'
  let name := s.takeWhile (!isStop ·)
  match s.dropWhile (!isStop ·) with
  | '\x7d' :: r => some (name, [], r)
  | ':' :: '-' :: r =>
    match r.dropWhile (· != '\x7d') with
    | _ :: t => some (name, r.takeWhile (· != '\x7d'), t)
    | [] => none
  | _ => none

/-- Replace the references in a value by what `look` finds, or by their defaults. -/
def expandWith (look : Text → Option Text) : (fuel : Nat) → Text → Text
  | 0, s => s
  | fuel + 1, s =>
    match s with
    | [] => []
    | '$' :: '\x7b' :: r =>
      match reference? r with
      | some (name, default, t) => (look name).getD default ++ expandWith look fuel t
      | none => '$' :: expandWith look fuel ('\x7b' :: r)
    | c :: r => c :: expandWith look fuel r

/-- Replace the references in a value. -/
def expand (look : Text → Option Text) (s : Text) : Text := expandWith look (s.length + 1) s

/-- The names to which a value refers, in the part of it that starts with the next `fuel`
characters. -/
def referencesWith : (fuel : Nat) → Text → List Text
  | 0, _ => []
  | fuel + 1, s =>
    match s with
    | [] => []
    | '$' :: '\x7b' :: r =>
      match reference? r with
      | some (name, _, t) => name :: referencesWith fuel t
      | none => referencesWith fuel ('\x7b' :: r)
    | _ :: r => referencesWith fuel r

/-- The names to which a value refers. -/
def references (s : Text) : List Text := referencesWith (s.length + 1) s

end Binding

end Lockstep.Environment
