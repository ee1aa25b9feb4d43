import Lockstep.Records.FileLines
import Lockstep.Value.Basic

/-!
# Delimited text

A row is a list of fields with a delimiter between them.  A field that starts with a quote runs
to the next quote and may hold delimiters and line ends; a quote in it is written twice, and what
follows the closing quote is part of the field.  A quoted field that is not closed runs to the
end of the file.

The first row names the columns.  Every later row that has a field is a record: a column without
a field has no value, and fields without a column are kept as a list under the key of none.
-/

namespace Lockstep.Records.Delimited

/-- Where a reader of rows stands. -/
inductive Place
  | rowStart
  | fieldStart
  | plain
  | quoted
  /-- Behind a quote inside of a quoted field. -/
  | closing
  | rowEnd
  deriving DecidableEq, Repr

/-- A row in the making; field and fields are in reverse order. -/
structure Scan where
  place : Place
  field : Text
  size : Nat
  fields : List Text

namespace Scan

/-- Before a row. -/
def start : Scan := ⟨.rowStart, [], 0, []⟩

/-- The greatest size of a field. -/
def maxField : Nat := 131072

/-- Add a character to the field. -/
def add (place : Place) (c : Char) (s : Scan) : Except Fault Scan :=
  if maxField ≤ s.size then .error .delimitedSyntax
  else .ok { s with place := place, field := c :: s.field, size := s.size + 1 }

/-- Close the field. -/
def save (place : Place) (s : Scan) : Scan := ⟨place, [], 0, s.field.reverse :: s.fields⟩

/-- Whether a character ends a line. -/
def isEnd (c : Char) : Bool := c == '\n' || c == '\r'

/-- Read a character at the start of a field. -/
def atField (delimiter c : Char) (s : Scan) : Except Fault Scan :=
  if isEnd c then .ok (s.save .rowEnd)
  else if c == '"' then .ok { s with place := .quoted }
  else if c == delimiter then .ok (s.save .fieldStart)
  else s.add .plain c

/-- Read one character. -/
def step (delimiter : Char) (s : Scan) (c : Char) : Except Fault Scan :=
  match s.place with
  | .rowStart =>
    if isEnd c then .ok { s with place := .rowEnd }
    else atField delimiter c { s with place := .fieldStart }
  | .fieldStart => atField delimiter c s
  | .plain =>
    if isEnd c then .ok (s.save .rowEnd)
    else if c == delimiter then .ok (s.save .fieldStart)
    else s.add .plain c
  | .quoted => if c == '"' then .ok { s with place := .closing } else s.add .quoted c
  | .closing =>
    if c == '"' then s.add .quoted c
    else if c == delimiter then .ok (s.save .fieldStart)
    else if isEnd c then .ok (s.save .rowEnd)
    else s.add .plain c
  | .rowEnd => if isEnd c then .ok s else .error .delimitedSyntax

/-- Read the end of a line: the row is complete unless a quoted field is open. -/
def endLine (s : Scan) : Scan :=
  match s.place with
  | .rowStart => s
  | .rowEnd => { s with place := .rowStart }
  | .quoted => s
  | .fieldStart | .plain | .closing => s.save .rowStart

/-- Read a whole line. -/
def line (delimiter : Char) (s : Scan) (l : Text) : Except Fault Scan :=
  (l.foldlM (step delimiter) s).map endLine

/-- The complete row. -/
def row (s : Scan) : List Text := s.fields.reverse

end Scan

/-- The rows of some lines. -/
def rowsFrom (delimiter : Char) : Scan → Stream Text → Stream (List Text)
  | s, [] =>
    -- What is left is a quoted field without an end, or nothing.
    if s.size != 0 || s.place == .quoted then [.ok (s.save .rowStart).row] else []
  | _, .error f :: _ => [.error f]
  | s, .ok l :: ls =>
    match s.line delimiter l with
    | .error f => [.error f]
    | .ok t =>
      if t.place == .rowStart then .ok t.row :: rowsFrom delimiter .start ls
      else rowsFrom delimiter t ls

/-- A row as a record, given the names of the columns. -/
def record (names row : List Text) : Value :=
  let paired := (names.zip row).map fun p => (Value.text p.1, Value.text p.2)
  let missing := (names.drop row.length).map fun n => (Value.text n, Value.none)
  let extra := row.drop names.length
  let surplus := if extra.isEmpty then [] else [(Value.none, Value.list (extra.map .text))]
  Value.dictOf (paired ++ missing ++ surplus)

/-- The records of rows: the first row names the columns, empty rows after it are passed over. -/
def records : Stream (List Text) → Stream Value
  | [] => []
  | .error f :: _ => [.error f]
  | .ok names :: rows =>
    (rows.filter fun r => match r with
      | .ok r => !r.isEmpty
      | .error _ => true).map fun r => r.map (record names)

end Delimited

/-- The records of a file of delimited text. -/
def delimited (delimiter : Text) (bytes : List UInt8) : Stream Value :=
  match delimiter with
  | [d] => Delimited.records (Delimited.rowsFrom d .start (fileLines bytes))
  | _ => [.error .delimiterLength]

end Lockstep.Records
