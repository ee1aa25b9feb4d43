import Lockstep.Text.Hex
import Lockstep.Yaml.Cursor

/-!
# The four forms of scalars

A scalar is plain, in single or double quotes, or a block of lines.  In all of them a single line
break inside is folded: it becomes a blank, and of several breaks the first is dropped.  In a
literal block every break is kept.
-/

namespace Lockstep.Yaml

/-- What a break and the breaks after it become. -/
def folded (first : Char) (more : Text) : Text :=
  if first != '\n' then first :: more else if more.isEmpty then [' '] else more

namespace Plain

/-- Whether a character ends or parts flow collections. -/
def isFlowMark (c : Char) : Bool := c == ',' || c == '[' || c == ']' || c == '\x7b' || c == '\x7d'

/-- The characters up to the first gap, the first colon in front of one, and in a flow
collection the first mark. -/
def run (inFlow : Bool) : Text → Text
  | [] => []
  | c :: r =>
    let colonEnds := match r with
      | [] => true
      | d :: _ => isGap d || (inFlow && isFlowMark d)
    if isGap c then []
    else if c == ':' && colonEnds then []
    else if inFlow && (isFlowMark c || c == '?') then []
    else c :: run inFlow r

/-- The breaks that follow a break, and the cursor behind the blanks after them; none when a
line parts documents. -/
def breaks : (fuel : Nat) → Cursor → Option Text × Cursor
  | 0, c => (some [], c)
  | fuel + 1, c =>
    if c.sees (· == ' ') then breaks fuel c.next
    else
      match c.lineBreak? with
      | none => (some [], c)
      | some (b, c) =>
        if c.atSeparator then (none, c)
        else
          let p := breaks fuel c
          (p.1.map (b :: ·), p.2)

/-- The gap after a run: what it becomes if the scalar goes on, and whether it holds a break.
Nothing is given when the scalar cannot go on. -/
def gap (c : Cursor) : Option Text × Bool × Cursor :=
  let p := c.span (· == ' ')
  match p.2.lineBreak? with
  | some (b, c) =>
    if c.atSeparator then (none, true, c)
    else
      let q := breaks (c.rest.length + 1) c
      (q.1.map (folded b), true, q.2)
  | none => (if p.1.isEmpty then none else some p.1, false, p.2)

/-- A plain scalar as read so far. -/
structure Scan where
  text : Text
  cursor : Cursor
  /-- Whether a simple key may follow, because the scalar ended at the start of a line. -/
  allowKey : Bool

/-- Go on with a plain scalar whose lines are indented by `indent` at least. -/
def scanFrom (inFlow : Bool) (indent : Nat) : (fuel : Nat) → (before : Text) → Scan → Scan
  | 0, _, s => s
  | fuel + 1, before, s =>
    let part := run inFlow s.cursor.rest
    if s.cursor.sees (· == '#') || part.isEmpty then s
    else
      let g := gap (s.cursor.advance part.length)
      let s : Scan := ⟨s.text ++ before ++ part, g.2.2, g.2.1⟩
      match g.1 with
      | none => s
      | some spaces =>
        if s.cursor.sees (· == '#') || (!inFlow && s.cursor.column < indent) then s
        else scanFrom inFlow indent fuel spaces s

/-- The plain scalar at the cursor. -/
def scan (inFlow : Bool) (indent : Nat) (c : Cursor) : Scan :=
  scanFrom inFlow indent (c.rest.length + 1) [] ⟨[], c, false⟩

end Plain

namespace Quoted

/-- The breaks that follow a break, and the cursor behind the blanks after them. -/
def breaks : (fuel : Nat) → Cursor → Except Fault (Text × Cursor)
  | 0, _ => .error .yamlSyntax
  | fuel + 1, c =>
    if c.atSeparator then .error .yamlSyntax
    else
      let c := c.skip fun ch => ch == ' ' || ch == '\t'
      match c.lineBreak? with
      | none => .ok ([], c)
      | some (b, c) => (breaks fuel c).map fun p => (b :: p.1, p.2)

/-- What a letter after a backslash stands for. -/
def escape? : Char → Option Char
  | '0' => some '\x00'
  | 'a' => some '\x07'
  | 'b' => some '\x08'
  | 't' => some '\t'
  | '\t' => some '\t'
  | 'n' => some '\n'
  | 'v' => some '\x0b'
  | 'f' => some '\x0c'
  | 'r' => some '\r'
  | 'e' => some '\x1b'
  | ' ' => some ' '
  | '"' => some '"'
  | '\\' => some '\\'
  | '/' => some '/'
  | 'N' => some '\x85'
  | '_' => some '\xa0'
  | 'L' => some '\u2028'
  | 'P' => some '\u2029'
  | _ => none

/-- How many hexadecimal digits follow a letter after a backslash. -/
def escapeWidth? : Char → Option Nat
  | 'x' => some 2
  | 'u' => some 4
  | 'U' => some 8
  | _ => none

/-- What the escape at the cursor, behind its backslash, stands for. -/
def escape (c : Cursor) : Except Fault (Text × Cursor) :=
  match c.rest with
  | [] => .error .yamlSyntax
  | ch :: r =>
    match escape? ch with
    | some d => .ok ([d], c.next)
    | none =>
      match escapeWidth? ch with
      | some n =>
        let digits := r.take n
        match Text.ofHex? digits with
        | some code =>
          if digits.length < n then .error .yamlSyntax
          else if 0x7FFFFFFF < code then .error .codePointOverflow
          else if 0x10FFFF < code then .error .codePointRange
          else if Text.isSurrogate code then .error .loneSurrogate
          else .ok ([Char.ofNat code], c.advance (n + 1))
        | none => .error .yamlSyntax
      | none =>
        match c.lineBreak? with
        | some (_, c) => breaks (c.rest.length + 2) c
        | none => .error .yamlSyntax

/-- The rest of a scalar in the quotes `q`, and the cursor behind the closing one. -/
def scanFrom (q : Char) : (fuel : Nat) → Cursor → Except Fault (Text × Cursor)
  | 0, _ => .error .yamlSyntax
  | fuel + 1, c =>
    match c.rest with
    | [] => .error .yamlSyntax
    | ch :: r =>
      if ch == q then
        if q == '\'' && r.head? == some '\'' then
          (scanFrom q fuel (c.advance 2)).map fun p => ('\'' :: p.1, p.2)
        else .ok ([], c.next)
      else if ch == '\\' && q == '"' then do
        let e ← escape c.next
        let p ← scanFrom q fuel e.2
        .ok (e.1 ++ p.1, p.2)
      else if isGap ch then do
        let p := c.span fun d => d == ' ' || d == '\t'
        if p.2.atEnd then .error .yamlSyntax
        else
          match p.2.lineBreak? with
          | some (b, c) =>
            let more ← breaks (c.rest.length + 2) c
            let s ← scanFrom q fuel more.2
            .ok (folded b more.1 ++ s.1, s.2)
          | none =>
            let s ← scanFrom q fuel p.2
            .ok (p.1 ++ s.1, s.2)
      else (scanFrom q fuel c.next).map fun p => (ch :: p.1, p.2)

/-- The scalar that starts at the cursor with the quote `q`. -/
def scan (q : Char) (c : Cursor) : Except Fault (Text × Cursor) :=
  scanFrom q (c.rest.length + 2) c.next

end Quoted

namespace Block

/-- What becomes of the breaks at the end. -/
inductive Chomping
  /-- None is kept. -/
  | strip
  /-- The first is kept. -/
  | clip
  /-- All are kept. -/
  | keep
  deriving DecidableEq, Repr

/-- A sign for the breaks at the end. -/
def chomping? : Option Char → Option Chomping
  | some '+' => some .keep
  | some '-' => some .strip
  | _ => none

/-- A digit for the indentation. -/
def digit? (c : Option Char) : Option Nat :=
  c.bind fun d => if d.isDigit then some (d.toNat - 48) else none

/-- The header of a block: sign and digit in any order, both optional. -/
def header (c : Cursor) : Except Fault (Chomping × Option Nat × Cursor) := do
  let (sign, digit, c) :=
    match chomping? c.peek? with
    | some s =>
      match digit? c.next.peek? with
      | some d => (s, some d, c.advance 2)
      | none => (s, none, c.next)
    | none =>
      match digit? c.peek? with
      | some d =>
        match chomping? c.next.peek? with
        | some s => (s, some d, c.advance 2)
        | none => (.clip, some d, c.next)
      | none => (.clip, none, c)
  if digit == some 0 || !(c.atEnd || c.sees fun ch => ch == ' ' || isBreak ch) then
    .error .yamlSyntax
  else
    let c ← c.lineRest
    .ok (sign, digit, c)

/-- The breaks before the first line of text, and the greatest indentation among them. -/
def leading : (fuel : Nat) → (greatest : Nat) → Cursor → Text × Nat × Cursor
  | 0, greatest, c => ([], greatest, c)
  | fuel + 1, greatest, c =>
    match c.lineBreak? with
    | some (b, c) =>
      let p := leading fuel greatest c
      (b :: p.1, p.2)
    | none =>
      if c.sees (· == ' ') then leading fuel (max greatest c.next.column) c.next
      else ([], greatest, c)

/-- The breaks at the cursor; behind each, blanks are skipped up to the indentation. -/
def breaks (indent : Nat) : (fuel : Nat) → Cursor → Text × Cursor
  | 0, c => ([], c)
  | fuel + 1, c =>
    let c := c.skipSpacesUpTo (indent - c.column)
    match c.lineBreak? with
    | some (b, c) =>
      let p := breaks indent fuel c
      (b :: p.1, p.2)
    | none => ([], c)

/-- A block as read so far: its text, the break after its last line, and the breaks after it. -/
structure Scan where
  text : Text
  last : Text
  more : Text
  cursor : Cursor

/-- Read the lines of a block. -/
def lines (fold : Bool) (indent : Nat) : (fuel : Nat) → Scan → Scan
  | 0, s => s
  | fuel + 1, s =>
    if s.cursor.column != indent || s.cursor.atEnd then s
    else
      let isText (c : Cursor) : Bool := !c.sees fun ch => ch == ' ' || ch == '\t'
      let p := s.cursor.span (!isBreak ·)
      let text := s.text ++ s.more ++ p.1
      let last := (p.2.lineBreak?.map fun b => [b.1]).getD []
      let behind := (p.2.lineBreak?.map (·.2)).getD p.2
      let q := breaks indent (behind.rest.length + 1) behind
      if q.2.column == indent && !q.2.atEnd then
        let between :=
          if fold && last == ['\n'] && isText s.cursor && isText q.2 then
            (if q.1.isEmpty then [' '] else [])
          else last
        lines fold indent fuel ⟨text ++ between, last, q.1, q.2⟩
      else ⟨text, last, q.1, q.2⟩

/-- The block whose mark is at the cursor, in a place with the given indentation. -/
def scan (fold : Bool) (parent : Int) (c : Cursor) : Except Fault (Text × Cursor) := do
  let (chomping, digit, c) ← header c.next
  let least := max (parent + 1).toNat 1
  let fuel := c.rest.length + 1
  let (indent, before, c) :=
    match digit with
    | some d =>
      let indent := least + d - 1
      let p := breaks indent fuel c
      (indent, p.1, p.2)
    | none =>
      let p := leading fuel 0 c
      (max least p.2.1, p.1, p.2.2)
  let s := lines fold indent fuel ⟨[], [], before, c⟩
  let tail := match chomping with
    | .strip => []
    | .clip => s.last
    | .keep => s.last ++ s.more
  .ok (s.text ++ tail, s.cursor)

end Block

end Lockstep.Yaml
