import Lockstep.Text.Hex
import Lockstep.Yaml.Cursor

/-!
# Tokens of a YAML text

The tokens of a text are its marks, scalars and properties, and for block collections, which
have no marks, the points at which the indentation opens and closes them.  A list of tokens ends
with `streamEnd`, or with `broken` where the text is not YAML.

Directives, anchors, aliases and tags are read here; scalars are read in `Lockstep.Yaml.Scalar`.
-/

namespace Lockstep.Yaml

/-- What a directive says. -/
inductive Directive
  | version (major : Nat)
  | handle (name : Text) (start : Text)
  | other
  deriving DecidableEq, Repr

/-- A token. -/
inductive Token
  | directive (d : Directive)
  | documentStart
  | documentEnd
  | streamEnd
  | blockSequenceStart
  | blockMappingStart
  | blockEnd
  | flowSequenceStart
  | flowSequenceEnd
  | flowMappingStart
  | flowMappingEnd
  | blockEntry
  | flowEntry
  | key
  | value
  | alias (name : Text)
  | anchor (name : Text)
  | tag (handle : Option Text) (suffix : Text)
  | scalar (text : Text) (plain : Bool)
  | broken (f : Fault)
  deriving DecidableEq, Repr

namespace Token

/-- The characters of names. -/
def isWord (c : Char) : Bool := c.isAlphanum || c == '-' || c == '_'

/-- The characters of the part of a tag after its handle. -/
def isTagChar (c : Char) : Bool := c.isAlphanum || "-;/?:@&=+$,_.!~*'()[]%".toList.contains c

/-- Whether a name or a directive may end at the cursor. -/
def atWordEnd (c : Cursor) : Bool := c.atEnd || c.sees fun ch => ch == ' ' || isBreak ch

/-- The bytes of the escapes at the cursor, each a percent sign and two digits. -/
def escapedBytes : (fuel : Nat) → Cursor → Except Fault (List UInt8 × Cursor)
  | 0, c => .ok ([], c)
  | fuel + 1, c =>
    match c.rest with
    | '%' :: a :: b :: _ =>
      match Text.ofHex? [a, b] with
      | some n => (escapedBytes fuel (c.advance 3)).map fun p => (n.toUInt8 :: p.1, p.2)
      | none => .error .yamlSyntax
    | '%' :: _ => .error .yamlSyntax
    | _ => .ok ([], c)

/-- The characters of a tag at the cursor. -/
def tagText : (fuel : Nat) → Cursor → Except Fault (Text × Cursor)
  | 0, c => .ok ([], c)
  | fuel + 1, c =>
    match c.rest with
    | [] => .ok ([], c)
    | ch :: _ =>
      if ch == '%' then do
        let bytes ← escapedBytes c.rest.length c
        match Utf8.decode bytes.1 with
        | .ok s =>
          let p ← tagText fuel bytes.2
          .ok (s ++ p.1, p.2)
        | .error _ => .error .yamlSyntax
      else if isTagChar ch then (tagText fuel c.next).map fun p => (ch :: p.1, p.2)
      else .ok ([], c)

/-- The characters of a tag at the cursor, at least one. -/
def tagSuffix (c : Cursor) : Except Fault (Text × Cursor) :=
  match tagText (c.rest.length + 1) c with
  | .ok p => if p.2.index == c.index then .error .yamlSyntax else .ok p
  | .error f => .error f

/-- The handle at the cursor: an exclamation mark, or a word between two. -/
def tagHandle (c : Cursor) : Except Fault (Text × Cursor) :=
  if !c.sees (· == '!') then .error .yamlSyntax
  else
    let d := c.next
    if d.sees (· == ' ') then .ok (['!'], d)
    else
      let p := d.span isWord
      if p.2.sees (· == '!') then .ok ('!' :: p.1 ++ ['!'], p.2.next) else .error .yamlSyntax

/-- The anchor or alias at the cursor: its name, behind its mark. -/
def name (c : Cursor) : Except Fault (Text × Cursor) :=
  let p := c.next.span isWord
  let ends := p.2.atEnd || p.2.sees fun ch =>
    isGap ch || "?:,]\x7d%@".toList.contains ch || ch == '\x60'
  if p.1.isEmpty || !ends then .error .yamlSyntax else .ok p

/-- The tag at the cursor. -/
def scanTag (c : Cursor) : Except Fault (Token × Cursor) := do
  let (token, c) ←
    if c.next.sees (· == '<') then do
      let p ← tagSuffix (c.advance 2)
      if p.2.sees (· == '>') then .ok (Token.tag none p.1, p.2.next) else .error .yamlSyntax
    else if c.gapAt 1 then .ok (Token.tag none ['!'], c.next)
    else do
      let rest := c.next.rest.takeWhile fun ch => ch != ' ' && !isBreak ch
      let h ← if rest.contains '!' then tagHandle c else .ok (['!'], c.next)
      let p ← tagSuffix h.2
      .ok (Token.tag (some h.1) p.1, p.2)
  if atWordEnd c then .ok (token, c) else .error .yamlSyntax

/-- A number in a directive. -/
def directiveNumber (c : Cursor) : Except Fault (Nat × Cursor) :=
  let p := c.span Char.isDigit
  if p.1.isEmpty then .error .yamlSyntax
  else .ok (p.1.foldl (fun n d => 10 * n + (d.toNat - 48)) 0, p.2)

/-- The version in a directive. -/
def version (c : Cursor) : Except Fault (Directive × Cursor) := do
  let major ← directiveNumber c.skipSpaces
  if !major.2.sees (· == '.') then .error .yamlSyntax
  else
    let minor ← directiveNumber major.2.next
    if atWordEnd minor.2 then .ok (.version major.1, minor.2) else .error .yamlSyntax

/-- A handle and what it stands for. -/
def handleRule (c : Cursor) : Except Fault (Directive × Cursor) := do
  let h ← tagHandle c.skipSpaces
  if !h.2.sees (· == ' ') then .error .yamlSyntax
  else
    let p ← tagSuffix h.2.skipSpaces
    if atWordEnd p.2 then .ok (.handle h.1 p.1, p.2) else .error .yamlSyntax

/-- The directive at the cursor, with the rest of its line. -/
def scanDirective (c : Cursor) : Except Fault (Token × Cursor) := do
  let p := c.next.span isWord
  if p.1.isEmpty || !atWordEnd p.2 then .error .yamlSyntax
  else
    let (d, c) ←
      if p.1 == "YAML".toList then version p.2
      else if p.1 == "TAG".toList then handleRule p.2
      else .ok (Directive.other, p.2.skip (!isBreak ·))
    let c ← c.lineRest
    .ok (.directive d, c)

end Token

end Lockstep.Yaml
