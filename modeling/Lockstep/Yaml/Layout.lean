import Lockstep.Yaml.Scalar
import Lockstep.Yaml.Token

/-!
# The layout of a YAML text

`Layout.tokensOf` cuts a text into tokens.  Outside of flow collections the indentation says where
block collections open and close: a column further right opens one, a column further left closes
those that started right of it.

A key of a mapping need not be marked.  Whatever could be one is remembered with its place until
a colon follows on the same line, at most 1024 characters on; then the mark of the key is put in
front of it, and that of a mapping if the key opens one.
-/

namespace Lockstep.Yaml

/-- A place at which a key without a mark may have started. -/
structure Candidate where
  /-- How many tokens stand before it. -/
  number : Nat
  /-- Whether the indentation leaves nothing but a key. -/
  required : Bool
  index : Nat
  line : Nat
  column : Nat

/-- How far a text has been cut into tokens. -/
structure Layout where
  cursor : Cursor
  /-- The tokens so far, the last one first. -/
  tokens : List Token
  count : Nat
  /-- How many flow collections are open. -/
  flow : Nat
  indent : Int
  /-- The indentations around the current one. -/
  outer : List Int
  allowKey : Bool
  /-- The candidates for keys, by the number of open flow collections. -/
  keys : List (Nat × Candidate)
  finished : Bool

namespace Layout

/-- Before the first token. -/
def start (s : Text) : Layout := ⟨.start s, [], 0, 0, -1, [], true, [], false⟩

/-- Whether a flow collection is open. -/
def inFlow (l : Layout) : Bool := l.flow != 0

/-- Add a token. -/
def emit (t : Token) (l : Layout) : Layout :=
  { l with tokens := t :: l.tokens, count := l.count + 1 }

/-- Put a token behind the first `number` ones. -/
def insert (number : Nat) (t : Token) (l : Layout) : Layout :=
  let later := l.count - number
  { l with tokens := l.tokens.take later ++ t :: l.tokens.drop later, count := l.count + 1 }

/-- Add a token for the `n` characters at the cursor. -/
def mark (n : Nat) (t : Token) (l : Layout) : Layout :=
  { l.emit t with cursor := l.cursor.advance n }

/-- Whether a candidate can no longer be a key. -/
def isStale (l : Layout) (k : Candidate) : Bool :=
  k.line != l.cursor.line || 1024 < l.cursor.index - k.index

/-- Forget the candidates that can no longer be keys. -/
def dropStale (l : Layout) : Except Fault Layout :=
  if l.keys.any fun k => l.isStale k.2 && k.2.required then .error .yamlSyntax
  else .ok { l with keys := l.keys.filter fun k => !l.isStale k.2 }

/-- Forget the candidate among the open flow collections. -/
def dropKey (l : Layout) : Except Fault Layout :=
  if l.keys.any fun k => k.1 == l.flow && k.2.required then .error .yamlSyntax
  else .ok { l with keys := l.keys.filter fun k => k.1 != l.flow }

/-- Remember a candidate at the cursor. -/
def saveKey (l : Layout) : Except Fault Layout :=
  if l.allowKey then do
    let c := l.cursor
    let required := !l.inFlow && l.indent == Int.ofNat c.column
    let l ← l.dropKey
    .ok { l with keys := (l.flow, ⟨l.count, required, c.index, c.line, c.column⟩) :: l.keys }
  else .ok l

/-- Close the block collections right of a column. -/
def closeTo (column : Int) (indent : Int) : List Int → Layout → Layout
  | [], l => { l with indent := indent, outer := [] }
  | o :: os, l =>
    if column < indent then closeTo column o os (l.emit .blockEnd)
    else { l with indent := indent, outer := o :: os }

/-- Close the block collections right of a column, unless a flow collection is open. -/
def unwind (column : Int) (l : Layout) : Layout :=
  if l.inFlow then l else closeTo column l.indent l.outer l

/-- Open a block collection at a column if it is further right; the token for it is put behind
the first `number` ones. -/
def openBlock (column number : Nat) (t : Token) (l : Layout) : Layout :=
  if l.indent < Int.ofNat column then
    { l.insert number t with indent := Int.ofNat column, outer := l.indent :: l.outer }
  else l

/-- Go to the next token: blanks, comments and line breaks are passed over. -/
def toToken : (fuel : Nat) → Layout → Layout
  | 0, l => l
  | fuel + 1, l =>
    let c := l.cursor.skipSpaces.skipComment
    match c.lineBreak? with
    | some (_, c) =>
      toToken fuel { l with cursor := c, allowKey := l.allowKey || !l.inFlow }
    | none => { l with cursor := c }

/-- The end of the text. -/
def atStreamEnd (l : Layout) : Except Fault Layout := do
  let l ← (l.unwind (-1)).dropKey
  .ok { l.emit .streamEnd with allowKey := false, keys := [], finished := true }

/-- A directive. -/
def atDirective (l : Layout) : Except Fault Layout := do
  let l ← (l.unwind (-1)).dropKey
  let p ← Token.scanDirective l.cursor
  .ok { l.emit p.1 with cursor := p.2, allowKey := false }

/-- A line that parts documents. -/
def atDocumentMark (t : Token) (l : Layout) : Except Fault Layout := do
  let l ← (l.unwind (-1)).dropKey
  .ok { l.mark 3 t with allowKey := false }

/-- The start of a flow collection. -/
def atFlowStart (t : Token) (l : Layout) : Except Fault Layout := do
  let l ← l.saveKey
  .ok { l.mark 1 t with flow := l.flow + 1, allowKey := true }

/-- The end of a flow collection. -/
def atFlowEnd (t : Token) (l : Layout) : Except Fault Layout := do
  let l ← l.dropKey
  .ok { l.mark 1 t with flow := l.flow - 1, allowKey := false }

/-- The end of an item of a flow collection. -/
def atFlowEntry (l : Layout) : Except Fault Layout := do
  let l ← l.dropKey
  .ok { l.mark 1 .flowEntry with allowKey := true }

/-- The start of an item of a block sequence. -/
def atBlockEntry (l : Layout) : Except Fault Layout := do
  if !l.inFlow && !l.allowKey then .error .yamlSyntax
  else
    let l := if l.inFlow then l else l.openBlock l.cursor.column l.count .blockSequenceStart
    let l ← l.dropKey
    .ok { l.mark 1 .blockEntry with allowKey := true }

/-- The mark of a key. -/
def atKey (l : Layout) : Except Fault Layout := do
  if !l.inFlow && !l.allowKey then .error .yamlSyntax
  else
    let l := if l.inFlow then l else l.openBlock l.cursor.column l.count .blockMappingStart
    let l ← l.dropKey
    .ok { l.mark 1 .key with allowKey := !l.inFlow }

/-- The mark of a value: it makes a key of the candidate, if there is one. -/
def atValue (l : Layout) : Except Fault Layout := do
  match l.keys.find? fun k => k.1 == l.flow with
  | some (_, k) =>
    let l := { l with keys := l.keys.filter fun k => k.1 != l.flow }
    let l := l.insert k.number .key
    let l := if l.inFlow then l else l.openBlock k.column k.number .blockMappingStart
    .ok { l.mark 1 .value with allowKey := false }
  | none =>
    if !l.inFlow && !l.allowKey then .error .yamlSyntax
    else
      let l := if l.inFlow then l else l.openBlock l.cursor.column l.count .blockMappingStart
      let l ← l.dropKey
      .ok { l.mark 1 .value with allowKey := !l.inFlow }

/-- A token that may be a key, read by `scan`. -/
def atKeyLike (scan : Cursor → Except Fault (Token × Cursor)) (l : Layout) :
    Except Fault Layout := do
  let l ← l.saveKey
  let p ← scan l.cursor
  .ok { l.emit p.1 with cursor := p.2, allowKey := false }

/-- A block of lines. -/
def atBlock (fold : Bool) (l : Layout) : Except Fault Layout := do
  let l ← l.dropKey
  let p ← Block.scan fold l.indent l.cursor
  .ok { l.emit (.scalar p.1 false) with cursor := p.2, allowKey := true }

/-- A plain scalar; what ends at the start of a line may be followed by a key. -/
def atPlain (l : Layout) : Except Fault Layout := do
  let l ← l.saveKey
  let s := Plain.scan l.inFlow (l.indent + 1).toNat l.cursor
  .ok { l.emit (.scalar s.text true) with cursor := s.cursor, allowKey := s.allowKey }

/-- The characters with which no plain scalar starts. -/
def indicators : Text := "-?:,[]\x7b\x7d#&*!|>'\"%@\x60".toList

/-- Whether a plain scalar starts at the cursor. -/
def startsPlain (l : Layout) (c : Char) : Bool :=
  (!isGap c && !indicators.contains c) ||
    (!l.cursor.gapAt 1 && (c == '-' || (!l.inFlow && (c == '?' || c == ':'))))

/-- The token that starts with the character `c` at the cursor. -/
def token (c : Char) (l : Layout) : Except Fault Layout :=
  let lone := l.cursor.gapAt 1
  if c == '%' && l.cursor.column == 0 then l.atDirective
  else if c == '-' && l.cursor.column == 0 && l.cursor.atSeparator then
    l.atDocumentMark .documentStart
  else if c == '.' && l.cursor.column == 0 && l.cursor.atSeparator then
    l.atDocumentMark .documentEnd
  else if c == '[' then l.atFlowStart .flowSequenceStart
  else if c == '\x7b' then l.atFlowStart .flowMappingStart
  else if c == ']' then l.atFlowEnd .flowSequenceEnd
  else if c == '\x7d' then l.atFlowEnd .flowMappingEnd
  else if c == ',' then l.atFlowEntry
  else if c == '-' && lone then l.atBlockEntry
  else if c == '?' && (l.inFlow || lone) then l.atKey
  else if c == ':' && (l.inFlow || lone) then l.atValue
  else if c == '*' then
    l.atKeyLike fun c => (Token.name c).map fun p => (Token.alias p.1, p.2)
  else if c == '&' then
    l.atKeyLike fun c => (Token.name c).map fun p => (Token.anchor p.1, p.2)
  else if c == '!' then l.atKeyLike Token.scanTag
  else if c == '|' && !l.inFlow then l.atBlock false
  else if c == '>' && !l.inFlow then l.atBlock true
  else if c == '\'' || c == '"' then
    l.atKeyLike fun d => (Quoted.scan c d).map fun p => (Token.scalar p.1 false, p.2)
  else if l.startsPlain c then l.atPlain
  else .error .yamlSyntax

/-- Read the next token. -/
def step (l : Layout) : Except Fault Layout := do
  let l ← (l.toToken (l.cursor.rest.length + 1)).dropStale
  let l := l.unwind (Int.ofNat l.cursor.column)
  match l.cursor.peek? with
  | none => l.atStreamEnd
  | some c => l.token c

/-- Read tokens to the end, or to where the text is not YAML. -/
def run : (fuel : Nat) → Layout → List Token
  | 0, l => (Token.broken .yamlSyntax :: l.tokens).reverse
  | fuel + 1, l =>
    match l.step with
    | .error f => (Token.broken f :: l.tokens).reverse
    | .ok l => if l.finished then l.tokens.reverse else run fuel l

/-- The tokens of a text.  A byte order mark at the very start does not count. -/
def tokensOf (s : Text) : List Token :=
  if s.all isAllowed then
    let l := start s
    let l := if s.head? == some '\ufeff' then { l with cursor := l.cursor.next } else l
    run (s.length + 1) l
  else [.broken .yamlSyntax]

end Layout

end Lockstep.Yaml
