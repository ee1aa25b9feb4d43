import Lockstep.Yaml.Layout
import Lockstep.Yaml.Tag

/-!
# The nodes of a YAML document

A document is a tree of scalars, sequences and mappings, each with a tag.  `Node.ofTokens`
builds the tree from the tokens of a text that holds one document at most.

A node may be anchored under a name, which may be used once, and an alias stands for a copy of the
node anchored before.  A node that contains itself is unrolled as far as a job is looked into.
-/

namespace Lockstep.Yaml

/-- A node of a document. -/
inductive Node
  | scalar (tag : Tag) (text : Text)
  | sequence (tag : Tag) (items : List Node)
  | mapping (tag : Tag) (entries : List (Node × Node))
  /-- A node in itself, by the name under which it is anchored. -/
  | again (name : Text)
  deriving Repr

namespace Node

mutual

/-- The node with `m` in it for the one of that name. -/
def fill (name : Text) (m : Node) : Node → Node
  | .scalar t s => .scalar t s
  | .sequence t ns => .sequence t (fillItems name m ns)
  | .mapping t es => .mapping t (fillEntries name m es)
  | .again n => if n == name then m else .again n

/-- The items, filled one by one. -/
def fillItems (name : Text) (m : Node) : List Node → List Node
  | [] => []
  | n :: ns => fill name m n :: fillItems name m ns

/-- The entries, filled one by one. -/
def fillEntries (name : Text) (m : Node) : List (Node × Node) → List (Node × Node)
  | [] => []
  | (k, v) :: es => (fill name m k, fill name m v) :: fillEntries name m es

end

/-- A node without its parts. -/
def bare : Node → Node
  | .sequence t _ => .sequence t []
  | .mapping t _ => .mapping t []
  | n => n

/-- A node with so many copies of itself in itself, the last one without its parts. -/
def unroll (name : Text) (n : Node) : Nat → Node
  | 0 => n.bare
  | k + 1 => fill name (unroll name n k) n

/-- How many copies of a node are made: as many as a job has levels. -/
def copies : Nat := 6

/-- A node that has been read, under the name at which it is anchored if there is one. -/
def anchored (name : Option Text) (n : Node) : Node :=
  match name with
  | none => n
  | some name => n.unroll name copies

mutual

/-- How many nodes stand one in the other. -/
def depth : Node → Nat
  | .sequence _ ns => depthOfItems ns + 1
  | .mapping _ es => depthOfEntries es + 1
  | _ => 1

/-- The greatest depth of an item. -/
def depthOfItems : List Node → Nat
  | [] => 0
  | n :: ns => max (depth n) (depthOfItems ns)

/-- The greatest depth of a key or a value. -/
def depthOfEntries : List (Node × Node) → Nat
  | [] => 0
  | (k, v) :: es => max (max (depth k) (depth v)) (depthOfEntries es)

end

end Node

/-- The tag handles of a document, and what is anchored in it: a node that is still open is
anchored without a value. -/
structure Scope where
  handles : List (Text × Text)
  anchors : List (Text × Option Node)

namespace Scope

/-- The handles of every document. -/
def defaults : List (Text × Text) := [(['!'], ['!']), (['!', '!'], Tag.base)]

/-- Anchor a node that is being read. -/
def openNode (name : Option Text) (s : Scope) : Except Fault Scope :=
  match name with
  | none => .ok s
  | some n =>
    if s.anchors.any fun a => a.1 == n then .error .yamlSyntax
    else .ok { s with anchors := (n, none) :: s.anchors }

/-- Anchor a node that has been read; in what was anchored inside of it, it is filled in. -/
def close (name : Option Text) (node : Node) (s : Scope) : Scope :=
  match name with
  | none => s
  | some n =>
    { s with anchors := s.anchors.map fun a =>
        if a.1 == n then (n, some node) else (a.1, a.2.map (Node.fill n node)) }

/-- The node that is anchored under a name. -/
def find (name : Text) (s : Scope) : Except Fault Node :=
  match s.anchors.find? fun a => a.1 == name with
  | some (_, some n) => .ok n
  | some (n, none) => .ok (.again n)
  | none => .error .yamlSyntax

/-- The full name of a tag. -/
def tagName (handle : Option Text) (suffix : Text) (s : Scope) : Except Fault Text :=
  match handle with
  | none => .ok suffix
  | some h =>
    match s.handles.find? fun x => x.1 == h with
    | some x => .ok (x.2 ++ suffix)
    | none => .error .yamlSyntax

end Scope

namespace Node

/-- The tag of a node. -/
def tag : Node → Tag
  | scalar t _ => t
  | sequence t _ => t
  | mapping t _ => t
  | again _ => .unknown

/-- The empty scalar, which stands for nothing. -/
def empty : Node := .scalar .none []

/-- A scalar without a tag of its own has the tag of its form if it is plain, and is a text if
not; the tag of one exclamation mark asks for the form. -/
def scalarTag (name : Option Text) (text : Text) (plain : Bool) : Tag :=
  match name with
  | none => if plain then Tag.ofPlain text else .text
  | some n => if n == ['!'] then Tag.ofPlain text else Tag.ofName n

/-- The tag of a collection. -/
def collectionTag (name : Option Text) (default : Tag) : Tag :=
  match name with
  | none => default
  | some n => if n == ['!'] then default else Tag.ofName n

/-- What was read, with the scope and the tokens behind it. -/
abbrev Rest (α : Type) := α × Scope × List Token

/-- The fault at a token that cannot stand where it does. -/
def unexpected {α : Type} (ts : List Token) : Except Fault α :=
  match ts with
  | .broken f :: _ => .error f
  | _ => .error .yamlSyntax

/-- The anchor and the full name of the tag in front of a node, in any order. -/
def properties (s : Scope) (ts : List Token) :
    Except Fault (Option Text × Option Text × List Token) :=
  match ts with
  | .anchor a :: .tag h t :: ts => (s.tagName h t).map fun n => (some a, some n, ts)
  | .tag h t :: .anchor a :: ts => (s.tagName h t).map fun n => (some a, some n, ts)
  | .anchor a :: ts => .ok (some a, none, ts)
  | .tag h t :: ts => (s.tagName h t).map fun n => (none, some n, ts)
  | ts => .ok (none, none, ts)

/-- Whether the next token ends a node of a block collection. -/
def blockStops (marks : Bool) : List Token → Bool
  | .blockEntry :: _ => true
  | .blockEnd :: _ => true
  | .key :: _ => marks
  | .value :: _ => marks
  | _ => false

/-- Whether the next token ends a key or a value of a block mapping. -/
def entryStops : List Token → Bool
  | .key :: _ => true
  | .value :: _ => true
  | .blockEnd :: _ => true
  | _ => false

/-- Whether the next token ends a node of a flow collection; `value` tells whether the mark of
a value does. -/
def flowStops (value : Bool) (closing : Token) : List Token → Bool
  | .value :: _ => value
  | .flowEntry :: _ => true
  | t :: _ => t == closing
  | [] => false

/-- What follows the mark between two items; the first item has none before it. -/
def flowEntry (first : Bool) : List Token → Except Fault (List Token)
  | ts =>
    if first then .ok ts
    else match ts with
      | .flowEntry :: ts => .ok ts
      | ts => unexpected ts

mutual

/-- The node at the first token.  In a block context block collections may start; where a
sequence need not be indented, its first entry may start without one. -/
def read (block loose : Bool) : (fuel : Nat) → Scope → List Token → Except Fault (Rest Node)
  | 0, _, ts => unexpected ts
  | fuel + 1, s, ts =>
    match ts with
    | .alias name :: ts => (s.find name).map fun n => (n, s, ts)
    | ts => do
      let (anchor, tag, ts) ← properties s ts
      let s ← s.openNode anchor
      let (n, s, ts) ← content block loose (anchor.isSome || tag.isSome) tag fuel s ts
      let n := n.anchored anchor
      .ok (n, s.close anchor n, ts)

/-- The content of a node behind its properties. -/
def content (block loose marked : Bool) (tag : Option Text) :
    (fuel : Nat) → Scope → List Token → Except Fault (Rest Node)
  | 0, _, ts => unexpected ts
  | fuel + 1, s, ts =>
    let absent : Except Fault (Rest Node) :=
      if marked then .ok (.scalar (scalarTag tag [] true) [], s, ts) else unexpected ts
    match ts with
    | .scalar text plain :: ts => .ok (.scalar (scalarTag tag text plain) text, s, ts)
    | .flowSequenceStart :: ts =>
      (flowItems true fuel s ts).map fun p => (.sequence (collectionTag tag .list) p.1, p.2)
    | .flowMappingStart :: ts =>
      (flowEntries true fuel s ts).map fun p => (.mapping (collectionTag tag .dict) p.1, p.2)
    | .blockSequenceStart :: ts =>
      if block then
        (blockItems false fuel s ts).map fun p => (.sequence (collectionTag tag .list) p.1, p.2)
      else absent
    | .blockMappingStart :: ts =>
      if block then
        (blockEntries fuel s ts).map fun p => (.mapping (collectionTag tag .dict) p.1, p.2)
      else absent
    | .blockEntry :: ts =>
      if loose then
        (blockItems true fuel s (.blockEntry :: ts)).map fun p =>
          (.sequence (collectionTag tag .list) p.1, p.2)
      else absent
    | _ => absent

/-- The items of a block sequence; one that is not indented ends without a mark. -/
def blockItems (loose : Bool) : (fuel : Nat) → Scope → List Token → Except Fault (Rest (List Node))
  | 0, _, ts => unexpected ts
  | fuel + 1, s, ts =>
    match ts with
    | .blockEntry :: ts => do
      let (n, s, ts) ← if blockStops loose ts then .ok (empty, s, ts) else read true false fuel s ts
      let (ns, s, ts) ← blockItems loose fuel s ts
      .ok (n :: ns, s, ts)
    | ts =>
      if loose then .ok ([], s, ts)
      else match ts with
        | .blockEnd :: ts => .ok ([], s, ts)
        | ts => unexpected ts

/-- The entries of a block mapping. -/
def blockEntries : (fuel : Nat) → Scope → List Token → Except Fault (Rest (List (Node × Node)))
  | 0, _, ts => unexpected ts
  | fuel + 1, s, ts =>
    match ts with
    | .key :: ts => do
      let (k, s, ts) ← if entryStops ts then .ok (empty, s, ts) else read true true fuel s ts
      let (v, s, ts) ← match ts with
        | .value :: ts => if entryStops ts then .ok (empty, s, ts) else read true true fuel s ts
        | ts => .ok (empty, s, ts)
      let (es, s, ts) ← blockEntries fuel s ts
      .ok ((k, v) :: es, s, ts)
    | .blockEnd :: ts => .ok ([], s, ts)
    | ts => unexpected ts

/-- The items of a flow sequence; a key among them makes a mapping of one entry. -/
def flowItems (first : Bool) : (fuel : Nat) → Scope → List Token → Except Fault (Rest (List Node))
  | 0, _, ts => unexpected ts
  | fuel + 1, s, ts =>
    match ts with
    | .flowSequenceEnd :: ts => .ok ([], s, ts)
    | ts => do
      let ts ← flowEntry first ts
      match ts with
      | .flowSequenceEnd :: ts => .ok ([], s, ts)
      | .key :: ts =>
        let (k, s, ts) ← if flowStops true .flowSequenceEnd ts then .ok (empty, s, ts)
          else read false false fuel s ts
        let (v, s, ts) ← flowValue .flowSequenceEnd fuel s ts
        let (ns, s, ts) ← flowItems false fuel s ts
        .ok (.mapping .dict [(k, v)] :: ns, s, ts)
      | ts =>
        let (n, s, ts) ← read false false fuel s ts
        let (ns, s, ts) ← flowItems false fuel s ts
        .ok (n :: ns, s, ts)

/-- The entries of a flow mapping; a node without the mark of a key is a key without value. -/
def flowEntries (first : Bool) :
    (fuel : Nat) → Scope → List Token → Except Fault (Rest (List (Node × Node)))
  | 0, _, ts => unexpected ts
  | fuel + 1, s, ts =>
    match ts with
    | .flowMappingEnd :: ts => .ok ([], s, ts)
    | ts => do
      let ts ← flowEntry first ts
      match ts with
      | .flowMappingEnd :: ts => .ok ([], s, ts)
      | .key :: ts =>
        let (k, s, ts) ← if flowStops true .flowMappingEnd ts then .ok (empty, s, ts)
          else read false false fuel s ts
        let (v, s, ts) ← flowValue .flowMappingEnd fuel s ts
        let (es, s, ts) ← flowEntries false fuel s ts
        .ok ((k, v) :: es, s, ts)
      | ts =>
        let (k, s, ts) ← read false false fuel s ts
        let (es, s, ts) ← flowEntries false fuel s ts
        .ok ((k, empty) :: es, s, ts)

/-- The value of a key in a flow collection, if there is one. -/
def flowValue (closing : Token) : (fuel : Nat) → Scope → List Token → Except Fault (Rest Node)
  | 0, _, ts => unexpected ts
  | fuel + 1, s, ts =>
    match ts with
    | .value :: ts =>
      if flowStops false closing ts then .ok (empty, s, ts) else read false false fuel s ts
    | ts => .ok (empty, s, ts)

end

/-- What the directives of a document say: its handles, and the tokens behind them. -/
def directives (versioned : Bool) (handles : List (Text × Text)) :
    List Token → Except Fault (List (Text × Text) × List Token)
  | .directive (.version major) :: ts =>
    if versioned || major != 1 then .error .yamlSyntax else directives true handles ts
  | .directive (.handle name start) :: ts =>
    if handles.any fun h => h.1 == name then .error .yamlSyntax
    else directives versioned (handles ++ [(name, start)]) ts
  | .directive .other :: ts => directives versioned handles ts
  | ts => .ok (handles ++ Scope.defaults, ts)

/-- The tokens behind the marks of a document's end. -/
def skipEnds : List Token → List Token
  | .documentEnd :: ts => skipEnds ts
  | ts => ts

/-- Whether a document that has started holds no node. -/
def isBare : List Token → Bool
  | .directive _ :: _ => true
  | .documentStart :: _ => true
  | .documentEnd :: _ => true
  | .streamEnd :: _ => true
  | _ => false

/-- The node of a document, behind its directives and the mark of its start. -/
def document (handles : List (Text × Text)) (ts : List Token) :
    Except Fault (Node × List Token) :=
  (read true false (4 * ts.length + 4) ⟨handles, []⟩ ts).map fun p => (p.1, p.2.2)

/-- The node of an explicit document. -/
def explicit (ts : List Token) : Except Fault (Node × List Token) := do
  let (handles, ts) ← directives false [] ts
  match ts with
  | .documentStart :: ts => if isBare ts then .ok (empty, ts) else document handles ts
  | ts => unexpected ts

/-- The node of the only document, if there is one. -/
def ofTokens (ts : List Token) : Except Fault (Option Node) := do
  let (node, ts) ←
    if isBare ts && !(ts.head? == some .documentEnd) then
      match ts with
      | .streamEnd :: _ => .ok (none, ts)
      | ts => (explicit ts).map fun p => (some p.1, p.2)
    else (document Scope.defaults ts).map fun p => (some p.1, p.2)
  match skipEnds ts with
  | [.streamEnd] => .ok node
  | ts => unexpected ts

end Node

end Lockstep.Yaml
