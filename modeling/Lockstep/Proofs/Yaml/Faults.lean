import Mathlib.Data.List.Basic
import Lockstep.Yaml.Document

/-!
# The faults of YAML texts

A text that cannot be read as a value is not YAML, or marks a node as something that it cannot be
taken for, or writes a character that there is not, or has a fault in a value, as a date that no
calendar has (`Fault.OfYaml`).
`Yaml.safe_value` says that reading fails in no other way.

`Ends E P` says of a reading that its result is in `P` or its error in `E`.  The functions of the
reader are taken in the order of the modules: the scalars and properties, the layout, of which
every token but the last is whole (`Layout.Sound.step`, `Layout.Sound.run`), the nodes
(`Node.reader`), and the values.
-/

namespace Lockstep

/-- The faults of a text that is read as YAML. -/
inductive Fault.OfYaml : Fault → Prop
  /-- The text is not YAML, or it is not the one document that is asked for. -/
  | yamlSyntax : OfYaml .yamlSyntax
  /-- A truth value is not written with one of its words. -/
  | notTruthWord (word : Text) : OfYaml (.notTruthWord word)
  /-- A number is written without a first character. -/
  | emptyNumeral : OfYaml .emptyNumeral
  /-- A date is not written as one. -/
  | notTimestamp : OfYaml .notTimestamp
  /-- A date is written as a mapping. -/
  | timestampOfMapping : OfYaml .timestampOfMapping
  /-- A character is written with a number that is far too great. -/
  | codePointOverflow : OfYaml .codePointOverflow
  /-- A character is written with the number of a surrogate. -/
  | loneSurrogate : OfYaml .loneSurrogate
  /-- What is written has no value of its kind. -/
  | value {f : Fault} (h : f.family = .value) : OfYaml f

attribute [simp] Fault.OfYaml.yamlSyntax Fault.OfYaml.emptyNumeral Fault.OfYaml.notTimestamp
  Fault.OfYaml.timestampOfMapping Fault.OfYaml.codePointOverflow Fault.OfYaml.loneSurrogate

namespace Yaml

/-- A reading ends with a result in `P`, or with an error in `E`. -/
def Ends {ε α : Type} (E : ε → Prop) (P : α → Prop) : Except ε α → Prop
  | .ok a => P a
  | .error e => E e

section Ends

variable {ε α β : Type} {E : ε → Prop} {P : α → Prop} {Q : β → Prop} {x : Except ε α}

@[simp] theorem ends_ok {a : α} : Ends E P (.ok a) ↔ P a := Iff.rfl

@[simp] theorem ends_error {e : ε} : Ends E P (.error e) ↔ E e := Iff.rfl

theorem Ends.bind {f : α → Except ε β} (hx : Ends E P x) (hf : ∀ a, P a → Ends E Q (f a)) :
    Ends E Q (x >>= f) := by
  cases x with
  | ok a => exact hf a hx
  | error e => exact hx

@[simp] theorem ends_error_bind {e : ε} {f : α → Except ε β} :
    Ends E Q (.error e >>= f) ↔ E e := Iff.rfl

theorem Ends.map {f : α → β} (hx : Ends E P x) (hf : ∀ a, P a → Q (f a)) :
    Ends E Q (x.map f) := by
  cases x with
  | ok a => exact hf a hx
  | error e => exact hx

theorem Ends.ite {c : Prop} [Decidable c] {y : Except ε α} (hx : Ends E P x) (hy : Ends E P y) :
    Ends E P (if c then x else y) := by
  split
  · exact hx
  · exact hy

/-- What follows one of two readings. -/
theorem Ends.ite_bind {c : Prop} [Decidable c] {y : Except ε α} {f : α → Except ε β}
    (hx : Ends E P x) (hy : Ends E P y) (hf : ∀ a, P a → Ends E Q (f a)) :
    Ends E Q (if c then x >>= f else y >>= f) :=
  .ite (hx.bind hf) (hy.bind hf)

theorem ends_mapM {f : α → Except ε β} (hf : ∀ a, Ends E Q (f a)) (as : List α) :
    Ends E (fun _ => True) (as.mapM f) := by
  induction as with
  | nil => exact trivial
  | cons a as ih =>
    rw [List.mapM_cons]
    exact (hf a).bind fun b _ => ih.bind fun bs _ => trivial

end Ends

/-- A reading ends with a result in `P`, or with a fault of YAML. -/
abbrev Reads {α : Type} (P : α → Prop) (x : Except Fault α) : Prop := Ends Fault.OfYaml P x

/-- A reading may only end with a fault of YAML. -/
abbrev Safe {α : Type} (x : Except Fault α) : Prop := Reads (fun _ => True) x

variable {α β : Type}

theorem Safe.bind {x : Except Fault α} {f : α → Except Fault β} {Q : β → Prop} (hx : Safe x)
    (hf : ∀ a, Reads Q (f a)) : Reads Q (x >>= f) :=
  Ends.bind hx fun a _ => hf a

theorem Safe.map {x : Except Fault α} {f : α → β} {Q : β → Prop} (hx : Safe x)
    (hf : ∀ a, Q (f a)) : Reads Q (x.map f) :=
  Ends.map hx fun a _ => hf a

/-! ### Tokens -/

theorem Cursor.safe_lineRest (c : Cursor) : Safe c.lineRest := by
  unfold Cursor.lineRest
  dsimp only
  split
  · simp
  · split <;> simp

namespace Token

theorem safe_escapedBytes (n : ℕ) (c : Cursor) : Safe (escapedBytes n c) := by
  induction n generalizing c with
  | zero => simp [escapedBytes]
  | succ n ih =>
    unfold escapedBytes
    split
    · split
      · exact (ih _).map fun _ => trivial
      · simp
    · simp
    · simp

theorem safe_tagText (n : ℕ) (c : Cursor) : Safe (tagText n c) := by
  induction n generalizing c with
  | zero => simp [tagText]
  | succ n ih =>
    unfold tagText
    split
    · simp
    · split_ifs
      · refine (safe_escapedBytes _ c).bind fun bytes => ?_
        split
        · exact (ih _).bind fun p => by simp
        · simp
      · exact (ih _).map fun _ => trivial
      · simp

theorem safe_tagSuffix (c : Cursor) : Safe (tagSuffix c) := by
  have h := safe_tagText (c.rest.length + 1) c
  unfold tagSuffix
  split
  · split_ifs <;> simp
  · rename_i f hf
    rwa [hf] at h

theorem safe_tagHandle (c : Cursor) : Safe (tagHandle c) := by
  unfold tagHandle
  dsimp only
  split_ifs <;> simp

theorem safe_name (c : Cursor) : Safe (name c) := by
  unfold name
  dsimp only
  split_ifs <;> simp

/-- The token of a tag is not the mark of a fault. -/
theorem reads_scanTag (c : Cursor) : Reads (fun p => ∀ f, p.1 ≠ .broken f) (scanTag c) := by
  have hend (t : Token) (d : Cursor) (ht : ∀ f, t ≠ .broken f) :
      Reads (fun p => ∀ f, p.1 ≠ .broken f)
        (if atWordEnd d then .ok (t, d) else .error .yamlSyntax) := by
    split_ifs
    · exact ht
    · simp
  unfold scanTag
  dsimp only
  split_ifs
  · refine (safe_tagSuffix _).bind fun p => ?_
    split_ifs
    · exact hend _ _ (by simp)
    · simp
  · exact hend _ _ (by simp)
  · exact (safe_tagHandle c).bind fun h => (safe_tagSuffix _).bind fun p => hend _ _ (by simp)
  · exact (safe_tagSuffix _).bind fun p => hend _ _ (by simp)

theorem safe_directiveNumber (c : Cursor) : Safe (directiveNumber c) := by
  unfold directiveNumber
  dsimp only
  split_ifs <;> simp

theorem safe_version (c : Cursor) : Safe (version c) := by
  refine (safe_directiveNumber _).bind fun major => ?_
  split_ifs
  · simp
  · refine (safe_directiveNumber _).bind fun minor => ?_
    split_ifs <;> simp

theorem safe_handleRule (c : Cursor) : Safe (handleRule c) := by
  refine (safe_tagHandle _).bind fun h => ?_
  split_ifs
  · simp
  · refine (safe_tagSuffix _).bind fun p => ?_
    split_ifs <;> simp

/-- The token of a directive is not the mark of a fault. -/
theorem reads_scanDirective (c : Cursor) :
    Reads (fun p => ∀ f, p.1 ≠ .broken f) (scanDirective c) := by
  have hrest (d : Directive) (c : Cursor) : Reads (fun p => ∀ f, p.1 ≠ .broken f)
      (c.lineRest >>= fun c => .ok (Token.directive d, c)) :=
    (Cursor.safe_lineRest c).bind fun c => by simp
  unfold scanDirective
  dsimp only
  split_ifs
  · simp
  · exact (safe_version _).bind fun d => hrest _ _
  · exact (safe_handleRule _).bind fun d => hrest _ _
  · exact hrest _ _

end Token

/-! ### Scalars -/

namespace Quoted

theorem safe_breaks (n : ℕ) (c : Cursor) : Safe (breaks n c) := by
  induction n generalizing c with
  | zero => simp [breaks]
  | succ n ih =>
    unfold breaks
    split_ifs
    · simp
    · dsimp only
      split
      · simp
      · exact (ih _).map fun _ => trivial

theorem safe_escape (c : Cursor) : Safe (escape c) := by
  unfold escape
  split
  · simp
  · split
    · simp
    · split
      · dsimp only
        split
        · split_ifs
          · simp
          · simp
          · exact .value rfl
          · simp
          · simp
        · simp
      · split
        · exact safe_breaks _ _
        · simp

theorem safe_scanFrom (q : Char) (n : ℕ) (c : Cursor) : Safe (scanFrom q n c) := by
  induction n generalizing c with
  | zero => simp [scanFrom]
  | succ n ih =>
    unfold scanFrom
    split
    · simp
    · split_ifs
      · exact (ih _).map fun _ => trivial
      · simp
      · exact (safe_escape _).bind fun e => (ih _).bind fun p => by simp
      · dsimp only
        split_ifs
        · simp
        · split
          · exact (safe_breaks _ _).bind fun more => (ih _).bind fun s => by simp
          · exact (ih _).bind fun s => by simp
      · exact (ih _).map fun _ => trivial

end Quoted

namespace Block

theorem safe_header (c : Cursor) : Safe (header c) := by
  have hend (sign : Chomping) (digit : Option Nat) (d : Cursor) :
      Safe (if digit == some 0 || !(d.atEnd || d.sees fun ch => ch == ' ' || isBreak ch) then
        .error .yamlSyntax else d.lineRest >>= fun c => .ok (sign, digit, c)) := by
    split_ifs
    · simp
    · exact (Cursor.safe_lineRest d).bind fun c => by simp
  exact hend _ _ _

theorem safe_scan (fold : Bool) (parent : Int) (c : Cursor) : Safe (scan fold parent c) := by
  refine (safe_header _).bind fun h => ?_
  simp

end Block

/-! ### The layout -/

namespace Token

/-- Where the text is broken, it is by a fault of YAML. -/
def Sound (ts : List Token) : Prop := ∀ f, .broken f ∈ ts → f.OfYaml

variable {t : Token} {ts : List Token}

theorem Sound.cons (ht : ∀ f, t ≠ .broken f) (h : Sound ts) : Sound (t :: ts) := by
  intro f hf
  rcases List.mem_cons.1 hf with rfl | hf
  · exact absurd rfl (ht f)
  · exact h f hf

theorem Sound.tail (h : Sound (t :: ts)) : Sound ts := fun f hf => h f (List.mem_cons_of_mem t hf)

/-- What is cut off at a broken place is sound if the fault is one of YAML. -/
theorem Sound.reverse_broken {f : Fault} (h : Sound ts) (hf : f.OfYaml) :
    Sound (Token.broken f :: ts).reverse := by
  intro g hg
  rcases List.mem_cons.1 (List.mem_reverse.1 hg) with hg | hg
  · cases hg
    exact hf
  · exact h g hg

end Token

namespace Layout

/-- The tokens so far are sound. -/
def Sound (l : Layout) : Prop := Token.Sound l.tokens

variable {l : Layout} {t : Token}

namespace Sound

theorem emit (h : l.Sound) (ht : ∀ f, t ≠ .broken f) : (l.emit t).Sound := Token.Sound.cons ht h

theorem mark (n : Nat) (h : l.Sound) (ht : ∀ f, t ≠ .broken f) : (l.mark n t).Sound := h.emit ht

theorem insert (n : Nat) (h : l.Sound) (ht : ∀ f, t ≠ .broken f) : (l.insert n t).Sound := by
  intro f hf
  rcases List.mem_append.1 hf with hf | hf
  · exact h f (List.mem_of_mem_take hf)
  · rcases List.mem_cons.1 hf with rfl | hf
    · exact absurd rfl (ht f)
    · exact h f (List.mem_of_mem_drop hf)

theorem openBlock (column n : Nat) (h : l.Sound) (ht : ∀ f, t ≠ .broken f) :
    (l.openBlock column n t).Sound := by
  unfold Layout.openBlock
  split_ifs
  · exact h.insert n ht
  · exact h

theorem closeTo (column indent : Int) (outer : List Int) (h : l.Sound) :
    (Layout.closeTo column indent outer l).Sound := by
  induction outer generalizing indent l with
  | nil => exact h
  | cons o os ih =>
    unfold Layout.closeTo
    split_ifs
    · exact ih o (h.emit nofun)
    · exact h

theorem unwind (column : Int) (h : l.Sound) : (l.unwind column).Sound := by
  unfold Layout.unwind
  split_ifs
  · exact h
  · exact h.closeTo column l.indent l.outer

theorem toToken (n : Nat) (h : l.Sound) : (l.toToken n).Sound := by
  induction n generalizing l with
  | zero => exact h
  | succ n ih =>
    unfold Layout.toToken
    dsimp only
    split
    · exact ih h
    · exact h

theorem dropStale (h : l.Sound) : Reads Sound l.dropStale := by
  unfold Layout.dropStale
  split_ifs
  · simp
  · exact h

theorem dropKey (h : l.Sound) : Reads Sound l.dropKey := by
  unfold Layout.dropKey
  split_ifs
  · simp
  · exact h

theorem saveKey (h : l.Sound) : Reads Sound l.saveKey := by
  unfold Layout.saveKey
  split_ifs
  · exact h.dropKey.bind fun l hl => hl
  · exact h

theorem atStreamEnd (h : l.Sound) : Reads Sound l.atStreamEnd :=
  (h.unwind (-1)).dropKey.bind fun _ hl => hl.emit nofun

theorem atDirective (h : l.Sound) : Reads Sound l.atDirective :=
  (h.unwind (-1)).dropKey.bind fun _ hl =>
    (Token.reads_scanDirective _).bind fun _ hp => hl.emit hp

theorem atDocumentMark (h : l.Sound) (ht : ∀ f, t ≠ .broken f) :
    Reads Sound (l.atDocumentMark t) :=
  (h.unwind (-1)).dropKey.bind fun _ hl => hl.mark 3 ht

theorem atFlowStart (h : l.Sound) (ht : ∀ f, t ≠ .broken f) : Reads Sound (l.atFlowStart t) :=
  h.saveKey.bind fun _ hl => hl.mark 1 ht

theorem atFlowEnd (h : l.Sound) (ht : ∀ f, t ≠ .broken f) : Reads Sound (l.atFlowEnd t) :=
  h.dropKey.bind fun _ hl => hl.mark 1 ht

theorem atFlowEntry (h : l.Sound) : Reads Sound l.atFlowEntry :=
  h.dropKey.bind fun _ hl => hl.mark 1 nofun

/-- A mark that opens a block collection, unless a flow collection is open. -/
theorem opening (column n : Nat) (h : l.Sound) (ht : ∀ f, t ≠ .broken f) :
    Sound (if l.inFlow then l else l.openBlock column n t) := by
  split_ifs
  · exact h
  · exact h.openBlock column n ht

theorem atBlockEntry (h : l.Sound) : Reads Sound l.atBlockEntry := by
  unfold Layout.atBlockEntry
  refine .ite (by simp) ?_
  exact (h.opening _ _ (by simp)).dropKey.bind fun _ hl => hl.mark 1 (by simp)

theorem atKey (h : l.Sound) : Reads Sound l.atKey := by
  unfold Layout.atKey
  refine .ite (by simp) ?_
  exact (h.opening _ _ (by simp)).dropKey.bind fun _ hl => hl.mark 1 (by simp)

theorem atValue (h : l.Sound) : Reads Sound l.atValue := by
  unfold Layout.atValue
  split
  · rename_i k hk
    -- forgetting the candidate leaves the tokens as they are
    have hkeys : Sound { l with keys := l.keys.filter fun k => k.1 != l.flow } := h
    exact ((hkeys.insert k.number (by simp)).opening k.column k.number (by simp)).mark 1 (by simp)
  · refine .ite (by simp) ?_
    exact (h.opening _ _ (by simp)).dropKey.bind fun _ hl => hl.mark 1 (by simp)

theorem atKeyLike {scan : Cursor → Except Fault (Token × Cursor)} (h : l.Sound)
    (hscan : ∀ c, Reads (fun p => ∀ f, p.1 ≠ .broken f) (scan c)) :
    Reads Sound (l.atKeyLike scan) :=
  h.saveKey.bind fun _ hl => (hscan _).bind fun _ hp => hl.emit hp

theorem atBlock (fold : Bool) (h : l.Sound) : Reads Sound (l.atBlock fold) :=
  h.dropKey.bind fun _ hl => (Block.safe_scan _ _ _).bind fun _ => hl.emit nofun

theorem atPlain (h : l.Sound) : Reads Sound l.atPlain :=
  h.saveKey.bind fun _ hl => hl.emit nofun

theorem token (c : Char) (h : l.Sound) : Reads Sound (l.token c) := by
  unfold Layout.token
  refine .ite h.atDirective ?_
  refine .ite (h.atDocumentMark nofun) (.ite (h.atDocumentMark nofun) ?_)
  refine .ite (h.atFlowStart nofun) (.ite (h.atFlowStart nofun) ?_)
  refine .ite (h.atFlowEnd nofun) (.ite (h.atFlowEnd nofun) ?_)
  refine .ite h.atFlowEntry (.ite h.atBlockEntry (.ite h.atKey (.ite h.atValue ?_)))
  refine .ite (h.atKeyLike fun c => (Token.safe_name c).map fun _ => nofun) ?_
  refine .ite (h.atKeyLike fun c => (Token.safe_name c).map fun _ => nofun) ?_
  refine .ite (h.atKeyLike Token.reads_scanTag) ?_
  refine .ite (h.atBlock false) (.ite (h.atBlock true) ?_)
  refine .ite (h.atKeyLike fun d => (Quoted.safe_scanFrom c _ _).map fun _ => nofun) ?_
  exact .ite h.atPlain (by simp)

/-- Reading a token keeps the tokens sound. -/
theorem step (h : l.Sound) : Reads Sound l.step := by
  refine (h.toToken _).dropStale.bind fun l hl => ?_
  dsimp only
  split
  · exact (hl.unwind _).atStreamEnd
  · exact (hl.unwind _).token _

/-- Reading tokens to the end keeps them sound. -/
theorem run (n : Nat) (h : l.Sound) : Token.Sound (Layout.run n l) := by
  induction n generalizing l with
  | zero => exact Token.Sound.reverse_broken h .yamlSyntax
  | succ n ih =>
    have hstep := h.step
    unfold Layout.run
    split
    · rename_i f hf
      rw [hf] at hstep
      exact Token.Sound.reverse_broken h hstep
    · rename_i l' hl
      rw [hl] at hstep
      split_ifs
      · exact fun f hf => hstep f (List.mem_reverse.1 hf)
      · exact ih hstep

end Sound

/-- The tokens of a text are sound. -/
theorem sound_tokensOf (s : Text) : Token.Sound (tokensOf s) := by
  have hnil : Token.Sound [] := nofun
  unfold tokensOf
  split
  · refine Sound.run _ ?_
    split <;> exact hnil
  · exact hnil.reverse_broken .yamlSyntax

end Layout

/-! ### Nodes -/

namespace Scope

theorem safe_openNode (name : Option Text) (s : Scope) : Safe (s.openNode name) := by
  unfold openNode
  split
  · simp
  · exact .ite (by simp) (by simp)

theorem safe_find (name : Text) (s : Scope) : Safe (s.find name) := by
  unfold find
  split <;> simp

theorem safe_tagName (handle : Option Text) (suffix : Text) (s : Scope) :
    Safe (s.tagName handle suffix) := by
  unfold tagName
  split
  · simp
  · split <;> simp

end Scope

namespace Node

open Token (Sound)

variable {s : Scope} {t : Token} {ts : List Token}

theorem reads_unexpected {P : α → Prop} (h : Sound ts) : Reads P (unexpected ts) := by
  unfold unexpected
  split
  · exact h _ List.mem_cons_self
  · simp

theorem reads_properties (s : Scope) (h : Sound ts) :
    Reads (fun p => Sound p.2.2) (properties s ts) := by
  unfold properties
  split
  · exact (s.safe_tagName _ _).map fun _ => h.tail.tail
  · exact (s.safe_tagName _ _).map fun _ => h.tail.tail
  · exact h.tail
  · exact (s.safe_tagName _ _).map fun _ => h.tail
  · exact h

theorem reads_flowEntry (first : Bool) (h : Sound ts) : Reads Sound (flowEntry first ts) := by
  unfold flowEntry
  refine .ite h ?_
  split
  · exact h.tail
  · exact reads_unexpected h

/-- A reading that leaves sound tokens. -/
abbrev Leaves (x : Except Fault (Rest α)) : Prop := Reads (fun p => Sound p.2.2) x

/-- With so much fuel, every part of the reader leaves sound tokens. -/
structure Reader (n : Nat) : Prop where
  read : ∀ {block loose s ts}, Sound ts → Leaves (read block loose n s ts)
  content : ∀ {block loose marked tag s ts}, Sound ts →
    Leaves (content block loose marked tag n s ts)
  blockItems : ∀ {loose s ts}, Sound ts → Leaves (blockItems loose n s ts)
  blockEntries : ∀ {s ts}, Sound ts → Leaves (blockEntries n s ts)
  flowItems : ∀ {first s ts}, Sound ts → Leaves (flowItems first n s ts)
  flowEntries : ∀ {first s ts}, Sound ts → Leaves (flowEntries first n s ts)
  flowValue : ∀ {closing s ts}, Sound ts → Leaves (flowValue closing n s ts)

namespace Reader

variable {n : Nat}

theorem zero : Reader 0 := by
  constructor
  all_goals
    intros
    rename_i h
  · rw [Node.read]; exact reads_unexpected h
  · rw [Node.content]; exact reads_unexpected h
  · rw [Node.blockItems]; exact reads_unexpected h
  · rw [Node.blockEntries]; exact reads_unexpected h
  · rw [Node.flowItems]; exact reads_unexpected h
  · rw [Node.flowEntries]; exact reads_unexpected h
  · rw [Node.flowValue]; exact reads_unexpected h

theorem read_succ (hn : Reader n) {block loose : Bool} (h : Sound ts) :
    Leaves (Node.read block loose (n + 1) s ts) := by
  unfold Node.read
  split
  · exact (s.safe_find _).map fun _ => h.tail
  · refine (reads_properties s h).bind ?_
    rintro ⟨anchor, tag, ts⟩ hts
    refine (s.safe_openNode _).bind fun s => (hn.content hts).bind ?_
    rintro ⟨n, s, ts⟩ hts
    exact hts

theorem content_succ (hn : Reader n) {block loose marked : Bool} {tag : Option Text}
    (h : Sound ts) : Leaves (Node.content block loose marked tag (n + 1) s ts) := by
  -- a node may be left out behind its properties
  have habsent : Leaves (if marked then .ok (.scalar (scalarTag tag [] true) [], s, ts)
      else (unexpected ts : Except Fault (Rest Node))) := .ite h (reads_unexpected h)
  unfold Node.content
  dsimp only
  split
  · exact h.tail
  · exact (hn.flowItems h.tail).map fun p hp => hp
  · exact (hn.flowEntries h.tail).map fun p hp => hp
  · exact .ite ((hn.blockItems h.tail).map fun p hp => hp) habsent
  · exact .ite ((hn.blockEntries h.tail).map fun p hp => hp) habsent
  · exact .ite ((hn.blockItems h).map fun p hp => hp) habsent
  · exact habsent

theorem blockItems_succ (hn : Reader n) {loose : Bool} (h : Sound ts) :
    Leaves (Node.blockItems loose (n + 1) s ts) := by
  unfold Node.blockItems
  split
  · have hempty : Leaves (.ok (empty, s, _)) := h.tail
    refine Ends.ite_bind hempty (hn.read h.tail) ?_
    rintro ⟨n, s, ts⟩ hts
    exact (hn.blockItems hts).bind fun q hq => hq
  · refine .ite h ?_
    split
    · exact h.tail
    · exact reads_unexpected h

theorem blockEntries_succ (hn : Reader n) (h : Sound ts) :
    Leaves (Node.blockEntries (n + 1) s ts) := by
  unfold Node.blockEntries
  split
  · have hempty {s ts} (h : Sound ts) : Leaves (.ok (empty, s, ts)) := h
    refine Ends.ite_bind (hempty h.tail) (hn.read h.tail) ?_
    rintro ⟨k, s, ts⟩ hts
    -- the value of the key, which may be left out as well
    have hvalue (p : Rest Node) (hp : Sound p.2.2) :
        Leaves (Node.blockEntries n p.2.1 p.2.2 >>= fun q =>
          .ok ((k, p.1) :: q.1, q.2.1, q.2.2)) :=
      (hn.blockEntries hp).bind fun q hq => hq
    dsimp only
    split
    · exact Ends.ite_bind (hempty hts.tail) (hn.read hts.tail) hvalue
    · exact hvalue (empty, s, ts) hts
  · exact h.tail
  · exact reads_unexpected h

theorem flowValue_succ (hn : Reader n) {closing : Token} (h : Sound ts) :
    Leaves (Node.flowValue closing (n + 1) s ts) := by
  unfold Node.flowValue
  split
  · exact .ite h.tail (hn.read h.tail)
  · exact h

theorem flowItems_succ (hn : Reader n) {first : Bool} (h : Sound ts) :
    Leaves (Node.flowItems first (n + 1) s ts) := by
  unfold Node.flowItems
  split
  · exact h.tail
  · refine (reads_flowEntry first h).bind fun ts h => ?_
    dsimp only
    split
    · exact h.tail
    · have hempty : Leaves (.ok (empty, s, _)) := h.tail
      refine Ends.ite_bind hempty (hn.read h.tail) ?_
      rintro ⟨k, s, ts⟩ hts
      refine (hn.flowValue hts).bind fun v hv => ?_
      exact (hn.flowItems hv).bind fun q hq => hq
    · refine (hn.read h).bind fun p hp => ?_
      exact (hn.flowItems hp).bind fun q hq => hq

theorem flowEntries_succ (hn : Reader n) {first : Bool} (h : Sound ts) :
    Leaves (Node.flowEntries first (n + 1) s ts) := by
  unfold Node.flowEntries
  split
  · exact h.tail
  · refine (reads_flowEntry first h).bind fun ts h => ?_
    dsimp only
    split
    · exact h.tail
    · have hempty : Leaves (.ok (empty, s, _)) := h.tail
      refine Ends.ite_bind hempty (hn.read h.tail) ?_
      rintro ⟨k, s, ts⟩ hts
      refine (hn.flowValue hts).bind fun v hv => ?_
      exact (hn.flowEntries hv).bind fun q hq => hq
    · refine (hn.read h).bind fun p hp => ?_
      exact (hn.flowEntries hp).bind fun q hq => hq

end Reader

/-- Every part of the reader leaves sound tokens, whatever the fuel. -/
theorem reader (n : Nat) : Reader n := by
  induction n with
  | zero => exact .zero
  | succ n hn =>
    exact ⟨hn.read_succ, hn.content_succ, hn.blockItems_succ, hn.blockEntries_succ,
      hn.flowItems_succ, hn.flowEntries_succ, hn.flowValue_succ⟩

theorem reads_directives (versioned : Bool) (handles : List (Text × Text)) (h : Sound ts) :
    Reads (fun p => Sound p.2) (directives versioned handles ts) := by
  fun_induction directives versioned handles ts with
  | case1 => simp
  | case2 _ _ _ _ _ ih => exact ih h.tail
  | case3 => simp
  | case4 _ _ _ _ _ _ ih => exact ih h.tail
  | case5 _ _ _ ih => exact ih h.tail
  | case6 => exact h

theorem sound_skipEnds (h : Sound ts) : Sound (skipEnds ts) := by
  fun_induction skipEnds ts with
  | case1 ts ih => exact ih h.tail
  | case2 => exact h

theorem reads_document (handles : List (Text × Text)) (h : Sound ts) :
    Reads (fun p => Sound p.2) (document handles ts) :=
  ((reader _).read h).map fun _ hp => hp

theorem reads_explicit (h : Sound ts) : Reads (fun p => Sound p.2) (explicit ts) := by
  refine (reads_directives false [] h).bind ?_
  rintro ⟨handles, ts⟩ hts
  dsimp only
  split
  · exact .ite hts.tail (reads_document handles hts.tail)
  · exact reads_unexpected hts

theorem safe_ofTokens (h : Sound ts) : Safe (ofTokens ts) := by
  unfold ofTokens
  extract_lets jp
  -- however the node was found, the text has to end behind it
  have hend (p : Option Node × List Token) (hp : Sound p.2) : Safe (jp p) := by
    obtain ⟨node, ts⟩ := p
    dsimp only [jp]
    split
    · simp
    · exact reads_unexpected (sound_skipEnds hp)
  split
  · split
    · exact hend (none, _) h
    · exact ((reads_explicit h).map (Q := fun p => Sound p.2) fun _ hp => hp).bind hend
  · exact ((reads_document _ h).map (Q := fun p => Sound p.2) fun _ hp => hp).bind hend

end Node

/-! ### Values -/

namespace Scalar

theorem safe_binaryInteger (base : Nat) (s : Text) : Safe (binaryInteger base s) := by
  unfold binaryInteger
  dsimp only
  split
  · simp
  · exact .value rfl

theorem safe_decimalInteger (s : Text) : Safe (decimalInteger s) := by
  unfold decimalInteger
  split
  · exact .ite (by simp) (.value rfl)
  · exact .value rfl

theorem safe_unsignedInteger (s : Text) : Safe (unsignedInteger s) := by
  unfold unsignedInteger
  split
  · simp
  · simp
  · exact safe_binaryInteger _ _
  · exact safe_binaryInteger _ _
  · exact safe_binaryInteger _ _
  · refine .ite ?_ (safe_decimalInteger _)
    exact (ends_mapM safe_decimalInteger _).bind fun parts _ => by simp

theorem safe_signOf (s : Text) : Safe (signOf s) := by
  unfold signOf
  split <;> simp

theorem safe_integer (s : Text) : Safe (integer s) :=
  (safe_signOf s).bind fun _ => (safe_unsignedInteger _).bind fun _ => by simp

theorem safe_decimalFloat (s : Text) : Safe (decimalFloat s) := by
  unfold decimalFloat
  split
  · simp
  · exact .value rfl

theorem safe_unsignedFloat (s : Text) : Safe (unsignedFloat s) := by
  unfold unsignedFloat
  refine .ite (by simp) (.ite (by simp) (.ite ?_ (safe_decimalFloat _)))
  exact (ends_mapM safe_decimalFloat _).bind fun parts _ => by simp

theorem safe_float (s : Text) : Safe (float s) :=
  (safe_signOf _).bind fun _ => (safe_unsignedFloat _).bind fun _ => by simp

theorem safe_truth (s : Text) : Safe (truth s) := by
  unfold truth
  exact .ite (by simp) (.ite (by simp) (.notTruthWord _))

theorem safe_moment (t : Tag.Stamp) (hour minute second micro : Nat) :
    Safe (moment t hour minute second micro) := by
  unfold moment
  split
  · simp
  · exact .value rfl

theorem safe_timestamp (s : Text) : Safe (timestamp s) := by
  unfold timestamp
  split
  · simp
  · split
    · exact (safe_moment _ _ _ _ _).map fun _ => trivial
    · exact .ite ((safe_moment _ _ _ _ _).map fun _ => trivial) (.value rfl)

theorem safe_bytes (s : Text) : Safe (bytes s) := by
  unfold bytes
  refine .ite ?_ (by simp)
  split <;> simp

theorem safe_value (tag : Tag) (s : Text) : Safe (value tag s) := by
  unfold value
  split
  · simp
  · exact (safe_truth s).map fun _ => trivial
  · exact (safe_integer s).map fun _ => trivial
  · exact (safe_float s).map fun _ => trivial
  · exact safe_timestamp s
  · exact safe_bytes s
  · simp
  · simp

theorem ofYaml_of_value {tag : Tag} {s : Text} {f : Fault} (h : value tag s = .error f) :
    f.OfYaml := by
  have hsafe := safe_value tag s
  rwa [h] at hsafe

end Scalar

namespace Node

/-- A making of a value may only end with a fault of YAML. -/
abbrev SafeAt (x : Levelled α) : Prop := Ends (fun e => e.2.OfYaml) (fun _ => True) x

theorem safe_both {x : Levelled α} {y : Levelled β} (hx : SafeAt x) (hy : SafeAt y) :
    SafeAt (both x y) := by
  cases x with
  | ok a => cases y <;> exact hy
  | error e =>
    cases y with
    | ok b => exact hx
    | error f =>
      show Fault.OfYaml (if f.1 < e.1 then f else e).2
      split
      · exact hy
      · exact hx

theorem safe_all {xs : List (Levelled α)} (h : ∀ x ∈ xs, SafeAt x) : SafeAt (all xs) := by
  induction xs with
  | nil => trivial
  | cons x xs ih =>
    obtain ⟨hx, hxs⟩ := List.forall_mem_cons.1 h
    exact (safe_both hx (ih hxs)).map fun _ _ => trivial

theorem safe_valueAt (fuel level : Nat) (n : Node) : SafeAt (valueAt fuel level n) := by
  induction fuel generalizing level n with
  | zero => simp [valueAt]
  | succ fuel ih =>
    unfold valueAt
    extract_lets broken entry entries
    have hbroken {α : Type} : SafeAt (broken (α := α)) := Fault.OfYaml.yamlSyntax
    have hentries : SafeAt entries := by
      dsimp only [entries]
      split
      · split
        · exact hbroken
        · refine safe_all (List.forall_mem_map.2 fun e _ => ?_)
          exact safe_both (.ite hbroken (ih _ _)) (ih _ _)
      · exact hbroken
    split
    · split
      · exact (safe_all (List.forall_mem_map.2 fun n _ => ih _ n)).map fun _ _ => trivial
      · exact hbroken
    · split
      · refine (safe_all (List.forall_mem_map.2 fun n _ => ?_)).map fun _ _ => trivial
        split
        · exact (safe_both (ih _ _) (ih _ _)).map fun _ _ => trivial
        · exact hbroken
      · exact hbroken
    · exact hentries.map fun _ _ => trivial
    · exact hentries.map fun _ _ => trivial
    · split
      · simp
      · simp
      · split
        · simp
        · rename_i f hf
          exact Scalar.ofYaml_of_value hf

end Node

/-- A text that has no value has a fault of YAML. -/
theorem safe_value (s : Text) : Safe (value s) := by
  refine (Node.safe_ofTokens (Layout.sound_tokensOf s)).bind fun n => ?_
  split
  · simp
  · rename_i n
    have h := Node.safe_valueAt (n.depth + 1) 0 n
    split
    · simp
    · rename_i e he
      rwa [he] at h

end Yaml

end Lockstep
