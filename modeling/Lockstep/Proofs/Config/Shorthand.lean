import Lockstep.Proofs.Config.Acceptance
import Lockstep.Proofs.Text.Pieces

/-!
# The two forms of a key

The key of a source may be written in short form, as items with commas between them, or as a list
of entries.  `KeyField.WritesAll` says which pieces write some key fields in short form, with any
blanks around names and widths and any blank pieces; `KeyField.Describes` says which values
describe a key field as an entry.

Both forms are read as the same key fields (`SourceEntry.checkKey_writes`,
`SourceEntry.checkKey_describes`), so a source is accepted with the one form exactly if it is with
the other, and it is the same source (`SourceEntry.check_forms`).
-/

namespace Lockstep

/-! ### Members of a dictionary -/

namespace Value

theorem same_text {v : Value} {s : Text} : same v (.text s) = true ↔ v = .text s := by
  cases v <;> simp [same, sameScalar, number?]

/-- The value that was put in under a name is found, and under another name nothing is changed. -/
theorem find?_insert (es : List (Value × Value)) (name other : Text) (v : Value) :
    find? other (insert es (.text name) v) = if name = other then some v else find? other es := by
  induction es with
  | nil => simp [insert, find?]
  | cons e es ih =>
    obtain ⟨k, u⟩ := e
    unfold insert
    by_cases hk : same k (.text name) = true
    · obtain rfl := same_text.1 hk
      rw [if_pos hk]
      by_cases hname : name = other <;> simp [find?, hname]
    · rw [if_neg hk]
      cases k with
      | text s =>
        have hne : s ≠ name := fun h => hk (same_text.2 (h ▸ rfl))
        by_cases hs : s = other
        · simp [find?, hs, (hs ▸ hne.symm : name ≠ other)]
        · simp [find?, hs, ih]
      | _ => simpa [find?] using ih

end Value

namespace Config

/-! ### Numerals -/

section Numerals

variable {s : Text} {n : ℕ}

theorem isBlank_of_isDigit {c : Char} (h : c.isDigit = true) : Text.isBlank c = false := by
  have hrange : 48 ≤ c.toNat ∧ c.toNat ≤ 57 := Char.isDigit_iff_toNat.1 h
  simp only [Text.isBlank, Text.isWhiteSpace, Bool.or_eq_false_iff, Bool.and_eq_false_iff,
    decide_eq_false_iff_not, beq_eq_false_iff_ne]
  omega

theorem isDigit_of_mem_natText {c : Char} (h : c ∈ natText n) : c.isDigit = true :=
  Nat.isDigit_of_mem_toDigits (by decide) (by decide) h

theorem natText_ne_nil (n : ℕ) : natText n ≠ [] :=
  List.ne_nil_of_length_pos Nat.length_toDigits_pos

theorem trimmed_natText (n : ℕ) : Text.Trimmed Text.isBlank (natText n) :=
  Text.trimmed_of_forall fun _ hc => isBlank_of_isDigit (isDigit_of_mem_natText hc)

theorem digitRun_of_digits (h : ∀ c ∈ s, c.isDigit = true) :
    Numeral.digitRun true s = some s := by
  induction s with
  | nil => rfl
  | cons c s ih =>
    obtain ⟨hc, hs⟩ := List.forall_mem_cons.1 h
    simp [Numeral.digitRun, hc, ih hs]

theorem digits?_of_digits (hne : s ≠ []) (h : ∀ c ∈ s, c.isDigit = true) :
    Numeral.digits? s = some s := by
  obtain ⟨c, t, rfl⟩ := List.exists_cons_of_ne_nil hne
  obtain ⟨hc, ht⟩ := List.forall_mem_cons.1 h
  simp [Numeral.digits?, Numeral.digitRun, hc, digitRun_of_digits ht]

theorem sign_of_digits (h : ∀ c ∈ s, c.isDigit = true) : Numeral.sign s = (false, s) := by
  unfold Numeral.sign
  split
  · exact absurd (h '-' List.mem_cons_self) (by decide)
  · exact absurd (h '+' List.mem_cons_self) (by decide)
  · rfl

/-- The numeral of a number is read as the number, unless it is too long. -/
theorem numeral_natText (h : (natText n).length ≤ Entry.maxDigits) :
    Entry.numeral (natText n) = .ok n := by
  have hdigits : ∀ c ∈ natText n, c.isDigit = true := fun c hc => isDigit_of_mem_natText hc
  have htrim : Text.trim Text.isWhiteSpace (natText n) = natText n := by
    refine Text.trim_eq_self (Text.trimmed_of_forall fun c hc => ?_)
    exact (Bool.or_eq_false_iff.1 (isBlank_of_isDigit (hdigits c hc))).1
  have hpoint : Entry.withoutZeros? (natText n) = some (natText n) := by
    have hnil : (natText n).dropWhile (· != '.') = [] := by
      refine List.dropWhile_eq_nil_iff.2 fun c hc => bne_iff_ne.2 ?_
      rintro rfl
      exact absurd (hdigits _ hc) (by decide)
    rw [Entry.withoutZeros?, hnil]
  have hvalue : Numeral.ofDigits (natText n) = n :=
    Nat.ofDigitChars_toDigits (by decide) (by decide)
  have hsigned : Numeral.signed? (natText n) = some ⟨n, (natText n).length⟩ := by
    simp [Numeral.signed?, sign_of_digits hdigits, digits?_of_digits (natText_ne_nil n) hdigits,
      hvalue]
  simp [Entry.numeral, htrim, hpoint, hsigned, h]

end Numerals

end Config

/-! ### Key fields in both forms -/

namespace KeyField

open Config

/-- The value is an entry for the key field, a text of some width or of none. -/
inductive Describes : KeyField → Value → Prop
  | whole {name : Text} {es : List (Value × Value)}
      (hname : Value.find? "field".toList es = some (.text name))
      (hwidth : ∀ v, Value.find? "width".toList es = some v → v = .none)
      (hkind : ∀ v, Value.find? "kind".toList es = some v → v = .text "text".toList) :
      Describes ⟨name, .whole⟩ (.dict es)
  | text {name : Text} {width : ℕ} {es : List (Value × Value)}
      (hname : Value.find? "field".toList es = some (.text name))
      (hwidth : Value.find? "width".toList es = some (.int width))
      (hkind : ∀ v, Value.find? "kind".toList es = some v → v = .text "text".toList) :
      Describes ⟨name, .text width⟩ (.dict es)

/-- The text is the key field in short form, with blanks wherever they do not count. -/
inductive Writes : KeyField → Text → Prop
  | whole {name l r : Text} (hl : Text.Blanks l) (hr : Text.Blanks r) :
      Writes ⟨name, .whole⟩ (l ++ name ++ r)
  | text {name l a b r : Text} {width : ℕ} (hl : Text.Blanks l) (ha : Text.Blanks a)
      (hb : Text.Blanks b) (hr : Text.Blanks r) :
      Writes ⟨name, .text width⟩ (l ++ (name ++ (a ++ ':' :: b) ++ natText width) ++ r)

/-- The key field can be written in short form. -/
structure Writable (f : KeyField) : Prop where
  ne_nil : f.field ≠ []
  comma : ',' ∉ f.field
  colon : ':' ∉ f.field
  trimmed : Text.Trimmed Text.isBlank f.field
  /-- A width is not zero, and its numeral is not too long to be read. -/
  width : ∀ n, f.form.width? = some n → 1 ≤ n ∧ (natText n).length ≤ Entry.maxDigits

/-- The pieces are the key fields in short form, in order, with any blank pieces among them. -/
inductive WritesAll : List KeyField → List Text → Prop
  | nil : WritesAll [] []
  | blank {fs : List KeyField} {ps : List Text} {p : Text} (hp : Text.Blanks p)
      (h : WritesAll fs ps) : WritesAll fs (p :: ps)
  | cons {f : KeyField} {fs : List KeyField} {p : Text} {ps : List Text} (hp : f.Writes p)
      (h : WritesAll fs ps) : WritesAll (f :: fs) (p :: ps)

variable {f : KeyField} {fs : List KeyField} {p : Text} {ps : List Text} {v : Value}

/-- An entry that names no kind, or the kind of texts, is of that kind. -/
theorem kind_of_text {es : List (Value × Value)}
    (h : ∀ v, Value.find? "kind".toList es = some v → v = .text "text".toList) :
    Entry.defaulted "kind" false (Entry.choice ("text", false) ("int", true)) es = .ok false := by
  refine Entry.defaulted_eq_ok.2 ?_
  cases hkind : Value.find? "kind".toList es with
  | none => exact Or.inl ⟨rfl, rfl⟩
  | some v => exact Or.inr ⟨v, rfl, h v hkind ▸ rfl⟩

/-- The entry of a text without a width. -/
theorem checkKeyField_whole {es : List (Value × Value)} {name : Text}
    (hname : Value.find? "field".toList es = some (.text name))
    (hwidth : ∀ v, Value.find? "width".toList es = some v → v = .none)
    (hkind : ∀ v, Value.find? "kind".toList es = some v → v = .text "text".toList) :
    checkKeyField (.dict es) = .ok ⟨name, .whole⟩ := by
  have hnone : Entry.defaulted "width" none (Entry.optional (Entry.integerFrom 1)) es =
      .ok none := by
    refine Entry.defaulted_eq_ok.2 ?_
    cases h : Value.find? "width".toList es with
    | none => exact Or.inl ⟨rfl, rfl⟩
    | some v => exact Or.inr ⟨v, rfl, hwidth v h ▸ rfl⟩
  exact checkKeyField_eq_ok.2 ⟨es, none, false, rfl, Entry.required_eq_ok.2 ⟨_, hname, rfl⟩, hnone,
    kind_of_text hkind, rfl⟩

/-- The entry of a text of the width that its member is read as. -/
theorem checkKeyField_text {es : List (Value × Value)} {name : Text} {u : Value} {n : ℕ}
    (hname : Value.find? "field".toList es = some (.text name))
    (hwidth : Value.find? "width".toList es = some u) (hu : Entry.integer u = .ok n) (hn : 1 ≤ n)
    (hkind : ∀ v, Value.find? "kind".toList es = some v → v = .text "text".toList) :
    checkKeyField (.dict es) = .ok ⟨name, .text n⟩ := by
  have hoptional : Entry.optional (Entry.integerFrom 1) u = .ok (some n) := by
    have hne : u ≠ .none := by
      rintro rfl
      cases hu
    rw [Entry.optional_of_ne_none hne, Entry.integerFrom_of_integer hu hn]
    rfl
  exact checkKeyField_eq_ok.2 ⟨es, some n, false, rfl, Entry.required_eq_ok.2 ⟨_, hname, rfl⟩,
    Entry.defaulted_eq_ok.2 (Or.inr ⟨u, hwidth, hoptional⟩), kind_of_text hkind, rfl⟩

theorem Describes.checkKeyField (hw : f.Writable) (h : f.Describes v) :
    checkKeyField v = .ok f := by
  cases h with
  | whole hname hwidth hkind => exact checkKeyField_whole hname hwidth hkind
  | text hname hwidth hkind =>
    exact checkKeyField_text hname hwidth rfl (hw.width _ rfl).1 hkind

/-! ### Reading the short form -/

namespace Writes

/-- There is no comma in an item. -/
theorem notMem_comma (hw : f.Writable) (h : f.Writes p) : ',' ∉ p := by
  have hblank : Text.isBlank ',' = false := by decide
  cases h with
  | whole hl hr => simp [hw.comma, hl.notMem hblank, hr.notMem hblank]
  | @text name l a b r width hl ha hb hr =>
    have hdigits : ',' ∉ natText width := fun hc => absurd (isDigit_of_mem_natText hc) (by decide)
    simp [hw.comma, hl.notMem hblank, ha.notMem hblank, hb.notMem hblank, hr.notMem hblank,
      hdigits]

/-- The item with a width and without the blanks around it. -/
theorem strip_text {name l a b r : Text} {width : ℕ} (hl : Text.Blanks l) (hr : Text.Blanks r)
    (htrim : Text.Trimmed Text.isBlank name) (hne : name ≠ []) :
    Text.strip (l ++ (name ++ (a ++ ':' :: b) ++ natText width) ++ r) =
      (name ++ a) ++ ':' :: (b ++ natText width) := by
  rw [Text.strip_append hl (htrim.append (trimmed_natText width) hne (natText_ne_nil width)) hr]
  simp

/-- An item is not blank. -/
theorem strip_ne_nil (hw : f.Writable) (h : f.Writes p) : Text.strip p ≠ [] := by
  cases h with
  | whole hl hr =>
    rw [Text.strip_append hl hw.trimmed hr]
    exact hw.ne_nil
  | text hl ha hb hr =>
    rw [strip_text hl hr hw.trimmed hw.ne_nil]
    simp

/-- The long form of an item is read as its key field. -/
theorem checkKeyField (hw : f.Writable) (h : f.Writes p) :
    Config.checkKeyField (Shorthand.ofText p).entry = .ok f := by
  cases h with
  | @whole name l r hl hr =>
    have hstrip : Text.strip name = name := Text.trim_eq_self hw.trimmed
    have hread : Shorthand.ofText (l ++ name ++ r) = ⟨name, none⟩ := by
      rw [Shorthand.ofText, Text.strip_append hl hw.trimmed hr, Text.cutAt_of_notMem hw.colon,
        hstrip]
      rfl
    rw [hread]
    exact checkKeyField_whole rfl (by simp [Value.find?]) (by simp [Value.find?])
  | @text name l a b r width hl ha hb hr =>
    obtain ⟨hpos, hdigits⟩ := hw.width width rfl
    have hcolon : ':' ∉ name ++ a := by
      simp [hw.colon, ha.notMem (by decide : Text.isBlank ':' = false)]
    have hname : Text.strip (name ++ a) = name :=
      Text.strip_append (l := []) Text.blanks_nil hw.trimmed ha
    have hwidth : Text.strip (b ++ natText width) = natText width := by
      simpa using Text.strip_append hb (trimmed_natText width) Text.blanks_nil
    have hread : Shorthand.ofText (l ++ (name ++ (a ++ ':' :: b) ++ natText width) ++ r) =
        ⟨name, some (natText width)⟩ := by
      simp only [Shorthand.ofText, strip_text hl hr hw.trimmed hw.ne_nil,
        Text.cutAt_append_cons hcolon, hname, hwidth]
      rw [if_neg (by simp [natText_ne_nil])]
    rw [hread]
    exact checkKeyField_text rfl rfl (numeral_natText hdigits) hpos (by simp [Value.find?])

end Writes

namespace WritesAll

theorem notMem_comma (hw : ∀ f ∈ fs, f.Writable) (h : WritesAll fs ps) : ∀ p ∈ ps, ',' ∉ p := by
  induction h with
  | nil => simp
  | blank hp _ ih => exact List.forall_mem_cons.2 ⟨hp.notMem (by decide), ih hw⟩
  | cons hp _ ih =>
    obtain ⟨hf, hfs⟩ := List.forall_mem_cons.1 hw
    exact List.forall_mem_cons.2 ⟨hp.notMem_comma hf, ih hfs⟩

/-- The items of a key in short form are the pieces that are not blank. -/
theorem itemsOf (hw : ∀ f ∈ fs, f.Writable) (h : WritesAll fs ps) :
    Shorthand.itemsOf (Text.joinWith [','] ps) =
      (ps.filter fun p => !(Text.strip p).isEmpty).map Shorthand.ofText := by
  by_cases hnil : ps = []
  · subst hnil
    rfl
  · rw [Shorthand.itemsOf, Text.splitOn_joinWith hnil (h.notMem_comma hw)]

/-- The pieces that are not blank are read as the key fields, one for one. -/
theorem forall₂ (hw : ∀ f ∈ fs, f.Writable) (h : WritesAll fs ps) :
    List.Forall₂ (fun f v => checkKeyField v = .ok f) fs
      (((ps.filter fun p => !(Text.strip p).isEmpty).map Shorthand.ofText).map
        Shorthand.entry) := by
  induction h with
  | nil => exact .nil
  | blank hp _ ih =>
    rw [List.filter_cons_of_neg (by simp [Text.strip_blanks hp])]
    exact ih hw
  | cons hp _ ih =>
    obtain ⟨hf, hfs⟩ := List.forall_mem_cons.1 hw
    rw [List.filter_cons_of_pos (by simp [hp.strip_ne_nil hf])]
    exact .cons (hp.checkKeyField hf) (ih hfs)

/-- Every key field is a text. -/
theorem isInt (h : WritesAll fs ps) : ∀ f ∈ fs, f.form.isInt = false := by
  induction h with
  | nil => simp
  | blank _ _ ih => exact ih
  | cons hp _ ih =>
    refine List.forall_mem_cons.2 ⟨?_, ih⟩
    cases hp <;> rfl

end WritesAll

end KeyField

namespace Config

/-! ### Sources -/

theorem Entry.required_insert {α : Type} (name : String) (entry : Value → Checked α)
    (es : List (Value × Value)) (v : Value) :
    required name entry (Value.insert es (.text name.toList) v) =
      (entry v).within (.member name) := by
  rw [required, Value.find?_insert, if_pos rfl]

theorem Entry.required_insert_of_ne {α : Type} {name other : String} (hne : name ≠ other)
    (entry : Value → Checked α) (es : List (Value × Value)) (v : Value) :
    required other entry (Value.insert es (.text name.toList) v) = required other entry es := by
  rw [required, Value.find?_insert, if_neg (fun h => hne (String.toList_inj.1 h))]
  rfl

theorem Entry.defaulted_insert_of_ne {α : Type} {name other : String} (hne : name ≠ other) (d : α)
    (entry : Value → Checked α) (es : List (Value × Value)) (v : Value) :
    defaulted other d entry (Value.insert es (.text name.toList) v) =
      defaulted other d entry es := by
  rw [defaulted, Value.find?_insert, if_neg (fun h => hne (String.toList_inj.1 h))]
  rfl

namespace SourceEntry

variable {fs : List KeyField} {ps : List Text} {vs : List Value}

/-- The members of a source, with the given key. -/
def withKey (es : List (Value × Value)) (key : Value) : Value :=
  .dict (Value.insert es (.text "key".toList) key)

/-- A source is checked alike with keys that are checked alike. -/
theorem check_withKey {u v : Value} (h : checkKey u = checkKey v) (es : List (Value × Value)) :
    check (withKey es u) = check (withKey es v) := by
  have hmembers : ∀ w, Entry.members model (withKey es w) =
      .ok (Value.insert es (.text "key".toList) w) := fun _ => rfl
  have hname := Entry.required_insert_of_ne (by decide : "key" ≠ "name") Entry.text es
  have hpath := Entry.required_insert_of_ne (by decide : "key" ≠ "path") Entry.path es
  have hformat := Entry.defaulted_insert_of_ne (by decide : "key" ≠ "format") RecordFormat.jsonLines
    (Entry.choice ("csv", .delimited) ("jsonl", .jsonLines)) es
  have hrupture := Entry.defaulted_insert_of_ne (by decide : "key" ≠ "rupture") none
    (Entry.optional Entry.text) es
  have hdelimiter := Entry.defaulted_insert_of_ne (by decide : "key" ≠ "delimiter") [',']
    Entry.text es
  have hkey := Entry.required_insert "key" checkKey es
  rw [check, check, hmembers, hmembers]
  show Checked.ap _ _ = Checked.ap _ _
  rw [hname, hname, hpath, hpath, hformat, hformat, hrupture, hrupture, hdelimiter, hdelimiter,
    hkey, hkey, h]

/-- A key whose entries are accepted one for one. -/
theorem checkKey_list (h : List.Forall₂ (fun f v => checkKeyField v = .ok f) fs vs) :
    checkKey (.list vs) = checkWidths fs := by
  have hlist : Entry.list checkKeyField (.list vs) = .ok fs := Checked.itemsFrom_of_forall₂ h 0
  show (Entry.list checkKeyField (.list vs) >>= checkWidths) = checkWidths fs
  rw [hlist]
  rfl

/-- What a key in short form is read as. -/
theorem checkKey_writes (hw : ∀ f ∈ fs, f.Writable) (h : KeyField.WritesAll fs ps) :
    checkKey (.text (Text.joinWith [','] ps)) = checkWidths fs := by
  rw [← checkKey_list (h.forall₂ hw), ← h.itemsOf hw]
  rfl

/-- What a key as a list of entries is read as. -/
theorem checkKey_describes (hw : ∀ f ∈ fs, f.Writable)
    (h : List.Forall₂ KeyField.Describes fs vs) : checkKey (.list vs) = checkWidths fs := by
  refine checkKey_list ?_
  induction h with
  | nil => exact .nil
  | cons hv _ ih =>
    obtain ⟨hf, hfs⟩ := List.forall_mem_cons.1 hw
    exact .cons (hv.checkKeyField hf) (ih hfs)

/-- **Both forms of a key are the same.**  A source is accepted with its key in short form, with
any blanks and blank items, exactly if it is with the list of the entries, with the same issues
if it is not; if it is, its key fields are those that were written, in order, and are texts. -/
theorem check_forms (hw : ∀ f ∈ fs, f.Writable) (hp : KeyField.WritesAll fs ps)
    (hv : List.Forall₂ KeyField.Describes fs vs) (es : List (Value × Value)) :
    check (withKey es (.text (Text.joinWith [','] ps))) = check (withKey es (.list vs)) ∧
      ∀ s, check (withKey es (.list vs)) = .ok s →
        s.key = fs ∧ ∀ f ∈ s.key, f.form.isInt = false := by
  have hlist := checkKey_describes hw hv
  refine ⟨check_withKey ((checkKey_writes hw hp).trans hlist.symm) es, fun s hs => ?_⟩
  obtain ⟨u, hu, hkey⟩ := checkKey_of_check hs
  rw [Value.find?_insert, if_pos rfl] at hu
  obtain rfl := Option.some.inj hu
  obtain ⟨rfl, -⟩ := checkWidths_eq_ok.1 (hlist.symm.trans hkey)
  exact ⟨rfl, hp.isInt⟩

/-- Blanks inside and around items, a blank item and a comma at the end, and the same as a list. -/
theorem check_forms_blank_items :
    let fs : List KeyField := [⟨"region".toList, .text 2⟩, ⟨"city name".toList, .whole⟩]
    let ps := [" region :\t2 ".toList, "  ".toList, " city name".toList, []]
    let vs : List Value :=
      [.dict [(.text "field".toList, .text "region".toList), (.text "width".toList, .int 2)],
        .dict [(.text "field".toList, .text "city name".toList),
          (.text "kind".toList, .text "text".toList)]]
    let es : List (Value × Value) := [(.text "name".toList, .text "cities".toList),
      (.text "path".toList, .text "cities.csv".toList), (.text "format".toList, .text "csv".toList)]
    (∀ f ∈ fs, f.Writable) ∧ KeyField.WritesAll fs ps ∧ List.Forall₂ KeyField.Describes fs vs ∧
      Text.joinWith [','] ps = " region :\t2 ,  , city name,".toList ∧
      check (withKey es (.text (Text.joinWith [','] ps))) = check (withKey es (.list vs)) ∧
      (∀ s, check (withKey es (.list vs)) = .ok s →
        s.key = fs ∧ ∀ f ∈ s.key, f.form.isInt = false) ∧
      (check (withKey es (.list vs))).toOption.isSome = true := by
  intro fs ps vs es
  have hregion : KeyField.Writable ⟨"region".toList, .text 2⟩ := by
    have htrim : Text.Trimmed Text.isBlank "region".toList := Text.trimmed_of_all (by decide)
    exact ⟨by decide, by decide, by decide, htrim, fun n hn => Option.some.inj hn ▸ by decide⟩
  have hcity : KeyField.Writable ⟨"city name".toList, .whole⟩ := by
    have hfirst : Text.Trimmed Text.isBlank "city".toList := Text.trimmed_of_all (by decide)
    have hlast : Text.Trimmed Text.isBlank "name".toList := Text.trimmed_of_all (by decide)
    exact ⟨by decide, by decide, by decide,
      hfirst.append (r := [' ']) hlast (by decide) (by decide), nofun⟩
  have hw : ∀ f ∈ fs, f.Writable :=
    List.forall_mem_cons.2 ⟨hregion, List.forall_mem_singleton.2 hcity⟩
  have hblank : ∀ n, Text.Blanks (List.replicate n ' ') := by
    intro n c hc
    rw [List.eq_of_mem_replicate hc]
    rfl
  have htab : Text.Blanks ['\t'] := List.forall_mem_singleton.2 rfl
  have hp : KeyField.WritesAll fs ps :=
    .cons (.text (hblank 1) (hblank 1) (b := ['\t']) htab (hblank 1))
      (.blank (hblank 2) (.cons (.whole (hblank 1) (hblank 0)) (.blank (hblank 0) .nil)))
  have hv : List.Forall₂ KeyField.Describes fs vs :=
    .cons (.text rfl rfl (by simp [Value.find?]))
      (.cons (.whole rfl (by simp [Value.find?]) (by simp [Value.find?])) .nil)
  have hforms := check_forms hw hp hv es
  have haccepted : (check (withKey es (.list vs))).toOption.isSome = true := by
    have hkey : withKey es (.list vs) = .dict (es ++ [(.text "key".toList, .list vs)]) := by
      simp [withKey, es, Value.insert, Value.same_text]
    rw [hkey]
    decide +kernel
  exact ⟨hw, hp, hv, by decide, hforms.1, hforms.2, haccepted⟩

end SourceEntry

end Config

end Lockstep
