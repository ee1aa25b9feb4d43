import Lockstep.Proofs.Config.Acceptance
import Lockstep.Proofs.Key.Integer

/-!
# Keys and tuples

What the key fields read in a record is a tuple of integers and texts (`KeyField.tupleOf`), and
the key spells it: the codes of the entries one after the other (`Spells`).  A code of a form with
a width is no initial part of another code of this form (`FieldForm.Codes.agree_iff`), so it is
clear where it ends, although the codes of integers differ in length.  If only the last form may
be without width, then keys are in the order of the tuples (`Spells.lt_iff`); if every form has a
width, keys agree only if the tuples are the same (`Spells.agree_iff`).
-/

namespace Lockstep

/-! ### Texts with initial parts that are apart -/

namespace Text

variable {a b c d : Text}

theorem agree_of_agree_append (h : agree (a ++ b) (c ++ d) = true) : agree a c = true := by
  rw [agree_iff]
  rcases agree_iff.1 h with h | h
  · exact List.prefix_or_prefix_of_prefix ((List.prefix_append a b).trans h)
      (List.prefix_append c d)
  · exact List.prefix_or_prefix_of_prefix (List.prefix_append a b)
      ((List.prefix_append c d).trans h)

@[simp] theorem agree_append_left (a b c : Text) : agree (a ++ b) (a ++ c) = agree b c := by
  induction a with
  | nil => rfl
  | cons x a ih => rw [List.cons_append, List.cons_append, agree_cons, ih]

/-- If the first parts only agree when they are the same, they decide unless they are. -/
theorem agree_append_iff (h : agree a c = true → a = c) :
    agree (a ++ b) (c ++ d) = true ↔ a = c ∧ agree b d = true := by
  constructor
  · intro hagree
    obtain rfl := h (agree_of_agree_append hagree)
    exact ⟨rfl, agree_append_left a b d ▸ hagree⟩
  · rintro ⟨rfl, hagree⟩
    rw [agree_append_left, hagree]

@[simp] theorem append_lt_append_left (a b c : Text) : a ++ b < a ++ c ↔ b < c := by
  induction a with
  | nil => rfl
  | cons x a ih => simp [ih]

/-- A text that is lower stays so when something follows, unless it is an initial part. -/
theorem append_lt_append_of_lt (hlt : a < c) (h : agree a c = false) : a ++ b < c ++ d := by
  induction a generalizing c with
  | nil => simp [agree_nil] at h
  | cons x a ih =>
    cases c with
    | nil => simp at hlt
    | cons y c =>
      rw [List.cons_append, List.cons_append, List.cons_lt_cons_iff]
      refine (List.cons_lt_cons_iff.1 hlt).imp_right ?_
      rintro ⟨rfl, hac⟩
      exact ⟨rfl, ih hac (agree_cons x a c ▸ h)⟩

/-- If the first parts only agree when they are the same, their order comes first. -/
theorem append_lt_append_iff (h : agree a c = true → a = c) :
    a ++ b < c ++ d ↔ a < c ∨ a = c ∧ b < d := by
  rcases lt_trichotomy a c with hlt | rfl | hlt
  · have hac : agree a c = false := Bool.eq_false_iff.2 fun hagree => hlt.ne (h hagree)
    exact iff_of_true (append_lt_append_of_lt hlt hac) (Or.inl hlt)
  · simp
  · have hca : agree c a = false := by
      rw [Bool.eq_false_iff]
      intro hagree
      exact hlt.ne' (h (agree_iff.2 (agree_iff.1 hagree).symm))
    refine iff_of_false (append_lt_append_of_lt hlt hca).not_gt ?_
    rintro (hac | ⟨rfl, -⟩)
    · exact hac.not_gt hlt
    · exact hlt.false

end Text

/-! ### What key fields read -/

/-- What a key field reads in a record. -/
inductive FieldValue
  | integer (i : ℤ)
  | text (s : Text)
  deriving DecidableEq, Repr

namespace FieldValue

/-- Integers stand below integers, and texts below texts. -/
inductive Lower : FieldValue → FieldValue → Prop
  | integer {i j : ℤ} (h : i < j) : Lower (.integer i) (.integer j)
  | text {s t : Text} (h : s < t) : Lower (.text s) (.text t)

instance : LT FieldValue := ⟨Lower⟩

@[simp] theorem integer_lt_integer {i j : ℤ} : integer i < integer j ↔ i < j :=
  ⟨fun | .integer h => h, .integer⟩

@[simp] theorem text_lt_text {s t : Text} : text s < text t ↔ s < t :=
  ⟨fun | .text h => h, .text⟩

end FieldValue

namespace FieldForm

/-- What a form makes of a value: the integer that it is, or its text, cut or padded if there is
a width. -/
def read : FieldForm → Value → Except Fault FieldValue
  | .whole, v => .ok (.text v.display)
  | .text w, v => .ok (.text (Key.pad w v.display))
  | .int _, v => v.toInteger.map .integer

/-- The code of what was read. -/
inductive Codes : FieldForm → FieldValue → Text → Prop
  | whole (s : Text) : Codes .whole (.text s) s
  | text {w : ℕ} {s : Text} (h : s.length = w) : Codes (.text w) (.text s) s
  | int {w : ℕ} {i : ℤ} {s : Text} (h : Key.encodeInt w i = some s) : Codes (.int w) (.integer i) s

namespace Codes

variable {form : FieldForm} {x y : FieldValue} {a b : Text}

/-- Codes are in the order of what they stand for. -/
theorem lt_iff (hx : form.Codes x a) (hy : form.Codes y b) : a < b ↔ x < y := by
  cases hx with
  | whole s =>
    cases hy
    exact FieldValue.text_lt_text.symm
  | text h =>
    cases hy
    exact FieldValue.text_lt_text.symm
  | int h =>
    cases hy with
    | int h' => rw [Key.lt_iff_of_encodeInt h h', FieldValue.integer_lt_integer]

theorem eq_iff (hx : form.Codes x a) (hy : form.Codes y b) : a = b ↔ x = y := by
  cases hx with
  | whole s =>
    cases hy
    simp
  | text h =>
    cases hy
    simp
  | int h =>
    cases hy with
    | int h' =>
      rw [FieldValue.integer.injEq, ← Key.agree_iff_of_encodeInt h h']
      constructor
      · rintro rfl
        exact Text.agree_self a
      · intro hagree
        obtain rfl := (Key.agree_iff_of_encodeInt h h').1 hagree
        exact Option.some.inj (h.symm.trans h')

/-- No code of a form with a width is an initial part of another one. -/
theorem agree_iff (hw : form.width?.isSome = true) (hx : form.Codes x a) (hy : form.Codes y b) :
    Text.agree a b = true ↔ x = y := by
  cases hx with
  | whole s => cases hw
  | text h =>
    cases hy with
    | text h' => rw [Text.agree_iff_eq (h.trans h'.symm), FieldValue.text.injEq]
  | int h =>
    cases hy with
    | int h' => rw [Key.agree_iff_of_encodeInt h h', FieldValue.integer.injEq]

end Codes

end FieldForm

namespace KeyField

variable {f : KeyField} {fs : List KeyField} {r : Value} {x : FieldValue} {xs ys : List FieldValue}
  {a k l : Text}

/-- What a key field reads in a record. -/
def valueOf (f : KeyField) (r : Value) : Except Fault FieldValue := do
  let v ← r.field f.field
  f.form.read v

/-- What the key fields read in a record. -/
def tupleOf (fs : List KeyField) (r : Value) : Except Fault (List FieldValue) :=
  fs.mapM fun f => f.valueOf r

/-- The key is spelled by the codes of the entries of the tuple. -/
inductive Spells : List KeyField → List FieldValue → Text → Prop
  | nil : Spells [] [] []
  | cons {f : KeyField} {fs : List KeyField} {x : FieldValue} {xs : List FieldValue} {a k : Text}
      (h : f.form.Codes x a) (hs : Spells fs xs k) : Spells (f :: fs) (x :: xs) (a ++ k)

namespace Spells

/-- If every form has a width, keys agree only if the tuples are the same. -/
theorem agree_iff (hw : ∀ f ∈ fs, f.form.width?.isSome = true) (hx : Spells fs xs k)
    (hy : Spells fs ys l) : Text.agree k l = true ↔ xs = ys := by
  induction hx generalizing ys l with
  | nil =>
    cases hy
    simp [Text.agree_nil]
  | cons h hs ih =>
    obtain ⟨hwf, hws⟩ := List.forall_mem_cons.1 hw
    cases hy with
    | cons h' hs' =>
      have hagree := h.agree_iff hwf h'
      rw [Text.agree_append_iff fun hab => (h.eq_iff h').2 (hagree.1 hab), h.eq_iff h',
        ih hws hs', List.cons.injEq]

/-- Keys are in the order of the tuples, if only the last form may be without width. -/
theorem lt_iff (hw : ∀ f ∈ fs.dropLast, f.form.width?.isSome = true) (hx : Spells fs xs k)
    (hy : Spells fs ys l) : k < l ↔ xs < ys := by
  induction hx generalizing ys l with
  | nil =>
    cases hy
    simp
  | @cons f fs x xs a k h hs ih =>
    cases hy with
    | @cons _ _ y ys b l h' hs' =>
      cases hs with
      | nil =>
        -- nothing follows the last code
        cases hs'
        simp [h.lt_iff h', List.cons_lt_cons_iff]
      | cons h₂ hs₂ =>
        rw [List.dropLast_cons_of_ne_nil (List.cons_ne_nil _ _)] at hw
        obtain ⟨hwf, hws⟩ := List.forall_mem_cons.1 hw
        have hagree := h.agree_iff hwf h'
        rw [Text.append_lt_append_iff fun hab => (h.eq_iff h').2 (hagree.1 hab), h.lt_iff h',
          h.eq_iff h', ih hws hs', List.cons_lt_cons_iff]

end Spells

/-! ### The key of a record -/

theorem codes_of_encode {form : FieldForm} {v : Value} (h : encode form v = .ok a) :
    ∃ x, form.read v = .ok x ∧ form.Codes x a := by
  cases form with
  | whole =>
    obtain rfl : v.display = a := Except.ok.inj h
    exact ⟨_, rfl, .whole _⟩
  | text w =>
    refine ⟨_, rfl, ?_⟩
    have hpad : Key.pad w v.display = a := by
      simp only [encode, Key.padTo] at h
      split at h
      · cases h
      · split at h
        · cases h
        · exact Except.ok.inj h
    rw [hpad]
    exact .text (by rw [← hpad, Key.pad_length])
  | int w =>
    cases hi : v.toInteger with
    | error e =>
      rw [encode, hi] at h
      cases h
    | ok i =>
      simp only [encode, hi] at h
      cases hc : Key.encodeInt w i with
      | none =>
        obtain ⟨e, he, -⟩ := Key.encodeIntTo_of_none hc
        rw [he] at h
        cases h
      | some s =>
        have hs : s = a := by
          rcases Key.encodeIntTo_of_some hc with he | ⟨he, -⟩
          · exact Except.ok.inj (he.symm.trans h)
          · rw [he] at h
            cases h
        refine ⟨.integer i, ?_, .int (hs ▸ hc)⟩
        rw [FieldForm.read, hi]
        rfl

theorem codes_of_encodeField (h : f.encodeField r = .ok a) :
    ∃ x, f.valueOf r = .ok x ∧ f.form.Codes x a := by
  cases hv : r.field f.field with
  | error e =>
    rw [encodeField, hv] at h
    cases h
  | ok v =>
    rw [encodeField, hv] at h
    obtain ⟨x, hread, hcode⟩ := codes_of_encode h
    refine ⟨x, ?_, hcode⟩
    rw [valueOf, hv]
    exact hread

/-- A record that has a key has a tuple, and the key spells it. -/
theorem spells_of_keyOf (h : keyOf fs r = .ok k) :
    ∃ xs, tupleOf fs r = .ok xs ∧ Spells fs xs k := by
  induction fs generalizing k with
  | nil =>
    obtain rfl : [] = k := Except.ok.inj h
    exact ⟨[], rfl, .nil⟩
  | cons f fs ih =>
    cases ha : f.encodeField r with
    | error e =>
      rw [keyOf, ha] at h
      cases h
    | ok a =>
      cases hb : keyOf fs r with
      | error e =>
        rw [keyOf, ha, hb] at h
        cases h
      | ok b =>
        rw [keyOf_cons_ok ha hb] at h
        obtain rfl := Except.ok.inj h
        obtain ⟨x, hx, hcode⟩ := codes_of_encodeField ha
        obtain ⟨xs, hxs, hspells⟩ := ih hb
        refine ⟨x :: xs, ?_, .cons hcode hspells⟩
        rw [tupleOf, List.mapM_cons, hx]
        show (tupleOf fs r >>= fun ys => pure (x :: ys)) = _
        rw [hxs]
        rfl

/-- **Keys sort as tuples.**  Let the key fields of a source be accepted, and let two records have
keys.  Then both have tuples, and the keys are in the order of the tuples.  If the last field has a
width as well, then the keys only agree if the tuples are the same. -/
theorem keyOf_sorts {v : Value} (h : Config.SourceEntry.checkKey v = .ok fs) {r s : Value}
    (hr : keyOf fs r = .ok k) (hs : keyOf fs s = .ok l) :
    ∃ xs ys, tupleOf fs r = .ok xs ∧ tupleOf fs s = .ok ys ∧ (k < l ↔ xs < ys) ∧
      ((∀ f, fs.getLast? = some f → f.form.width?.isSome = true) →
        (Text.agree k l = true ↔ xs = ys)) := by
  have hrules := Config.SourceEntry.keyRules_of_checkKey h
  obtain ⟨xs, hxs, hx⟩ := spells_of_keyOf hr
  obtain ⟨ys, hys, hy⟩ := spells_of_keyOf hs
  refine ⟨xs, ys, hxs, hys, hx.lt_iff hrules.fixed hy, ?_⟩
  intro hlast
  exact hx.agree_iff (hrules.forall_width hlast) hy

/-- The key fields are an integer of one digit, a text of two characters, and a text as it is.  The
lower integer comes first, although its code is longer than that of the other one. -/
theorem keyOf_sorts_three :
    let fs : List KeyField := [⟨['n'], .int 1⟩, ⟨['a'], .text 2⟩, ⟨['b'], .whole⟩]
    let r : Value := .dict [(.text ['n'], .int (-1)), (.text ['a'], .text ['x']),
      (.text ['b'], .text ['y'])]
    let s : Value := .dict [(.text ['n'], .int 0), (.text ['a'], .text []),
      (.text ['b'], .text ['z'])]
    (∃ v, Config.SourceEntry.checkKey v = .ok fs) ∧
      keyOf fs r = .ok "-9x y".toList ∧ keyOf fs s = .ok "0  z".toList ∧
      ∃ xs ys, tupleOf fs r = .ok xs ∧ tupleOf fs s = .ok ys ∧ xs < ys := by
  intro fs r s
  let member (name : String) (value : Value) : Value × Value := (.text name.toList, value)
  let v : Value := .list [
    .dict [member "field" (.text ['n']), member "width" (.int 1),
      member "kind" (.text "int".toList)],
    .dict [member "field" (.text ['a']), member "width" (.int 2)],
    .dict [member "field" (.text ['b'])]]
  have hv : Config.SourceEntry.checkKey v = .ok fs := rfl
  have hr : keyOf fs r = .ok "-9x y".toList := by decide +kernel
  have hs : keyOf fs s = .ok "0  z".toList := by decide +kernel
  obtain ⟨xs, ys, hxs, hys, hlt, -⟩ := keyOf_sorts hv hr hs
  exact ⟨⟨v, hv⟩, hr, hs, xs, ys, hxs, hys, hlt.1 (by decide +kernel)⟩

end KeyField

end Lockstep
