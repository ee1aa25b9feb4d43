import Lockstep.Job.Build
import Lockstep.Proofs.Engine.Group
import Lockstep.Proofs.Key.Tuple

/-!
# Groups of key fields

A rupture looks at the leading characters of a key.  If it has the width of the first `n` key
fields taken together, it is meant to group by what these fields read.  The code of a negative
integer has one character more than its field is wide (`FieldForm.Codes.length_eq`), which shifts
all that follows.  As long as no field reads negative integers in both of two records, the
characters up to the first difference are in their places, and the rupture breaks if and only if
one of the fields differs (`keyOf_groups`).  Where both are negative the last digit may be lost
(`not_keyOf_groups_negative`).
-/

namespace Lockstep

open Config

theorem Key.encodeInt_length {w : ℕ} {v : ℤ} {s : Text} (hw : 1 ≤ w)
    (h : encodeInt w v = some s) : s.length = w + (decide (v < 0)).toNat := by
  have hv := natAbs_lt_of_encodeInt h
  rcases encodeInt_cases h with ⟨h0, rfl⟩ | ⟨h0, rfl⟩
  · rw [numeral_length hv, max_eq_left hw]
    simp [h0]
  · rw [List.length_cons, numeral_length (by omega), max_eq_left hw]
    simp [h0]

/-- A negative integer was read. -/
def FieldValue.isNegative : FieldValue → Bool
  | .integer i => i < 0
  | .text _ => false

namespace FieldForm.Codes

variable {form : FieldForm} {x y : FieldValue} {a b : Text} {w : ℕ}

theorem length_eq (hform : form.width? = some w) (hw : 1 ≤ w) (h : form.Codes x a) :
    a.length = w + x.isNegative.toNat := by
  cases h with
  | whole s => cases hform
  | text h =>
    obtain rfl := Option.some.inj hform
    rw [h]
    rfl
  | int h =>
    obtain rfl := Option.some.inj hform
    exact Key.encodeInt_length hw h

/-- Two codes that do not both stand for negative integers are known by the characters within the
width. -/
theorem eq_of_take_eq (hform : form.width? = some w) (hw : 1 ≤ w) (hx : form.Codes x a)
    (hy : form.Codes y b) (hn : ¬ (x.isNegative = true ∧ y.isNegative = true))
    (h : a.take w = b.take w) : x = y := by
  have hmin : min a.length b.length = w := by
    rw [hx.length_eq hform hw, hy.length_eq hform hw]
    cases hxn : x.isNegative <;> cases hyn : y.isNegative <;> simp_all
  refine (hx.agree_iff (by rw [hform]; rfl) hy).1 ?_
  simp [Text.agree, hmin, h]

end FieldForm.Codes

namespace KeyField

variable {fs : List KeyField} {xs ys : List FieldValue} {a b c d k l : Text} {r s : Value}

/-- The width of key fields taken together. -/
def totalWidth (fs : List KeyField) : ℕ := (fs.map fun f => f.form.width?.getD 0).sum

/-- In no place there are negative integers in both tuples. -/
def NotBothNegative (xs ys : List FieldValue) : Prop :=
  ∀ p ∈ xs.zip ys, ¬ (p.1.isNegative = true ∧ p.2.isNegative = true)

namespace Spells

/-- The first entries of a tuple are spelled by an initial part of the key. -/
theorem exists_append (n : ℕ) (h : Spells fs xs k) :
    ∃ a b, k = a ++ b ∧ Spells (fs.take n) (xs.take n) a := by
  induction h generalizing n with
  | nil => exact ⟨[], [], rfl, by simpa using .nil⟩
  | @cons f fs x xs a k h hs ih =>
    cases n with
    | zero => exact ⟨[], a ++ k, rfl, .nil⟩
    | succ n =>
      obtain ⟨b, c, rfl, hb⟩ := ih n
      exact ⟨a ++ b, c, (List.append_assoc a b c).symm, .cons h hb⟩

theorem unique (hx : Spells fs xs a) (hy : Spells fs xs b) : a = b := by
  induction hx generalizing b with
  | nil =>
    cases hy
    rfl
  | cons h hs ih =>
    cases hy with
    | cons h' hs' => rw [(h.eq_iff h').2 rfl, ih hs']

theorem totalWidth_le (hw : ∀ f ∈ fs, ∃ w, f.form.width? = some w ∧ 1 ≤ w) (h : Spells fs xs a) :
    totalWidth fs ≤ a.length := by
  induction h with
  | nil => exact le_rfl
  | @cons f fs x xs a k h hs ih =>
    obtain ⟨⟨w, hform, hpos⟩, hws⟩ := List.forall_mem_cons.1 hw
    have hle := ih hws
    have hlen := h.length_eq hform hpos
    simp only [totalWidth, List.map_cons, List.sum_cons, hform, Option.getD_some,
      List.length_append] at hle ⊢
    omega

/-- Tuples without negative integers in one place are known by the characters within the total
width. -/
theorem eq_of_take_eq (hw : ∀ f ∈ fs, ∃ w, f.form.width? = some w ∧ 1 ≤ w) (hx : Spells fs xs a)
    (hy : Spells fs ys b) (hn : NotBothNegative xs ys)
    (h : (a ++ c).take (totalWidth fs) = (b ++ d).take (totalWidth fs)) : xs = ys := by
  induction hx generalizing ys b with
  | nil =>
    cases hy
    rfl
  | @cons f fs x xs a k hcode hs ih =>
    cases hy with
    | @cons _ _ y ys b l hcode' hs' =>
      obtain ⟨⟨w, hform, hpos⟩, hws⟩ := List.forall_mem_cons.1 hw
      obtain ⟨hn₁, hns⟩ := List.forall_mem_cons.1 hn
      have hlen := hcode.length_eq hform hpos
      have hlen' := hcode'.length_eq hform hpos
      have htotal : totalWidth (f :: fs) = w + totalWidth fs := by simp [totalWidth, hform]
      rw [htotal, List.append_assoc, List.append_assoc] at h
      -- the characters within the first width
      have hfirst : a.take w = b.take w := by
        have ht := congrArg (List.take w) h
        rw [List.take_take, List.take_take, min_eq_left (Nat.le_add_right _ _),
          List.take_append_of_le_length (by omega), List.take_append_of_le_length (by omega)] at ht
        exact ht
      obtain rfl := hcode.eq_of_take_eq hform hpos hcode' hn₁ hfirst
      -- what is the same is not negative, so its code is as long as its field is wide
      have hx : x.isNegative = false := by
        rw [Bool.eq_false_iff]
        exact fun hx => hn₁ ⟨hx, hx⟩
      obtain rfl : a = b := (hcode.eq_iff hcode').2 rfl
      have hw₁ : a.length = w := by simpa [hx] using hlen
      rw [← hw₁, List.take_length_add_append, List.take_length_add_append] at h
      rw [ih hws hs' hns (List.append_cancel_left h)]

end Spells

/-- **A rupture groups by key fields.**  Let the first `n` of the accepted key fields have widths,
and let two records have keys.  If these fields read the same in both, then the keys begin with the
same characters, as many as the fields are wide together.  If none of these fields reads negative
integers in both, then the converse holds as well, and a rupture of this width breaks between the
keys if and only if some of these fields reads something else. -/
theorem keyOf_groups {v : Value} (h : SourceEntry.checkKey v = .ok fs) {n : ℕ}
    (hw : ∀ f ∈ fs.take n, f.form.width?.isSome = true) (hr : keyOf fs r = .ok k)
    (hs : keyOf fs s = .ok l) :
    ∃ xs ys, tupleOf fs r = .ok xs ∧ tupleOf fs s = .ok ys ∧
      (xs.take n = ys.take n →
        k.take (totalWidth (fs.take n)) = l.take (totalWidth (fs.take n))) ∧
      (NotBothNegative (xs.take n) (ys.take n) →
        (k.take (totalWidth (fs.take n)) = l.take (totalWidth (fs.take n)) ↔
          xs.take n = ys.take n) ∧
        ∀ name, (Job.ruptureOf ⟨name, some (totalWidth (fs.take n))⟩).breaks (.key k) (.key l) =
          .ok (decide (xs.take n ≠ ys.take n))) := by
  have hwide : ∀ f ∈ fs.take n, ∃ w, f.form.width? = some w ∧ 1 ≤ w := by
    intro f hf
    obtain ⟨w, hform⟩ := Option.isSome_iff_exists.1 (hw f hf)
    have hrules := SourceEntry.keyRules_of_checkKey h
    exact ⟨w, hform, hrules.width_pos f (List.mem_of_mem_take hf) w hform⟩
  obtain ⟨xs, hxs, hx⟩ := spells_of_keyOf hr
  obtain ⟨ys, hys, hy⟩ := spells_of_keyOf hs
  obtain ⟨a, c, rfl, ha⟩ := hx.exists_append n
  obtain ⟨b, d, rfl, hb⟩ := hy.exists_append n
  have hsame : xs.take n = ys.take n →
      (a ++ c).take (totalWidth (fs.take n)) = (b ++ d).take (totalWidth (fs.take n)) := by
    intro heq
    rw [← heq] at hb
    obtain rfl := ha.unique hb
    rw [List.take_append_of_le_length (ha.totalWidth_le hwide),
      List.take_append_of_le_length (ha.totalWidth_le hwide)]
  refine ⟨xs, ys, hxs, hys, hsame, fun hn => ?_⟩
  have hiff : (a ++ c).take (totalWidth (fs.take n)) = (b ++ d).take (totalWidth (fs.take n)) ↔
      xs.take n = ys.take n := ⟨ha.eq_of_take_eq hwide hb hn, hsame⟩
  refine ⟨hiff, fun name => ?_⟩
  rw [Rupture.breaks_leading rfl]
  refine congrArg Except.ok (decide_eq_decide.2 (not_congr ?_))
  rw [Frontier.cut, Frontier.cut, Frontier.key.injEq, hiff]

/-- An integer that is negative in one record only, and a text. -/
theorem keyOf_groups_sign :
    let fs : List KeyField := [⟨['n'], .int 1⟩, ⟨['a'], .text 2⟩]
    let r : Value := .dict [(.text ['n'], .int (-1)), (.text ['a'], .text ['x'])]
    let s : Value := .dict [(.text ['n'], .int 9), (.text ['a'], .text ['x'])]
    (∃ v, SourceEntry.checkKey v = .ok fs) ∧ (∀ f ∈ fs.take 2, f.form.width?.isSome = true) ∧
      keyOf fs r = .ok "-9x ".toList ∧ keyOf fs s = .ok "9x ".toList ∧
      (Job.ruptureOf ⟨['g'], some 3⟩).breaks (.key "-9x ".toList) (.key "9x ".toList) =
        .ok true := by
  intro fs r s
  let member (name : String) (value : Value) : Value × Value := (.text name.toList, value)
  let v : Value := .list [
    .dict [member "field" (.text ['n']), member "width" (.int 1),
      member "kind" (.text "int".toList)],
    .dict [member "field" (.text ['a']), member "width" (.int 2)]]
  have hv : SourceEntry.checkKey v = .ok fs := rfl
  have hw : ∀ f ∈ fs.take 2, f.form.width?.isSome = true := by decide
  have hr : keyOf fs r = .ok "-9x ".toList := by decide +kernel
  have hs : keyOf fs s = .ok "9x ".toList := by decide +kernel
  refine ⟨⟨v, hv⟩, hw, hr, hs, ?_⟩
  obtain ⟨xs, ys, hxs, hys, -, hgroups⟩ := keyOf_groups hv hw hr hs
  obtain rfl : [.integer (-1), .text ['x', ' ']] = xs := Except.ok.inj hxs
  obtain rfl : [.integer 9, .text ['x', ' ']] = ys := Except.ok.inj hys
  exact (hgroups (by simp [NotBothNegative, FieldValue.isNegative])).2 ['g']

/-- Two negative integers of which the codes begin with the same character: a rupture as wide as
their field does not break between them. -/
theorem not_keyOf_groups_negative :
    let fs : List KeyField := [⟨['n'], .int 1⟩]
    let r : Value := .dict [(.text ['n'], .int (-2))]
    let s : Value := .dict [(.text ['n'], .int (-1))]
    let xs : List FieldValue := [.integer (-2)]
    let ys : List FieldValue := [.integer (-1)]
    (∃ v, SourceEntry.checkKey v = .ok fs) ∧ totalWidth (fs.take 1) = 1 ∧
      keyOf fs r = .ok ['-', '8'] ∧ keyOf fs s = .ok ['-', '9'] ∧
      tupleOf fs r = .ok xs ∧ tupleOf fs s = .ok ys ∧
      ¬ (['-', '8'].take 1 = ['-', '9'].take 1 ↔ xs.take 1 = ys.take 1) ∧
      ∀ name, (Job.ruptureOf ⟨name, some 1⟩).breaks (.key ['-', '8']) (.key ['-', '9']) =
        .ok false := by
  intro fs r s xs ys
  let member (name : String) (value : Value) : Value × Value := (.text name.toList, value)
  let v : Value := .list [.dict [member "field" (.text ['n']), member "width" (.int 1),
    member "kind" (.text "int".toList)]]
  exact ⟨⟨v, rfl⟩, rfl, by decide +kernel, by decide +kernel, rfl, rfl, by decide, fun name => rfl⟩

end KeyField

end Lockstep
