import Mathlib.Algebra.Order.Ring.Int
import Mathlib.Algebra.Order.Ring.Nat
import Mathlib.Data.List.Basic
import Lockstep.Key.Code
import Lockstep.Proofs.Key.Order

/-!
# The code of an integer

An integer that fits into `w` digits is coded by a numeral, or by a minus sign and a numeral
(`encodeInt_of_nonneg`, `encodeInt_of_neg`), and all these numerals have the same length
(`numeral_length`).  Texts of digits of one length are ordered as their values are
(`lt_iff_value_lt`), and the minus sign stands below every digit.  So the codes of one width are
in the order of the integers, and none of them is an initial part of another one
(`lt_iff_of_encodeInt`, `agree_iff_of_encodeInt`).
-/

namespace Lockstep

/-- The order of two numbers in a number system with base `N`. -/
theorem mul_add_lt_mul_add_iff {N m n x y : ℕ} (hx : x < N) (hy : y < N) :
    m * N + x < n * N + y ↔ m < n ∨ m = n ∧ x < y := by
  have carry : ∀ {i j : ℕ}, i < j → i * N + N ≤ j * N := by
    intro i j hij
    rw [← Nat.succ_mul]
    exact Nat.mul_le_mul_right N hij
  rcases lt_trichotomy m n with h | rfl | h
  · have hc := carry h
    omega
  · omega
  · have hc := carry h
    omega

namespace Key

variable {s t : Text} {c d : Char} {w n : ℕ} {a b v : ℤ}

/-! ### Texts of digits -/

/-- The value of a text of digits. -/
def value (s : Text) : ℕ := Nat.ofDigitChars 10 s 0

/-- Every character is a digit. -/
def Digits (s : Text) : Prop := ∀ c ∈ s, c.isDigit = true

theorem value_cons (c : Char) (s : Text) :
    value (c :: s) = (c.toNat - 48) * 10 ^ s.length + value s := by
  rw [value, Nat.ofDigitChars_cons, Nat.ofDigitChars_eq_ofDigitChars_zero]
  simp [value, Nat.mul_comm]

theorem value_lt (h : Digits s) : value s < 10 ^ s.length := by
  induction s with
  | nil => simp [value]
  | cons c s ih =>
    obtain ⟨hc, hs⟩ := List.forall_mem_cons.1 h
    have hd : c.toNat ≤ 57 := (Char.isDigit_iff_toNat.1 hc).2
    have hle : (c.toNat - 48) * 10 ^ s.length ≤ 9 * 10 ^ s.length :=
      Nat.mul_le_mul_right _ (by omega)
    have hv := ih hs
    rw [value_cons, List.length_cons, Nat.pow_succ]
    omega

/-- Texts of digits of one length are ordered as their values are. -/
theorem lt_iff_value_lt (hs : Digits s) (ht : Digits t) (h : s.length = t.length) :
    s < t ↔ value s < value t := by
  induction s generalizing t with
  | nil =>
    obtain rfl : t = [] := List.eq_nil_of_length_eq_zero h.symm
    simp
  | cons c s ih =>
    cases t with
    | nil => cases h
    | cons d t =>
      obtain ⟨hc, hs⟩ := List.forall_mem_cons.1 hs
      obtain ⟨hd, ht⟩ := List.forall_mem_cons.1 ht
      have hl : s.length = t.length := Nat.succ.inj h
      have hc48 : 48 ≤ c.toNat := (Char.isDigit_iff_toNat.1 hc).1
      have hd48 : 48 ≤ d.toNat := (Char.isDigit_iff_toNat.1 hd).1
      -- the first digit decides, unless it is the same
      have hlt : c < d ↔ c.toNat - 48 < d.toNat - 48 := by
        show c.toNat < d.toNat ↔ _
        omega
      have heq : c = d ↔ c.toNat - 48 = d.toNat - 48 := by
        rw [← Char.toNat_inj]
        omega
      rw [List.cons_lt_cons_iff, ih hs ht hl, value_cons, value_cons, hl, hlt, heq]
      exact (mul_add_lt_mul_add_iff (hl ▸ value_lt hs) (value_lt ht)).symm

/-! ### Numerals of one width -/

/-- The numeral of a natural number, with zeros in front up to the width. -/
def numeral (w n : ℕ) : Text := zeroPad w (natText n)

theorem digits_numeral (w n : ℕ) : Digits (numeral w n) := by
  intro c hc
  rcases List.mem_append.1 hc with h | h
  · rw [List.eq_of_mem_replicate h]
    rfl
  · exact Nat.isDigit_of_mem_toDigits (by decide) (by decide) h

@[simp] theorem value_numeral (w n : ℕ) : value (numeral w n) = n := by
  simp [value, numeral, zeroPad, natText, Nat.ofDigitChars_append, Nat.ofDigitChars_replicate_zero]

theorem numeral_ne_nil (w n : ℕ) : numeral w n ≠ [] := by
  simp [numeral, zeroPad, natText]

/-- The numerals of what fits into the width have the same length, which is the width if there is
one. -/
theorem numeral_length (h : n < 10 ^ w) : (numeral w n).length = max w 1 := by
  have hpos : 0 < (natText n).length := Nat.length_toDigits_pos
  have hle : (natText n).length ≤ max w 1 := by
    refine (Nat.length_toDigits_le_iff (by decide) (by omega)).2 (lt_of_lt_of_le h ?_)
    exact Nat.pow_le_pow_right (by decide) (le_max_left w 1)
  rw [numeral, zeroPad, List.length_append, List.length_replicate]
  omega

/-- The numerals of what fits into the width are in the order of the numbers. -/
theorem numeral_lt_iff {m : ℕ} (hm : m < 10 ^ w) (hn : n < 10 ^ w) :
    numeral w m < numeral w n ↔ m < n := by
  have hl : (numeral w m).length = (numeral w n).length := by
    rw [numeral_length hm, numeral_length hn]
  rw [lt_iff_value_lt (digits_numeral w m) (digits_numeral w n) hl, value_numeral, value_numeral]

theorem agree_numeral_iff {m : ℕ} (hm : m < 10 ^ w) (hn : n < 10 ^ w) :
    Text.agree (numeral w m) (numeral w n) = true ↔ m = n := by
  have hl : (numeral w m).length = (numeral w n).length := by
    rw [numeral_length hm, numeral_length hn]
  rw [Text.agree_iff_eq hl]
  constructor
  · intro h
    have hv := congrArg value h
    simpa using hv
  · rintro rfl
    rfl

/-- The minus sign stands below every digit. -/
theorem exists_numeral_cons (w n : ℕ) : ∃ c s, numeral w n = c :: s ∧ '-' < c := by
  obtain ⟨c, s, h⟩ := List.exists_cons_of_ne_nil (numeral_ne_nil w n)
  have hc := digits_numeral w n c (h ▸ List.mem_cons_self)
  have hd : 48 ≤ c.toNat := (Char.isDigit_iff_toNat.1 hc).1
  refine ⟨c, s, h, ?_⟩
  show 45 < c.toNat
  omega

/-! ### The code -/

/-- What fits into the width is between the limits. -/
theorem natAbs_lt_iff : v.natAbs < 10 ^ w ↔ -10 ^ w < v ∧ v < 10 ^ w := by
  have h : ((10 ^ w : ℕ) : ℤ) = 10 ^ w := by simp
  omega

theorem encodeInt_of_nonneg (h0 : 0 ≤ v) (h : v.natAbs < 10 ^ w) :
    encodeInt w v = some (numeral w v.natAbs) := by
  have hn : v.toNat = v.natAbs := by omega
  simpa [encodeInt, h0, hn, numeral] using natAbs_lt_iff.1 h

/-- What is negative is coded by its distance from the limit. -/
theorem encodeInt_of_neg (h0 : v < 0) (h : v.natAbs < 10 ^ w) :
    encodeInt w v = some ('-' :: numeral w (10 ^ w - v.natAbs)) := by
  have hn : (10 ^ w + v).toNat = 10 ^ w - v.natAbs := by
    have hw : ((10 ^ w : ℕ) : ℤ) = 10 ^ w := by simp
    omega
  simpa [encodeInt, not_le.2 h0, hn, numeral] using natAbs_lt_iff.1 h

theorem encodeInt_of_le (h : 10 ^ w ≤ v.natAbs) : encodeInt w v = none := by
  simpa [encodeInt] using mt natAbs_lt_iff.2 (not_lt.2 h)

theorem isSome_encodeInt_iff : (encodeInt w v).isSome = true ↔ v.natAbs < 10 ^ w := by
  rcases lt_or_ge v.natAbs (10 ^ w) with h | h
  · rcases le_or_gt 0 v with h0 | h0
    · simp [encodeInt_of_nonneg h0 h, h]
    · simp [encodeInt_of_neg h0 h, h]
  · simp [encodeInt_of_le h, h]

theorem natAbs_lt_of_encodeInt (h : encodeInt w v = some s) : v.natAbs < 10 ^ w :=
  isSome_encodeInt_iff.1 (by rw [h]; rfl)

/-- The two shapes of a code. -/
theorem encodeInt_cases (h : encodeInt w v = some s) :
    (0 ≤ v ∧ s = numeral w v.natAbs) ∨ (v < 0 ∧ s = '-' :: numeral w (10 ^ w - v.natAbs)) := by
  have hv := natAbs_lt_of_encodeInt h
  rcases le_or_gt 0 v with h0 | h0
  · rw [encodeInt_of_nonneg h0 hv] at h
    exact Or.inl ⟨h0, (Option.some.inj h).symm⟩
  · rw [encodeInt_of_neg h0 hv] at h
    exact Or.inr ⟨h0, (Option.some.inj h).symm⟩

/-- Codes of one width are in the order of the integers. -/
theorem lt_iff_of_encodeInt (ha : encodeInt w a = some s) (hb : encodeInt w b = some t) :
    s < t ↔ a < b := by
  have hla := natAbs_lt_of_encodeInt ha
  have hlb := natAbs_lt_of_encodeInt hb
  rcases encodeInt_cases ha with ⟨h0, rfl⟩ | ⟨h0, rfl⟩
  · rcases encodeInt_cases hb with ⟨h1, rfl⟩ | ⟨h1, rfl⟩
    · rw [numeral_lt_iff hla hlb]
      omega
    · obtain ⟨c, s, hc, hlt⟩ := exists_numeral_cons w a.natAbs
      have hnot : ¬ a < b := by omega
      simp [hc, List.cons_lt_cons_iff, hnot, not_lt.2 hlt.le, hlt.ne']
  · rcases encodeInt_cases hb with ⟨h1, rfl⟩ | ⟨h1, rfl⟩
    · obtain ⟨c, s, hc, hlt⟩ := exists_numeral_cons w b.natAbs
      have hab : a < b := by omega
      simp [hc, List.cons_lt_cons_iff, hab, hlt]
    · have hlt : 10 ^ w - a.natAbs < 10 ^ w - b.natAbs ↔ a < b := by omega
      rw [List.cons_lt_cons_iff, numeral_lt_iff (by omega) (by omega), hlt]
      simp

/-- No code is an initial part of the code of another integer. -/
theorem agree_iff_of_encodeInt (ha : encodeInt w a = some s) (hb : encodeInt w b = some t) :
    Text.agree s t = true ↔ a = b := by
  have hla := natAbs_lt_of_encodeInt ha
  have hlb := natAbs_lt_of_encodeInt hb
  rcases encodeInt_cases ha with ⟨h0, rfl⟩ | ⟨h0, rfl⟩
  · rcases encodeInt_cases hb with ⟨h1, rfl⟩ | ⟨h1, rfl⟩
    · rw [agree_numeral_iff hla hlb]
      omega
    · obtain ⟨c, s, hc, hlt⟩ := exists_numeral_cons w a.natAbs
      have hne : a ≠ b := by omega
      simp [hc, Text.agree_iff, hlt.ne, hlt.ne', hne]
  · rcases encodeInt_cases hb with ⟨h1, rfl⟩ | ⟨h1, rfl⟩
    · obtain ⟨c, s, hc, hlt⟩ := exists_numeral_cons w b.natAbs
      have hne : a ≠ b := by omega
      simp [hc, Text.agree_iff, hlt.ne, hlt.ne', hne]
    · have heq : 10 ^ w - a.natAbs = 10 ^ w - b.natAbs ↔ a = b := by omega
      rw [Text.agree_cons, agree_numeral_iff (by omega) (by omega), heq]

/-! ### Writing the code -/

theorem isWritable_of_lt (h : n < 10 ^ w) (hw : w ≤ maxDigits) : isWritable n = true := by
  rw [isWritable, decide_eq_true_eq]
  generalize maxDigits = m at hw ⊢
  exact lt_of_lt_of_le h (Nat.pow_le_pow_right (by decide) hw)

/-- Writing gives the code, unless some numeral has more digits than may be written. -/
theorem encodeIntTo_of_some (h : encodeInt w v = some s) : encodeIntTo w v = .ok s ∨
    encodeIntTo w v = .error (.tooManyDigits none) ∧ maxDigits < w := by
  have hv := natAbs_lt_of_encodeInt h
  have hw : ¬ (w : ℤ) < 0 := by omega
  set m := (if 0 ≤ v then v else Int.ofNat (tenTo w) + v).toNat with hm
  have hto : encodeIntTo w v =
      if isWritable m then .ok s else .error (.tooManyDigits none) := by
    simp only [encodeIntTo, encodeShown, if_neg hw, Int.toNat_natCast, h, hm]
  by_cases hmax : w ≤ maxDigits
  · have hlt : m < 10 ^ w := by
      have ht : Int.ofNat (tenTo w) = ((10 ^ w : ℕ) : ℤ) := rfl
      rw [hm, ht]
      split <;> omega
    left
    rw [hto, isWritable_of_lt hlt hmax]
    rfl
  · cases hb : isWritable m with
    | true => exact Or.inl (by rw [hto, hb]; rfl)
    | false => exact Or.inr ⟨by rw [hto, hb]; rfl, not_le.1 hmax⟩

/-- What has no code is refused as a value. -/
theorem encodeIntTo_of_none (h : encodeInt w v = none) :
    ∃ f, encodeIntTo w v = .error f ∧ f.family = .value := by
  have hw : ¬ (w : ℤ) < 0 := by omega
  refine ⟨_, by simp only [encodeIntTo, encodeShown, if_neg hw, Int.toNat_natCast, h]; rfl, ?_⟩
  split <;> rfl

/-- **The codes of integers are in their order and prefix-free.**  Exactly the integers of which
the magnitude has at most `w` digits have a code of this width.  Writing gives the code, if it is
not too long to be written; what has none is refused as a value.  The codes of two integers are in
the order of the integers, and they only agree if it is the same integer. -/
theorem encodeInt_orders (w : ℕ) (a b : ℤ) :
    ((encodeInt w a).isSome = true ↔ a.natAbs < 10 ^ w) ∧
      (encodeInt w a = none → ∃ f, encodeIntTo w a = .error f ∧ f.family = .value) ∧
      (∀ s, encodeInt w a = some s → encodeIntTo w a = .ok s ∨
        encodeIntTo w a = .error (.tooManyDigits none) ∧ maxDigits < w) ∧
      ∀ s t, encodeInt w a = some s → encodeInt w b = some t →
        (a < b ↔ s < t) ∧ (Text.agree s t = true ↔ a = b) := by
  refine ⟨isSome_encodeInt_iff, encodeIntTo_of_none, fun s => encodeIntTo_of_some, ?_⟩
  intro s t ha hb
  exact ⟨(lt_iff_of_encodeInt ha hb).symm, agree_iff_of_encodeInt ha hb⟩

/-- The code of a negative integer is longer than that of a greater one, and still lower. -/
theorem encodeInt_orders_sign :
    encodeInt 1 (-1) = some ['-', '9'] ∧ encodeInt 1 2 = some ['2'] ∧
      ['-', '9'] < ['2'] ∧ Text.agree ['-', '9'] ['2'] = false := by
  have ha : encodeInt 1 (-1) = some ['-', '9'] := by decide
  have hb : encodeInt 1 2 = some ['2'] := by decide
  obtain ⟨hlt, hagree⟩ := (encodeInt_orders 1 (-1) 2).2.2.2 _ _ ha hb
  refine ⟨ha, hb, hlt.1 (by decide), ?_⟩
  rw [Bool.eq_false_iff]
  exact mt hagree.1 (by decide)

end Key

end Lockstep
