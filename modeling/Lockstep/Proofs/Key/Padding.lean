import Lockstep.Key.Field
import Lockstep.Proofs.Key.Order
import Lockstep.Records.Ordered

/-!
# The order of padded texts

Texts that are cut or extended to one width are compared character by character, a blank standing
where a text has ended.  So padding keeps the order of two texts as long as the lower one is not
extended (`pad_le_pad_iff`).  Where it is, the greater one goes on behind it, and it must not fall
below the blanks there: the first of its further characters that is no blank may not be one below
the blank (`Sinks`).

Among texts in which no character is below the blank padding is monotone; with a tabulator it is
not (`not_padTo_orders_tab`).
-/

namespace Lockstep

theorem Text.cons_le_cons_iff {c d : Char} {a b : Text} :
    c :: a ≤ d :: b ↔ c < d ∨ c = d ∧ a ≤ b := by
  rw [le_iff_lt_or_eq, List.cons_lt_cons_iff, List.cons.injEq, or_assoc, ← and_or_left,
    ← le_iff_lt_or_eq]

namespace Key

variable {w : ℕ} {a b s : Text}

/-! ### One character after the other -/

@[simp] theorem pad_zero (s : Text) : pad 0 s = [] := rfl

@[simp] theorem pad_succ_nil (w : ℕ) : pad (w + 1) [] = ' ' :: pad w [] := by
  simp [pad, List.replicate_succ]

@[simp] theorem pad_succ_cons (w : ℕ) (c : Char) (s : Text) :
    pad (w + 1) (c :: s) = c :: pad w s := by
  simp [pad]

/-- The text falls below as many blanks: the first of its characters up to the width that is no
blank is below the blank. -/
def Sinks (w : ℕ) (s : Text) : Prop :=
  ∃ n c t, s = List.replicate n ' ' ++ c :: t ∧ n < w ∧ c < ' '

theorem not_sinks_zero (s : Text) : ¬ Sinks 0 s := by
  rintro ⟨n, c, t, -, hn, -⟩
  exact absurd hn (Nat.not_lt_zero n)

theorem not_sinks_nil (w : ℕ) : ¬ Sinks w [] := by
  rintro ⟨n, c, t, hs, -⟩
  simp at hs

theorem sinks_succ_cons {c : Char} : Sinks (w + 1) (c :: s) ↔ c < ' ' ∨ c = ' ' ∧ Sinks w s := by
  constructor
  · rintro ⟨n, d, t, hs, hn, hd⟩
    cases n with
    | zero =>
      obtain ⟨rfl, -⟩ := List.cons.inj hs
      exact Or.inl hd
    | succ n =>
      obtain ⟨rfl, rfl⟩ := List.cons.inj hs
      exact Or.inr ⟨rfl, n, d, t, rfl, Nat.lt_of_succ_lt_succ hn, hd⟩
  · rintro (hc | ⟨rfl, n, d, t, rfl, hn, hd⟩)
    · exact ⟨0, c, s, rfl, Nat.succ_pos w, hc⟩
    · exact ⟨n + 1, d, t, rfl, Nat.succ_lt_succ hn, hd⟩

/-- A text sinks only at a character below the blank. -/
theorem not_sinks_of_forall_le (h : ∀ c ∈ s, ' ' ≤ c) : ¬ Sinks w s := by
  rintro ⟨n, c, t, rfl, -, hc⟩
  exact absurd (h c (by simp)) (not_le.2 hc)

/-- A padded text is below the blanks exactly if the text sinks. -/
theorem pad_lt_pad_nil_iff : pad w s < pad w [] ↔ Sinks w s := by
  induction w generalizing s with
  | zero => simp [not_sinks_zero]
  | succ w ih =>
    cases s with
    | nil => simp [not_sinks_nil]
    | cons c s =>
      rw [pad_succ_nil, pad_succ_cons, List.cons_lt_cons_iff, ih, sinks_succ_cons]

/-- Padding keeps the order of two texts, unless the greater one goes on behind the lower one and
sinks there. -/
theorem pad_le_pad_iff (h : a ≤ b) :
    pad w a ≤ pad w b ↔ ¬ (a <+: b ∧ Sinks (w - a.length) (b.drop a.length)) := by
  induction w generalizing a b with
  | zero => simp [not_sinks_zero]
  | succ w ih =>
    cases a with
    | nil =>
      rw [← not_lt, pad_lt_pad_nil_iff]
      simp
    | cons x a =>
      cases b with
      | nil => exact absurd (List.nil_lt_cons x a) (not_lt.2 h)
      | cons y b =>
        -- the first characters decide, unless they are the same
        rcases Text.cons_le_cons_iff.1 h with hxy | ⟨rfl, hab⟩
        · have hle : pad (w + 1) (x :: a) ≤ pad (w + 1) (y :: b) := by
            rw [pad_succ_cons, pad_succ_cons]
            exact Text.cons_le_cons_iff.2 (Or.inl hxy)
          refine iff_of_true hle ?_
          rintro ⟨hp, -⟩
          exact hxy.ne (List.cons_prefix_cons.1 hp).1
        · rw [pad_succ_cons, pad_succ_cons, Text.cons_le_cons_iff, List.cons_prefix_cons,
            List.length_cons, List.drop_succ_cons, Nat.add_sub_add_right]
          simp [ih hab]

theorem pad_mono (hb : ∀ c ∈ b, ' ' ≤ c) (h : a ≤ b) : pad w a ≤ pad w b := by
  rw [pad_le_pad_iff h]
  rintro ⟨-, hs⟩
  exact not_sinks_of_forall_le (fun c hc => hb c (List.mem_of_mem_drop hc)) hs

/-! ### Any width -/

theorem padTo_of_le (hw : w ≤ maxWidth) (s : Text) : padTo w s = .ok (pad w s) := by
  have h0 : ¬ (w : ℤ) < 0 := by omega
  simp [padTo, h0, not_lt.2 hw]

theorem padTo_of_lt (hw : maxWidth < w) (s : Text) : padTo w s = .error .tooWide := by
  have h0 : ¬ (w : ℤ) < 0 := by omega
  simp [padTo, h0, hw]

/-- **Padding keeps the order of texts, if no character below the blank is in the way.**  Up to the
greatest width every text can be padded, and has this width then.  Of two texts in order, the padded
ones are in order too, unless the greater text goes on behind the lower one and its first character
there that is no blank is below the blank.  So texts in order without characters below the blank
stay in order. -/
theorem padTo_orders (w : ℕ) :
    (w ≤ maxWidth → ∀ s, padTo w s = .ok (pad w s)) ∧
      (maxWidth < w → ∀ s, padTo w s = .error .tooWide) ∧
      (∀ s, (pad w s).length = w) ∧
      (∀ a b, a ≤ b →
        (pad w a ≤ pad w b ↔ ¬ (a <+: b ∧ Sinks (w - a.length) (b.drop a.length)))) ∧
      ∀ ss : List Text, ss.Pairwise (· ≤ ·) → (∀ s ∈ ss, ∀ c ∈ s, ' ' ≤ c) →
        (ss.map (pad w)).Pairwise (· ≤ ·) := by
  refine ⟨padTo_of_le, padTo_of_lt, pad_length w, fun a b => pad_le_pad_iff, ?_⟩
  intro ss hss hc
  rw [List.pairwise_map]
  exact hss.imp_of_mem fun _ hb h => pad_mono (hc _ hb) h

/-- Two words of which the first begins the second one, in a width that cuts this one. -/
theorem padTo_orders_words :
    let a : Text := ['t', 'a', 'x']
    let b : Text := ['t', 'a', 'x', ' ', 'd', 'u', 'e']
    a ≤ b ∧ (∀ s ∈ [a, b], ∀ c ∈ s, ' ' ≤ c) ∧ padTo 5 a = .ok ['t', 'a', 'x', ' ', ' '] ∧
      padTo 5 b = .ok ['t', 'a', 'x', ' ', 'd'] ∧ pad 5 a ≤ pad 5 b ∧
      ¬ (a <+: b ∧ Sinks (5 - a.length) (b.drop a.length)) ∧
      ([a, b].map (pad 5)).Pairwise (· ≤ ·) := by
  intro a b
  obtain ⟨hto, -, -, hle, hpairwise⟩ := padTo_orders 5
  have hab : a ≤ b := by decide
  have hblank : ∀ s ∈ [a, b], ∀ c ∈ s, ' ' ≤ c := by simp [a, b]
  have hpad := hpairwise [a, b] (List.pairwise_pair.2 hab) hblank
  have hpab : pad 5 a ≤ pad 5 b := List.pairwise_pair.1 hpad
  exact ⟨hab, hblank, hto (by decide) a, hto (by decide) b, hpab, (hle a b hab).1 hpab, hpad⟩

/-- A tabulator stands below the blank that extends the lower text.  Of records in the order of
their texts the second one is refused as out of order. -/
theorem not_padTo_orders_tab :
    let record (s : Text) : Value := .dict [(.text ['k'], .text s)]
    let r := record ['a']
    let r' := record ['a', '\t']
    ['a'] ≤ ['a', '\t'] ∧ padTo 2 ['a'] = .ok ['a', ' '] ∧ padTo 2 ['a', '\t'] = .ok ['a', '\t'] ∧
      ¬ ['a', ' '] ≤ ['a', '\t'] ∧
      Stream.ordered (KeyField.keyOf [⟨['k'], .text 2⟩]) ['s'] [.ok r, .ok r'] =
        [.ok r, .error (.unsorted ['s'] 1 (Text.quoted ['a', '\t']) (Text.quoted ['a', ' ']))] := by
  intro record r r'
  exact ⟨by decide, by decide, by decide, by decide, rfl⟩

end Key

end Lockstep
