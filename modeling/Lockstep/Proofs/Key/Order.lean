import Mathlib.Data.Char
import Mathlib.Data.List.Lex
import Mathlib.Order.MinMax
import Mathlib.Order.WithBot
import Mathlib.Tactic.Basic
import Lockstep.Key.Frontier

/-!
# The order of keys

Texts are ordered by their code points, and frontiers by their keys with the mark of an exhausted
source on top.  On frontiers of texts nothing that a synchronization asks can fail, and the
answers are those of this order:

* `less_eq`: being lower is `<`;
* `agree_eq`: agreeing is `agrees`, one key being an initial part of the other;
* `leastOf_eq`: the first least frontier of a list is its minimum `lowest`.

`cut w` leaves the first `w` characters of a frontier.  It is monotone (`cut_mono`), so what is
apart after cutting is apart in the same direction before (`lt_of_cut_lt`).
-/

namespace Lockstep

namespace Text

theorem before_eq (a b : Text) : before a b = decide (a < b) := by
  induction a generalizing b with
  | nil => cases b <;> simp [before]
  | cons x a ih =>
    cases b with
    | nil => simp [before]
    | cons y b =>
      by_cases hxy : x = y
      · subst hxy
        simp [before, ih]
      · have hlt : x.toNat < y.toNat ↔ x :: a < y :: b := by
          rw [List.cons_lt_cons_iff, or_iff_left fun h => hxy h.1]
          exact Iff.rfl
        simp only [before, beq_eq_false_iff_ne.2 hxy, Bool.false_eq_true, if_false]
        exact decide_eq_decide.2 hlt

/-- Two texts agree when one is an initial part of the other. -/
theorem agree_iff {a b : Text} : agree a b = true ↔ a <+: b ∨ b <+: a := by
  simp only [agree, beq_iff_eq]
  constructor
  · intro h
    rcases le_total a.length b.length with hl | hl
    · rw [min_eq_left hl, List.take_length] at h
      exact Or.inl (h ▸ List.take_prefix _ _)
    · rw [min_eq_right hl, List.take_length] at h
      exact Or.inr (h ▸ List.take_prefix _ _)
  · rintro (h | h)
    · rw [min_eq_left h.length_le, List.take_length]
      exact List.prefix_iff_eq_take.1 h
    · rw [min_eq_right h.length_le, List.take_length]
      exact (List.prefix_iff_eq_take.1 h).symm

theorem agree_self (a : Text) : agree a a = true := agree_iff.2 (Or.inl (List.prefix_refl a))

theorem agree_nil (b : Text) : agree [] b = true := agree_iff.2 (Or.inl b.nil_prefix)

/-- Two texts that agree have a common beginning, as far as both reach. -/
theorem take_eq_of_agree {a b : Text} {w : ℕ} (h : agree a b = true) (ha : w ≤ a.length)
    (hb : w ≤ b.length) : a.take w = b.take w := by
  rcases agree_iff.1 h with h | h
  · rw [List.prefix_iff_eq_take.1 h, List.take_take, min_eq_left ha]
  · rw [List.prefix_iff_eq_take.1 h, List.take_take, min_eq_left hb]

theorem agree_iff_eq_take {a b : Text} (h : a.length ≤ b.length) :
    agree a b = true ↔ a = b.take a.length := by
  simp [agree, min_eq_left h]

/-- Texts of the same length agree only if they are the same. -/
theorem agree_iff_eq {a b : Text} (h : a.length = b.length) : agree a b = true ↔ a = b := by
  rw [agree_iff_eq_take h.le, h, List.take_length]

@[simp] theorem agree_cons (c : Char) (a b : Text) : agree (c :: a) (c :: b) = agree a b := by
  rw [Bool.eq_iff_iff, agree_iff, agree_iff]
  simp

theorem le_of_prefix {a b : Text} (h : a <+: b) : a ≤ b := by
  obtain ⟨t, rfl⟩ := h
  induction a with
  | nil => exact not_lt.1 (by simp)
  | cons x a ih => exact List.cons_le_cons x ih

theorem lt_of_take_lt {w : ℕ} {a b : Text} (h : a.take w < b.take w) : a < b := by
  induction w generalizing a b with
  | zero => simp at h
  | succ w ih =>
    cases b with
    | nil => simp at h
    | cons y b =>
      cases a with
      | nil => exact List.nil_lt_cons y b
      | cons x a =>
        rw [List.take_succ_cons, List.take_succ_cons, List.cons_lt_cons_iff] at h
        exact List.cons_lt_cons_iff.2 (h.imp_right fun ⟨hx, ht⟩ => ⟨hx, ih ht⟩)

theorem take_le_take {a b : Text} (w : ℕ) (h : a ≤ b) : a.take w ≤ b.take w :=
  not_lt.1 fun hlt => not_lt.2 h (lt_of_take_lt hlt)

end Text

namespace Frontier

/-! ### The order of frontiers -/

section Order

variable {κ : Type}

/-- A frontier as a key or the top above all keys. -/
def toTop : Frontier κ → WithTop κ
  | .key k => k
  | .done => ⊤

theorem toTop_injective : Function.Injective (toTop : Frontier κ → WithTop κ) := by
  intro a b h
  cases a <;> cases b <;> simp_all [toTop]

variable [LinearOrder κ]

instance : LinearOrder (Frontier κ) := LinearOrder.lift' toTop toTop_injective

theorem le_iff_toTop {a b : Frontier κ} : a ≤ b ↔ a.toTop ≤ b.toTop := Iff.rfl

theorem lt_iff_toTop {a b : Frontier κ} : a < b ↔ a.toTop < b.toTop := Iff.rfl

@[simp] theorem key_le_key {a b : κ} : Frontier.key a ≤ .key b ↔ a ≤ b := by
  simp [le_iff_toTop, toTop]

@[simp] theorem key_lt_key {a b : κ} : Frontier.key a < .key b ↔ a < b := by
  simp [lt_iff_toTop, toTop]

@[simp] theorem key_lt_done {a : κ} : Frontier.key a < .done := by
  simp [lt_iff_toTop, toTop]

@[simp] theorem le_done (a : Frontier κ) : a ≤ .done := by
  simp [le_iff_toTop, toTop]

@[simp] theorem not_done_lt (a : Frontier κ) : ¬ .done < a := not_lt.2 (le_done a)

/-- The least frontier of a list, the mark if there is none. -/
def lowest : List (Frontier κ) → Frontier κ
  | [] => .done
  | f :: fs => min f (lowest fs)

theorem le_lowest_iff {a : Frontier κ} {fs : List (Frontier κ)} :
    a ≤ lowest fs ↔ ∀ f ∈ fs, a ≤ f := by
  induction fs with
  | nil => simp [lowest]
  | cons f fs ih => simp [lowest, ih]

theorem lowest_le {f : Frontier κ} {fs : List (Frontier κ)} (h : f ∈ fs) : lowest fs ≤ f :=
  le_lowest_iff.1 le_rfl f h

theorem lowest_mem {fs : List (Frontier κ)} (h : lowest fs ≠ .done) : lowest fs ∈ fs := by
  induction fs with
  | nil => exact absurd rfl h
  | cons f fs ih =>
    rcases min_choice f (lowest fs) with hm | hm
    · exact List.mem_cons.2 (Or.inl hm)
    · rw [lowest, hm] at h ⊢
      exact List.mem_cons_of_mem f (ih h)

end Order

/-! ### What a synchronization asks of texts -/

/-- Whether two frontiers of texts agree. -/
def agrees : Frontier Text → Frontier Text → Bool
  | .key a, .key b => Text.agree a b
  | .done, .done => true
  | _, _ => false

theorem agree_eq (a b : Frontier Text) : agree a b = .ok (agrees a b) := by
  cases a <;> cases b <;> rfl

theorem less_eq (a b : Frontier Text) : less a b = .ok (decide (a < b)) := by
  cases a <;> cases b <;> simp [Text.before_eq]

theorem least_eq (a : Frontier Text) (fs : List (Frontier Text)) :
    least a fs = .ok (min a (lowest fs)) := by
  induction fs generalizing a with
  | nil => simp [least, lowest]
  | cons f fs ih =>
    by_cases h : f < a
    · simp only [least, less_eq, h, decide_true, ih, lowest]
      rw [← min_assoc, min_eq_right h.le]
    · simp only [least, less_eq, h, decide_false, ih, lowest]
      rw [← min_assoc, min_eq_left (not_lt.1 h)]

theorem leastOf_eq (fs : List (Frontier Text)) : leastOf fs = .ok (lowest fs) := by
  cases fs with
  | nil => rfl
  | cons f fs => exact least_eq f fs

@[simp] theorem agrees_self (a : Frontier Text) : agrees a a = true := by
  cases a with
  | key k => exact Text.agree_self k
  | done => rfl

@[simp] theorem agrees_done_key (k : Text) : agrees .done (.key k) = false := rfl

/-- Before its first record a source agrees with every key. -/
@[simp] theorem agrees_start_key (k : Text) : agrees .start (.key k) = true := Text.agree_nil k

/-- A frontier that agrees with a key and is not lower begins with it. -/
theorem exists_prefix_of_agrees {f : Frontier Text} {k : Text} (h : f.agrees (.key k) = true)
    (hle : .key k ≤ f) : ∃ a, f = .key a ∧ k <+: a := by
  cases f with
  | done => cases h
  | key a =>
    refine ⟨a, rfl, ?_⟩
    rcases Text.agree_iff.1 h with hp | hp
    · obtain rfl : a = k := le_antisymm (Text.le_of_prefix hp) (key_le_key.1 hle)
      exact List.prefix_refl a
    · exact hp

/-! ### Cutting -/

/-- The first `w` characters of a frontier. -/
def cut (w : ℕ) : Frontier Text → Frontier Text
  | .key k => .key (k.take w)
  | .done => .done

theorem cut_mono (w : ℕ) {a b : Frontier Text} (h : a ≤ b) : cut w a ≤ cut w b := by
  cases b with
  | done => exact le_done _
  | key b =>
    cases a with
    | key a => exact key_le_key.2 (Text.take_le_take w (key_le_key.1 h))
    | done => exact absurd key_lt_done (not_lt.2 h)

theorem lt_of_cut_lt {w : ℕ} {a b : Frontier Text} (h : cut w a < cut w b) : a < b :=
  not_le.1 fun hle => not_le.2 h (cut_mono w hle)

theorem cut_le (w : ℕ) (a : Frontier Text) : cut w a ≤ a := by
  cases a with
  | key k => exact key_le_key.2 (Text.le_of_prefix (List.take_prefix w k))
  | done => exact le_rfl

theorem cut_key_of_length {w : ℕ} {k : Text} (h : k.length ≤ w) : cut w (.key k) = .key k := by
  rw [cut, List.take_of_length_le h]

theorem cut_cut {v w : ℕ} (h : v ≤ w) (a : Frontier Text) : cut v (cut w a) = cut v a := by
  cases a with
  | key k => rw [cut, cut, List.take_take, min_eq_left h, cut]
  | done => rfl

/-- A frontier that gives a short key when cut is this key. -/
theorem eq_key_of_cut_eq {w : ℕ} {a : Frontier Text} {k : Text} (h : cut w a = .key k)
    (hk : k.length < w) : a = .key k := by
  cases a with
  | done => cases h
  | key b =>
    have hb : b.take w = k := Frontier.key.inj h
    have hl : b.length ≤ w := by
      rw [← hb, List.length_take] at hk
      omega
    rw [← hb, List.take_of_length_le hl]

end Frontier

end Lockstep
