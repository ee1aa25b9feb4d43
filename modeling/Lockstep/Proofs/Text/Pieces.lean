import Mathlib.Data.List.Basic
import Mathlib.Data.List.TakeWhile
import Lockstep.Text.Blank

/-!
# Pieces of a text

Splitting gives back pieces that were joined (`splitOn_joinWith`), cutting at a character gives
back what was put around it (`cutAt_append_cons`), and trimming gives back what was put between
characters that are dropped (`trim_append`).
-/

namespace Lockstep.Text

variable {p : Char → Bool} {c : Char} {l r s : Text} {ws : List Text}

/-! ### Splitting and joining -/

theorem splitOn_eq_splitOnP (p : Char → Bool) (s : Text) : splitOn p s = s.splitOnP p := by
  induction s with
  | nil => rfl
  | cons c s ih =>
    rw [List.splitOnP_cons_eq_if_modifyHead, splitOn, ih]
    by_cases hc : p c = true
    · rw [if_pos hc, if_pos hc]
    · rw [if_neg hc, if_neg hc]
      cases hs : s.splitOnP p with
      | nil => exact absurd hs (List.splitOnP_ne_nil p s)
      | cons w ws => rfl

theorem joinWith_eq_intercalate (sep : Text) (ws : List Text) :
    joinWith sep ws = sep.intercalate ws := by
  induction ws with
  | nil => rfl
  | cons w ws ih =>
    cases ws with
    | nil => simp [joinWith]
    | cons v ws => simp [joinWith, ih, List.intercalate_cons_cons]

/-- Pieces without the character with which they are joined are found again. -/
theorem splitOn_joinWith (hne : ws ≠ []) (h : ∀ w ∈ ws, c ∉ w) :
    splitOn (· == c) (joinWith [c] ws) = ws := by
  rw [splitOn_eq_splitOnP, joinWith_eq_intercalate]
  exact List.splitOn_intercalate c h hne

theorem cutAt_of_notMem (h : c ∉ s) : cutAt c s = (s, []) := by
  have hall : ∀ d ∈ s, (d != c) = true := fun d hd => bne_iff_ne.2 (ne_of_mem_of_not_mem hd h)
  simp [cutAt, List.takeWhile_eq_self_iff.2 hall, List.dropWhile_eq_nil_iff.2 hall]

/-- A text is cut at the first character of the kind. -/
theorem cutAt_append_cons (h : c ∉ s) : cutAt c (s ++ c :: r) = (s, r) := by
  have hall : ∀ d ∈ s, (d != c) = true := fun d hd => bne_iff_ne.2 (ne_of_mem_of_not_mem hd h)
  simp [cutAt, List.takeWhile_append_of_pos hall, List.dropWhile_append_of_pos hall]

/-! ### Stripping -/

/-- The text neither starts nor ends with a character in `p`. -/
def Trimmed (p : Char → Bool) (s : Text) : Prop :=
  ∀ c, s.head? = some c ∨ s.getLast? = some c → p c = false

theorem trimmed_of_forall (h : ∀ c ∈ s, p c = false) : Trimmed p s := by
  rintro c (hc | hc)
  · exact h c (List.mem_of_mem_head? hc)
  · exact h c (List.mem_of_mem_getLast? hc)

theorem trimmed_of_all (h : (s.all fun c => !p c) = true) : Trimmed p s :=
  trimmed_of_forall fun c hc => by simpa using List.all_eq_true.1 h c hc

/-- A text from one trimmed text to another is trimmed. -/
theorem Trimmed.append {t : Text} (hs : Trimmed p s) (ht : Trimmed p t) (hne : s ≠ [])
    (hne' : t ≠ []) : Trimmed p (s ++ r ++ t) := by
  rintro c (hc | hc)
  · rw [List.append_assoc, List.head?_append_of_ne_nil _ hne] at hc
    exact hs c (Or.inl hc)
  · rw [List.getLast?_append_of_ne_nil _ hne'] at hc
    exact ht c (Or.inr hc)

theorem dropWhile_eq_self (h : ∀ c, s.head? = some c → p c = false) : s.dropWhile p = s := by
  cases s with
  | nil => rfl
  | cons c s => simp [h c rfl]

/-- What stands around a trimmed text is dropped. -/
theorem trim_append (hl : ∀ c ∈ l, p c = true) (hs : Trimmed p s) (hr : ∀ c ∈ r, p c = true) :
    trim p (l ++ s ++ r) = s := by
  have hr' : ∀ c ∈ r.reverse, p c = true := fun c hc => hr c (List.mem_reverse.1 hc)
  rw [trim, List.append_assoc, List.dropWhile_append_of_pos hl]
  by_cases hnil : s = []
  · rw [hnil, List.nil_append, List.dropWhile_eq_nil_iff.2 hr, trimEnd_nil]
  · have hhead : ∀ c, (s ++ r).head? = some c → p c = false := by
      intro c hc
      rw [List.head?_append_of_ne_nil _ hnil] at hc
      exact hs c (Or.inl hc)
    have hlast : ∀ c, s.reverse.head? = some c → p c = false := by
      intro c hc
      rw [List.head?_reverse] at hc
      exact hs c (Or.inr hc)
    rw [dropWhile_eq_self hhead, trimEnd, List.reverse_append, List.dropWhile_append_of_pos hr',
      dropWhile_eq_self hlast, List.reverse_reverse]

theorem trim_eq_self (hs : Trimmed p s) : trim p s = s := by
  have h := trim_append (l := []) (r := []) (by simp) hs (by simp)
  rwa [List.nil_append, List.append_nil] at h

theorem trim_eq_nil (hs : ∀ c ∈ s, p c = true) : trim p s = [] := by
  have h := trim_append (s := []) (r := []) hs (by simp [Trimmed]) (by simp)
  rwa [List.append_nil, List.append_nil] at h

/-- Nothing but blanks. -/
def Blanks (s : Text) : Prop := ∀ c ∈ s, isBlank c = true

theorem blanks_nil : Blanks [] := by simp [Blanks]

theorem Blanks.notMem (h : Blanks s) (hc : isBlank c = false) : c ∉ s := by
  intro hmem
  rw [h c hmem] at hc
  cases hc

theorem strip_blanks (h : Blanks s) : strip s = [] := trim_eq_nil h

/-- Blanks around a text that neither starts nor ends with one are dropped. -/
theorem strip_append (hl : Blanks l) (hs : Trimmed isBlank s) (hr : Blanks r) :
    strip (l ++ s ++ r) = s :=
  trim_append hl hs hr

end Lockstep.Text
