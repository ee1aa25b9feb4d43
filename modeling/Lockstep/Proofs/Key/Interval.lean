import Mathlib.Order.Monotone.Defs
import Lockstep.Proofs.Key.Order

/-!
# What agrees with a key is an interval

Two frontiers agree when one of them begins with the other, and the mark agrees with itself only
(`agrees_iff`).  Agreeing is reflexive and symmetric, and on keys of one length it is being equal.
It is not transitive: the empty key agrees with all keys.

What takes the place of transitivity is the order.  Between a frontier and a greater one that agrees
with it all frontiers agree with it (`agrees_of_le_of_le`), since the greater one then begins with
the lower one, and so does all that is between them.  So in a sequence in order that starts no lower
than a key, the frontiers that agree with the key come first and without a gap
(`exists_agreeing_block`).  `agree_matchesIntervals` puts all this together.
-/

namespace Lockstep

/-- What is between a text and a greater one that begins with it begins with it. -/
theorem Text.prefix_of_le_of_le {a b c : Text} (h : a <+: c) (hab : a ≤ b) (hbc : b ≤ c) :
    a <+: b := by
  have hle : a ≤ b.take a.length := by
    have htake := take_le_take a.length hab
    rwa [List.take_length] at htake
  have hge : b.take a.length ≤ a := by
    have htake := take_le_take a.length hbc
    rwa [← List.prefix_iff_eq_take.1 h] at htake
  exact List.prefix_iff_eq_take.2 (le_antisymm hle hge)

namespace Frontier

/-- The first frontier is an initial part of the second one; the mark has no parts but itself. -/
def Begins : Frontier Text → Frontier Text → Prop
  | .key a, .key b => a <+: b
  | .done, .done => True
  | _, _ => False

variable {a b c : Frontier Text}

theorem Begins.refl (a : Frontier Text) : a.Begins a := by
  cases a with
  | key k => exact List.prefix_refl k
  | done => trivial

theorem Begins.le (h : a.Begins b) : a ≤ b := by
  cases b with
  | done => exact le_done a
  | key b =>
    cases a with
    | key a => exact key_le_key.2 (Text.le_of_prefix h)
    | done => cases h

theorem Begins.of_le_of_le (h : a.Begins c) (hab : a ≤ b) (hbc : b ≤ c) : a.Begins b := by
  cases c with
  | done =>
    cases a with
    | key => cases h
    | done =>
      obtain rfl : b = .done := le_antisymm (le_done b) hab
      trivial
  | key c =>
    cases a with
    | done => cases h
    | key a =>
      cases b with
      | done => exact absurd hbc (not_le.2 key_lt_done)
      | key b => exact Text.prefix_of_le_of_le h (key_le_key.1 hab) (key_le_key.1 hbc)

theorem agrees_iff : agrees a b = true ↔ a.Begins b ∨ b.Begins a := by
  cases a with
  | key a =>
    cases b with
    | key b => exact Text.agree_iff
    | done => simp [agrees, Begins]
  | done => cases b <;> simp [agrees, Begins]

theorem agrees_comm (a b : Frontier Text) : agrees a b = agrees b a := by
  rw [Bool.eq_iff_iff, agrees_iff, agrees_iff, or_comm]

/-- A frontier that agrees with a lower one begins with it. -/
theorem begins_of_agrees (h : agrees a b = true) (hab : a ≤ b) : a.Begins b := by
  rcases agrees_iff.1 h with hb | hb
  · exact hb
  · obtain rfl : a = b := le_antisymm hab hb.le
    exact Begins.refl a

/-- What is between two frontiers that agree agrees with the lower one. -/
theorem agrees_of_le_of_le (h : agrees a c = true) (hab : a ≤ b) (hbc : b ≤ c) :
    agrees a b = true :=
  agrees_iff.2 (.inl ((begins_of_agrees h (hab.trans hbc)).of_le_of_le hab hbc))

/-- In a list in order and not below `a`, the frontiers that agree with `a` come first. -/
theorem exists_agreeing_block {fs : List (Frontier Text)} (hs : fs.Pairwise (· ≤ ·))
    (ha : ∀ f ∈ fs, a ≤ f) : ∃ block rest, fs = block ++ rest ∧
      (∀ f ∈ block, agrees a f = true) ∧ ∀ f ∈ rest, agrees a f = false := by
  induction fs with
  | nil => exact ⟨[], [], rfl, by simp, by simp⟩
  | cons f fs ih =>
    obtain ⟨hf, hs⟩ := List.pairwise_cons.1 hs
    obtain ⟨haf, hafs⟩ := List.forall_mem_cons.1 ha
    cases h : agrees a f with
    | true =>
      obtain ⟨block, rest, rfl, hblock, hrest⟩ := ih hs hafs
      exact ⟨f :: block, rest, rfl, List.forall_mem_cons.2 ⟨h, hblock⟩, hrest⟩
    | false =>
      refine ⟨[], f :: fs, rfl, by simp, List.forall_mem_cons.2 ⟨h, fun g hg => ?_⟩⟩
      -- what agrees behind `f` would have made `f` agree
      by_contra hn
      rw [agrees_of_le_of_le (by simpa using hn) haf (hf g hg)] at h
      cases h

/-- The test matches two frontiers if one of them begins with the other, and what it matches with a
frontier is an interval of the order. -/
structure MatchesIntervals (test : Frontier Text → Frontier Text → Except Fault Bool) :
    Prop where
  answers : ∀ a b, ∃ m, test a b = .ok m ∧ (m = true ↔ a.Begins b ∨ b.Begins a)
  refl : ∀ a, test a a = .ok true
  symm : ∀ a b, test a b = test b a
  eq_of_length : ∀ a b : Text, a.length = b.length →
    (test (.key a) (.key b) = .ok true ↔ a = b)
  between : ∀ a b c, a ≤ b → b ≤ c → test a c = .ok true → test a b = .ok true
  /-- In a list in order the matches of what is not above it are a block at its beginning. -/
  block : ∀ a (fs : List (Frontier Text)), fs.Pairwise (· ≤ ·) → (∀ f ∈ fs, a ≤ f) →
    ∃ block rest, fs = block ++ rest ∧
      (∀ f ∈ block, test a f = .ok true) ∧ ∀ f ∈ rest, test a f = .ok false
  /-- The same of a sequence that may go on for ever. -/
  segment : ∀ a (f : ℕ → Frontier Text), Monotone f → (∀ n, a ≤ f n) →
    ∀ m n, m ≤ n → test a (f n) = .ok true → test a (f m) = .ok true

/-- **The frontiers that agree with one are an interval of the order.**  Comparing and testing two
frontiers never fails.  The test tells whether one begins with the other, which on keys of one
length is being equal; what is between two frontiers that agree agrees with the lower one; and in
every sequence in order the frontiers that agree with what is not above them come first. -/
theorem agree_matchesIntervals :
    (∀ a b : Frontier Text, less a b = .ok (decide (a < b))) ∧ MatchesIntervals agree := by
  have agree_iff : ∀ a b, agree a b = .ok true ↔ agrees a b = true := by
    intro a b
    rw [agree_eq, Except.ok.injEq]
  refine ⟨less_eq, ?_, ?_, ?_, ?_, ?_, ?_, ?_⟩
  · exact fun a b => ⟨agrees a b, agree_eq a b, agrees_iff⟩
  · exact fun a => (agree_iff a a).2 (agrees_self a)
  · intro a b
    rw [agree_eq, agree_eq, agrees_comm]
  · intro a b hl
    rw [agree_iff]
    exact Text.agree_iff_eq hl
  · intro a b c hab hbc h
    exact (agree_iff a b).2 (agrees_of_le_of_le ((agree_iff a c).1 h) hab hbc)
  · intro a fs hs ha
    obtain ⟨block, rest, hfs, hblock, hrest⟩ := exists_agreeing_block hs ha
    refine ⟨block, rest, hfs, fun f hf => (agree_iff a f).2 (hblock f hf), fun f hf => ?_⟩
    rw [agree_eq, hrest f hf]
  · intro a f hf ha m n hmn h
    exact (agree_iff a (f m)).2 (agrees_of_le_of_le ((agree_iff a (f n)).1 h) (ha m) (hf hmn))

/-- Two keys that agree with a third one need not agree. -/
example : agree (.key ['a']) (.key []) = .ok true ∧ agree (.key []) (.key ['b']) = .ok true ∧
    agree (.key ['a']) (.key ['b']) = .ok false := ⟨rfl, rfl, rfl⟩

end Frontier

end Lockstep
