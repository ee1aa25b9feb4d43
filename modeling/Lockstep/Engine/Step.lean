import Lockstep.Key.Frontier

/-!
# Steps

A step of a synchronization shows its key, one record per source, which sources are held back,
and the edges of the ruptures.  The held sources are the bits of a mask, source `i` being bit
`i`; `maskOf` builds it and `testBit_maskOf` reads it back.
-/

namespace Lockstep

/-- The number whose bits are the given ones, the first the lowest. -/
def maskOf : List Bool → Nat
  | [] => 0
  | b :: bs => b.toNat + 2 * maskOf bs

theorem testBit_maskOf (bs : List Bool) (i : Nat) :
    (maskOf bs).testBit i = bs.getD i false := by
  induction bs generalizing i with
  | nil => simp [maskOf]
  | cons b bs ih =>
    cases i with
    | zero =>
      rw [maskOf, Nat.testBit_zero, Nat.add_mul_mod_self_left]
      cases b <;> rfl
    | succ i =>
      have h : (b.toNat + 2 * maskOf bs) / 2 = maskOf bs := by
        have hb := b.toNat_lt
        omega
      rw [maskOf, Nat.testBit_succ, h, ih]
      rfl

theorem maskOf_eq_zero_iff {bs : List Bool} : maskOf bs = 0 ↔ ∀ b ∈ bs, b = false := by
  induction bs with
  | nil => simp [maskOf]
  | cons b bs ih =>
    rw [List.forall_mem_cons, ← ih, maskOf]
    cases b with
    | false =>
      simp only [Bool.toNat_false, Nat.zero_add, true_and]
      omega
    | true => simp

/-- One step of a synchronization. -/
structure Step (ρ κ : Type) where
  number : Nat
  key : Frontier κ
  /-- Bit `i` is set when source `i` is held back. -/
  desync : Nat
  row : List (Option ρ)
  /-- The first and last edge of every rupture. -/
  edges : List (Bool × Bool)

namespace Step

variable {ρ κ : Type}

/-- Whether source `i` takes part in the step. -/
def isSynchronized (s : Step ρ κ) (i : Nat) : Bool := !s.desync.testBit i

/-- Whether every source takes part. -/
def allSynchronized (s : Step ρ κ) : Bool := s.desync == 0

/-- The sources among the first `n` that are held back. -/
def heldSources (s : Step ρ κ) (n : Nat) : List Nat :=
  (List.range n).filter fun i => !s.isSynchronized i

variable {t : Step ρ κ}

theorem isSynchronized_of_all (h : t.allSynchronized = true) (i : Nat) :
    t.isSynchronized i = true := by
  simp_all [allSynchronized, isSynchronized]

/-- Of a mask over `n` sources all of them are synchronized exactly if each is. -/
theorem allSynchronized_iff {bs : List Bool} (h : t.desync = maskOf bs) :
    t.allSynchronized = true ↔ ∀ i < bs.length, t.isSynchronized i = true := by
  simp only [allSynchronized, isSynchronized, h, testBit_maskOf, beq_iff_eq, maskOf_eq_zero_iff]
  constructor
  · intro hall i hi
    simp [hall bs[i] (List.getElem_mem hi), hi]
  · intro hall b hb
    obtain ⟨i, hi, rfl⟩ := List.mem_iff_getElem.1 hb
    simpa [hi] using hall i hi

end Step

end Lockstep
