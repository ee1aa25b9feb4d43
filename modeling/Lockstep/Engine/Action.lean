import Lockstep.Fault

/-!
# Actions

An action changes a state and may fail; the state it leaves when it fails is kept.  Actions are
put in sequence with `andThen`, which stops at the first failure, and `forEach` performs one
action for each item of a list, in order.
-/

namespace Lockstep

/-- A change of state that may fail. -/
abbrev Action (σ : Type) := σ → σ × Except Fault Unit

namespace Action

variable {σ ι : Type}

/-- The first action, and if it succeeds the second one. -/
def andThen (a b : Action σ) : Action σ := fun s =>
  match a s with
  | (s, .ok ()) => b s
  | (s, .error f) => (s, .error f)

/-- One action for each item, up to the first failure. -/
def forEach (a : ι → Action σ) : List ι → Action σ
  | [] => fun s => (s, .ok ())
  | i :: is => andThen (a i) (forEach a is)

@[simp] theorem forEach_nil (a : ι → Action σ) (s : σ) : forEach a [] s = (s, .ok ()) := rfl

theorem andThen_of_ok {a b : Action σ} {s t : σ} (h : a s = (t, .ok ())) :
    andThen a b s = b t := by
  simp [andThen, h]

theorem andThen_of_error {a b : Action σ} {s t : σ} {f : Fault} (h : a s = (t, .error f)) :
    andThen a b s = (t, .error f) := by
  simp [andThen, h]

/-- A sequence succeeds if both of its actions do, one after the other. -/
theorem andThen_eq_ok {a b : Action σ} {s t : σ} :
    andThen a b s = (t, .ok ()) ↔ ∃ u, a s = (u, .ok ()) ∧ b u = (t, .ok ()) := by
  unfold andThen
  rcases a s with ⟨u, _ | _⟩ <;> simp

/-- What every single action keeps is kept by all of them, also when one fails. -/
theorem forEach_induction {a : ι → Action σ} {motive : σ → Prop}
    (hact : ∀ i s, motive s → motive (a i s).1) {is : List ι} {s : σ} (h : motive s) :
    motive (forEach a is s).1 := by
  induction is generalizing s with
  | nil => exact h
  | cons i is ih =>
    have hi := hact i s h
    rcases hs : a i s with ⟨t, _ | _⟩
    · rw [hs] at hi
      rwa [forEach, andThen_of_error hs]
    · rw [hs] at hi
      rw [forEach, andThen_of_ok hs]
      exact ih hi

theorem forEach_append (a : ι → Action σ) (is js : List ι) :
    forEach a (is ++ js) = andThen (forEach a is) (forEach a js) := by
  induction is with
  | nil => rfl
  | cons i is ih =>
    funext s
    simp only [List.cons_append, forEach, ih, andThen]
    rcases a i s with ⟨t, (_ | _)⟩ <;> rfl

end Action

end Lockstep
