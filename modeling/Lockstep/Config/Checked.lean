import Lockstep.Config.Issue

/-!
# Checked entries

Checking an entry of a configuration gives what it stands for, or all its issues.  `Checked.ap`
checks several entries side by side and keeps the issues of all of them, in order; what follows
with `bind` is only checked when everything before it is right.
-/

namespace Lockstep.Config

/-- What an entry stands for, or what is wrong with it. -/
abbrev Checked (α : Type) := Except (List Issue) α

namespace Checked

variable {α β : Type}

/-- An entry with one problem. -/
def fail (p : Problem) : Checked α := .error [⟨[], p⟩]

/-- What was found inside of an entry, seen from around it. -/
def within (p : Place) : Checked α → Checked α
  | .ok a => .ok a
  | .error is => .error (is.map (Issue.within p))

/-- Check two entries and apply what the first one gives; the issues of both are kept. -/
def ap : Checked (α → β) → Checked α → Checked β
  | .ok f, .ok a => .ok (f a)
  | .ok _, .error js => .error js
  | .error is, .ok _ => .error is
  | .error is, .error js => .error (is ++ js)

/-- Check the items of a list, from number `index` on. -/
def itemsFrom (check : β → Checked α) : (index : Nat) → List β → Checked (List α)
  | _, [] => .ok []
  | index, b :: bs =>
    ap (Except.map List.cons (within (.item index) (check b))) (itemsFrom check (index + 1) bs)

@[simp] theorem ap_ok_ok (f : α → β) (a : α) : ap (.ok f) (.ok a) = .ok (f a) := rfl

theorem ap_eq_ok {f : Checked (α → β)} {a : Checked α} {b : β} :
    ap f a = .ok b ↔ ∃ g x, f = .ok g ∧ a = .ok x ∧ g x = b := by
  cases f <;> cases a <;> simp [ap]

end Checked

end Lockstep.Config
