import Lockstep.Key.Frontier

/-!
# Ruptures

A rupture watches the keys of successive steps through an extractor.  Its `last` edge says that
the step closes a group, its `first` edge that the step opens one: `first` is always the `last`
of the step before.  A fresh rupture has `last` set, so the very first step opens a group.

`Rupture.compute` decides the edges of a step from its key and the key of the step after it.
-/

namespace Lockstep

/-- A named detector of group boundaries. -/
structure Rupture (κ : Type) where
  name : Text
  /-- The part of a key that makes its group. -/
  extract : κ → Except Fault κ
  first : Bool
  last : Bool

namespace Rupture

variable {κ : Type}

/-- A rupture before its first step. -/
def fresh (name : Text) (extract : κ → Except Fault κ) : Rupture κ :=
  ⟨name, extract, false, true⟩

/-- The two edges. -/
def edges (r : Rupture κ) : Bool × Bool := (r.first, r.last)

/-- The whole key makes the group. -/
def whole : κ → Except Fault κ := .ok

/-- The first `width` characters make the group. -/
def leading (width : Nat) : Text → Except Fault Text := fun k => .ok (k.take width)

/-- Whether the group changes between two keys. -/
def changes [SyncKey κ] (r : Rupture κ) (current next : κ) : Except Fault Bool :=
  match r.extract current with
  | .error f => .error f
  | .ok a =>
    match r.extract next with
    | .error f => .error f
    | .ok b => .ok (!SyncKey.same a b)

/-- Whether a group ends between two frontiers: at the mark it does unless both are the mark,
and the extractor is not asked. -/
def breaks [SyncKey κ] (r : Rupture κ) : Frontier κ → Frontier κ → Except Fault Bool
  | .key a, .key b => r.changes a b
  | .done, .done => .ok false
  | _, _ => .ok true

/-- Move on one step: the last edge becomes the first one, and a new last edge is found unless
it is forced.  A failing extractor leaves the last edge as it was. -/
def compute [SyncKey κ] (r : Rupture κ) (current next : Frontier κ) (force : Bool) :
    Rupture κ × Except Fault Bool :=
  let r := { r with first := r.last }
  if force then ({ r with last := true }, .ok true)
  else
    match r.breaks current next with
    | .ok b => ({ r with last := b }, .ok b)
    | .error f => (r, .error f)

/-- A truth value as written in a description. -/
def truth (b : Bool) : String := if b then "True" else "False"

/-- The description of a rupture. -/
def describe (r : Rupture κ) : Text :=
  ("Rupture(name=" ++ String.ofList (Text.quoted r.name) ++ ", first=" ++ truth r.first ++
    ", last=" ++ truth r.last ++ ")").toList

@[simp] theorem fresh_last (name : Text) (extract : κ → Except Fault κ) :
    (fresh name extract).last = true := rfl

@[simp] theorem compute_first [SyncKey κ] (r : Rupture κ) (c n : Frontier κ) (force : Bool) :
    (r.compute c n force).1.first = r.last := by
  unfold compute
  dsimp only
  split
  · rfl
  · split <;> rfl

@[simp] theorem compute_force [SyncKey κ] (r : Rupture κ) (c n : Frontier κ) :
    r.compute c n true = ({ r with first := r.last, last := true }, .ok true) := rfl

end Rupture

end Lockstep
