import Mathlib.Data.List.Basic
import Lockstep.Config.Loading

/-!
# How deep a job is looked into

`Value.prune n` leaves out of a value what lies deeper than its first `n` levels, and
`Entry.Shallow n` says of a reader of entries that it does not notice.  A scalar is read from one
level, a mapping from one more than its members, and a job from six: values that agree so far are
the same job, or have the same issues (`jobOfValue_congr`).

So it does not matter how a value goes on below its sixth level, as one that contains itself does
without an end.
-/

namespace Lockstep

namespace Value

/-- A value without what lies deeper than its first `n` levels. -/
def prune : (n : ℕ) → Value → Value
  | 0, _ => .none
  | n + 1, .list xs => .list (xs.map (prune n))
  | n + 1, .dict es => .dict (es.map fun e => (e.1, prune n e.2))
  | _ + 1, v => v

theorem prune_prune {m n : ℕ} (h : m ≤ n) (v : Value) : prune m (prune n v) = prune m v := by
  induction m generalizing n v with
  | zero => rfl
  | succ m ih =>
    cases n with
    | zero => omega
    | succ n =>
      have hmn : m ≤ n := Nat.le_of_succ_le_succ h
      cases v with
      | list xs => simp [prune, ih hmn]
      | dict es => simp [prune, ih hmn]
      | _ => rfl

theorem find?_map (f : Value → Value) (name : Text) (es : List (Value × Value)) :
    find? name (es.map fun e => (e.1, f e.2)) = (find? name es).map f := by
  induction es with
  | nil => rfl
  | cons e es ih =>
    obtain ⟨k, v⟩ := e
    cases k with
    | text s => by_cases hs : s = name <;> simp [find?, hs, ih]
    | _ => simpa [find?] using ih

theorem isEmpty_prune (n : ℕ) (v : Value) : (v.prune (n + 1)).isEmpty = v.isEmpty := by
  cases v <;> simp [prune, isEmpty]

end Value

namespace Config

/-- A reader of entries looks at the first `n` levels of a value only. -/
def Entry.Shallow {α : Type} (n : ℕ) (entry : Value → α) : Prop :=
  ∀ v, entry (v.prune n) = entry v

namespace Entry

variable {α : Type} {m n : ℕ}

theorem Shallow.mono {entry : Value → α} (h : Shallow m entry) (hmn : m ≤ n) :
    Shallow n entry := by
  intro v
  rw [← h, Value.prune_prune hmn, h]

/-! ### Scalars -/

theorem shallow_text : Shallow 1 text := by
  intro v
  cases v <;> rfl

theorem shallow_path : Shallow 1 path := by
  intro v
  cases v <;> rfl

theorem shallow_truth : Shallow 1 truth := by
  intro v
  cases v <;> rfl

theorem shallow_choice (first second : String × α) : Shallow 1 (choice first second) := by
  intro v
  cases v <;> rfl

theorem shallow_integerFrom (least : ℕ) : Shallow 1 (integerFrom least) := by
  intro v
  cases v <;> rfl

/-! ### What is made of entries -/

variable {entry : Value → Checked α}

theorem Shallow.optional (h : Shallow (n + 1) entry) : Shallow (n + 1) (optional entry) := by
  intro v
  have hv := h v
  cases v with
  | none => rfl
  | _ => exact congrArg (Except.map some) hv

theorem Shallow.list (h : Shallow n entry) : Shallow (n + 1) (list entry) := by
  intro v
  cases v with
  | list xs =>
    show Checked.itemsFrom entry 0 (xs.map (Value.prune n)) = Checked.itemsFrom entry 0 xs
    generalize 0 = index
    induction xs generalizing index with
    | nil => rfl
    | cons x xs ih => rw [List.map_cons, Checked.itemsFrom, Checked.itemsFrom, h, ih]
  | _ => rfl

/-- Members whose values are cut off below level `n`. -/
abbrev pruned (n : ℕ) (es : List (Value × Value)) : List (Value × Value) :=
  es.map fun e => (e.1, e.2.prune n)

theorem Shallow.required (h : Shallow n entry) (name : String) (es : List (Value × Value)) :
    required name entry (pruned n es) = required name entry es := by
  unfold Entry.required
  rw [Value.find?_map]
  cases Value.find? name.toList es with
  | none => rfl
  | some v => simp only [Option.map_some, h v]

theorem Shallow.defaulted (h : Shallow n entry) (name : String) (default : α)
    (es : List (Value × Value)) :
    defaulted name default entry (pruned n es) = defaulted name default entry es := by
  unfold Entry.defaulted
  rw [Value.find?_map]
  cases Value.find? name.toList es with
  | none => rfl
  | some v => simp only [Option.map_some, h v]

/-- What is read from the members of a mapping. -/
theorem shallow_members {model : String} {body : List (Value × Value) → Checked α}
    (h : ∀ es, body (pruned n es) = body es) :
    Shallow (n + 1) fun v => members model v >>= body := by
  intro v
  cases v with
  | dict es => exact h es
  | _ => rfl

end Entry

/-! ### The parts of a job -/

open Entry

theorem RuptureEntry.shallow_check : Shallow 2 RuptureEntry.check :=
  shallow_members fun es => by
    rw [shallow_text.required, (shallow_integerFrom 0).optional.defaulted]

theorem shallow_checkKeyField : Shallow 2 checkKeyField :=
  shallow_members fun es => by
    rw [shallow_text.required, (shallow_integerFrom 1).optional.defaulted,
      (shallow_choice _ _).defaulted]

theorem SourceEntry.shallow_checkKey : Shallow 3 SourceEntry.checkKey := by
  intro v
  have hlist := shallow_checkKeyField.list v
  cases v with
  | text s => rfl
  | _ => exact congrArg (· >>= SourceEntry.checkWidths) hlist

theorem SourceEntry.shallow_check : Shallow 4 SourceEntry.check := by
  have htext : Shallow 3 text := shallow_text.mono (by decide)
  refine shallow_members fun es => ?_
  dsimp only
  rw [htext.required, (shallow_path.mono (by decide)).required,
    ((shallow_choice _ _).mono (by decide)).defaulted, shallow_checkKey.required,
    htext.optional.defaulted, htext.defaulted]

theorem JobEntry.shallow_check : Shallow 6 JobEntry.check := by
  have hruptures := RuptureEntry.shallow_check.mono (n := 4) (by decide)
  refine shallow_members fun es => ?_
  dsimp only
  rw [(shallow_text.mono (by decide)).defaulted, (shallow_truth.mono (by decide)).defaulted,
    hruptures.list.defaulted, SourceEntry.shallow_check.list.required]

/-! ### Jobs -/

/-- The job that a value describes is told by its first six levels. -/
theorem jobOfValue_prune (v : Value) : jobOfValue (v.prune 6) = jobOfValue v := by
  unfold jobOfValue
  rw [Value.isEmpty_prune]
  by_cases hempty : v.isEmpty = true
  · rw [if_pos hempty, if_pos hempty]
  · rw [if_neg hempty, if_neg hempty]
    cases v with
    | dict es =>
      have hcheck := JobEntry.shallow_check (.dict es)
      have hkeys : ((pruned 5 es).all fun e => e.1.kind == .text) =
          es.all fun e => e.1.kind == .text := List.all_map
      simp only [Value.prune] at hcheck ⊢
      rw [hcheck, hkeys]
    | _ => rfl

/-- Values that agree on six levels are the same job. -/
theorem jobOfValue_congr {u v : Value} (h : u.prune 6 = v.prune 6) :
    jobOfValue u = jobOfValue v := by
  rw [← jobOfValue_prune u, h, jobOfValue_prune]

end Config

end Lockstep
