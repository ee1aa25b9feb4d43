import Lockstep.Key.Frontier
import Lockstep.Engine.Feed

/-!
# Sources

A source stages the current record of a stream and one record of look-ahead, each with its key.
It moves on only when it is due: it was synchronized at the last step, and the gate in front of
it, if any, is open.

`Source.read` moves on by one record.  The look-ahead becomes current before the next record is
pulled, so after a failing pull the source has moved and keeps the old look-ahead.
-/

namespace Lockstep

/-- A stream with its current record, its look-ahead and their keys. -/
structure Source (ρ κ : Type) where
  feed : Feed ρ
  keyer : ρ → Except Fault (Frontier κ)
  /-- The number of the rupture that opens the way, if one does. -/
  gate : Option Nat
  synchronized : Bool
  current : Option ρ
  currentKey : Frontier κ
  next : Option ρ
  nextKey : Frontier κ
  exhausted : Bool
  /-- How often the feed has been pulled. -/
  pulls : Nat

namespace Source

variable {ρ κ : Type}

/-- A source before its first read. -/
def fresh [SyncKey κ] (feed : Feed ρ) (keyer : ρ → Except Fault (Frontier κ))
    (gate : Option Nat) : Source ρ κ :=
  ⟨feed, keyer, gate, true, none, .start, none, .start, false, 0⟩

/-- Whether a read moves on, given whether the gate is open. -/
def due (s : Source ρ κ) (isOpen : Bool) : Bool := s.synchronized && isOpen

/-- The look-ahead becomes current. -/
def shift (s : Source ρ κ) : Source ρ κ := { s with current := s.next, currentKey := s.nextKey }

/-- Pull the look-ahead. -/
def fill (s : Source ρ κ) : Source ρ κ × Except Fault Unit :=
  let p := s.feed.pull
  let s := { s with feed := p.2, pulls := s.pulls + 1 }
  match p.1 with
  | .failure f => (s, .error f)
  | .exhausted => ({ s with exhausted := true, next := none, nextKey := .done }, .ok ())
  | .record r =>
    match s.keyer r with
    | .ok k => ({ s with next := some r, nextKey := k }, .ok ())
    | .error f => ({ s with next := some r }, .error f)

/-- Move on by one record if due. -/
def read (s : Source ρ κ) (isOpen : Bool) : Source ρ κ × Except Fault Unit :=
  if s.due isOpen then
    if s.exhausted then (s.shift, .ok ()) else s.shift.fill
  else (s, .ok ())

/-- Compare the current key with the key of a step; a fault leaves the source as it is. -/
def synchronize [SyncKey κ] (s : Source ρ κ) (key : Frontier κ) :
    Source ρ κ × Except Fault Unit :=
  match s.currentKey.agree key with
  | .ok b => ({ s with synchronized := b }, .ok ())
  | .error f => (s, .error f)

/-- The key with which the source takes part in the next step: its look-ahead if it moves on,
its current one if it is held. -/
def candidate (s : Source ρ κ) : Frontier κ :=
  if s.synchronized then s.nextKey else s.currentKey

/-- The description of a source. -/
def describe [SyncKey κ] (s : Source ρ κ) : Text :=
  "Source(current_key=".toList ++ s.currentKey.quoted ++ ", next_key=".toList ++
    s.nextKey.quoted ++ ", synchronized=".toList ++
    (if s.synchronized then "True" else "False").toList ++ [')']

theorem read_of_not_due {s : Source ρ κ} {isOpen : Bool} (h : s.due isOpen = false) :
    s.read isOpen = (s, .ok ()) := by
  simp [read, h]

theorem read_of_exhausted {s : Source ρ κ} {isOpen : Bool} (hd : s.due isOpen = true)
    (he : s.exhausted = true) : s.read isOpen = (s.shift, .ok ()) := by
  simp [read, hd, he]

section Pulling

variable {s : Source ρ κ} {isOpen : Bool} (hd : s.due isOpen = true) (he : s.exhausted = false)

include hd he

/-- A pull that fails leaves the look-ahead, which has become current as well. -/
theorem read_of_failure {f : Fault} (hp : s.feed.pull.1 = .failure f) :
    s.read isOpen = ({ s with
      current := s.next
      currentKey := s.nextKey
      feed := s.feed.pull.2
      pulls := s.pulls + 1 }, .error f) := by
  simp [read, hd, he, fill, shift, hp]

theorem read_of_record {r : ρ} {k : Frontier κ} (hp : s.feed.pull.1 = .record r)
    (hk : s.keyer r = .ok k) :
    s.read isOpen = ({ s with
      current := s.next
      currentKey := s.nextKey
      next := some r
      nextKey := k
      feed := s.feed.pull.2
      pulls := s.pulls + 1 }, .ok ()) := by
  simp [read, hd, he, fill, shift, hp, hk]

theorem read_of_end (hp : s.feed.pull.1 = .exhausted) :
    s.read isOpen = ({ s with
      current := s.next
      currentKey := s.nextKey
      next := none
      nextKey := .done
      exhausted := true
      feed := s.feed.pull.2
      pulls := s.pulls + 1 }, .ok ()) := by
  simp [read, hd, he, fill, shift, hp]

end Pulling

end Source

end Lockstep
