import Lockstep.Fault
import Lockstep.Text.Quoted

/-!
# Keys and the frontier

A `SyncKey` type is one whose values a synchronization can merge by: it has an order, a test of
agreement on the length of the shorter key, and an equality of groups.  On texts none of them
can fail (`less_text`, `agree_text`); on other values asking may be a fault.

A `Frontier` is a key or the mark `done` of an exhausted source.  The mark is above every key
and agrees only with itself.  `leastOf` finds the first least frontier of a list.
-/

namespace Lockstep

/-- What a synchronization asks of keys. -/
class SyncKey (κ : Type) where
  /-- The key of a source before its first record. -/
  start : κ
  /-- Whether the first key is lower. -/
  less : κ → κ → Except Fault Bool
  /-- Whether two keys agree on the length of the shorter one. -/
  agree : κ → κ → Except Fault Bool
  /-- Whether two keys are of one group. -/
  same : κ → κ → Bool
  /-- How a key is shown. -/
  quoted : κ → Text

/-- Two texts agree when they are equal on the length of the shorter one. -/
def Text.agree (a b : Text) : Bool :=
  let n := min a.length b.length
  a.take n == b.take n

instance : SyncKey Text where
  start := []
  less a b := .ok (Text.before a b)
  agree a b := .ok (Text.agree a b)
  same a b := a == b
  quoted := Text.quoted

/-- A key, or the mark of an exhausted source. -/
inductive Frontier (κ : Type)
  | key (k : κ)
  | done
  deriving DecidableEq, Repr

namespace Frontier

section

variable {κ : Type} [SyncKey κ]

/-- The frontier of a source before its first record. -/
def start : Frontier κ := .key SyncKey.start

/-- Whether the first frontier is lower; the mark is above every key. -/
def less : Frontier κ → Frontier κ → Except Fault Bool
  | .key a, .key b => SyncKey.less a b
  | .key _, .done => .ok true
  | .done, _ => .ok false

/-- Whether two frontiers agree; the mark agrees only with itself. -/
def agree : Frontier κ → Frontier κ → Except Fault Bool
  | .key a, .key b => SyncKey.agree a b
  | .done, .done => .ok true
  | _, _ => .ok false

/-- The first least frontier of `best` and a list, each later one asked whether it is lower
than the least so far. -/
def least (best : Frontier κ) : List (Frontier κ) → Except Fault (Frontier κ)
  | [] => .ok best
  | f :: fs =>
    match less f best with
    | .ok true => least f fs
    | .ok false => least best fs
    | .error e => .error e

/-- The first least frontier of a list, the mark if there is none. -/
def leastOf : List (Frontier κ) → Except Fault (Frontier κ)
  | [] => .ok .done
  | f :: fs => least f fs

/-- How a frontier is shown. -/
def quoted : Frontier κ → Text
  | .key k => SyncKey.quoted k
  | .done => "END".toList

@[simp] theorem less_done (f : Frontier κ) : less (.done : Frontier κ) f = .ok false := by
  cases f <;> rfl

@[simp] theorem key_less_done (k : κ) : less (.key k) .done = .ok true := rfl

@[simp] theorem agree_done_key (k : κ) : agree (.done : Frontier κ) (.key k) = .ok false := rfl

@[simp] theorem agree_key_done (k : κ) : agree (.key k) (.done : Frontier κ) = .ok false := rfl

@[simp] theorem agree_done_done : agree (.done : Frontier κ) .done = .ok true := rfl

@[simp] theorem leastOf_nil : leastOf ([] : List (Frontier κ)) = .ok .done := rfl

end

@[simp] theorem less_text (a b : Text) :
    less (.key a) (.key b) = .ok (Text.before a b) := rfl

@[simp] theorem agree_text (a b : Text) :
    agree (.key a) (.key b) = .ok (Text.agree a b) := rfl

end Frontier

end Lockstep
