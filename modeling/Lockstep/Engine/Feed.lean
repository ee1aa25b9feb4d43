import Lockstep.Fault

/-!
# Feeds

A feed brings records one pull at a time.  A `script` delivers what it lists and is exhausted
afterwards; a `channel` delivers what its producers put into it, and a pull that finds it empty
fails.  What was put behind a close is never delivered to a reader that stops at the close.
-/

namespace Lockstep

/-- What one pull brings. -/
inductive Delivery (ρ : Type)
  | record (r : ρ)
  | failure (f : Fault)
  | exhausted
  deriving Repr

/-- What a producer puts into a channel. -/
inductive Parcel (ρ : Type)
  | record (r : ρ)
  | closed
  deriving Repr

/-- The name of the closing parcel. -/
def Parcel.closedName : String := "CLOSED"

/-- A stream of records, pulled one at a time. -/
inductive Feed (ρ : Type)
  | script (pending : List (Delivery ρ))
  | channel (timeout : Int) (pending : List (Parcel ρ))
  deriving Repr

namespace Feed

variable {ρ : Type}

/-- One pull: what it brings, and the feed after it. -/
def pull : Feed ρ → Delivery ρ × Feed ρ
  | .script [] => (.exhausted, .script [])
  | .script (d :: ds) => (d, .script ds)
  | .channel timeout pending =>
    if timeout < 0 then (.failure .negativeTimeout, .channel timeout pending)
    else match pending with
      | [] => (.failure .idle, .channel timeout [])
      | .record r :: ps => (.record r, .channel timeout ps)
      | .closed :: ps => (.exhausted, .channel timeout ps)

/-- Add a parcel at the end of a channel; a script takes none. -/
def put (f : Feed ρ) (p : Parcel ρ) : Feed ρ :=
  match f with
  | .script ds => .script ds
  | .channel timeout pending => .channel timeout (pending ++ [p])

/-- The feed of a list. -/
def ofList (rs : List ρ) : Feed ρ := .script (rs.map .record)

/-- The deliveries of a stream that may fail: it ends with its first failure. -/
def deliveries : List (Except Fault ρ) → List (Delivery ρ)
  | [] => []
  | .ok r :: s => .record r :: deliveries s
  | .error f :: _ => [.failure f]

/-- The feed of a stream that may fail. -/
def ofStream (s : List (Except Fault ρ)) : Feed ρ := .script (deliveries s)

@[simp] theorem pull_script_nil : pull (.script [] : Feed ρ) = (.exhausted, .script []) := rfl

@[simp] theorem pull_script_cons (d : Delivery ρ) (ds : List (Delivery ρ)) :
    pull (.script (d :: ds)) = (d, .script ds) := rfl

end Feed

end Lockstep
