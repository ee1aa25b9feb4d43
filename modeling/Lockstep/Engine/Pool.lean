import Lockstep.Engine.Action
import Lockstep.Engine.Rupture
import Lockstep.Engine.Source

/-!
# Pools

Sources and ruptures live in a pool and are known by their numbers, so that a rupture can gate
several sources and a source can take part in several synchronizations.  The actions here are
the phases of a step, each over the numbers that a synchronization has registered:

* `readAll` moves on every source that is due;
* `synchronizeAll` compares every source's current key with the key of the step;
* `candidates` are the keys from which the key of the next step is chosen;
* `cascade` moves the ruptures on, a break of an earlier one forcing every later one.

A number outside the pool stands for nothing and is passed over.
-/

namespace Lockstep

/-- The sources and ruptures that synchronizations share. -/
structure Pool (ρ κ : Type) where
  sources : List (Source ρ κ)
  ruptures : List (Rupture κ)

namespace Pool

variable {ρ κ : Type}

/-- Whether the gate in front of a source is open: the rupture's last step closed a group. -/
def gateOpen (p : Pool ρ κ) (s : Source ρ κ) : Bool :=
  match s.gate with
  | none => true
  | some j =>
    match p.ruptures[j]? with
    | none => true
    | some r => r.last

/-- Whether the source of that number is due. -/
def due (p : Pool ρ κ) (s : Source ρ κ) : Bool := s.due (p.gateOpen s)

/-- Put a source in the place of the one with that number. -/
def setSource (p : Pool ρ κ) (i : Nat) (s : Source ρ κ) : Pool ρ κ :=
  { p with sources := p.sources.set i s }

/-- Put a rupture in the place of the one with that number. -/
def setRupture (p : Pool ρ κ) (j : Nat) (r : Rupture κ) : Pool ρ κ :=
  { p with ruptures := p.ruptures.set j r }

/-- Read from one source. -/
def read (i : Nat) : Action (Pool ρ κ) := fun p =>
  match p.sources[i]? with
  | none => (p, .ok ())
  | some s =>
    let t := s.read (p.gateOpen s)
    (p.setSource i t.1, t.2)

/-- Read from each source in order. -/
def readAll (is : List Nat) : Action (Pool ρ κ) := Action.forEach read is

section

variable [SyncKey κ]

/-- Compare one source with the key of a step. -/
def synchronize (key : Frontier κ) (i : Nat) : Action (Pool ρ κ) := fun p =>
  match p.sources[i]? with
  | none => (p, .ok ())
  | some s =>
    let t := s.synchronize key
    (p.setSource i t.1, t.2)

/-- Compare each source with the key of a step, in order. -/
def synchronizeAll (key : Frontier κ) (is : List Nat) : Action (Pool ρ κ) :=
  Action.forEach (synchronize key) is

/-- Move the ruptures on, each forced by a break of the one before it. -/
def cascade (current next : Frontier κ) (force : Bool) : List Nat → Action (Pool ρ κ)
  | [] => fun p => (p, .ok ())
  | j :: js => fun p =>
    match p.ruptures[j]? with
    | none => cascade current next force js p
    | some r =>
      match r.compute current next force with
      | (r, .ok last) => cascade current next last js (p.setRupture j r)
      | (r, .error f) => (p.setRupture j r, .error f)

end

/-- The keys with which the sources take part in the next step. -/
def candidates (p : Pool ρ κ) (is : List Nat) : List (Frontier κ) :=
  is.filterMap fun i => (p.sources[i]?).map (·.candidate)

/-- The current records. -/
def row (p : Pool ρ κ) (is : List Nat) : List (Option ρ) :=
  is.map fun i => (p.sources[i]?).bind (·.current)

/-- Which sources are held back. -/
def held (p : Pool ρ κ) (is : List Nat) : List Bool :=
  is.map fun i => match p.sources[i]? with
    | none => false
    | some s => !s.synchronized

/-- The edges of the ruptures. -/
def edges (p : Pool ρ κ) (js : List Nat) : List (Bool × Bool) :=
  js.filterMap fun j => (p.ruptures[j]?).map (·.edges)

end Pool

end Lockstep
