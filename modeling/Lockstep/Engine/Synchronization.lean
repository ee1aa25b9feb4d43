import Lockstep.Engine.Pool
import Lockstep.Engine.Step

/-!
# Synchronizations

A synchronization advances its sources along the merged frontier of their keys.  Before it is
started, sources and ruptures are registered: a source brings the rupture that gates it, and a
rupture is registered once, where it is first mentioned.

An `Engine` is a synchronization together with the pool it works on.  `Engine.prime` pulls the
first look-ahead of every source and finds the first key.  `Engine.turn` makes one step:

1. every due source moves on by one record;
2. every source is synchronized or held back, by its current key and the key of the step;
3. the key of the next step is the least of the candidates;
4. the ruptures decide the edges of the step from its key and the next one.

A failing phase ends the turn there and leaves what the phases before it did.
-/

namespace Lockstep

/-- What is registered, and the keys of the current and the next step. -/
structure Synchronization (κ : Type) where
  sources : List Nat
  ruptures : List Nat
  started : Bool
  currentKey : Option (Frontier κ)
  nextKey : Option (Frontier κ)

namespace Synchronization

variable {ρ κ : Type}

/-- A synchronization with nothing registered. -/
def empty : Synchronization κ := ⟨[], [], false, none, none⟩

/-- Whether no step is left: the next key is the mark. -/
def ended (y : Synchronization κ) : Bool :=
  match y.nextKey with
  | some .done => true
  | _ => false

/-- Register a rupture unless it is registered. -/
def registerRupture (y : Synchronization κ) (j : Nat) : Synchronization κ :=
  if y.ruptures.contains j then y else { y with ruptures := y.ruptures ++ [j] }

/-- Register a source, and the rupture that gates it. -/
def registerSource (gate : Nat → Option Nat) (y : Synchronization κ) (i : Nat) :
    Synchronization κ :=
  let y := { y with sources := y.sources ++ [i] }
  match gate i with
  | none => y
  | some j => y.registerRupture j

/-- Register sources in order; `gate` tells which rupture gates a source. -/
def addSources (gate : Nat → Option Nat) (is : List Nat) (y : Synchronization κ) :
    Except Fault (Synchronization κ) :=
  if y.started then .error .alreadyRun else .ok (is.foldl (registerSource gate) y)

/-- Register ruptures in order. -/
def addRuptures (js : List Nat) (y : Synchronization κ) : Except Fault (Synchronization κ) :=
  if y.started then .error .alreadyRun else .ok (js.foldl registerRupture y)

@[simp] theorem registerRupture_sources (y : Synchronization κ) (j : Nat) :
    (y.registerRupture j).sources = y.sources := by
  unfold registerRupture; split <;> rfl

@[simp] theorem registerSource_sources (gate : Nat → Option Nat) (y : Synchronization κ)
    (i : Nat) : (y.registerSource gate i).sources = y.sources ++ [i] := by
  unfold registerSource; dsimp only; split <;> simp

end Synchronization

/-- A synchronization and the pool it works on. -/
structure Engine (ρ κ : Type) where
  pool : Pool ρ κ
  sync : Synchronization κ

namespace Engine

variable {ρ κ : Type}

/-- Perform an action on the pool. -/
def onPool (a : Action (Pool ρ κ)) : Action (Engine ρ κ) := fun e =>
  let r := a e.pool
  ({ e with pool := r.1 }, r.2)

/-- The keys from which the next one is chosen. -/
def candidates (e : Engine ρ κ) : List (Frontier κ) := e.pool.candidates e.sync.sources

/-- Every due source moves on. -/
def readPhase : Action (Engine ρ κ) := fun e => onPool (Pool.readAll e.sync.sources) e

section

variable [SyncKey κ]

/-- Sources are synchronized or held back by the key of the step, which is the next key found
at the step before. -/
def synchronizePhase : Action (Engine ρ κ) := fun e =>
  onPool (Pool.synchronizeAll (e.sync.nextKey.getD .done) e.sync.sources) e

/-- The next key becomes current, and the least candidate becomes next. -/
def keyPhase : Action (Engine ρ κ) := fun e =>
  let y := { e.sync with currentKey := e.sync.nextKey }
  match Frontier.leastOf e.candidates with
  | .ok k => ({ e with sync := { y with nextKey := some k } }, .ok ())
  | .error f => ({ e with sync := y }, .error f)

/-- The ruptures decide their edges, the first of them unforced. -/
def rupturePhase : Action (Engine ρ κ) := fun e =>
  onPool (Pool.cascade (e.sync.currentKey.getD .done) (e.sync.nextKey.getD .done) false
    e.sync.ruptures) e

/-- Pull the first look-ahead of every source and find the first key. -/
def prime : Action (Engine ρ κ) := Action.andThen readPhase keyPhase

/-- Make one step. -/
def turn : Action (Engine ρ κ) :=
  Action.andThen readPhase (Action.andThen synchronizePhase (Action.andThen keyPhase rupturePhase))

end

/-- What the step just made shows. -/
def snapshot (e : Engine ρ κ) (number : Nat) : Step ρ κ where
  number := number
  key := e.sync.currentKey.getD .done
  desync := maskOf (e.pool.held e.sync.sources)
  row := e.pool.row e.sync.sources
  edges := e.pool.edges e.sync.ruptures

end Engine

end Lockstep
