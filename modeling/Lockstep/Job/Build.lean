import Lockstep.Engine.Run
import Lockstep.Records.Opening
import Lockstep.Value.Display

/-!
# Building a job

A job is built into an engine.  Its ruptures are kept by their names and registered first, in their
order, so that an earlier one is an outer group.  Then its sources are opened and registered in
theirs; a source bound to a rupture is gated by the one of that name.  Building fails at the first
source of which nothing stands at its path or whose rupture is not there.
-/

namespace Lockstep.Job

open Lockstep.Config

/-- The rupture of an entry. -/
def ruptureOf (r : RuptureEntry) : Rupture Text :=
  Rupture.fresh r.name (match r.width with
    | none => Rupture.whole
    | some w => Rupture.leading w)

/-- Put a rupture among others by its name: one of that name gives up its place to it. -/
def put (rs : List RuptureEntry) (r : RuptureEntry) : List RuptureEntry :=
  if rs.any fun x => x.name == r.name then rs.map fun x => if x.name == r.name then r else x
  else rs ++ [r]

/-- The ruptures by their names: of several of one name the last one counts. -/
def byName (rs : List RuptureEntry) : List RuptureEntry := rs.foldl put []

/-- The number of the rupture that gates a source. -/
def gateOf (rs : List RuptureEntry) (s : SourceEntry) : Except Fault (Option Nat) :=
  match s.binding? with
  | none => .ok none
  | some name =>
    match rs.findIdx? fun r => r.name == name with
    | none => .error (.unknownRupture name)
    | some k => .ok (some k)

/-- The key of a record. -/
def keyerOf (s : SourceEntry) (r : Value) : Except Fault (Frontier Text) :=
  (KeyField.keyOf s.key r).map .key

/-- The records of a source as they reach the engine. -/
def recordsOf (j : JobEntry) (s : SourceEntry) (records : Stream Value) : Stream Value :=
  if j.checkOrder then Stream.ordered (KeyField.keyOf s.key) s.name records else records

/-- What is known of a source once it is opened: its records, and what gates it. -/
structure Opened where
  records : Stream Value
  gate : Option Nat

/-- The source of an entry that is opened. -/
def sourceOf (j : JobEntry) (s : SourceEntry) (o : Opened) : Source Value Text :=
  Source.fresh (Feed.ofStream (recordsOf j s o.records)) (keyerOf s) o.gate

/-- Open sources in order, up to the first that fails; every opening is noted. -/
def openAll (w : Workspace) (rs : List RuptureEntry) :
    List SourceEntry → List Journal.Entry × Except Fault (List Opened)
  | [] => ([], .ok [])
  | s :: ss =>
    match Records.openSource w s with
    | .error f => ([], .error f)
    | .ok records =>
      match gateOf rs s with
      | .error f => ([Records.openingNote s], .error f)
      | .ok gate =>
        let r := openAll w rs ss
        (Records.openingNote s :: r.1, r.2.map (⟨records, gate⟩ :: ·))

/-- The engine of a job of which the sources are opened. -/
def engineOf (j : JobEntry) (opened : List Opened) : Engine Value Text :=
  let sources := j.sources.zipWith (sourceOf j) opened
  let ruptures := (byName j.ruptures).map ruptureOf
  let grouped := (List.range ruptures.length).foldl Synchronization.registerRupture .empty
  let gate (i : Nat) : Option Nat := (sources[i]?).bind (·.gate)
  ⟨⟨sources, ruptures⟩,
    (List.range sources.length).foldl (Synchronization.registerSource gate) grouped⟩

/-- Build a job. -/
def build (w : Workspace) (j : JobEntry) :
    List Journal.Entry × Except Fault (Engine Value Text) :=
  let r := openAll w (byName j.ruptures) j.sources
  (r.1, r.2.map (engineOf j))

end Lockstep.Job
