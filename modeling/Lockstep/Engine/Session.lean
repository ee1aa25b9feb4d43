import Lockstep.Engine.Run

/-!
# Sessions

A session holds a pool, several synchronizations over it and the runs that were begun, and
answers requests to any of them in any order.  Every request leaves a session, also one that
fails.  What is noted on the way is added to the journal.
-/

namespace Lockstep

/-- A run that was begun: whose it is, how far it has come, and its last step. -/
structure BegunRun (ρ κ : Type) where
  sync : Nat
  progress : Progress
  last : Option (Step ρ κ)

/-- A pool with synchronizations and runs. -/
structure Session (ρ κ : Type) where
  pool : Pool ρ κ
  syncs : List (Synchronization κ)
  runs : List (BegunRun ρ κ)
  journal : List Journal.Entry

namespace Session

variable {ρ κ : Type}

/-- A session with so many fresh synchronizations. -/
def start (sources : List (Source ρ κ)) (ruptures : List (Rupture κ)) (syncs : Nat) :
    Session ρ κ :=
  ⟨⟨sources, ruptures⟩, List.replicate syncs .empty, [], []⟩

/-- The synchronization of that number. -/
def sync (s : Session ρ κ) (k : Nat) : Synchronization κ := s.syncs.getD k .empty

/-- The engine of a synchronization. -/
def engine (s : Session ρ κ) (k : Nat) : Engine ρ κ := ⟨s.pool, s.sync k⟩

/-- Put an engine's pool and synchronization back. -/
def setEngine (s : Session ρ κ) (k : Nat) (e : Engine ρ κ) : Session ρ κ :=
  { s with pool := e.pool, syncs := s.syncs.set k e.sync }

/-- The run of that number. -/
def begun (s : Session ρ κ) (g : Nat) : BegunRun ρ κ := s.runs.getD g ⟨0, .finished, none⟩

/-- Perform an action on the pool. -/
def onPool (a : Action (Pool ρ κ)) (s : Session ρ κ) : Session ρ κ × Except Fault Unit :=
  let r := a s.pool
  ({ s with pool := r.1 }, r.2)

/-- Change the source of that number. -/
def modifySource (i : Nat) (f : Source ρ κ → Source ρ κ) (s : Session ρ κ) : Session ρ κ :=
  { s with pool := { s.pool with sources := s.pool.sources.modify i f } }

/-- Change the rupture of that number. -/
def modifyRupture (j : Nat) (f : Rupture κ → Rupture κ) (s : Session ρ κ) : Session ρ κ :=
  { s with pool := { s.pool with ruptures := s.pool.ruptures.modify j f } }

/-- Read from a source. -/
def read (i : Nat) (s : Session ρ κ) : Session ρ κ × Except Fault Unit := s.onPool (Pool.read i)

/-- Set whether a source is synchronized. -/
def setSynchronized (i : Nat) (b : Bool) (s : Session ρ κ) : Session ρ κ :=
  s.modifySource i fun x => { x with synchronized := b }

/-- Put parcels into a source's channel. -/
def put (i : Nat) (ps : List (Parcel ρ)) (s : Session ρ κ) : Session ρ κ :=
  s.modifySource i fun x => { x with feed := ps.foldl Feed.put x.feed }

/-- Set the last edge of a rupture. -/
def setLast (j : Nat) (b : Bool) (s : Session ρ κ) : Session ρ κ :=
  s.modifyRupture j fun r => { r with last := b }

/-- Change a synchronization by a registration, which may be refused. -/
def register (k : Nat) (f : Synchronization κ → Except Fault (Synchronization κ))
    (s : Session ρ κ) : Session ρ κ × Except Fault Unit :=
  match f (s.sync k) with
  | .ok y => ({ s with syncs := s.syncs.set k y }, .ok ())
  | .error e => (s, .error e)

/-- Register sources with a synchronization. -/
def addSources (k : Nat) (is : List Nat) (s : Session ρ κ) : Session ρ κ × Except Fault Unit :=
  s.register k (Synchronization.addSources (fun i => (s.pool.sources[i]?).bind (·.gate)) is)

/-- Register ruptures with a synchronization. -/
def addRuptures (k : Nat) (js : List Nat) (s : Session ρ κ) :
    Session ρ κ × Except Fault Unit :=
  s.register k (Synchronization.addRuptures js)

/-- Begin a run; nothing starts before it is first asked for a step. -/
def begin (k : Nat) (s : Session ρ κ) : Session ρ κ × Nat :=
  ({ s with runs := s.runs ++ [⟨k, .fresh, none⟩] }, s.runs.length)

/-- Close a run: it gives no further step. -/
def close (g : Nat) (s : Session ρ κ) : Session ρ κ :=
  { s with runs := s.runs.modify g fun r => { r with progress := .finished } }

/-- Whether a source took part in the last step of a run. -/
def isSynchronized (g : Nat) (i : Int) (s : Session ρ κ) : Except Fault Bool :=
  if i < 0 then .error .negativeIndex
  else .ok (((s.begun g).last.map (·.isSynchronized i.toNat)).getD true)

/-- How many steps a run may make when no limit is given. -/
def budget : Nat := 1000000000

section

variable [SyncKey κ]

/-- Compare a source with a key. -/
def synchronize (i : Nat) (key : Frontier κ) (s : Session ρ κ) :
    Session ρ κ × Except Fault Unit :=
  s.onPool (Pool.synchronize key i)

/-- Move a rupture on by one step. -/
def compute (j : Nat) (current next : Frontier κ) (force : Bool) (s : Session ρ κ) :
    Session ρ κ × Except Fault Bool :=
  match s.pool.ruptures[j]? with
  | none => (s, .ok false)
  | some r =>
    let t := r.compute current next force
    ({ s with pool := s.pool.setRupture j t.1 }, t.2)

/-- Hand the steps of a run to a visitor. -/
def foldRun {β : Type} (visit : β → Step ρ κ → Except Fault β) (limit : Nat) (b : β) (g : Nat)
    (s : Session ρ κ) : Session ρ κ × β × Except Fault Unit :=
  let run := s.begun g
  let visit (p : β × Option (Step ρ κ)) (t : Step ρ κ) : Except Fault (β × Option (Step ρ κ)) :=
    (visit p.1 t).map fun b => (b, some t)
  let r := Engine.fold visit limit (b, run.last) (s.engine run.sync) run.progress
  let s := s.setEngine run.sync r.engine
  ({ s with
      runs := s.runs.set g ⟨run.sync, r.progress, r.result.2⟩
      journal := s.journal ++ r.notes }, r.result.1, r.outcome)

/-- Ask a run for its next step. -/
def next (g : Nat) (s : Session ρ κ) : Session ρ κ × Except Fault (Option (Step ρ κ)) :=
  let r := s.foldRun (fun _ t => .ok (some t)) 1 none g
  (r.1, r.2.2.map fun _ => r.2.1)

/-- Ask a run for at most `limit` steps. -/
def drain (g limit : Nat) (s : Session ρ κ) :
    Session ρ κ × List (Step ρ κ) × Except Fault Unit :=
  let r := s.foldRun (fun b t => .ok (t :: b)) limit [] g
  (r.1, r.2.1.reverse, r.2.2)

/-- Begin a run and hand its steps to a visitor to the end; the run is gone afterwards.  One that
spends the budget is not finished. -/
def runAll {β : Type} (visit : β → Step ρ κ → Except Fault β) (b : β) (k : Nat)
    (s : Session ρ κ) : Session ρ κ × β × Except Fault Unit :=
  let r := Engine.fold visit budget b (s.engine k) .fresh
  let s := s.setEngine k r.engine
  ({ s with journal := s.journal ++ r.notes }, r.result, r.conclusion)

end

end Session

end Lockstep
