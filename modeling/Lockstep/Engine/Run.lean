import Lockstep.Engine.Synchronization
import Lockstep.Journal

/-!
# Runs

A run asks a synchronization for its steps, one at a time; between two steps it rests, and what
others do to the sources and ruptures meanwhile counts for the next step.  Its progress is
`fresh` until it is first asked, then `paused` after a step, and `finished` after the last step
or a fault.

`Engine.resume` asks for one step.  A synchronization runs at most once: a fresh run of one that
is started fails.  `Engine.fold` keeps asking and hands each step to a visitor, within a budget
of steps; `Engine.drain` collects the steps.
-/

namespace Lockstep

/-- How far a run has come. -/
inductive Progress
  | fresh
  | paused (number : Nat)
  | finished
  deriving DecidableEq, Repr

/-- The answer to a request for a step: the step, or that there is none, or a fault; with what
is left of the run and what is noted in the journal. -/
structure Resumed (ρ κ : Type) where
  engine : Engine ρ κ
  progress : Progress
  outcome : Except Fault (Option (Step ρ κ))
  notes : List Journal.Entry

namespace Engine

variable {ρ κ : Type} [SyncKey κ]

/-- An entry of the synchronization. -/
def note (level : Journal.Level) (text : Text) : Journal.Entry :=
  ⟨level, .synchronization, text⟩

/-- The entry at the start. -/
def startNote (e : Engine ρ κ) : Journal.Entry :=
  note .info ("Starting synchronization of ".toList ++ natText e.sync.sources.length ++
    " source(s) with ".toList ++ natText e.sync.ruptures.length ++ " rupture(s)".toList)

/-- The entry of a step. -/
def stepNote (e : Engine ρ κ) (s : Step ρ κ) : Journal.Entry :=
  note .debug ("Step ".toList ++ natText s.number ++ " key=".toList ++ s.key.quoted ++
    " next=".toList ++ (e.sync.nextKey.getD .done).quoted ++ " desync=".toList ++
    natText s.desync)

/-- The entry after the last step. -/
def endNote (number : Nat) : Journal.Entry :=
  note .info ("Synchronization finished after ".toList ++ natText number ++ " step(s)".toList)

/-- The step after step `number`, if one is left. -/
def resumeAt (e : Engine ρ κ) (number : Nat) : Resumed ρ κ :=
  if e.sync.ended then ⟨e, .finished, .ok none, [endNote number]⟩
  else
    match e.turn with
    | (e, .ok ()) =>
      let s := e.snapshot (number + 1)
      ⟨e, .paused (number + 1), .ok (some s), [e.stepNote s]⟩
    | (e, .error f) => ⟨e, .finished, .error f, []⟩

/-- Start the synchronization and make the first step. -/
def resumeFresh (e : Engine ρ κ) : Resumed ρ κ :=
  if e.sync.started then ⟨e, .finished, .error .alreadyRun, []⟩
  else
    let e := { e with sync := { e.sync with started := true } }
    match e.prime with
    | (p, .ok ()) =>
      let r := p.resumeAt 0
      { r with notes := e.startNote :: r.notes }
    | (p, .error f) => ⟨p, .finished, .error f, [e.startNote]⟩

/-- Ask a run for its next step. -/
def resume (e : Engine ρ κ) : Progress → Resumed ρ κ
  | .fresh => e.resumeFresh
  | .paused number => e.resumeAt number
  | .finished => ⟨e, .finished, .ok none, []⟩

@[simp] theorem resume_finished (e : Engine ρ κ) :
    e.resume .finished = ⟨e, .finished, .ok none, []⟩ := rfl

/-- What is left after handing steps to a visitor: `ended` tells whether the run was asked to
its end. -/
structure Folded (ρ κ β : Type) where
  engine : Engine ρ κ
  progress : Progress
  result : β
  ended : Bool
  outcome : Except Fault Unit
  notes : List Journal.Entry

/-- How a run that was to go to its end has ended: it is not finished if the budget was spent. -/
def Folded.conclusion {β : Type} (t : Folded ρ κ β) : Except Fault Unit :=
  match t.outcome with
  | .error f => .error f
  | .ok () => if t.ended then .ok () else .error .unfinished

/-- Hand each step to a visitor until there is none, something fails, or the budget is spent. -/
def fold {β : Type} (visit : β → Step ρ κ → Except Fault β) :
    (budget : Nat) → β → Engine ρ κ → Progress → Folded ρ κ β
  | 0, b, e, g => ⟨e, g, b, false, .ok (), []⟩
  | n + 1, b, e, g =>
    let r := e.resume g
    match r.outcome with
    | .error f => ⟨r.engine, r.progress, b, true, .error f, r.notes⟩
    | .ok none => ⟨r.engine, r.progress, b, true, .ok (), r.notes⟩
    | .ok (some s) =>
      match visit b s with
      | .error f => ⟨r.engine, .finished, b, true, .error f, r.notes⟩
      | .ok b =>
        let t := fold visit n b r.engine r.progress
        { t with notes := r.notes ++ t.notes }

/-- Collect the steps of a run, at most `budget` of them. -/
def drain (budget : Nat) (e : Engine ρ κ) (g : Progress) : Folded ρ κ (List (Step ρ κ)) :=
  let r := fold (fun b s => .ok (s :: b)) budget [] e g
  { r with result := r.result.reverse }

@[simp] theorem fold_zero {β : Type} (visit : β → Step ρ κ → Except Fault β) (b : β)
    (e : Engine ρ κ) (g : Progress) : fold visit 0 b e g = ⟨e, g, b, false, .ok (), []⟩ := rfl

end Engine

end Lockstep
