import Lockstep.Job.Build
import Lockstep.Job.Context
import Lockstep.Report.Basic

/-!
# Running a job

A job is built, run to its end or to the first fault, and reported on.  The clock is read once at
the end, and once at the start if no context is given.
-/

namespace Lockstep.Job

open Lockstep.Config

/-- What running a job leaves: its report or a fault, what was noted, and the clock. -/
structure Outcome where
  report : Except Fault Report
  journal : List Journal.Entry
  clock : Clock

/-- An entry of a job. -/
def note (text : Text) : Journal.Entry := ⟨.info, .job, text⟩

/-- The entry before the first step. -/
def startNote (c : RunContext) (runId : Text) : Journal.Entry :=
  note ("Running job ".toList ++ c.jobName ++ " run_id=".toList ++ runId)

/-- The entry after the last step. -/
def endNote (r : Report) : Journal.Entry :=
  note ("Job ".toList ++ r.jobName ++ " complete | steps=".toList ++ intText r.steps ++
    " matched=".toList ++ intText r.matched ++ " run_id=".toList ++ r.runId ++
    " elapsed=".toList ++ Binary64.fixedText 3 r.elapsed ++ ['s'])

/-- A key as it is recorded. -/
def showKey : Frontier Text → Text
  | .key k => k
  | .done => Value.endMark.repr

/-- The report of an engine over at most `budget` steps, with what was noted. -/
def reportOf (budget : Nat) (keep : Bool) (r : Report) (e : Engine Value Text) :
    Except Fault Report × List Journal.Entry :=
  let t := Engine.fold (fun r s => .ok (r.record keep showKey s)) budget r e .fresh
  (t.conclusion.map fun _ => t.result, t.notes)

/-- Run a job in a context for at most `budget` steps. -/
def runIn (budget : Nat) (w : Workspace) (keep : Bool) (j : JobEntry) (c : RunContext)
    (clock : Clock) : Outcome :=
  let built := build w j
  match built.2 with
  | .error f => ⟨.error f, built.1, clock⟩
  | .ok e =>
    match c.runId with
    | .error f => ⟨.error f, built.1, clock⟩
    | .ok runId =>
      let start := Report.start c.jobName runId (j.sources.map (·.name))
        ((byName j.ruptures).map (·.name))
      let r := reportOf budget keep start e
      let journal := built.1 ++ startNote c runId :: r.2
      match r.1 with
      | .error f => ⟨.error f, journal, clock⟩
      | .ok report =>
        let t := clock.read
        let report := { report with elapsed := c.elapsed t.1 }
        ⟨.ok report, journal ++ [endNote report], t.2⟩

/-- How many steps a job may take. -/
def budget : Nat := 1000000000

/-- Run a job, from now on if no context is given. -/
def run (w : Workspace) (keep : Bool) (j : JobEntry) (context : Option RunContext)
    (clock : Clock) : Outcome :=
  match context with
  | some c => runIn budget w keep j c clock
  | none =>
    let c := RunContext.create j.name clock
    runIn budget w keep j c.1 c.2

end Lockstep.Job
