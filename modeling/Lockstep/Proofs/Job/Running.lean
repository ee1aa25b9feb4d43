import Lockstep.Job.Run
import Lockstep.Proofs.Counting
import Lockstep.Proofs.Engine.Visit

/-!
# The run of a job

Running a job drains the engine that is built of it, and its report is made of the steps that this
collects (`reportOf_eq`).  A job may need more steps than `run` lets it take; `runWithin` is `run`
with any budget.  A report comes out exactly of a run that has come to its end within the budget
(`exists_of_runWithin`), and whether records are kept changes nothing but the records
(`runWithin_keep_false`).
-/

namespace Lockstep.Job

open Lockstep.Config

/-- Run a job, from now on if no context is given, for at most `budget` steps. -/
def runWithin (budget : ℕ) (w : Workspace) (keep : Bool) (j : JobEntry)
    (context : Option RunContext) (clock : Clock) : Outcome :=
  match context with
  | some c => runIn budget w keep j c clock
  | none =>
    let c := RunContext.create j.name clock
    runIn budget w keep j c.1 c.2

theorem run_eq_runWithin : run = runWithin budget := rfl

variable {budget : ℕ} {w : Workspace} {keep : Bool} {j : JobEntry} {c : RunContext} {clock : Clock}
  {context : Option RunContext} {r : Report}

/-- The report is over the steps that draining the engine collects. -/
theorem reportOf_eq (budget : ℕ) (keep : Bool) (r : Report) (e : Engine Value Text) :
    reportOf budget keep r e =
      (match (e.drain budget .fresh).outcome with
        | .error f => .error f
        | .ok () =>
          if (e.drain budget .fresh).ended then
            .ok ((e.drain budget .fresh).result.foldl (Report.record keep showKey) r)
          else .error .unfinished,
        (e.drain budget .fresh).notes) := by
  have hfold : Engine.fold (fun r s => .ok (r.record keep showKey s)) budget r e .fresh = _ :=
    Engine.fold_eq_drain _ (List.foldlM_pure ..)
  unfold reportOf
  rw [hfold]
  dsimp only [Engine.Folded.conclusion]
  cases (e.drain budget .fresh).outcome with
  | error f => rfl
  | ok u => cases (e.drain budget .fresh).ended <;> rfl

/-- A report comes out of a run that has come to its end. -/
theorem exists_of_runIn (h : (runIn budget w keep j c clock).report = .ok r) :
    ∃ e runId, (build w j).2 = .ok e ∧ (e.drain budget .fresh).ended = true ∧
      (e.drain budget .fresh).outcome = .ok () ∧
      r = { (e.drain budget .fresh).result.foldl (Report.record keep showKey)
        (.start c.jobName runId (j.sources.map (·.name)) ((byName j.ruptures).map (·.name))) with
        elapsed := c.elapsed clock.now } := by
  unfold runIn at h
  dsimp only at h
  cases hb : (build w j).2 with
  | error f => simp [hb] at h
  | ok e =>
    cases hid : c.runId with
    | error f => simp [hb, hid] at h
    | ok runId =>
      simp only [hb, hid, reportOf_eq] at h
      cases ho : (e.drain budget .fresh).outcome with
      | error f => simp [ho] at h
      | ok u =>
        cases he : (e.drain budget .fresh).ended with
        | false => simp [ho, he] at h
        | true =>
          simp only [ho, he, if_true] at h
          exact ⟨e, runId, rfl, he, ho, (Except.ok.inj h).symm⟩

/-- Whether records are kept changes nothing but the records. -/
theorem runIn_keep_false (budget : ℕ) (w : Workspace) (j : JobEntry) (c : RunContext)
    (clock : Clock) : runIn budget w false j c clock = { runIn budget w true j c clock with
      report := (runIn budget w true j c clock).report.map fun r => { r with records := [] } } := by
  unfold runIn
  dsimp only
  cases (build w j).2 with
  | error f => rfl
  | ok e =>
    cases c.runId with
    | error f => rfl
    | ok runId =>
      simp only [reportOf_eq]
      cases (e.drain budget .fresh).outcome with
      | error f => rfl
      | ok u =>
        cases (e.drain budget .fresh).ended with
        | false => rfl
        | true =>
          simp only [if_true]
          rw [Report.foldl_record_false]
          · rfl
          · rfl

theorem exists_of_runWithin (h : (runWithin budget w keep j context clock).report = .ok r) :
    ∃ e jobName runId elapsed, (build w j).2 = .ok e ∧ (e.drain budget .fresh).ended = true ∧
      (e.drain budget .fresh).outcome = .ok () ∧
      r = { (e.drain budget .fresh).result.foldl (Report.record keep showKey)
        (.start jobName runId (j.sources.map (·.name)) ((byName j.ruptures).map (·.name))) with
        elapsed := elapsed } := by
  cases context with
  | some c =>
    obtain ⟨e, runId, hb, hrest⟩ := exists_of_runIn h
    exact ⟨e, _, runId, _, hb, hrest⟩
  | none =>
    obtain ⟨e, runId, hb, hrest⟩ := exists_of_runIn h
    exact ⟨e, _, runId, _, hb, hrest⟩

theorem runWithin_keep_false (budget : ℕ) (w : Workspace) (j : JobEntry)
    (context : Option RunContext) (clock : Clock) :
    runWithin budget w false j context clock = { runWithin budget w true j context clock with
      report := (runWithin budget w true j context clock).report.map fun r =>
        { r with records := [] } } := by
  cases context with
  | some c => exact runIn_keep_false budget w j c clock
  | none => exact runIn_keep_false budget w j _ _

end Lockstep.Job
