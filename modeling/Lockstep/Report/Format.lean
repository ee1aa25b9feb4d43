import Lockstep.Json.Writing
import Lockstep.Report.Basic
import Lockstep.Table.Basic

/-!
# Formats of reports

A report is written as tables for readers or as JSON for programs, with its step records or
without them.
-/

namespace Lockstep

/-- The formats of reports. -/
inductive ReportFormat
  | table
  | json
  deriving DecidableEq, Repr

namespace ReportFormat

/-- The word for a format. -/
def word : ReportFormat → String
  | .table => "table"
  | .json => "json"

/-- The format with the given word. -/
def ofText (s : Text) : Except Fault ReportFormat :=
  if s == "table".toList then .ok .table
  else if s == "json".toList then .ok .json
  else .error (.unknownFormat s)

end ReportFormat

namespace Report

/-- A name for a member. -/
def member (name : String) (v : Value) : Value × Value := (.text name.toList, v)

/-- A tally as a value. -/
def tallyValue (t : Tally) : Value := .dict (t.map fun e => (.text e.1, .int e.2))

/-- Names as a value. -/
def namesValue (names : List Text) : Value := .list (names.map .text)

/-- A step record as a value. -/
def recordValue (r : StepRecord) : Value :=
  .dict [member "number" (.int r.number), member "key" (.text r.key),
    member "synchronized" (namesValue r.synchronized), member "breaks" (namesValue r.breaks)]

/-- How many places the seconds of a run are rounded to. -/
def secondPlaces : Nat := 3

/-- A report as a value. -/
def toValue (showSteps : Bool) (r : Report) : Value :=
  .dict ([member "job_name" (.text r.jobName), member "run_id" (.text r.runId),
    member "steps" (.int r.steps), member "matched" (.int r.matched),
    member "elapsed_seconds" (.float (r.elapsed.roundPlaces secondPlaces)),
    member "synchronized" (tallyValue r.synchronized), member "breaks" (tallyValue r.breaks)] ++
    (if showSteps then [member "step_records" (.list (r.records.map recordValue))] else []))

/-- The first line of a report. -/
def headline (r : Report) : Text :=
  "Job ".toList ++ r.jobName ++ " run_id=".toList ++ r.runId ++ " | steps=".toList ++
    intText r.steps ++ " matched=".toList ++ intText r.matched

/-- The rows of a tally. -/
def tallyRows (kind : String) (t : Tally) : List (List Text) :=
  t.map fun e => [kind.toList, e.1, intText e.2]

/-- The table of the counts. -/
def summary (r : Report) : Except Fault Text :=
  Table.write ["kind".toList, "name".toList, "count".toList]
    (tallyRows "source" r.synchronized ++ tallyRows "rupture" r.breaks)

/-- The row of a step record. -/
def recordRow (r : Report) (s : StepRecord) : List Text :=
  let broken := Text.joinWith [','] s.breaks
  [intText s.number, s.key] ++
    r.sourceNames.map (fun n => if s.synchronized.contains n then ['x'] else ['-']) ++
    [if broken.isEmpty then ['-'] else broken]

/-- The table of the step records. -/
def stepTable (r : Report) : Except Fault Text :=
  Table.write (["step".toList, "key".toList] ++ r.sourceNames ++ ["breaks".toList])
    (r.records.map (recordRow r))

/-- What is written of the step records. -/
def stepPart (r : Report) : Except Fault Text :=
  if r.records.isEmpty then .ok "No step records kept.".toList else r.stepTable

/-- A report as tables. -/
def tableText (showSteps : Bool) (r : Report) : Except Fault Text := do
  let summary ← r.summary
  let parts := [r.headline, summary]
  let parts ← if showSteps then r.stepPart.map fun t => parts ++ [t] else .ok parts
  .ok (Text.joinWith ['\n', '\n'] parts)

/-- A report in a format. -/
def write (format : ReportFormat) (showSteps : Bool) (r : Report) : Except Fault Text :=
  match format with
  | .table => r.tableText showSteps
  | .json => .ok (Json.write (r.toValue showSteps))

end Report

end Lockstep
