import Lockstep.Command.Request
import Lockstep.Config.Loading
import Lockstep.Job.Run

/-!
# Answers of the command line

A request is answered with an exit code, what is written to the two outputs, and what is noted.
Some faults are reported to the user; any other one escapes, and is part of the answer.

* code 0: the request was fulfilled;
* code 1: a fault, reported or escaped;
* code 2: the words make no request.
-/

namespace Lockstep.Command

open Lockstep.Config

/-- An answer. -/
structure Answer where
  code : Nat
  output : Text
  errors : Text
  escaped : Option Fault
  journal : List Journal.Entry
  /-- Whether every step is to be shown of the journal. -/
  verbose : Bool

/-- How the program is used. -/
def usage : List Text :=
  ["run [--config PATH] [--format table|json] [--steps] [--verbose]".toList,
    "check [--config PATH]".toList]

namespace Answer

/-- Lines, each with its end. -/
def linesOf (lines : List Text) : Text := lines.flatMap fun l => l ++ ['\n']

/-- The request was fulfilled. -/
def done (lines : List Text) : Answer := ⟨0, linesOf lines, [], none, [], false⟩

/-- A fault was reported. -/
def reported (f : Fault) : Answer :=
  ⟨1, [], linesOf [(f.message.getD "").toList], none, [], false⟩

/-- A fault escaped. -/
def escape (f : Fault) : Answer := ⟨1, [], [], some f, [], false⟩

/-- The words make no request. -/
def misused : Answer := ⟨2, [], linesOf usage, none, [], false⟩

/-- The answer with what was noted before it. -/
def noting (es : List Journal.Entry) (a : Answer) : Answer := { a with journal := es ++ a.journal }

end Answer

/-- Whether a fault in finding or loading a job is reported. -/
def isLoadFault (f : Fault) : Bool :=
  match f.family with
  | .fileMissing | .value | .unsorted | .encoding | .json | .invalid => true
  | _ => false

/-- Answer a fault in finding or loading a job. -/
def answerLoadFault (f : Fault) : Answer := if isLoadFault f then .reported f else .escape f

/-- Answer a fault in running a job: only a missing source is reported. -/
def answerRunFault (f : Fault) : Answer :=
  if f.family == .fileMissing then .reported f else .escape f

/-- The entry before a job is run. -/
def startNote (job : Text) (path : Path) (runId : Text) : Journal.Entry :=
  ⟨.info, .command, "Starting job ".toList ++ job ++ " from ".toList ++ path.text ++
    " run_id=".toList ++ runId⟩

/-- Run a loaded job. -/
def answerRun (w : Workspace) (clock : Clock) (format : ReportFormat) (steps : Bool) (path : Path)
    (job : JobEntry) : Answer :=
  let c := RunContext.create job.name clock
  match c.1.runId with
  | .error f => .escape f
  | .ok runId =>
    let r := Job.run w steps job (some c.1) c.2
    let answer :=
      match r.report with
      | .error f => answerRunFault f
      | .ok report =>
        match report.write format steps with
        | .error f => .escape f
        | .ok text => .done [text]
    answer.noting (startNote job.name path runId :: r.journal)

/-- The line about a source. -/
def sourceLine (s : SourceEntry) : Text :=
  "source ".toList ++ s.name ++ " format=".toList ++ s.format.word.toList ++ " key=".toList ++
    Text.joinWith ['+'] (s.key.map (·.field)) ++ " rupture=".toList ++
    s.binding?.getD ['-'] ++ " path=".toList ++ s.path.text

/-- The line about a rupture. -/
def ruptureLine (r : RuptureEntry) : Text :=
  "rupture ".toList ++ r.name ++ " width=".toList ++ (r.width.map natText).getD ['-']

/-- What is told about a job that was loaded. -/
def checkLines (j : JobEntry) : List Text :=
  ("Job ".toList ++ j.name ++ " is valid | sources=".toList ++ natText j.sources.length ++
    " ruptures=".toList ++ natText j.ruptures.length) ::
    (j.sources.map sourceLine ++ j.ruptures.map ruptureLine)

/-- Answer a request, with a reader of job files. -/
def answerRequest (read : Reader) (s : Surroundings) (clock : Clock) : Request → Answer
  | .help => .done usage
  | .check config =>
    match loadBy read config s with
    | .error f => answerLoadFault f
    | .ok (_, job) => .done (checkLines job)
  | .run config format steps verbose =>
    let answer :=
      match loadBy read config s with
      | .error f => answerLoadFault f
      | .ok (path, job) => answerRun s.workspace clock format steps path job
    { answer with verbose := verbose }

/-- Answer the words of a command line. -/
def answer (s : Surroundings) (clock : Clock) (words : List Text) : Answer :=
  match Request.ofWords? words with
  | none => .misused
  | some r => answerRequest Yaml.value s clock r

end Lockstep.Command
