import Lockstep.Config.Job
import Lockstep.Config.Location
import Lockstep.Yaml.Document

/-!
# Loading a job file

The text of a job file is read as a value; this has to be a mapping from texts, and an empty value
counts as an empty mapping.  The paths of the sources are seen from the directory of the job file.

Which value a text has is for a reader of YAML documents to say, and what it fails with is passed
on as it is.  All but `load` takes any reader; `load` takes `Yaml.value`.
-/

namespace Lockstep.Config

/-- A reader of the text of a job file. -/
abbrev Reader := Text → Except Fault Value

/-- The job that a value describes; a value that is empty describes as much as no members. -/
def jobOfValue (v : Value) : Except Fault JobEntry :=
  match if v.isEmpty then .dict [] else v with
  | .dict es =>
    if es.all fun e => e.1.kind == .text then
      match JobEntry.check (.dict es) with
      | .ok j => .ok j
      | .error issues => .error (.invalidJob issues)
    else .error .memberNotText
  | v => .error (.notMapping v.kind)

section

variable (read : Reader)

/-- The job that a text describes. -/
def jobOfText (s : Text) : Except Fault JobEntry := do
  let v ← read s
  jobOfValue v

/-- The job that the bytes of a file describe. -/
def jobOfBytes (bytes : List UInt8) : Except Fault JobEntry :=
  match Utf8.decode bytes with
  | .error f => .error (.notUtf8 (Utf8.beforeFault bytes f).2)
  | .ok text => jobOfText read (Text.unifyEnds text)

/-- The job in what stands at a path, with its sources seen from there. -/
def loadFrom (w : Workspace) (p : Path) : Except Fault JobEntry :=
  match w.node? p with
  | none => .error (.configMissing p.text)
  | some .directory => .error .directory
  | some (.file bytes) => (jobOfBytes read bytes).map (JobEntry.resolve p.parent)

/-- Find and load a job: where it was found, and what it says. -/
def loadBy (given : Option Text) (s : Surroundings) : Except Fault (Path × JobEntry) := do
  let (path, s) ← s.locate given
  let job ← loadFrom read s.workspace path
  .ok (path, job)

end

/-- Find a job and load it as YAML. -/
def load (given : Option Text) (s : Surroundings) : Except Fault (Path × JobEntry) :=
  loadBy Yaml.value given s

end Lockstep.Config
