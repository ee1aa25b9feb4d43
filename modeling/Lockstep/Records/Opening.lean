import Lockstep.Config.Job
import Lockstep.Files.Workspace
import Lockstep.Journal
import Lockstep.Records.Delimited
import Lockstep.Records.JsonLines

/-!
# Opening sources

A source is opened when something stands at its path; what stands there is only read with the
first pull, so a directory is a fault of the stream and not of the opening.
-/

namespace Lockstep.Records

open Lockstep.Config

/-- The records of what stands at a path. -/
def stream (s : SourceEntry) : Node → Stream Value
  | .directory => [.error .directory]
  | .file bytes =>
    match s.format with
    | .delimited => delimited s.delimiter bytes
    | .jsonLines => jsonLines bytes

/-- The entry about an opening. -/
def openingNote (s : SourceEntry) : Journal.Entry :=
  ⟨.info, .records, "Opening ".toList ++ s.format.word.toList ++ " source ".toList ++ s.name ++
    " from ".toList ++ s.path.text⟩

/-- Open a source. -/
def openSource (w : Workspace) (s : SourceEntry) : Except Fault (Stream Value) :=
  match w.node? s.path with
  | none => .error (.sourceMissing s.name s.path.text)
  | some node => .ok (stream s node)

end Lockstep.Records
