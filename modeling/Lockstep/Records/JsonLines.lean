import Lockstep.Records.FileLines
import Lockstep.Json.Reading

/-!
# JSON lines

Every line of the file that is not blank is one JSON value.  The first line that is none ends
the stream.
-/

namespace Lockstep.Records

/-- Read each line that is not blank. -/
def jsonRecords : Stream Text → Stream Value
  | [] => []
  | .error f :: _ => [.error f]
  | .ok line :: lines =>
    if (Text.strip line).isEmpty then jsonRecords lines
    else
      match Json.ofText line with
      | .ok v => .ok v :: jsonRecords lines
      | .error f => [.error f]

/-- The records of a file of JSON lines. -/
def jsonLines (bytes : List UInt8) : Stream Value :=
  jsonRecords ((fileLines bytes).map fun line => line.map Text.unifyEnds)

end Lockstep.Records
