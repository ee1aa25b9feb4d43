import Lockstep.Records.Ordered
import Lockstep.Text.Lines
import Lockstep.Text.Utf8

/-!
# The lines of a file

A file is read as UTF-8 in blocks and cut after its line ends.  The lines that are complete before
the block in which a fault is met are handed out before it.
-/

namespace Lockstep.Records

/-- The lines that are complete although the file is cut off after them: a carriage return at
the very end may be half of a line end. -/
def completeLines (s : Text) : List Text :=
  let s := if s.getLast? == some '\r' then s.dropLast else s
  (Lines.afterEnds s).filter fun l => l.getLast? == some '\n' || l.getLast? == some '\r'

/-- The lines of a file, with their ends. -/
def fileLines (bytes : List UInt8) : Stream Text :=
  match Utf8.decode bytes with
  | .ok s => (Lines.afterEnds s).map .ok
  | .error f =>
    let p := Utf8.beforeFault bytes f
    (completeLines p.1).map .ok ++ [.error (.notUtf8 p.2)]

end Lockstep.Records
