import Std.Time.DateTime.Timestamp
import Lockstep.Command.Answer
import Lockstep.Command.Needs

/-!
# The command line

What a request looks at is read first; then it is answered, and the answer is printed.  The
clock of the answer starts at the present and moves on by as long as answering takes.
-/

namespace Lockstep.Command

open Lockstep.Config

/-- What stands at a path; a file that cannot be read counts as nothing. -/
def nodeAt (path : Path) : IO (Option Node) := do
  let name := String.ofList path.text
  match ← (IO.FS.readBinFile name).toBaseIO with
  | .ok bytes => return some (.file bytes.toList)
  | .error _ =>
    match ← (IO.FS.realPath name).toBaseIO with
    | .ok whole => return if ← whole.isDir then some .directory else none
    | .error _ => return none

/-- The variables of the process with the given names. -/
def variablesOf (names : List Text) : IO Environment.Variables := do
  let found ← names.eraseDups.mapM fun name => do
    return (← IO.getEnv (String.ofList name)).map fun value => (name, value.toList)
  return found.filterMap id

/-- Look at what words need, in so many rounds. -/
def survey (words : List Text) : (rounds : Nat) → List (Path × Option Node) → IO Surroundings
  | rounds, places => do
    let blank : Surroundings := ⟨Workspace.ofPlaces places, [], true⟩
    let s := { blank with environment := ← variablesOf blank.mentioned }
    match rounds with
    | 0 => return s
    | rounds + 1 =>
      let unseen := (needsOf s words).filter fun p => !(places.map (·.1)).contains p
      let seen ← unseen.mapM fun p => do return (p, ← nodeAt p)
      survey words rounds (places ++ seen)

/-- The microseconds of universal time since the start of year 1. -/
def present : IO Int := do
  let sinceEpoch := (← Std.Time.Timestamp.now).toNanosecondsSinceUnixEpoch.val / 1000
  return sinceEpoch + (⟨1970, 1, 1, 0, 0, 0, 0⟩ : Moment).instant

/-- The present as it stands in front of a line. -/
def stamp (now : Int) : String :=
  String.ofList (((Moment.ofInstant? now).map Moment.milliText).getD [])

/-- Print an answer. -/
def print (a : Answer) : IO Unit := do
  let out ← IO.getStdout
  let err ← IO.getStderr
  for e in Journal.visible (if a.verbose then .debug else .info) a.journal do
    err.putStrLn (stamp (← present) ++ " | " ++ e.level.name ++ " | " ++ e.part.name ++ " | " ++
      String.ofList e.text)
  out.putStr (String.ofList a.output)
  err.putStr (String.ofList a.errors)
  if let some f := a.escaped then
    err.putStrLn (f.message.getD "The input cannot be read")

end Lockstep.Command

open Lockstep.Command in
/-- Answer the words of a command line. -/
def main (args : List String) : IO UInt32 := do
  let words := args.map (·.toList)
  let s ← survey words rounds []
  let start ← present
  -- The first answer tells how long answering takes.
  let _ ← IO.lazyPure fun _ => (answer s ⟨start, 0⟩ words).code
  let finish ← present
  let a := answer s ⟨start, finish - start⟩ words
  print a
  return a.code.toUInt32
