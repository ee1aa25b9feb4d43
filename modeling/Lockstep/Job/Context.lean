import Lockstep.Fault

/-!
# Run contexts

A run is known by the name of its job and the instant at which it started.  Instants are counted
in microseconds of universal time since the start of year 1.  The clock is read step by step: each
reading gives the present instant and moves it on.
-/

namespace Lockstep

/-- A clock that moves on with every reading. -/
structure Clock where
  now : Int
  tick : Int
  deriving DecidableEq, Repr

/-- Read the clock. -/
def Clock.read (c : Clock) : Int × Clock := (c.now, { c with now := c.now + c.tick })

/-- The instant of a date and a time of day at a place so many minutes east of Greenwich. -/
def Moment.instantAt (minutes : Int) (m : Moment) : Int := m.instant - minutes * 60000000

/-- The instant of the given parts, if they are in range; a place is less than a day away. -/
def instantOf (year month day hour minute second microsecond minutesEast : Int) :
    Except Fault Int :=
  if minutesEast.natAbs < 1440 then
    match Moment.ofParts year month day hour minute second microsecond with
    | .ok m => .ok (m.instantAt minutesEast)
    | .error f => .error (.calendar f)
  else .error (.offsetRange minutesEast)

/-- The name of a job and the start of its run. -/
structure RunContext where
  jobName : Text
  started : Int
  deriving DecidableEq, Repr

namespace RunContext

/-- The name of a run: its start to the millisecond. -/
def runId (c : RunContext) : Except Fault Text :=
  match Moment.ofInstant? c.started with
  | some m => .ok (m.milliText ++ ['Z'])
  | none => .error .instantRange

/-- The seconds from the start to an instant. -/
def elapsed (c : RunContext) (now : Int) : Binary64 :=
  let micros := now - c.started
  Binary64.ofRatio (micros < 0) micros.natAbs 1000000

/-- The context of a run that starts now. -/
def create (jobName : Text) (clock : Clock) : RunContext × Clock :=
  let r := clock.read
  (⟨jobName, r.1⟩, r.2)

end RunContext

end Lockstep
