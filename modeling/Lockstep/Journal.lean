import Lockstep.Text.Blank

/-!
# The journal

Operations report what they do as entries with a level and the part of the program they come
from; a reader of the journal sees the entries from some level up.
-/

namespace Lockstep.Journal

/-- How important an entry is. -/
inductive Level
  | debug
  | info
  | warning
  deriving DecidableEq, Repr

/-- Levels in rising order. -/
def Level.rank : Level → Nat
  | .debug => 0
  | .info => 1
  | .warning => 2

/-- The name of a level. -/
def Level.name : Level → String
  | .debug => "DEBUG"
  | .info => "INFO"
  | .warning => "WARNING"

/-- The level with the given name. -/
def Level.ofName? (s : String) : Option Level :=
  [Level.debug, .info, .warning].find? fun l => l.name == s

/-- A part of the program that writes into the journal. -/
inductive Part
  | command
  | job
  | records
  | synchronization
  deriving DecidableEq, Repr

/-- The name of a part. -/
def Part.name : Part → String
  | .command => "breaksync.cli"
  | .job => "breaksync.job"
  | .records => "breaksync.readers"
  | .synchronization => "breaksync.sync"

/-- One entry. -/
structure Entry where
  level : Level
  part : Part
  text : Text
  deriving DecidableEq, Repr

/-- The entries from a level up. -/
def visible (least : Level) (es : List Entry) : List Entry :=
  es.filter fun e => least.rank ≤ e.level.rank

end Lockstep.Journal
