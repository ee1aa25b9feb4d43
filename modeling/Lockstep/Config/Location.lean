import Lockstep.Environment.Variables
import Lockstep.Fault
import Lockstep.Files.Workspace
import Lockstep.Text.Lines

/-!
# Where the job file is

A job file is named on the command line, by a variable of the process, or not at all, in which
case it stands at a fixed place.  When none is named on the command line, the file of bindings in
the working directory is loaded first, if there is one, and what it sets stays set.
-/

namespace Lockstep.Config

open Lockstep.Environment

/-- What surrounds a program: its files, its variables, and whether it can read files of
bindings. -/
structure Surroundings where
  workspace : Workspace
  environment : Variables
  readsBindings : Bool

namespace Surroundings

/-- The variable that names the job file. -/
def configVariable : Text := "BREAKSYNC_CONFIG_PATH".toList

/-- The job file when none is named. -/
def defaultConfig : Path := Path.ofText "config/breaksync.yaml".toList

/-- The file of bindings. -/
def bindingsFile : Path := Path.ofText ".env".toList

/-- What the file of bindings says; nothing when there is none. -/
def bindings (s : Surroundings) : Except Fault Text :=
  match s.workspace.node? bindingsFile with
  | none => .ok []
  | some node =>
    if !s.readsBindings then .error .environmentReaderMissing
    else
      match node with
      | .directory => .ok []
      | .file bytes =>
        match Utf8.decode bytes with
        | .error f => .error (.notUtf8 f)
        | .ok text => .ok (Text.unifyEnds text)

/-- The surroundings with the file of bindings loaded. -/
def loadBindings (s : Surroundings) : Except Fault Surroundings :=
  s.bindings.map fun text => { s with environment := s.environment.load text }

/-- The variables on which the place of the job file depends. -/
def mentioned (s : Surroundings) : List Text :=
  match s.bindings with
  | .ok text => configVariable :: Variables.mentioned text
  | .error _ => [configVariable]

/-- The job file that the variable names, or the one at the fixed place. -/
def configured (s : Surroundings) : Path :=
  let named := Text.strip ((s.environment.get? configVariable).getD [])
  if named.isEmpty then defaultConfig else Path.ofText named

/-- The job file, and the surroundings after looking for it. -/
def locate (given : Option Text) (s : Surroundings) : Except Fault (Path × Surroundings) :=
  match given.filter fun p => !p.isEmpty with
  | some p => .ok (Path.ofText p, s)
  | none => s.loadBindings.map fun s => (s.configured, s)

end Surroundings

end Lockstep.Config
