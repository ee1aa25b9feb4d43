import Lockstep.Command.Request
import Lockstep.Config.Loading

/-!
# What a request looks at

A request looks at the file of bindings, at the job file, and a run looks at the files of its
sources.  `needs` lists those places as far as they can be told: the job file only when the
bindings are known, and the sources only when the job file is.  Three rounds of looking
therefore see everything.
-/

namespace Lockstep.Command

open Lockstep.Config

/-- The places from which a job is loaded. -/
def jobPlaces (given : Option Text) (s : Surroundings) : List Path :=
  Surroundings.bindingsFile ::
    match s.locate given with
    | .ok (path, _) => [path]
    | .error _ => []

/-- The places of the sources of a job. -/
def sourcePlaces (given : Option Text) (s : Surroundings) : List Path :=
  match load given s with
  | .ok (_, job) => job.sources.map (·.path)
  | .error _ => []

/-- The places at which a request looks. -/
def needs (s : Surroundings) : Request → List Path
  | .help => []
  | .check given => jobPlaces given s
  | .run given _ _ _ => jobPlaces given s ++ sourcePlaces given s

/-- The places at which the words of a command line look. -/
def needsOf (s : Surroundings) (words : List Text) : List Path :=
  match Request.ofWords? words with
  | none => []
  | some r => needs s r

/-- How many rounds of looking see everything. -/
def rounds : Nat := 3

end Lockstep.Command
