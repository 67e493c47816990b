/-
# Access kinds

The `access_type` enumeration of `memtracer.h`, shared by the MMU, the memory
tracers and the DRAM port of the ORAM controller.
-/

import Mathlib

namespace SpikeSim

/-- `access_type`: what a memory access is for. -/
inductive AccessType
  | load
  | store
  | fetch
  deriving DecidableEq, Repr

end SpikeSim
