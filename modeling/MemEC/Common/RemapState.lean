/-!
# The states of a server

The coordinator and the clients keep a state for every server. A client waits in
two states of its own until all clients have followed.
-/

namespace MemEC.Common

inductive RemapState
  | undefined
  | normal
  /-- Phase 1a. -/
  | intermediate
  /-- Phase 1b. -/
  | coordinated
  /-- Phase 2. -/
  | degraded
  | waitDegraded
  | waitNormal
  deriving DecidableEq

end MemEC.Common
