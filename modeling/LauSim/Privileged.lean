/-
`client/src/privileged.c`: the injector of the privileged backend. Of its network
switch only the state is implemented.
-/
import LauSim.Backend

set_option autoImplicit false

namespace LauSim

open Backend

/-- The globals of the backend. -/
structure Privileged where
  net_status : UInt64
  deriving DecidableEq, Repr

namespace Privileged

/-- The state at load time. -/
def initial : Privileged := { net_status := 0 }

def switch_net (severity : UInt64) (s : Privileged) : Privileged :=
  if s.net_status = 0 ∧ severity ≠ 0 then { s with net_status := 1 }
  else if s.net_status ≠ 0 ∧ severity = 0 then { s with net_status := 0 }
  else s

def lauSim_cleanup (s : Privileged) : Privileged := switch_net 0 s

def lauSim_set_state (sys : UInt32) (severity : UInt64) (s : Privileged) : Proc Privileged :=
  if sys = SUBSYS_NET then .running 0 (switch_net severity s)
  else if sys = SUBSYS_PWR then .exited
  else if sys = SUBSYS_MEM then .running 0 s
  else .running 1 s

/-- The privileged backend, as the command loop is linked with it. -/
def injector : Injector Privileged where
  lauSim_set_state := lauSim_set_state
  lauSim_cleanup := lauSim_cleanup
  net_state := net_status

end Privileged

end LauSim
