/-
`client/src/preload.c`: the injector of the preload backend, with its table of
sockets.

The library hooks `socket`, `accept` and `close` of the application. What the
libc functions return is an input of the model. Two things are kept beside the
variables of the source:

* `accesses`, the uses made of the pointer `fds`: what `realloc` and `free` were
  given, and which `fds[i]` was read or written. The pointer is an explicit
  value (`Ptr`) with the number of bytes asked for; the table's contents are the
  list of its first `num_fds` entries, as the code means them, whether or not an
  access was inside the allocation.
* `socks`, the open descriptors the hooked calls returned: whether they count
  as network sockets (created with an internet domain, or accepted on a socket
  of the table), and whether `shutdown` was called on them.

Allocations succeed; the mutex makes every operation one step.
-/
import LauSim.Lib.Runs
import LauSim.Backend

set_option autoImplicit false

namespace LauSim

open Backend Runs

/-- The pointer `lauSim_state.fds`. -/
inductive Ptr where
  | null
  | live (bytes : ℕ)
  | freed
  deriving DecidableEq, Repr

/-- A use of the pointer. -/
inductive Access where
  | realloc (p : Ptr) (size : ℕ)
  | free (p : Ptr)
  | index (p : Ptr) (i : ℕ)
  deriving DecidableEq, Repr

/-- `sizeof (int)`. -/
def sizeofInt : ℕ := 4

/-- An access the C standard defines. -/
def Access.Safe : Access → Prop
  | .realloc p _ => p ≠ .freed
  | .free p => p ≠ .freed
  | .index p i => ∃ bytes, p = .live bytes ∧ (i + 1) * sizeofInt ≤ bytes

/-- An open descriptor, as the kernel knows it. -/
structure Sock where
  fd : Int
  net : Bool
  shut : Bool
  deriving DecidableEq, Repr

/-- `lauSim_state`, with the two records. The table is the list of its first
`num_fds` entries. -/
structure Preload where
  net_state : UInt64
  fds : Ptr
  table : List Int
  accesses : List Access
  socks : List Sock
  deriving DecidableEq, Repr

namespace Preload

/-- The state at load time. -/
def initial : Preload :=
  { net_state := 0, fds := .null, table := [], accesses := [], socks := [] }

/-- `lauSim_state.num_fds`. -/
def num_fds (s : Preload) : ℕ := s.table.length

/-- The reads and writes of `fds[0]`, ..., `fds[n - 1]`. -/
def indices (p : Ptr) (n : ℕ) : List Access := (List.range n).map (Access.index p)

/-- `realloc (p, size)` for a size that is not 0. -/
def realloc (_ : Ptr) (size : ℕ) : Ptr := .live size

/-- `free (p)`. -/
def free : Ptr → Ptr
  | .null => .null
  | .live _ => .freed
  | .freed => .freed

/-! ## The table -/

/-- The new size is the new *count*, in bytes. -/
def add_sock_to_list (sock : Int) (s : Preload) : Int × Preload :=
  if sock < 0 then (1, s)
  else
    let fds := realloc s.fds (s.num_fds + 1)
    (0, { s with
          fds := fds
          table := s.table ++ [sock]
          accesses := s.accesses ++ [.realloc s.fds (s.num_fds + 1), .index fds s.num_fds] })

/-- The loop index stops at the first entry that is `sock`. -/
def is_in_list (sock : Int) (s : Preload) : Bool × Preload :=
  let i := s.table.idxOf sock
  (decide (i < s.num_fds),
   { s with accesses := s.accesses ++ indices s.fds (min (i + 1) s.num_fds) })

/-- The entries behind the first match move down by one, so the loop and the
`memmove` together touch every entry. -/
def remove_sock_from_list (sock : Int) (s : Preload) : Int × Preload :=
  let i := s.table.idxOf sock
  let s' := { s with accesses := s.accesses ++ indices s.fds s.num_fds }
  if i < s.num_fds then (0, { s' with table := s.table.eraseIdx i }) else (1, s')

/-! ## The hooks -/

/-- `AF_INET` and `AF_INET6`. -/
def inet (domain : Int) : Bool := domain = 2 || domain = 10

/-- The kernel opens a descriptor, unless the call failed. -/
def opened (ret : Int) (net : Bool) (s : Preload) : Preload :=
  if ret < 0 then s else { s with socks := s.socks ++ [{ fd := ret, net := net, shut := false }] }

/-- `socket (domain, ...)`, where the libc function returns `ret`. -/
def socket (domain ret : Int) (s : Preload) : Preload :=
  let s := opened ret (inet domain) s
  if inet domain then (add_sock_to_list ret s).2 else s

/-- `accept (sock, ...)`, where the libc function returns `ret`. -/
def accept (sock ret : Int) (s : Preload) : Preload :=
  let s := opened ret (s.table.contains sock) s
  match is_in_list sock s with
  | (true, s) => (add_sock_to_list ret s).2
  | (false, s) => s

/-- `close (fd)`. -/
def close (fd : Int) (s : Preload) : Preload :=
  let s := (remove_sock_from_list fd s).2
  { s with socks := s.socks.filter (fun d => d.fd != fd) }

/-! ## The network switch -/

/-- `shutdown (fd, SHUT_RDWR)` for every entry of the table. -/
def shutdown (table : List Int) (socks : List Sock) : List Sock :=
  socks.map (fun d => if table.contains d.fd then { d with shut := true } else d)

def lauSim_switch_net (severity : UInt64) (s : Preload) : Preload :=
  if s.net_state = 0 ∧ severity ≠ 0 then
    -- `fds` keeps its value when it is freed
    { net_state := 1
      fds := free s.fds
      table := []
      accesses := s.accesses ++ (indices s.fds s.num_fds ++ [.free s.fds])
      socks := shutdown s.table s.socks }
  else if s.net_state ≠ 0 ∧ severity = 0 then { s with net_state := 0 }
  else s

def lauSim_cleanup (s : Preload) : Preload := lauSim_switch_net 0 s

def lauSim_set_state (sys : UInt32) (severity : UInt64) (s : Preload) : Proc Preload :=
  if sys = SUBSYS_NET then .running 0 (lauSim_switch_net severity s)
  else if sys = SUBSYS_PWR then .exited
  else if sys = SUBSYS_MEM then .running 0 s
  else .running 1 s

/-- The preload backend, as the command loop is linked with it. -/
def injector : Injector Preload where
  lauSim_set_state := lauSim_set_state
  lauSim_cleanup := lauSim_cleanup
  net_state := net_state

/-! ## Runs -/

/-- A call of the application or of the command loop, with what libc returns. -/
inductive Op where
  | socket (domain ret : Int)
  | accept (sock ret : Int)
  | close (fd : Int)
  | set_net (severity : UInt64)
  deriving DecidableEq, Repr

/-- One call. `set_net` is `lauSim_set_state (SUBSYS_NET, severity)`, which is
`lauSim_switch_net (severity)` and returns. -/
def step (s : Preload) : Op → Preload
  | .socket domain ret => socket domain ret s
  | .accept sock ret => accept sock ret s
  | .close fd => close fd s
  | .set_net severity =>
    match lauSim_set_state SUBSYS_NET severity s with
    | .running _ s => s
    | .exited => s

@[simp] theorem step_set_net (s : Preload) (severity : UInt64) :
    step s (.set_net severity) = lauSim_switch_net severity s := rfl

/-- A successful `socket` call with an internet domain. -/
def Op.Opens : Op → Prop
  | .socket domain ret => inet domain = true ∧ 0 ≤ ret
  | _ => False

end Preload

end LauSim
