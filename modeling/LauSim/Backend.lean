/-
`client/src/backend.c`: the command loop of the backend, over either injector.

`client/src/preload.c` and `client/src/privileged.c` both define
`lauSim_set_state` and `lauSim_cleanup`; the loop is linked with one of them, so
it is stated over an `Injector`. A call of `lauSim_set_state` returns, or ends the process
with `_exit (0)`.

The loop works line by line. Its local `cmd` is declared outside the loop and
not initialised: the model gives it an arbitrary first value, and keeps the
value from line to line as the code does. `cmd` is an `unsigned long` that is
cut to the `enum en_subsys` of the callee. `calls` records what the injector was
asked to do. How the lines come out of the FIFO is the subject of `Fifo`.
-/
import LauSim.Lib.CText

set_option autoImplicit false

namespace LauSim.Backend

open CText

/-! ## The injector -/

/-- `enum en_subsys`. -/
def SUBSYS_NET : UInt32 := 1

def SUBSYS_MEM : UInt32 := 2

def SUBSYS_PWR : UInt32 := 4

/-- What becomes of the process in a call. -/
inductive Proc (β : Type) where
  | running (ret : Int) (b : β)
  | exited

/-- The functions a backend provides, over its globals. -/
structure Injector (β : Type) where
  lauSim_set_state : UInt32 → UInt64 → β → Proc β
  lauSim_cleanup : β → β
  net_state : β → UInt64

/-! ## The loop -/

/-- Where `lauSim_main` stands. -/
inductive Status where
  /-- in the loop -/
  | running
  /-- left the loop and returned `EXIT_SUCCESS` -/
  | returned
  /-- the process ended in `lauSim_set_state` -/
  | exited
  deriving DecidableEq, Repr

/-- The variables of `lauSim_main`, and the calls it made. -/
structure Loop (β : Type) where
  cmd : UInt64
  calls : List (UInt32 × UInt64)
  injector : β
  status : Status

variable {β : Type}

/-- Before the first line, with `cmd0` in the uninitialised `cmd`. -/
def Loop.start (cmd0 : UInt64) (b : β) : Loop β :=
  { cmd := cmd0, calls := [], injector := b, status := .running }

/-- The three tests on the command word, one after the other. -/
def decode (cmd_str : Text) (cmd : UInt64) : UInt64 :=
  let cmd := if cmd_str = "net".toList then SUBSYS_NET.toUInt64 else cmd
  let cmd := if cmd_str = "power".toList then SUBSYS_PWR.toUInt64 else cmd
  if cmd_str = "memory".toList then SUBSYS_MEM.toUInt64 else cmd

/-- The call at the end of the loop body. -/
def Loop.set_state (inj : Injector β) (cmd opt : UInt64) (s : Loop β) : Loop β :=
  match inj.lauSim_set_state cmd.toUInt32 opt s.injector with
  | .running _ b =>
    { s with cmd := cmd, calls := s.calls ++ [(cmd.toUInt32, opt)], injector := b }
  | .exited =>
    { s with cmd := cmd, calls := s.calls ++ [(cmd.toUInt32, opt)], status := .exited }

/-- Behind the loop: the injector is cleaned up. -/
def Loop.leave (inj : Injector β) (s : Loop β) : Loop β :=
  { s with injector := inj.lauSim_cleanup s.injector, status := .returned }

/-- The loop body on the words of a line. -/
def Loop.execute (inj : Injector β) (s : Loop β) : List Text → Loop β
  | [] => s
  | cmd_str :: rest =>
    if cmd_str = "exit".toList then s.leave inj
    else
      match rest with
      | [] => s
      | opt_str :: _ => s.set_state inj (decode cmd_str s.cmd) (strtoull opt_str).1

/-- The words of a line. -/
def words (line : Text) : List Text := strtoks " \n".toList (cstr line)

/-- One line, if the loop is still there to read it. -/
def Loop.line (inj : Injector β) (s : Loop β) (line : Text) : Loop β :=
  if s.status = .running then s.execute inj (words line) else s

/-- `lauSim_main` on the lines of the FIFO. -/
def lauSim_main (inj : Injector β) (s : Loop β) (ls : List Text) : Loop β :=
  ls.foldl (Loop.line inj) s

end LauSim.Backend
