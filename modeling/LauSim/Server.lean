/-
The node table of `srv/server.cpp`: who reports ready, and who asks.

`on_message` is called by the network thread of the com plugin with the bytes of
a backchannel message. Protobuf decoding is a parameter, a partial function from
bytes to `Backchannel` (`proto/backchannel.proto`); the default case of the
status switch is empty here because protobuf does not hand out enum values it
does not know. The model keeps what the functions read and write: the nodes, the
listener of other messages, the log, and what was forwarded to that listener.
-/
import LauSim.FaultManager

set_option autoImplicit false

namespace LauSim

open CText

/-- `Backchannel::MsgType`. -/
inductive MsgType where
  | LOG | ERROR | STATUS | OTHER
  deriving DecidableEq, Repr

/-- `Backchannel::NodeStatus`. -/
inductive NodeStatus where
  | STREADY | STERROR | STFINISHED
  deriving DecidableEq, Repr

/-- A decoded backchannel message. -/
structure Backchannel where
  nodeName : Text
  type : MsgType
  logErrMsg : Option Text
  newStatus : Option NodeStatus
  deriving DecidableEq, Repr

/-- `log_level`. -/
inductive LogLevel where
  | None | Debug | Info | Warning | Error | Fatal
  deriving DecidableEq, Repr

/-- The fields of `Server` the backchannel touches. `other_cb` says whether a
previous callback is stored, `forwarded` what it was called with. -/
structure Server where
  nodes : List Node
  other_cb : Bool
  log : List (LogLevel × Text)
  forwarded : List Text
  deriving DecidableEq, Repr

namespace Server

/-- `log_fun`. -/
def log_fun (ll : LogLevel) (msg : Text) (s : Server) : Server :=
  { s with log := s.log ++ [(ll, msg)] }

/-- `all_nodes_ready`: no node is found in another state. -/
def all_nodes_ready (s : Server) : Bool := s.nodes.all (fun n => decide (n.state = .READY))

/-- The loop of `set_node_state`: the first node of that name, if any. -/
def set_node_state (name : Text) (state : NodeState) : List Node → Int × List Node
  | [] => (1, [])
  | n :: ns =>
    if streq name n.name then (0, { n with state := state } :: ns)
    else ((set_node_state name state ns).1, n :: (set_node_state name state ns).2)

/-- The node state a status stands for, and the word the log uses for it. -/
def status_of : NodeStatus → NodeState × Text
  | .STREADY => (.READY, "ready".toList)
  | .STERROR => (.ERROR, "error".toList)
  | .STFINISHED => (.FINISHED, "finished".toList)

/-- `"[%s] new status: %s"`, cut by `snprintf (buf, sizeof (buf) - 1, ...)`. -/
def statusMessage (name status : Text) : Text :=
  ("[".toList ++ (cstr name ++ ("] new status: ".toList ++ status))).take 126

def on_message (parse : Text → Option Backchannel) (msg : Text) (s : Server) : Server :=
  match parse msg with
  | none => s.log_fun .Warning "unable to decode message on backchannel".toList
  | some back =>
    match back.type with
    | .LOG =>
      match back.logErrMsg with
      | none => s
      | some text => s.log_fun .Info (cstr text)
    | .ERROR =>
      match back.logErrMsg with
      | none => s
      | some text => s.log_fun .Error (cstr text)
    | .STATUS =>
      match back.newStatus with
      | none => s.log_fun .Warning "status message did not contain a status".toList
      | some st =>
        -- a name the table does not have is logged all the same
        let s := { s with nodes := (set_node_state back.nodeName (status_of st).1 s.nodes).2 }
        s.log_fun .Info (statusMessage back.nodeName (status_of st).2)
    | .OTHER => if s.other_cb then { s with forwarded := s.forwarded ++ [msg] } else s

/-- The state `init` leaves once `get_nodes` has filled the table. The value
`set_callback` returns is dropped, so `other_cb` keeps its initial `nullptr`. -/
def init (t : NodeTable) : Server :=
  { nodes := t.1, other_cb := false, log := [], forwarded := [] }

end Server

end LauSim
