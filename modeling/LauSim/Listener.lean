/-
The listeners of the backchannel: the callback slot of the com plugin
(`plugins/mosquitto/com_mosquitto.cpp`) and what `Server::init` makes of it.

The slot has room for one callback. `set_callback` hands back the one that was
there, so that whoever registers next can pass on what is not for it, and the
server has a variable for that, `other_cb`. `on_message` does pass on messages of
type OTHER if that variable is set, each once and nothing else
(`forwarded_run`); but `init` never sets it, so the listener that was there before
is cut off (`heard_iff`).

A listener is what it is called with. The plugin is one with an asynchronous
backchannel.
-/
import LauSim.Readiness

set_option autoImplicit false

namespace LauSim.Listener

open CText Server Readiness Backchannel

/-- A function the slot can point to: the server's `on_message`, or that of another
part of the backend. -/
inductive Callback (κ : Type) where
  | server
  | other (k : κ)
  deriving DecidableEq, Repr

variable {κ : Type}

/-- `ComMosquitto::lausim_callback`, the server, and the calls the plugin has made
of other callbacks. -/
structure System (κ : Type) where
  lausim_callback : Option (Callback κ)
  server : Server
  calls : List (κ × Text)
  deriving DecidableEq, Repr

/-- `ComMosquitto::set_callback`, on the slot: the old value, and the new one. -/
def set_callback (cb slot : Option (Callback κ)) : Option (Callback κ) × Option (Callback κ) :=
  (slot, cb)

/-- `Server::init`, for a slot and the nodes of the fault manager. The old callback is
what `set_callback` returns, and is not stored. -/
def init (t : NodeTable) (slot : Option (Callback κ)) : System κ :=
  { lausim_callback := (set_callback (some .server) slot).2
    server := Server.init t
    calls := [] }

/-- `ComMosquitto::on_message`. -/
def on_message (parse : Text → Option Backchannel) (s : System κ) (payload : Text) : System κ :=
  if payload = [] then s
  else
    match s.lausim_callback with
    | none => s
    | some .server => { s with server := s.server.on_message parse payload }
    | some (.other k) => { s with calls := s.calls ++ [(k, payload)] }

/-- What a callback that was registered before the server has been called with: by
the plugin, and by the server through `other_cb`. -/
def heard [DecidableEq κ] (cb : κ) (s : System κ) : List Text :=
  (s.calls.filter (fun c => c.1 = cb)).map Prod.snd ++ s.server.forwarded

variable (parse : Text → Option Backchannel)

/-- A message that decodes as one of type OTHER. -/
def isOther (msg : Text) : Bool := (parse msg).any (fun back => decide (back.type = .OTHER))

/-! ## The server's part of the chain -/

/-- The server passes on a message of type OTHER to the callback it has stored. -/
theorem forwarded_on_message (msg : Text) (s : Server) :
    (s.on_message parse msg).forwarded
      = s.forwarded ++ (if s.other_cb = true ∧ isOther parse msg = true then [msg] else []) := by
  unfold Server.on_message isOther
  cases parse msg with
  | none => simp [log_fun]
  | some back =>
      dsimp only
      cases htype : back.type with
      | LOG => cases back.logErrMsg <;> simp [log_fun, htype]
      | ERROR => cases back.logErrMsg <;> simp [log_fun, htype]
      | STATUS => cases back.newStatus <;> simp [log_fun, htype]
      | OTHER => cases hcb : s.other_cb <;> simp [htype]

theorem other_cb_on_message (msg : Text) (s : Server) :
    (s.on_message parse msg).other_cb = s.other_cb := by
  unfold Server.on_message
  cases parse msg with
  | none => rfl
  | some back =>
      dsimp only
      cases back.type with
      | LOG => cases back.logErrMsg <;> rfl
      | ERROR => cases back.logErrMsg <;> rfl
      | STATUS => cases back.newStatus <;> rfl
      | OTHER =>
          dsimp only
          split
          · rfl
          · rfl

/-- **Forwarding.** A server with a stored callback passes on exactly the messages of
type OTHER, each once and in order; one without passes on nothing. -/
theorem forwarded_run (msgs : List Text) (s : Server) :
    (Readiness.run parse msgs s).forwarded
      = s.forwarded ++ (if s.other_cb = true then msgs.filter (isOther parse) else []) := by
  induction msgs generalizing s with
  | nil => simp [Readiness.run]
  | cons msg msgs ih =>
      have hrun : Readiness.run parse (msg :: msgs) s
          = Readiness.run parse msgs (s.on_message parse msg) := rfl
      rw [hrun, ih, forwarded_on_message, other_cb_on_message, List.append_assoc]
      by_cases hcb : s.other_cb = true
      · by_cases hother : isOther parse msg = true
        · simp [hcb, hother]
        · simp [hcb, hother]
      · simp [hcb]

/-! ## The whole chain -/

/-- Once the server is in the slot, it gets every message that is not empty. -/
theorem foldl_on_message (msgs : List Text) {s : System κ}
    (hslot : s.lausim_callback = some .server) :
    msgs.foldl (on_message parse) s
      = { s with server := Readiness.run parse (msgs.filter (· ≠ [])) s.server } := by
  induction msgs generalizing s with
  | nil => rfl
  | cons msg msgs ih =>
      rw [List.foldl_cons]
      by_cases hmsg : msg = []
      · have hskip : on_message parse s msg = s := if_pos hmsg
        rw [hskip, ih hslot, List.filter_cons_of_neg (by simpa using hmsg)]
      · have hcall : on_message parse s msg
            = { s with server := s.server.on_message parse msg } := by
          rw [on_message, if_neg hmsg, hslot]
        rw [hcall, ih (s := { s with server := s.server.on_message parse msg }) hslot,
          List.filter_cons_of_pos (by simpa using hmsg)]
        rfl

/-- **The previous listener.** Whatever callback was registered before `init`, and
whatever comes in afterwards: the callback is called with exactly the messages of
type OTHER if and only if there are none. -/
theorem heard_iff [DecidableEq κ] (cb : κ) (slot : Option (Callback κ)) (t : NodeTable)
    (msgs : List Text) :
    heard cb (msgs.foldl (on_message parse) (init t (set_callback (some (.other cb)) slot).2))
        = msgs.filter (isOther parse)
      ↔ ∀ msg ∈ msgs, isOther parse msg = false := by
  have hnothing : heard cb
      (msgs.foldl (on_message parse) (init t (set_callback (some (.other cb)) slot).2)) = [] := by
    rw [foldl_on_message parse msgs rfl, heard]
    simp only [forwarded_run]
    rfl
  rw [hnothing, eq_comm, List.filter_eq_nil_iff]
  simp only [Bool.not_eq_true]

/-- One message of type OTHER is lost. -/
theorem not_heard_other :
    let other := pack
      { nodeName := "n".toList, type := .OTHER, logErrMsg := none, newStatus := none }
    ¬ heard () ([other].foldl (on_message ParseFromString)
          (init (NodeTable.single "n".toList none) (set_callback (some (.other ())) none).2))
        = [other].filter (isOther ParseFromString) := by
  decide

end LauSim.Listener
