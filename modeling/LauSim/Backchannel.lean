/-
The messages of `proto/backchannel.proto` as bytes.

The server takes the decoder as a parameter, and so does everything that is proved about
it. Here is one that reads what protobuf writes: `pack` lists the fields as the file
numbers them, `ParseFromString` takes the last of each, drops the values an enumeration
does not have, and refuses a message without its two required fields. `packStatus` are the
bytes a client sends about itself (`client.c`).
-/
import LauSim.Lib.Protobuf
import LauSim.Server

set_option autoImplicit false

namespace LauSim

open CText Protobuf

def MsgType.value : MsgType → ℕ
  | .LOG => 0
  | .ERROR => 1
  | .STATUS => 2
  | .OTHER => 4

def NodeStatus.value : NodeStatus → ℕ
  | .STREADY => 0
  | .STERROR => 1
  | .STFINISHED => 2

def MsgType.ofValue (n : ℕ) : Option MsgType :=
  [MsgType.LOG, .ERROR, .STATUS, .OTHER].find? fun t => decide (t.value = n)

def NodeStatus.ofValue (n : ℕ) : Option NodeStatus :=
  [NodeStatus.STREADY, .STERROR, .STFINISHED].find? fun st => decide (st.value = n)

namespace Backchannel

def fields (back : Backchannel) : List Field :=
  [⟨1, .bytes back.nodeName⟩, ⟨2, .number back.type.value⟩] ++
    back.logErrMsg.toList.map (fun text => ⟨3, .bytes text⟩) ++
    back.newStatus.toList.map (fun st => ⟨4, .number st.value⟩)

def pack (back : Backchannel) : Text := write back.fields

def ofFields (fs : List Field) : Option Backchannel :=
  match (strings 1 fs).getLast?, ((numbers 2 fs).filterMap MsgType.ofValue).getLast? with
  | some nodeName, some type =>
    some { nodeName := nodeName, type := type, logErrMsg := (strings 3 fs).getLast?,
           newStatus := ((numbers 4 fs).filterMap NodeStatus.ofValue).getLast? }
  | _, _ => none

def ParseFromString (msg : Text) : Option Backchannel := (read msg).bind ofFields

theorem ofFields_fields (back : Backchannel) : ofFields back.fields = some back := by
  obtain ⟨name, type, text, status⟩ := back
  cases text <;> cases status with
  | none => cases type <;> rfl
  | some st => cases type <;> cases st <;> rfl

/-- What was packed is parsed. -/
theorem ParseFromString_pack (back : Backchannel) : ParseFromString back.pack = some back := by
  rw [ParseFromString, pack, read_write]
  exact ofFields_fields back

/-- The message a client tells its status with. -/
def packStatus (name : Text) (status : NodeStatus) : Text :=
  pack { nodeName := name, type := .STATUS, logErrMsg := none, newStatus := some status }

-- the two required fields and the status
example : packStatus "n0".toList .STREADY = "\n\x02n0\x10\x02\x20\x00".toList := by decide

end Backchannel

end LauSim
