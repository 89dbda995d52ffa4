/-
The fault queue of the client (`client/src/mqtt.c`): `on_message` fills `faults`,
`get_faults` hands it out and starts a new one.

`mosquitto_loop` calls `on_message` for whatever has arrived, in the thread of
`get_faults` and with the lock released, so a call is no single step: between its
start and its end there are any number of deliveries, and the loop may end well,
in which case it is repeated while something was received, or with an error. The
machine below has one input for each of these.

The queue itself is exact (`nothing_lost`). The memory behind it is not: `realloc`
is asked for as many bytes as there are entries, so that every entry is written
past what was asked for (`hasRoom_iff`). The two are kept apart: entries are kept
as if there was room, and the size asked for stands beside them.
-/
import LauSim.Lib.Runs
import LauSim.Mosquitto

set_option autoImplicit false

namespace LauSim.FaultQueue

open CText Mosquitto Runs

/-! ## The queue -/

/-- The variables of `mqtt.c`. A pointer is NULL or the entries written to its block. -/
structure Queue where
  faults : Option (List ClientFault)
  /-- The size last asked for `faults`, in bytes. -/
  requested : Nat
  fault_num : Nat
  rcv : Bool
  faults_save : Option (List ClientFault)
  deriving DecidableEq, Repr

/-- The fault `on_message` reads from a message. -/
def newFault (msg : Message) : ClientFault :=
  { component := (strtoks ['/'] msg.topic)[2]?, severity := (strtoull msg.payload).1.toUInt32 }

/-- The block of `ptr` with entry `i` written. -/
def write (ptr : Option (List ClientFault)) (i : Nat) (f : ClientFault) : List ClientFault :=
  (ptr.getD []).take i ++ f :: (ptr.getD []).drop (i + 1)

/-- `on_message`. The size given to `realloc` is the number of entries. -/
def on_message (msg : Message) (q : Queue) : Queue :=
  { q with
    rcv := true
    fault_num := q.fault_num + 1
    requested := q.fault_num + 1
    faults := some (write q.faults (q.fault_num + 1 - 1) (newFault msg)) }

/-- The first `fault_num` entries of `faults`. -/
def pending (q : Queue) : List ClientFault := (q.faults.getD []).take q.fault_num

/-- What a call of `get_faults` gives back, `*num` included. -/
structure Returned where
  ptr : Option (List ClientFault)
  num : Nat
  deriving DecidableEq, Repr

/-- NULL, with `*num` as it was set on entry. -/
def Returned.null : Returned := { ptr := none, num := 0 }

/-- The faults the caller reads. -/
def Returned.list (r : Returned) : List ClientFault := (r.ptr.getD []).take r.num

/-- The end of `get_faults`. -/
def handOut (q : Queue) : Queue × Returned :=
  ({ q with faults_save := q.faults, faults := none, requested := 0, fault_num := 0 },
    { ptr := q.faults, num := q.fault_num })

/-! ## Runs -/

/-- The queue, whether a call is inside `mosquitto_loop`, and the history: what the
calls gave back, what was delivered, and at each write of an entry `fault_num` and
the size asked for. -/
structure State where
  queue : Queue
  looping : Bool
  returned : List Returned
  arrived : List Message
  writes : List (Nat × Nat)
  deriving DecidableEq, Repr

def initial : State :=
  { queue := { faults := none, requested := 0, fault_num := 0, rcv := false, faults_save := none }
    looping := false
    returned := []
    arrived := []
    writes := [] }

inductive Input where
  /-- `get_faults` is called, with `con` set or not. -/
  | get_faults (con : Bool)
  /-- `mosquitto_loop` delivers a message. -/
  | message (msg : Message)
  /-- `mosquitto_loop` returns, with `MOSQ_ERR_SUCCESS` or an error. -/
  | loopReturns (success : Bool)
  deriving DecidableEq, Repr

/-- A call without a connection ends at once; the others end with the loop. -/
def step (s : State) : Input → State
  | .get_faults con =>
      if s.looping then s
      else if !con then { s with returned := s.returned ++ [Returned.null] }
      else { s with queue := { s.queue with rcv := false }, looping := true }
  | .message msg =>
      if !s.looping then s
      else
        let q := on_message msg s.queue
        { s with
          queue := q
          arrived := s.arrived ++ [msg]
          writes := s.writes ++ [(q.fault_num, q.requested)] }
  | .loopReturns success =>
      if !s.looping then s
      else if !success then { s with looping := false, returned := s.returned ++ [Returned.null] }
      -- `while (rcv)`: once more, as long as something came in
      else if s.queue.rcv then { s with queue := { s.queue with rcv := false } }
      else
        { s with
          queue := (handOut s.queue).1
          looping := false
          returned := s.returned ++ [(handOut s.queue).2] }

/-! ## Nothing is lost -/

/-- The block of `faults` ends with the last entry that counts. -/
def Full (q : Queue) : Prop := (q.faults.getD []).length = q.fault_num

theorem pending_eq {q : Queue} (h : Full q) : pending q = q.faults.getD [] := by
  rw [pending, ← h, List.take_length]

theorem write_eq {q : Queue} (h : Full q) (f : ClientFault) :
    write q.faults (q.fault_num + 1 - 1) f = q.faults.getD [] ++ [f] := by
  rw [write, Nat.add_sub_cancel, ← h, List.take_length, List.drop_of_length_le (by omega)]

theorem full_on_message {q : Queue} (h : Full q) (msg : Message) : Full (on_message msg q) := by
  have hlen : (q.faults.getD []).length = q.fault_num := h
  simp only [Full, on_message, write_eq h, Option.getD_some, List.length_append,
    List.length_singleton, hlen]

/-- One delivery is one more fault at the end, the one `Mosquitto.on_message` appends. -/
theorem pending_on_message {q : Queue} (h : Full q) (msg : Message) :
    pending (on_message msg q) = (Mosquitto.on_message msg ⟨pending q, q.rcv⟩).faults := by
  rw [pending_eq (full_on_message h msg), pending_eq h]
  simp only [on_message, write_eq h, Option.getD_some, Mosquitto.on_message, newFault]

theorem full_handOut (q : Queue) : Full (handOut q).1 := rfl

theorem pending_handOut (q : Queue) : pending (handOut q).1 = [] := rfl

theorem list_handOut (q : Queue) : (handOut q).2.list = pending q := rfl

/-- The faults the calls have returned so far. -/
def handedOut (s : State) : List ClientFault := (s.returned.map Returned.list).flatten

/-- Returned and pending together are what has arrived. -/
structure Exact (s : State) : Prop where
  full : Full s.queue
  exact : handedOut s ++ pending s.queue = s.arrived.map newFault

theorem handedOut_append (s : State) (r : Returned) :
    handedOut { s with returned := s.returned ++ [r] } = handedOut s ++ r.list := by
  rw [handedOut, handedOut, List.map_append, List.flatten_append, List.map_singleton,
    List.flatten_singleton]

theorem list_null : Returned.null.list = [] := rfl

/-- A call that ends with NULL leaves everything as it was. -/
theorem Exact.null {s : State} (h : Exact s) (b : Bool) :
    Exact { s with looping := b, returned := s.returned ++ [Returned.null] } := by
  refine ⟨h.full, ?_⟩
  have hout := handedOut_append { s with looping := b } Returned.null
  rw [list_null, List.append_nil] at hout
  rw [hout]
  exact h.exact

theorem Exact.message {s : State} (h : Exact s) (hloop : s.looping = true) (msg : Message) :
    Exact (step s (.message msg)) := by
  simp only [step, hloop, Bool.not_true, Bool.false_eq_true, if_false]
  refine ⟨full_on_message h.full msg, ?_⟩
  have hpending := pending_on_message h.full msg
  rw [Mosquitto.on_message] at hpending
  calc handedOut s ++ pending (on_message msg s.queue)
      = handedOut s ++ (pending s.queue ++ [newFault msg]) := by rw [hpending, newFault]
    _ = s.arrived.map newFault ++ [newFault msg] := by rw [← List.append_assoc, h.exact]
    _ = (s.arrived ++ [msg]).map newFault := by rw [List.map_append, List.map_singleton]

theorem Exact.handOut {s : State} (h : Exact s) (b : Bool) :
    Exact { s with
      queue := (handOut s.queue).1, looping := b,
      returned := s.returned ++ [(handOut s.queue).2] } := by
  refine ⟨full_handOut s.queue, ?_⟩
  rw [pending_handOut, List.append_nil]
  have hout := handedOut_append { s with queue := (FaultQueue.handOut s.queue).1, looping := b }
    (FaultQueue.handOut s.queue).2
  rw [hout, list_handOut]
  exact h.exact

theorem Exact.step {s : State} (h : Exact s) (i : Input) : Exact (step s i) := by
  by_cases hloop : s.looping = true
  · cases i with
    | get_faults con =>
        simp only [FaultQueue.step, hloop, if_true]
        exact h
    | message msg => exact h.message hloop msg
    | loopReturns success =>
        simp only [FaultQueue.step, hloop, Bool.not_true, Bool.false_eq_true, if_false]
        split
        · exact h.null false
        · split
          · exact ⟨h.full, h.exact⟩
          · exact h.handOut false
  · have hidle : s.looping = false := Bool.not_eq_true _ ▸ hloop
    cases i with
    | get_faults con =>
        simp only [FaultQueue.step, hidle, Bool.false_eq_true, if_false]
        split
        · exact h.null false
        · exact ⟨h.full, h.exact⟩
    | message msg =>
        simp only [FaultQueue.step, hidle, Bool.not_false, if_true]
        exact h
    | loopReturns success =>
        simp only [FaultQueue.step, hidle, Bool.not_false, if_true]
        exact h

theorem exact_initial : Exact initial := ⟨rfl, rfl⟩

theorem exact_always (inputs : List Input) : Always step Exact initial inputs := by
  have hall : EachStep step (fun _ _ => True) initial inputs := fun _ _ _ => trivial
  exact always_of_eachStep exact_initial (fun s i h _ => h.step i) hall

/-- An error of the loop: NULL, `*num` zero, and the queue as it was. -/
theorem step_error {s : State} (hloop : s.looping = true) :
    step s (.loopReturns false)
      = { s with looping := false, returned := s.returned ++ [Returned.null] } := by
  simp only [step, hloop, Bool.not_true, Bool.not_false, Bool.false_eq_true, if_false, if_true]

/-- **The queue is exact.** For every run of calls, deliveries and ends of the
loop: what the calls have returned so far, followed by what is pending, is what
has arrived, in order. A call that fails in `mosquitto_loop` returns NULL with
`*num = 0` and keeps what is pending. -/
theorem nothing_lost (inputs : List Input) :
    Always step (fun s => handedOut s ++ pending s.queue = s.arrived.map newFault) initial inputs ∧
    EachStep step (fun s i => s.looping = true → i = .loopReturns false →
      (step s i).looping = false ∧
      (step s i).returned = s.returned ++ [{ ptr := none, num := 0 }] ∧
      pending (step s i).queue = pending s.queue) initial inputs := by
  refine ⟨(exact_always inputs).imp (fun s h => h.exact), ?_⟩
  intro pre i _ hloop hi
  rw [hi, step_error hloop]
  exact ⟨rfl, rfl, rfl⟩

/-! ## There is no room -/

/-- At every write of an entry the size asked for covers the entries, `size` bytes each. -/
def HasRoom (size : Nat) (s : State) : Prop := ∀ w ∈ s.writes, w.1 * size ≤ w.2

/-- The count and the size asked for grow together, one by one. -/
theorem no_room {size : Nat} (hsize : 1 < size) (msg : Message) (q : Queue) :
    ¬ (on_message msg q).fault_num * size ≤ (on_message msg q).requested := by
  intro hle
  have hnum : (on_message msg q).fault_num = q.fault_num + 1 := rfl
  have hreq : (on_message msg q).requested = q.fault_num + 1 := rfl
  have hlt := Nat.mul_lt_mul_of_pos_left hsize (show 0 < q.fault_num + 1 by omega)
  rw [hnum, hreq] at hle
  omega

/-- Only a delivery writes an entry. -/
theorem writes_step {s : State} {i : Input} (h : s.looping = true → ∀ msg, i ≠ .message msg) :
    (step s i).writes = s.writes := by
  cases i with
  | get_faults con =>
      simp only [step]
      split
      · rfl
      · split <;> rfl
  | message msg =>
      have hidle : s.looping = false := by
        by_contra hne
        exact h (by simpa using hne) msg rfl
      simp only [step, hidle, Bool.not_false, if_true]
  | loopReturns success =>
      simp only [step]
      split
      · rfl
      · split
        · rfl
        · split <;> rfl

/-- **No room.** In a run there is room at every write exactly when there is none:
when no message is ever delivered. `size` is `sizeof (fault)`. -/
theorem hasRoom_iff {size : Nat} (hsize : 1 < size) (inputs : List Input) :
    Always step (HasRoom size) initial inputs ↔
      EachStep step (fun s i => s.looping = true → ∀ msg, i ≠ .message msg) initial inputs := by
  refine always_iff_eachStep (I := HasRoom size) ?_ (fun _ h => h) ?_ ?_
  · intro w hw
    simp [initial] at hw
  · intro s i h hok w hw
    rw [writes_step hok] at hw
    exact h w hw
  · intro s i _ hnext hloop msg hi
    rw [hi] at hnext
    simp only [step, hloop, Bool.not_true, Bool.false_eq_true, if_false] at hnext
    apply no_room hsize msg s.queue
    exact hnext _ (List.mem_append_right _ (List.mem_singleton_self _))

theorem hasRoom_quiet :
    Always step (HasRoom 16) initial [.get_faults true, .loopReturns true] := by
  refine (hasRoom_iff (show 1 < 16 by decide) _).mpr ?_
  simp [eachStep_cons, eachStep_nil]

/-- The first fault of a run is written to a block of one byte. -/
theorem not_hasRoom_first :
    ¬ Always step (HasRoom 16) initial
      [.get_faults true, .message (notify_fail "n0".toList none 1)] := by
  intro h
  have hroom := h _ List.prefix_rfl (1, 1) (List.mem_singleton_self _)
  exact absurd hroom (by decide)

end LauSim.FaultQueue
