/-
A fault on its whole way: from `Server::manage_fails` over MQTT to the client of
one node, through its queue and its loop into the FIFO, and out of it into the
injector.

Every part has a module of its own; here they are one system. The server, the
broker, the client, the backend and the other clients move in any order, one
step at a time. The server begins with `send_synced_signal` if it runs with option
`-s`, else with the first tic; then the client takes the first fault of its node for
the start signal (`carried`). The broker is taken to hand all messages that match the
filter of a client to it, in the order in which they were published, and the client
to be subscribed before the server starts and to have memory for every fault. A call
of the server that does not return changes nothing here.

The invariant has one clause for each part: no byte, message or fault is lost
between two of them, so that what stands behind a part is a front piece of what was
put in before it (`inv_always`). What follows for the injector is in `EndToEnd`.
-/
import LauSim.Delivery
import LauSim.Dispatch
import LauSim.FaultQueue
import LauSim.Fifo

set_option autoImplicit false

namespace LauSim.EndToEnd

open Backend CText Mosquitto Runs Tics Topic

/-! ## The system -/

/-- Where the main thread of the server stands. -/
inductive Phase where
  /-- `send_synced_signal` is still to come -/
  | waiting
  /-- between two tics -/
  | idle
  /-- in `do_tic`, behind `manage_fails` -/
  | skipping
  deriving DecidableEq, Repr

/-- The server, what the broker still has for the client, the client and the
backend of one node. `todo` is what is left of the list the `for` loop of the
client goes through, and `ended` says that the client has left its `while` loop. -/
structure System (σ β : Type) where
  phase : Phase
  ticker : Ticker σ
  broker : List Message
  queue : FaultQueue.State
  todo : List ClientFault
  client : Client
  ended : Bool
  fifo : Fifo β

/-- A step of one of the parties. -/
inductive Input where
  /-- the server: `send_synced_signal` -/
  | send_synced_signal
  /-- the server: `do_tic` up to the end of `manage_fails`, with its first reading of
  the clock -/
  | manage_fails (first : Int64)
  /-- the server: the rest of `do_tic` -/
  | skip_to_end_of_tic (readings : List Int64)
  /-- some client reports to the server -/
  | send_back (name buf : Text)
  /-- the broker hands its next message to the client -/
  | deliver
  /-- the client calls `get_faults` -/
  | get_faults (con : Bool)
  /-- `mosquitto_loop` returns -/
  | loopReturns (success : Bool)
  /-- the client: one round of the `for` loop -/
  | forward
  /-- the client finds `req_stop` set -/
  | req_stop
  /-- data on `lauSim_req_close_fd` -/
  | close
  | backend
  deriving DecidableEq, Repr

section

variable {σ β : Type} (m : FaultManager σ) (tic_length : UInt64) (serialize : ExtMsg → Text)
  (t : NodeTable) (name : Text) (inj : Injector β) (size : ℕ)

/-- `do_tic` up to the end of `manage_fails`. -/
def round (s : Ticker σ) (first : Int64) : Except Stop (Ticker σ) := do
  let s := { s with timestamp := base s ⟨first, []⟩,
                    T0 := if s.rounds = [] then first else s.T0 }
  let manager ← ask (m.tic s.manager)
  Tics.manage_fails m { s with manager := manager, tic_calls := s.tic_calls + 1 }

/-- What `send_synced_signal` publishes. -/
def signals : List Message := t.1.map (fun n => notify_fail n.name none 0)

/-- What `manage_fails` publishes for the list `failed`. -/
def sends (failed : List Fault) : List Message :=
  failed.map (fun f => notify_fail f.node f.component f.severity) ++
    (messages failed).map (fun msg => notify_extern (serialize msg))

/-- The messages the broker forwards to the client. -/
def forwarded (msgs : List Message) : List Message :=
  msgs.filter (fun msg => matchesTopic (top_name name) msg.topic)

/-- Some messages are published. -/
def System.publish (msgs : List Message) (s : System σ β) : System σ β :=
  { s with broker := s.broker ++ forwarded name msgs }

/-- The client is in `get_faults`; what a call returns is what the `for` loop goes
through next. -/
def System.ask (i : FaultQueue.Input) (s : System σ β) : System σ β :=
  let queue := FaultQueue.step s.queue i
  { s with
    queue := queue
    todo := s.todo ++
      (queue.returned.drop s.queue.returned.length).flatMap FaultQueue.Returned.list }

def step (s : System σ β) : Input → System σ β
  | .send_synced_signal =>
    if s.phase = .waiting then { s.publish name (signals t) with phase := .idle } else s
  | .manage_fails first =>
    if s.phase = .idle then
      match round m s.ticker first with
      | .error _ => s
      | .ok ticker =>
        let failed := (ticker.rounds.drop s.ticker.rounds.length).flatMap Round.faults
        { s.publish name (sends serialize failed) with ticker := ticker, phase := .skipping }
    else s
  | .skip_to_end_of_tic readings =>
    if s.phase = .skipping then
      match Tics.skip_to_end_of_tic tic_length readings s.ticker with
      | .error _ => s
      | .ok ticker => { s with ticker := ticker, phase := .idle }
    else s
  | .send_back A buf => s.publish name [Mosquitto.send_back A buf]
  | .deliver =>
    match s.broker with
    | [] => s
    | msg :: rest =>
      -- messages come in inside `mosquitto_loop` only
      if s.queue.looping then { s.ask (.message msg) with broker := rest } else s
  | .get_faults con => if s.todo = [] ∧ s.ended = false then s.ask (.get_faults con) else s
  | .loopReturns success => s.ask (.loopReturns success)
  | .forward =>
    match s.todo with
    | [] => s
    | f :: todo =>
      let client := s.client.forward f
      { s with
        todo := todo
        client := client
        fifo := s.fifo.step inj size
          (.write (Client.text (client.writes.drop s.client.writes.length))) }
  | .req_stop =>
    if s.todo = [] ∧ s.queue.looping = false ∧ s.ended = false then
      { s with ended := true, fifo := s.fifo.step inj size (.write "exit\n".toList) }
    else s
  | .close => { s with fifo := s.fifo.step inj size .close }
  | .backend => { s with fifo := s.fifo.step inj size .backend }

end

variable {σ β : Type}

/-- Behind the initialisation of every party, with `cmd0` in the uninitialised `cmd`
of the backend. `sync` is the option of the server. -/
def start (sync : Bool) (manager : σ) (fifo_created : Bool) (cmd0 : UInt64) (b : β) :
    System σ β :=
  { phase := if sync then .waiting else .idle
    ticker := Tics.start manager
    broker := []
    queue := FaultQueue.initial
    todo := []
    client := Client.initial
    ended := false
    fifo := Fifo.start fifo_created cmd0 b }

/-! ## What should arrive -/

/-- A call of `notify_fail`, as a message. -/
def notify (f : Text × Option Text × UInt32) : Message := notify_fail f.1 f.2.1 f.2.2

/-- What the client of the node makes of it. -/
def received (f : Text × Option Text × UInt32) : ClientFault := ⟨f.2.1, f.2.2⟩

/-- The faults of the node `name` among some calls of `notify_fail`. -/
def faultsOf (name : Text) (fs : List (Text × Option Text × UInt32)) : List ClientFault :=
  (fs.filter (fun f => decide (f.1 = name))).map received

/-- The start signal. -/
def signal : ClientFault := ⟨none, 0⟩

/-- What is meant for the client of the node: the start signal, if the server gives one,
and the faults of the node. -/
def meant (sync : Bool) (name : Text) (fs : List (Text × Option Text × UInt32)) :
    List ClientFault :=
  (if sync then [signal] else []) ++ faultsOf name fs

/-- The faults that get as far as the backend. Without a start signal the client takes the
first one for it. -/
def carried (sync : Bool) (name : Text) (fs : List (Text × Option Text × UInt32)) :
    List ClientFault :=
  if sync then faultsOf name fs else (faultsOf name fs).tail

theorem tail_meant (sync : Bool) (name : Text) (fs : List (Text × Option Text × UInt32)) :
    (meant sync name fs).tail = carried sync name fs := by
  cases sync with
  | true => rfl
  | false => rfl

/-- A name whose channel is used for nothing else: "master" is the one back to the server,
"lausim" the one for external programs. The filter of a longer name is cut. -/
structure Channel (name : Text) : Prop where
  level : Level name
  not_master : name ≠ "master".toList
  not_lausim : name ≠ "lausim".toList
  length_le : name.length ≤ 499

/-- Calls of `notify_fail` that get through: the names can stand in a topic, and the
faults of the node `name` are ones its backend knows. -/
def Regular (name : Text) (fs : List (Text × Option Text × UInt32)) : Prop :=
  ∀ f ∈ fs, Level f.1 ∧ (∀ c ∈ f.2.1, Level c) ∧ (f.1 = name → Delivery.Ordinary (received f))

/-- A table in which the node `name` stands once. -/
structure Listed (t : NodeTable) (name : Text) : Prop where
  level : ∀ n ∈ t.1, Level n.name
  once : (t.1.map Node.name).count name = 1

theorem regular_append {name : Text} {fs gs : List (Text × Option Text × UInt32)} :
    Regular name (fs ++ gs) ↔ Regular name fs ∧ Regular name gs := by
  constructor
  · intro h
    exact ⟨fun f hf => h f (List.mem_append_left _ hf), fun f hf => h f (List.mem_append_right _ hf)⟩
  · rintro ⟨hfs, hgs⟩ f hf
    rcases List.mem_append.mp hf with hf | hf
    · exact hfs f hf
    · exact hgs f hf

theorem faultsOf_append (name : Text) (fs gs : List (Text × Option Text × UInt32)) :
    faultsOf name (fs ++ gs) = faultsOf name fs ++ faultsOf name gs := by
  rw [faultsOf, List.filter_append, List.map_append]
  rfl

theorem ordinary_faultsOf {name : Text} {fs : List (Text × Option Text × UInt32)}
    (h : Regular name fs) : ∀ f ∈ faultsOf name fs, Delivery.Ordinary f := by
  intro f hf
  obtain ⟨g, hg, rfl⟩ := List.mem_map.mp hf
  obtain ⟨hmem, hname⟩ := List.mem_filter.mp hg
  exact (h g hmem).2.2 (of_decide_eq_true hname)

theorem ordinary_carried (sync : Bool) {name : Text} {fs : List (Text × Option Text × UInt32)}
    (h : Regular name fs) : ∀ f ∈ carried sync name fs, Delivery.Ordinary f := by
  intro f hf
  apply ordinary_faultsOf h
  cases sync with
  | true => exact hf
  | false => exact List.mem_of_mem_tail hf

/-! ## Over MQTT -/

/-- The fault a client reads from a message to its node. -/
theorem newFault_notify {f : Text × Option Text × UInt32} (hlevel : Level f.1)
    (hcmp : ∀ c ∈ f.2.1, Level c) : FaultQueue.newFault (notify f) = received f := by
  obtain ⟨target, cmp, severity⟩ := f
  -- the topic is split at its slashes: "envelope", node, component
  have hcomponent : (strtoks ['/'] (notify_fail target cmp severity).topic)[2]? = cmp := by
    rw [strtoks_notify_fail hlevel.ne_nil hlevel.slash
      (fun c hc => ⟨(hcmp c hc).ne_nil, (hcmp c hc).slash⟩)]
    cases cmp <;> rfl
  -- the payload is read as it was printed
  have hread := strtoull_fmtX (n := severity.toNat) (by have := severity.toNat_lt; omega) stops_nil
  have hseverity : (strtoull (notify_fail target cmp severity).payload).1.toUInt32 = severity := by
    rw [List.append_nil] at hread
    rw [notify_fail_payload, hread]
    apply UInt32.toNat_inj.mp
    have := severity.toNat_lt
    simp only [UInt64.toNat_toUInt32, UInt64.toNat_ofNat']
    omega
  rw [FaultQueue.newFault, notify, hcomponent, hseverity, received]

theorem forwarded_append (name : Text) (ms ms' : List Message) :
    forwarded name (ms ++ ms') = forwarded name ms ++ forwarded name ms' :=
  List.filter_append ms ms'

/-- Of the faults, the client gets those of its node. -/
theorem forwarded_notify {name : Text} (hname : Channel name)
    {fs : List (Text × Option Text × UInt32)}
    (hfs : ∀ f ∈ fs, Level f.1 ∧ ∀ c ∈ f.2.1, Level c) :
    (forwarded name (fs.map notify)).map FaultQueue.newFault = faultsOf name fs := by
  induction fs with
  | nil => rfl
  | cons f fs ih =>
      obtain ⟨hlevel, hcmp⟩ := hfs f List.mem_cons_self
      have hmatch : matchesTopic (top_name name) (notify f).topic = decide (name = f.1) :=
        matches_top_name hname.level hname.length_le (levels_notify_fail hlevel.slash hcmp f.2.2)
      have hrest := ih (fun g hg => hfs g (List.mem_cons_of_mem _ hg))
      rw [forwarded, List.map_cons, List.filter_cons, hmatch, faultsOf, List.filter_cons]
      by_cases hf : f.1 = name
      · simp only [hf, decide_true, if_true, List.map_cons]
        rw [newFault_notify hlevel hcmp]
        exact congrArg (received f :: ·) hrest
      · simp only [hf, Ne.symm hf, decide_false, Bool.false_eq_true, if_false]
        exact hrest

/-- Of what external programs are told, and of the reports, it gets nothing. -/
theorem forwarded_extern {name : Text} (hname : Channel name) (msgs : List Text) :
    forwarded name (msgs.map notify_extern) = [] := by
  rw [forwarded, List.filter_eq_nil_iff]
  intro msg hmsg
  obtain ⟨text, -, rfl⟩ := List.mem_map.mp hmsg
  rw [matches_top_name hname.level hname.length_le (levels_notify_extern_topic text)]
  simpa using hname.not_lausim

theorem forwarded_send_back {name : Text} (hname : Channel name) (A buf : Text) :
    forwarded name [Mosquitto.send_back A buf] = [] := by
  have hlevels : levels (Mosquitto.send_back A buf).topic
      = "envelope".toList :: "master".toList :: levels A := by
    rw [send_back_topic, levels_cons slash_not_mem_envelope, levels_cons slash_not_mem_master]
  rw [forwarded, List.filter_eq_nil_iff]
  intro msg hmsg
  rw [List.mem_singleton.mp hmsg, matches_top_name hname.level hname.length_le hlevels]
  simpa using hname.not_master

theorem signals_eq (t : NodeTable) :
    signals t = (t.1.map (fun n => (n.name, (none : Option Text), (0 : UInt32)))).map notify := by
  rw [List.map_map]
  rfl

/-- The signal of `send_synced_signal` reaches the client once. -/
theorem forwarded_signals {t : NodeTable} {name : Text} (hname : Channel name)
    (ht : Listed t name) :
    (forwarded name (signals t)).map FaultQueue.newFault = [signal] := by
  rw [signals_eq, forwarded_notify hname]
  · -- one signal for each time the name stands in the table
    have hone : faultsOf name (t.1.map (fun n => (n.name, (none : Option Text), (0 : UInt32))))
        = List.replicate ((t.1.map Node.name).count name) signal := by
      rw [List.eq_replicate_iff]
      constructor
      · rw [faultsOf, List.length_map, ← List.countP_eq_length_filter, List.countP_map,
          List.count, List.countP_map]
        apply List.countP_congr
        intro n _
        simp
      · intro f hf
        obtain ⟨g, hg, rfl⟩ := List.mem_map.mp hf
        obtain ⟨n, -, rfl⟩ := List.mem_map.mp (List.mem_filter.mp hg).1
        rfl
    rw [hone, ht.once]
    rfl
  · intro f hf
    obtain ⟨n, hn, rfl⟩ := List.mem_map.mp hf
    exact ⟨ht.level n hn, by simp⟩

/-- Of what a tic publishes, it gets the faults of its node. -/
theorem forwarded_sends {name : Text} (hname : Channel name) (serialize : ExtMsg → Text)
    {failed : List Fault} (h : Regular name (failed.map Fault.triple)) :
    (forwarded name (sends serialize failed)).map FaultQueue.newFault
      = faultsOf name (failed.map Fault.triple) := by
  have hnotify : failed.map (fun f => notify_fail f.node f.component f.severity)
      = (failed.map Fault.triple).map notify := by
    rw [List.map_map]
    rfl
  have hextern : (messages failed).map (fun msg => notify_extern (serialize msg))
      = ((messages failed).map serialize).map notify_extern := by
    rw [List.map_map]
    rfl
  rw [sends, forwarded_append, hnotify, hextern, forwarded_extern hname, List.append_nil]
  exact forwarded_notify hname (fun f hf => ⟨(h f hf).1, (h f hf).2.1⟩)

/-- The faults of some calls of `manage_fails`, together. -/
def faults (rounds : List Round) : List Fault := rounds.flatMap Round.faults

/-- Everything the server has published, with the signals of `send_synced_signal` if it has
option `-s`. -/
def published (serialize : ExtMsg → Text) (sync : Bool) (t : NodeTable) (rounds : List Round) :
    List Message :=
  (if sync then signals t else []) ++ rounds.flatMap (fun r => sends serialize r.faults)

/-- What reaches the client: the start signal, if there is one, and then the faults of its
node. -/
theorem forwarded_published {t : NodeTable} {name : Text} (hname : Channel name)
    (ht : Listed t name) (serialize : ExtMsg → Text) (sync : Bool) {rounds : List Round}
    (h : Regular name ((faults rounds).map Fault.triple)) :
    (forwarded name (published serialize sync t rounds)).map FaultQueue.newFault
      = meant sync name ((faults rounds).map Fault.triple) := by
  have hsignal : (forwarded name (if sync then signals t else [])).map FaultQueue.newFault
      = if sync then [signal] else [] := by
    cases sync with
    | true => exact forwarded_signals hname ht
    | false => rfl
  rw [published, forwarded_append, List.map_append, hsignal, meant]
  congr 1
  induction rounds with
  | nil => rfl
  | cons r rounds ih =>
      have hsplit : (faults (r :: rounds)).map Fault.triple
          = r.faults.map Fault.triple ++ (faults rounds).map Fault.triple := by
        rw [faults, List.flatMap_cons, List.map_append]
        rfl
      rw [hsplit, regular_append] at h
      rw [List.flatMap_cons, forwarded_append, List.map_append, forwarded_sends hname serialize h.1,
        ih h.2, hsplit, faultsOf_append]

/-! ## The server -/

/-- `do_tic` is the two steps of the server one after the other. -/
theorem do_tic_eq_round (m : FaultManager σ) (L : UInt64) (s : Ticker σ) (c : Call) :
    do_tic m L s c = round m s c.first >>= Tics.skip_to_end_of_tic L c.readings := by
  unfold do_tic round
  rw [bind_assoc]
  rfl

/-- What was announced is what `get_fail` returned. -/
def Announced (s : Ticker σ) : Prop := s.notified = (faults s.rounds).map Fault.triple

/-- A call of `manage_fails` is one more round. -/
theorem round_ok {m : FaultManager σ} {s s' : Ticker σ} {first : Int64}
    (h : round m s first = .ok s') :
    ∃ r, s'.rounds = s.rounds ++ [r] ∧ s'.notified = s.notified ++ r.faults.map Fault.triple := by
  unfold round at h
  obtain ⟨manager, -, h⟩ := FaultManager.bind_eq_ok h
  obtain ⟨fs, manager', _, _, _, hget, hs'⟩ := manage_fails_ok h
  obtain ⟨gs, hget', hnotified, -⟩ := manage_fails_sent h
  have hsame : fs = gs := by
    rw [hget] at hget'
    exact (Prod.mk.inj (Except.ok.inj hget')).1
  refine ⟨⟨s.tic, s.tic_calls + 1 - 1, fs⟩, by rw [hs'], ?_⟩
  rw [hnotified, hsame]

/-- The end of a tic announces nothing. -/
theorem skip_same {L : UInt64} {readings : List Int64} {s s' : Ticker σ}
    (h : Tics.skip_to_end_of_tic L readings s = .ok s') :
    s'.rounds = s.rounds ∧ s'.notified = s.notified := by
  rcases skip_ok h with ⟨-, rfl⟩ | ⟨-, k, ts, log, -, -, -, rfl⟩
  · exact ⟨rfl, rfl⟩
  · exact ⟨rfl, rfl⟩

theorem Announced.append {s s' : Ticker σ} (h : Announced s) {r : Round}
    (hrounds : s'.rounds = s.rounds ++ [r])
    (hnotified : s'.notified = s.notified ++ r.faults.map Fault.triple) : Announced s' := by
  rw [Announced, hnotified, hrounds, h, faults, faults, List.flatMap_append, List.map_append]
  simp

/-! ## The backend -/

section

variable {inj : Injector β} {fifo_created : Bool} {loop0 : Loop β} {s : Fifo β}

/-- A line adds to the calls and takes none back. -/
theorem calls_line (inj : Injector β) (s : Loop β) (line : Text) :
    s.calls <+: (s.line inj line).calls := by
  unfold Loop.line
  split
  · unfold Loop.execute
    split
    · exact List.prefix_rfl
    · split
      · exact List.prefix_rfl
      · split
        · exact List.prefix_rfl
        · unfold Loop.set_state
          split
          · exact List.prefix_append _ _
          · exact List.prefix_append _ _
  · exact List.prefix_rfl

theorem calls_lauSim_main (inj : Injector β) (s : Loop β) {ls ls' : List Text} (h : ls <+: ls') :
    (lauSim_main inj s ls).calls <+: (lauSim_main inj s ls').calls := by
  obtain ⟨rest, rfl⟩ := h
  rw [lauSim_main, lauSim_main, List.foldl_append]
  generalize List.foldl (Loop.line inj) s ls = s'
  induction rest generalizing s' with
  | nil => exact List.prefix_rfl
  | cons line rest ih =>
      rw [List.foldl_cons]
      exact (calls_line inj s' line).trans (ih _)

/-- What the loop has done, also when it has been left. -/
structure Obeyed (inj : Injector β) (loop0 : Loop β) (s : Fifo β) : Prop where
  calls : s.loop.calls = (lauSim_main inj loop0 s.executed).calls
  alive : s.pc ≠ .stopped → s.loop.status = .running

theorem Obeyed.step (h : Obeyed inj loop0 s) (hinv : Fifo.Inv inj fifo_created loop0 s)
    (size : ℕ) (mv : Move) : Obeyed inj loop0 (s.step inj size mv) := by
  cases mv with
  | write bytes => exact ⟨h.calls, h.alive⟩
  | close => exact ⟨h.calls, h.alive⟩
  | backend =>
      unfold Fifo.step
      cases hpc : s.pc with
      | fgetc =>
          have halive : s.loop.status = .running := h.alive (by rw [hpc]; decide)
          dsimp only
          unfold Fifo.fgetc
          split
          · exact h
          · exact ⟨h.calls, fun _ => halive⟩
      | select =>
          have halive : s.loop.status = .running := h.alive (by rw [hpc]; decide)
          dsimp only
          unfold Fifo.select
          split
          · -- `leave` makes no call
            exact ⟨h.calls, fun hne => absurd rfl hne⟩
          · split
            · exact h
            · exact ⟨h.calls, fun _ => halive⟩
      | getline =>
          have halive : s.loop.status = .running := h.alive (by rw [hpc]; decide)
          have hloop := hinv.loop (by rw [hpc]; decide)
          dsimp only
          unfold Fifo.getline
          split
          · next l rest hchr =>
            refine ⟨?_, fun hne => ?_⟩
            · -- one more line for the loop
              dsimp only
              rw [lauSim_main, List.foldl_append, hloop]
              rfl
            · -- the loop is left exactly when it has stopped
              dsimp only at hne ⊢
              by_contra hstop
              rw [if_neg hstop] at hne
              exact hne rfl
          · exact ⟨h.calls, fun _ => halive⟩
      | stopped => exact ⟨h.calls, fun hne => absurd hpc hne⟩

/-- The lines executed so far are the first of those written. -/
theorem executed_front (h : Fifo.Inv inj fifo_created loop0 s) :
    s.executed <+: lines (s.written.drop (Fifo.skipped fifo_created)) := by
  by_cases hpc : s.pc = .fgetc
  · -- `lauSim_init` takes no line
    rw [(h.waiting hpc).2.2.1]
    exact List.nil_prefix
  · obtain ⟨first, hlen, hw⟩ := h.bytes hpc
    rw [hw, ← hlen, List.drop_left]
    have hall := lines_flatMap (g := id) h.isLine (s.gathered ++ (s.buffer ++ s.kernel))
    simp only [List.flatMap_id, List.map_id] at hall
    rw [hall]
    exact List.prefix_append _ _

end

/-! ## Nothing is lost between two parts -/

section

variable {m : FaultManager σ} {L : UInt64} {serialize : ExtMsg → Text} {t : NodeTable}
  {name : Text} {inj : Injector β} {size : ℕ} {sync fifo_created : Bool} {loop0 : Loop β}
  {s : System σ β}

/-- What stands behind a part is a front piece of what stands before it, and the rest
is on its way. -/
structure Inv (serialize : ExtMsg → Text) (sync : Bool) (t : NodeTable) (name : Text)
    (inj : Injector β) (fifo_created : Bool) (loop0 : Loop β) (s : System σ β) : Prop where
  announced : Announced s.ticker
  early : s.phase = .waiting → s.ticker.rounds = [] ∧ sync = true
  wire : s.queue.arrived ++ s.broker =
    if s.phase = .waiting then [] else forwarded name (published serialize sync t s.ticker.rounds)
  exact : FaultQueue.Exact s.queue
  client : ∃ done, done ++ s.todo = FaultQueue.handedOut s.queue ∧
    s.client = Client.initial.get_faults done
  quiet : s.ended = true → s.todo = [] ∧ s.queue.looping = false
  bytes : s.fifo.written =
    Client.text s.client.writes ++ (if s.ended then "exit\n".toList else [])
  fifo : Fifo.Inv inj fifo_created loop0 s.fifo
  obeyed : Obeyed inj loop0 s.fifo

theorem inv_start (manager : σ) (cmd0 : UInt64) (b : β) :
    Inv serialize sync t name inj fifo_created (Loop.start cmd0 b)
      (start sync manager fifo_created cmd0 b) where
  announced := rfl
  early hw := by
    cases sync with
    | true => exact ⟨rfl, rfl⟩
    | false => cases hw
  wire := by
    cases sync with
    | true => rfl
    | false => rfl
  exact := FaultQueue.exact_initial
  client := ⟨[], rfl, rfl⟩
  quiet h := absurd h Bool.false_ne_true
  bytes := rfl
  fifo := Fifo.inv_start fifo_created cmd0 b
  obeyed := ⟨rfl, fun _ => rfl⟩

/-- The history of the client grows at its end. -/
theorem returned_step (q : FaultQueue.State) (i : FaultQueue.Input) :
    ∃ rs, (FaultQueue.step q i).returned = q.returned ++ rs := by
  cases i with
  | get_faults con =>
      simp only [FaultQueue.step]
      split
      · exact ⟨[], by simp⟩
      · split
        · exact ⟨_, rfl⟩
        · exact ⟨[], by simp⟩
  | message msg =>
      simp only [FaultQueue.step]
      split
      · exact ⟨[], by simp⟩
      · exact ⟨[], by simp⟩
  | loopReturns success =>
      simp only [FaultQueue.step]
      split
      · exact ⟨[], by simp⟩
      · split
        · exact ⟨_, rfl⟩
        · split
          · exact ⟨[], by simp⟩
          · exact ⟨_, rfl⟩

theorem handedOut_step (q : FaultQueue.State) (i : FaultQueue.Input) :
    FaultQueue.handedOut (FaultQueue.step q i) = FaultQueue.handedOut q ++
      ((FaultQueue.step q i).returned.drop q.returned.length).flatMap
        FaultQueue.Returned.list := by
  obtain ⟨rs, hrs⟩ := returned_step q i
  rw [FaultQueue.handedOut, FaultQueue.handedOut, hrs, List.drop_left, List.map_append,
    List.flatten_append, List.flatMap_def]

theorem arrived_step (q : FaultQueue.State) {i : FaultQueue.Input} (h : ∀ msg, i ≠ .message msg) :
    (FaultQueue.step q i).arrived = q.arrived := by
  cases i with
  | get_faults con =>
      simp only [FaultQueue.step]
      split
      · rfl
      · split <;> rfl
  | message msg => exact absurd rfl (h msg)
  | loopReturns success =>
      simp only [FaultQueue.step]
      split
      · rfl
      · split
        · rfl
        · split <;> rfl

/-- A step of the queue: what it returns goes to the `for` loop. -/
theorem Inv.ask (h : Inv serialize sync t name inj fifo_created loop0 s) (i : FaultQueue.Input)
    {rest : List Message}
    (hwire : (FaultQueue.step s.queue i).arrived ++ rest = s.queue.arrived ++ s.broker)
    (hended : s.ended = true → FaultQueue.step s.queue i = s.queue) :
    Inv serialize sync t name inj fifo_created loop0 { s.ask i with broker := rest } where
  announced := h.announced
  early := h.early
  wire := hwire.trans h.wire
  exact := h.exact.step i
  client := by
    obtain ⟨done, hdone, hclient⟩ := h.client
    refine ⟨done, ?_, hclient⟩
    simp only [System.ask]
    rw [handedOut_step, ← hdone, List.append_assoc]
  quiet he := by
    obtain ⟨htodo, hloop⟩ := h.quiet he
    simp only [System.ask]
    -- at its end the client makes no more calls
    rw [hended he, htodo, List.drop_length]
    exact ⟨rfl, hloop⟩
  bytes := h.bytes
  fifo := h.fifo
  obeyed := h.obeyed

/-- A move of the backend side that writes nothing. -/
theorem Inv.move (h : Inv serialize sync t name inj fifo_created loop0 s) {mv : Move}
    (hwrite : (s.fifo.step inj size mv).written = s.fifo.written) :
    Inv serialize sync t name inj fifo_created loop0
      { s with fifo := s.fifo.step inj size mv } where
  announced := h.announced
  early := h.early
  wire := h.wire
  exact := h.exact
  client := h.client
  quiet := h.quiet
  bytes := hwrite.trans h.bytes
  fifo := Fifo.inv_step h.fifo mv
  obeyed := h.obeyed.step h.fifo size mv

/-- Messages that do not concern the client change nothing for it. -/
theorem Inv.publish (h : Inv serialize sync t name inj fifo_created loop0 s) {msgs : List Message}
    (hmsgs : forwarded name msgs = []) :
    Inv serialize sync t name inj fifo_created loop0 (s.publish name msgs) where
  announced := h.announced
  early := h.early
  wire := by
    simp only [System.publish, hmsgs, List.append_nil]
    exact h.wire
  exact := h.exact
  client := h.client
  quiet := h.quiet
  bytes := h.bytes
  fifo := h.fifo
  obeyed := h.obeyed

theorem written_backend (s : Fifo β) : (s.step inj size .backend).written = s.written := by
  unfold Fifo.step
  cases s.pc with
  | fgetc =>
      dsimp only
      unfold Fifo.fgetc
      split <;> rfl
  | select =>
      dsimp only
      unfold Fifo.select
      split
      · rfl
      · split <;> rfl
  | getline =>
      dsimp only
      unfold Fifo.getline
      split <;> rfl
  | stopped => rfl

theorem forward_writes (c : Client) (f : ClientFault) :
    ∃ w, (c.forward f).writes = c.writes ++ [(f, w)] := by
  unfold Client.forward
  split
  · exact ⟨_, rfl⟩
  · exact ⟨_, rfl⟩

/-- One fault of the list, and its command in the FIFO. -/
theorem Inv.forward (h : Inv serialize sync t name inj fifo_created loop0 s) {f : ClientFault}
    {todo : List ClientFault} (htodo : s.todo = f :: todo) :
    Inv serialize sync t name inj fifo_created loop0
      { s with
        todo := todo
        client := s.client.forward f
        fifo := s.fifo.step inj size (.write
          (Client.text ((s.client.forward f).writes.drop s.client.writes.length))) } where
  announced := h.announced
  early := h.early
  wire := h.wire
  exact := h.exact
  client := by
    obtain ⟨done, hdone, hclient⟩ := h.client
    refine ⟨done ++ [f], ?_, ?_⟩
    · rw [← hdone, htodo, List.append_assoc, List.singleton_append]
    · dsimp only
      rw [hclient, Client.get_faults, Client.get_faults, List.foldl_append]
      rfl
  quiet he := by
    have hnil := (h.quiet he).1
    rw [htodo] at hnil
    exact absurd hnil (by simp)
  bytes := by
    -- a client that has ended has nothing left to forward
    have hended : s.ended = false := by
      by_contra he
      have hnil := (h.quiet (Bool.not_eq_false _ ▸ he)).1
      rw [htodo] at hnil
      exact absurd hnil (by simp)
    obtain ⟨w, hw⟩ := forward_writes s.client f
    simp only [Fifo.step, hended, Bool.false_eq_true, if_false, List.append_nil]
    rw [h.bytes, hended, hw, List.drop_left, Client.text, Client.text, Client.text,
      List.flatMap_append]
    simp
  fifo := (Fifo.inv_step h.fifo (.write _) :
    Fifo.Inv inj fifo_created loop0 (s.fifo.step inj size (.write _)))
  obeyed := h.obeyed.step h.fifo size (.write _)

/-- The client leaves its loop. -/
theorem Inv.req_stop (h : Inv serialize sync t name inj fifo_created loop0 s) (htodo : s.todo = [])
    (hloop : s.queue.looping = false) (hended : s.ended = false) :
    Inv serialize sync t name inj fifo_created loop0
      { s with ended := true, fifo := s.fifo.step inj size (.write "exit\n".toList) } where
  announced := h.announced
  early := h.early
  wire := h.wire
  exact := h.exact
  client := h.client
  quiet _ := ⟨htodo, hloop⟩
  bytes := by
    simp only [Fifo.step, if_true]
    rw [h.bytes, hended]
    simp
  fifo := (Fifo.inv_step h.fifo (.write _) :
    Fifo.Inv inj fifo_created loop0 (s.fifo.step inj size (.write _)))
  obeyed := h.obeyed.step h.fifo size (.write _)

theorem forwarded_published_nil :
    forwarded name (published serialize true t []) = forwarded name (signals t) := by
  rw [published, if_pos rfl, List.flatMap_nil, List.append_nil]

/-- The start signal. -/
theorem Inv.synced (h : Inv serialize sync t name inj fifo_created loop0 s)
    (hphase : s.phase = .waiting) :
    Inv serialize sync t name inj fifo_created loop0
      { s.publish name (signals t) with phase := .idle } where
  announced := h.announced
  early hw := Phase.noConfusion hw
  wire := by
    obtain ⟨hrounds, rfl⟩ := h.early hphase
    have hwire := h.wire
    rw [if_pos hphase] at hwire
    simp only [System.publish, reduceCtorEq, if_false]
    rw [← List.append_assoc, hwire, hrounds, forwarded_published_nil, List.nil_append]
  exact := h.exact
  client := h.client
  quiet := h.quiet
  bytes := h.bytes
  fifo := h.fifo
  obeyed := h.obeyed

/-- A tic up to the end of `manage_fails`. -/
theorem Inv.round (h : Inv serialize sync t name inj fifo_created loop0 s)
    (hphase : s.phase = .idle) {first : Int64} {ticker : Ticker σ} (hround : round m s.ticker first = .ok ticker) :
    Inv serialize sync t name inj fifo_created loop0
      { s.publish name (sends serialize
          ((ticker.rounds.drop s.ticker.rounds.length).flatMap Round.faults)) with
        ticker := ticker, phase := .skipping } := by
  obtain ⟨r, hrounds, hnotified⟩ := round_ok hround
  refine ⟨h.announced.append hrounds hnotified, fun hw => Phase.noConfusion hw, ?_, h.exact,
    h.client, h.quiet, h.bytes, h.fifo, h.obeyed⟩
  have hwire := h.wire
  rw [hphase, if_neg (by decide)] at hwire
  simp only [System.publish, reduceCtorEq, if_false]
  rw [← List.append_assoc, hwire, hrounds, List.drop_left, List.flatMap_singleton, published,
    published, List.flatMap_append, List.flatMap_singleton, ← List.append_assoc,
    forwarded_append _ (_ ++ _)]

/-- The end of a tic. -/
theorem Inv.skip (h : Inv serialize sync t name inj fifo_created loop0 s)
    (hphase : s.phase = .skipping) {readings : List Int64} {ticker : Ticker σ}
    (hskip : Tics.skip_to_end_of_tic L readings s.ticker = .ok ticker) :
    Inv serialize sync t name inj fifo_created loop0
      { s with ticker := ticker, phase := .idle } := by
  obtain ⟨hrounds, hnotified⟩ := skip_same hskip
  refine ⟨?_, fun hw => Phase.noConfusion hw, ?_, h.exact, h.client, h.quiet, h.bytes, h.fifo,
    h.obeyed⟩
  · rw [Announced, hnotified, hrounds]
    exact h.announced
  · have hwire := h.wire
    rw [hphase, if_neg (by decide)] at hwire
    simp only [reduceCtorEq, if_false]
    rw [hwire, hrounds]

/-- **One step**, of whichever party. -/
theorem inv_step (hname : Channel name) (s : System σ β) (i : Input)
    (h : Inv serialize sync t name inj fifo_created loop0 s) :
    Inv serialize sync t name inj fifo_created loop0 (step m L serialize t name inj size s i) := by
  cases i with
  | send_synced_signal =>
      simp only [step]
      split
      · next hphase => exact h.synced hphase
      · exact h
  | manage_fails first =>
      simp only [step]
      split
      · next hphase =>
        split
        · exact h
        · next ticker hround => exact h.round hphase hround
      · exact h
  | skip_to_end_of_tic readings =>
      simp only [step]
      split
      · next hphase =>
        split
        · exact h
        · next ticker hskip => exact h.skip hphase hskip
      · exact h
  | send_back A buf => exact h.publish (forwarded_send_back hname A buf)
  | deliver =>
      simp only [step]
      split
      · exact h
      · next msg rest hbroker =>
        split
        · next hloop =>
          -- a message leaves the broker and is in the queue
          refine h.ask (.message msg) ?_ (fun he => ?_)
          · simp [FaultQueue.step, hloop, hbroker]
          · exact absurd hloop (by rw [(h.quiet he).2]; decide)
        · exact h
  | get_faults con =>
      simp only [step]
      split
      · next hidle =>
        refine h.ask (.get_faults con) ?_ (fun he => ?_)
        · rw [arrived_step _ (by simp)]
        · exact absurd he (by rw [hidle.2]; decide)
      · exact h
  | loopReturns success =>
      refine h.ask (.loopReturns success) ?_ (fun he => ?_)
      · rw [arrived_step _ (by simp)]
      · simp [FaultQueue.step, (h.quiet he).2]
  | forward =>
      simp only [step]
      split
      · exact h
      · next f todo htodo => exact h.forward htodo
  | req_stop =>
      simp only [step]
      split
      · next hidle => exact h.req_stop hidle.1 hidle.2.1 hidle.2.2
      · exact h
  | close => exact h.move rfl
  | backend => exact h.move (written_backend s.fifo)

/-- **Every run.** -/
theorem inv_always (m : FaultManager σ) (L : UInt64) (hname : Channel name) (size : ℕ)
    (manager : σ) (cmd0 : UInt64) (b : β) (inputs : List Input) :
    Always (step m L serialize t name inj size)
      (Inv serialize sync t name inj fifo_created (Loop.start cmd0 b))
      (start sync manager fifo_created cmd0 b) inputs :=
  always_of_step (inv_start manager cmd0 b) (inv_step hname) inputs

end

end LauSim.EndToEnd
