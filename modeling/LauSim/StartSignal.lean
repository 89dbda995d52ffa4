/-
Server, clients and broker together: who is there when the start signal is sent.

A client subscribes and then reports its node ready, in this order on one
connection. The report is retained, so a server that subscribes later gets it
too. Neither the report nor the signal says which run it belongs to.

The system is the process of `ServerMain`, any number of clients, the broker of
`Lib.Broker`, and the packets and messages on their way between them. An input
says who moves next: a process starts or ends, the broker handles the next packet
of a connection, the network thread of the server takes the next message, the main
thread goes on. A server starts a new run; the broker, what it has retained and
the clients of earlier runs stay. Each client belongs to a run, whenever it is
started.

All the server knows of a client is its report. `reachable_of_fresh` says when
that is enough: no report from elsewhere may stand in for that of a client of the
current run, and no such client may go away once the server was told of it.

Left out: the last wills, which go to a topic nobody here subscribes to, and the
faults `do_tic` publishes once the signal is out. Neither is retained.
-/
import LauSim.Lib.Broker
import LauSim.Mosquitto
import LauSim.Readiness
import LauSim.ServerMain

set_option autoImplicit false

namespace LauSim.StartSignal

open CText Topic Runs Mqtt Readiness Mosquitto Backchannel

/-- A connection of the broker. -/
inductive Conn where
  | server (run : ℕ)
  | client (i : ℕ)
  deriving DecidableEq, Repr

/-- A message as a packet. -/
def publish (m : Message) : Packet := .publish m.topic m.payload m.retain

/-- A client, the run it belongs to, and the packets it has sent that the broker
has not handled. -/
structure Client where
  name : Text
  run : ℕ
  out : List Packet
  deriving DecidableEq, Repr

/-- The system. `out` and `inbox` are what is on its way from and to the server. -/
structure State where
  run : ℕ
  opts : ServerMain.Options
  main : ServerMain.Main
  out : List Packet
  inbox : List Text
  clients : List Client
  broker : Broker Conn

/-- Who moves next. -/
inductive Input where
  /-- a new run, with a node table in which nobody has reported -/
  | serverStart (opts : ServerMain.Options) (t : { t : NodeTable // ∀ n ∈ t.1, n.state = .UNKNOWN })
  | clientStart (name : Text) (run : ℕ)
  /-- the connection of a client ends: it exits, dies, or another takes its name -/
  | clientEnd (i : ℕ)
  /-- the broker handles the next packet of the server -/
  | serverPacket
  | clientPacket (i : ℕ)
  /-- the next message reaches the server; it is lost if the callback is not installed -/
  | deliver (heard : Bool)
  | main
  | signal

/-- No server has run yet. -/
def start : State :=
  { run := 0, opts := { sync := false, max_tics := 0 },
    main := { ServerMain.start ⟨[], by simp⟩ with pc := .cleanup },
    out := [], inbox := [], clients := [], broker := Broker.empty }

/-- The nodes of the server of the current run. -/
def State.nodes (s : State) : List Node := s.main.server.nodes

/-- The broker handles a packet. -/
def State.handle (s : State) (who : Conn) (p : Packet) : State :=
  { s with
    broker := (s.broker.process who p).1,
    inbox := s.inbox ++
      ((s.broker.process who p).2.filter (fun d => decide (d.who = .server s.run))).map
        Handed.payload }

/-- What `send_synced_signal` publishes next. -/
def signals (m : ServerMain.Main) : List Packet :=
  match m.pc with
  | .notify i => (m.server.nodes[i]?.map (fun n => publish (notify_fail n.name none 0))).toList
  | _ => []

variable (parse : Text → Option Backchannel) (pack : Text → Text)

/-- What a client sends: `init` subscribes, then `main` reports. `pack` is the
encoding of the report. -/
def Client.sends (name : Text) : List Packet :=
  [.subscribe (top_name name), publish (send_back name (pack name))]

def step (s : State) : Input → State
  | .serverStart opts t =>
    { s with run := s.run + 1, opts := opts, main := ServerMain.start t.1,
             out := [.subscribe back_filter], inbox := [],
             broker := s.broker.disconnect (.server s.run) }
  | .clientStart name run =>
    { s with clients := s.clients ++ [{ name := name, run := run, out := Client.sends pack name }] }
  | .clientEnd i =>
    { s with clients := s.clients.modify i (fun c => { c with out := [] }),
             broker := s.broker.disconnect (.client i) }
  | .serverPacket =>
    match s.out with
    | [] => s
    | p :: out => { s with out := out }.handle (.server s.run) p
  | .clientPacket i =>
    match s.clients[i]? with
    | none => s
    | some c =>
      match c.out with
      | [] => s
      | p :: out =>
        { s with clients := s.clients.set i { c with out := out } }.handle (.client i) p
  | .deliver heard =>
    match s.inbox with
    | [] => s
    | msg :: inbox =>
      if heard = true ∧ msg ≠ [] then
        { s with inbox := inbox, main := ServerMain.step s.opts parse s.main (.message msg) }
      else { s with inbox := inbox }
  | .main =>
    { s with main := ServerMain.step s.opts parse s.main .main, out := s.out ++ signals s.main }
  | .signal => { s with main := ServerMain.step s.opts parse s.main .signal }

/-! ## Who hears the signal -/

/-- A client of the current run has the subscription of the node `name` in place. -/
def Reachable (s : State) (name : Text) : Prop :=
  ∃ i c, s.clients[i]? = some c ∧ streq c.name name = true ∧ c.run = s.run ∧
    (Conn.client i, nodeFilter c.name) ∈ s.broker.subs

/-- When `send_synced_signal` is called because all nodes are ready, the clients of
all nodes can hear it. -/
def AllReachable (s : State) : Prop :=
  s.main.pc = .send → .all_nodes_ready true ∈ s.main.trace → ∀ n ∈ s.nodes, Reachable s n.name

/-- Before `send_synced_signal` looks at the first node. -/
def waits : ServerMain.Pc → Bool
  | .notify _ | .ticTest | .doTic | .cleanup => false
  | _ => true

/-- The signal of this run is not sent yet. -/
def Waiting (s : State) : Prop := waits s.main.pc = true

/-- The server takes the node for ready, or will once it reads its messages. -/
def Told (s : State) (n : Node) : Prop :=
  n.state = .READY ∨ ∃ msg ∈ s.inbox, statusFor parse n.name msg = some .STREADY

/-- While the server waits: a report that is retained when it subscribes is for a
node whose client is there; a report that comes later is from a client of the
current run, with a name that fits its buffer; and a client the server was told of
does not go away. -/
def Fresh (s : State) : Input → Prop
  | .serverPacket => Waiting s → s.out = [.subscribe back_filter] →
      ∀ m ∈ s.broker.retained, matchesTopic back_filter m.1 = true →
        ∀ n ∈ s.nodes, statusFor parse n.name m.2 = some .STREADY → Reachable s n.name
  | .clientPacket i => Waiting s → ∀ c, s.clients[i]? = some c → c.out.length = 1 →
      (∃ filter, (Conn.server s.run, filter) ∈ s.broker.subs) →
        (∃ n ∈ s.nodes, streq c.name n.name = true) → c.run = s.run ∧ c.name.length ≤ 499
  | .clientEnd i => Waiting s → ∀ c, s.clients[i]? = some c → c.run = s.run →
      (Conn.client i, nodeFilter c.name) ∈ s.broker.subs →
        ∀ n ∈ s.nodes, streq c.name n.name = true → ¬ Told parse s n
  | _ => True

/-- A client whose subscription is in place hears the signal for its node. -/
theorem handed_signal {b : Broker Conn} {sender who : Conn} {name : Text} (hname : Level name)
    (h : (who, nodeFilter name) ∈ b.subs) :
    ∃ d ∈ (b.process sender (publish (notify_fail name none 0))).2, d.who = who := by
  have hmatch : matchesTopic (nodeFilter name) (notify_fail name none 0).topic = true := by
    rw [matches_nodeFilter hname (levels_notify_fail hname.slash (by simp) 0)]
    simp
  refine ⟨⟨who, _, _⟩, Broker.mem_handed_publish.mpr ⟨rfl, rfl, nodeFilter name, h, hmatch⟩, rfl⟩

/-! ## Reports -/

/-- A report that a node is ready; clients send nothing else. -/
def IsReady (msg : Text) : Prop := ∃ who, report parse msg = some (who, .STREADY)

variable {parse pack}

/-- A report that a node is ready makes no other node ready, and leaves those that
are. -/
theorem on_message_ready {srv : Server} {msg : Text} (hmsg : IsReady parse msg) {i : ℕ} {n' : Node}
    (h : (srv.on_message parse msg).nodes[i]? = some n') :
    ∃ n, srv.nodes[i]? = some n ∧ n'.name = n.name ∧ (n.state = .READY → n'.state = .READY) ∧
      (n'.state = .READY → n.state = .READY ∨ statusFor parse n.name msg = some .STREADY) := by
  obtain ⟨who, hreport⟩ := hmsg
  rw [on_message_nodes, hreport] at h
  dsimp only at h
  rw [getElem?_set_node_state] at h
  obtain ⟨n, hn, rfl⟩ := Option.map_eq_some_iff.mp h
  refine ⟨n, hn, ?_⟩
  by_cases hfor : streq who n.name = true ∧ First (names srv.nodes) i who
  · rw [if_pos hfor]
    exact ⟨rfl, fun _ => rfl, fun _ => Or.inr (statusFor_eq_some.mpr ⟨who, hreport, hfor.1⟩)⟩
  · rw [if_neg hfor]
    exact ⟨rfl, id, Or.inl⟩

theorem ready_on_message {srv : Server} (h : ∀ n ∈ srv.nodes, n.state = .READY) {msg : Text}
    (hmsg : IsReady parse msg) : ∀ n ∈ (srv.on_message parse msg).nodes, n.state = .READY := by
  intro n' hn'
  obtain ⟨i, hi⟩ := List.getElem?_of_mem hn'
  obtain ⟨n, hn, -, hkeep, -⟩ := on_message_ready hmsg hi
  exact hkeep (h n (List.mem_of_getElem? hn))

/-! ## The main thread -/

/-- Where the wait loop stands: `all_nodes_ready` has not returned true before the
loop is left, and the nodes it has passed are ready. -/
def ScanOk (m : ServerMain.Main) : Prop :=
  match m.pc with
  | .listing | .waitTest | .sleep => .all_nodes_ready true ∉ m.trace
  | .ready k => .all_nodes_ready true ∉ m.trace ∧
      ∀ i n, i < k → m.server.nodes[i]? = some n → n.state = .READY
  | .logReady | .send => .all_nodes_ready true ∈ m.trace → ∀ n ∈ m.server.nodes, n.state = .READY
  | _ => True

/-- `all_nodes_ready` looks at the next node. -/
theorem ScanOk.next {m : ServerMain.Main} {k : ℕ} {n : Node} (h : ScanOk m) (hpc : m.pc = .ready k)
    (hn : m.server.nodes[k]? = some n) (hready : n.state = .READY) :
    ScanOk (m.goto (.ready (k + 1)) []) := by
  simp only [ScanOk, hpc] at h
  simp only [ScanOk, ServerMain.Main.goto_pc, ServerMain.Main.goto_trace, List.append_nil,
    ServerMain.Main.goto_server]
  refine ⟨h.1, fun i n' hi hn' => ?_⟩
  rcases Nat.lt_succ_iff_lt_or_eq.mp hi with hlt | rfl
  · exact h.2 i n' hlt hn'
  · rw [hn] at hn'
    rw [← Option.some.inj hn']
    exact hready

/-- `all_nodes_ready` has passed the last one. -/
theorem ScanOk.all {m : ServerMain.Main} {k : ℕ} (h : ScanOk m) (hpc : m.pc = .ready k)
    (hnone : m.server.nodes[k]? = none) : ∀ n ∈ m.server.nodes, n.state = .READY := by
  simp only [ScanOk, hpc] at h
  intro n hn
  obtain ⟨i, hi⟩ := List.getElem?_of_mem hn
  have hlt : i < k := by
    have hlen := List.getElem?_eq_none_iff.mp hnone
    have hi := (List.getElem?_eq_some_iff.mp hi).1
    omega
  exact h.2 i n hlt hi

/-- **One step of the wait.** -/
theorem scanOk_mainStep {opts : ServerMain.Options} {m : ServerMain.Main} (hscan : ScanOk m) :
    ScanOk (ServerMain.mainStep opts m) := by
  have h := hscan
  unfold ScanOk at h
  unfold ServerMain.mainStep
  split
  · next hpc =>
    rw [hpc] at h
    split
    · simpa [ScanOk] using h
    · simp [ScanOk]
  · next hpc =>
    rw [hpc] at h
    split
    · -- the loop is left because of `termreq`
      simp only [ScanOk, ServerMain.Main.goto_pc, ServerMain.Main.goto_trace, List.append_nil]
      intro hmem
      exact absurd hmem h
    · simpa [ScanOk] using h
  · next k hpc =>
    split
    · next n hn =>
      split
      · next hready => exact hscan.next hpc hn hready
      · rw [hpc] at h
        simpa [ScanOk] using h.1
    · next hnone =>
      simp only [ScanOk, ServerMain.Main.goto_pc, ServerMain.Main.goto_server]
      exact fun _ => hscan.all hpc hnone
  · next hpc =>
    rw [hpc] at h
    simpa [ScanOk] using h
  · next hpc =>
    rw [hpc] at h
    simpa [ScanOk] using h
  · simp [ScanOk]
  · split <;> simp [ScanOk]
  · split
    · simp [ScanOk]
    · split
      · simp [ScanOk]
      · dsimp only
        split <;> simp [ScanOk]
  · simp [ScanOk]
  · next hpc => simp [ScanOk, hpc]

/-- **A ready report during the wait.** The scan stays right: no node it has passed
is taken back. -/
theorem scanOk_on_message {m : ServerMain.Main} (h : ScanOk m) {msg : Text}
    (hmsg : IsReady parse msg) :
    ScanOk { m with server := m.server.on_message parse msg } := by
  unfold ScanOk at h ⊢
  dsimp only
  split
  · next hpc => simpa [hpc] using h
  · next hpc => simpa [hpc] using h
  · next hpc => simpa [hpc] using h
  · next k hpc =>
    simp only [hpc] at h
    refine ⟨h.1, fun i n' hi hn' => ?_⟩
    obtain ⟨n, hn, -, hkeep, -⟩ := on_message_ready hmsg hn'
    exact hkeep (h.2 i n hi hn)
  · next hpc =>
    simp only [hpc] at h
    exact fun hmem => ready_on_message (h hmem) hmsg
  · next hpc =>
    simp only [hpc] at h
    exact fun hmem => ready_on_message (h hmem) hmsg
  · trivial

/-! ## The invariant -/

/-- What a client has still on its way: everything, the report once it is
subscribed, or nothing. -/
def Queue (pack : Text → Text) (subs : List (Conn × Text)) (i : ℕ) (c : Client) : Prop :=
  c.out = Client.sends pack c.name ∨
  (c.out = [publish (send_back c.name (pack c.name))] ∧ (Conn.client i, top_name c.name) ∈ subs) ∨
  c.out = []

/-- What holds while the server waits. -/
structure Wait (parse : Text → Option Backchannel) (s : State) : Prop where
  out : s.out = [.subscribe back_filter] ∨ s.out = []
  inbox : ∀ msg ∈ s.inbox, IsReady parse msg
  told : ∀ n ∈ s.nodes, Told parse s n → Reachable s n.name
  scan : ScanOk s.main

/-- What always holds. -/
structure Inv (parse : Text → Option Backchannel) (pack : Text → Text) (s : State) : Prop where
  queue : ∀ i c, s.clients[i]? = some c → Queue pack s.broker.subs i c
  retained : ∀ m ∈ s.broker.retained, IsReady parse m.2
  unretained : ∀ topic payload, .publish topic payload true ∉ s.out
  wait : Waiting s → Wait parse s

theorem Queue.mono {subs subs' : List (Conn × Text)} {i : ℕ} {c : Client}
    (h : Queue pack subs i c)
    (hsubs : ∀ filter, (Conn.client i, filter) ∈ subs → (Conn.client i, filter) ∈ subs') :
    Queue pack subs' i c := by
  rcases h with h | ⟨h, hsub⟩ | h
  · exact Or.inl h
  · exact Or.inr (Or.inl ⟨h, hsubs _ hsub⟩)
  · exact Or.inr (Or.inr h)

theorem Reachable.mono {s s' : State} {name : Text} (h : Reachable s name) (hrun : s'.run = s.run)
    (hclients : ∀ (i : ℕ) (c : Client), s.clients[i]? = some c →
      ∃ c' : Client, s'.clients[i]? = some c' ∧ c'.name = c.name ∧ c'.run = c.run)
    (hsubs : ∀ i filter, (Conn.client i, filter) ∈ s.broker.subs →
      (Conn.client i, filter) ∈ s'.broker.subs) : Reachable s' name := by
  obtain ⟨i, c, hc, hname, hcrun, hsub⟩ := h
  obtain ⟨c', hc', hname', hrun'⟩ := hclients i c hc
  refine ⟨i, c', hc', ?_, ?_, ?_⟩
  · rw [hname']
    exact hname
  · rw [hrun', hcrun, hrun]
  · rw [hname']
    exact hsubs i _ hsub

theorem mem_inbox_handle {s : State} {who : Conn} {p : Packet} {msg : Text} :
    msg ∈ (s.handle who p).inbox ↔
      msg ∈ s.inbox ∨
        ∃ d ∈ (s.broker.process who p).2, d.who = .server s.run ∧ d.payload = msg := by
  simp [State.handle, and_assoc]

/-- What the broker hands out is all the server learns from a packet. -/
theorem told_handle {s : State} {who : Conn} {p : Packet} {n : Node}
    (h : Told parse (s.handle who p) n) :
    Told parse s n ∨ ∃ d ∈ (s.broker.process who p).2, d.who = .server s.run ∧
      statusFor parse n.name d.payload = some .STREADY := by
  rcases h with h | ⟨msg, hmsg, hfor⟩
  · exact Or.inl (Or.inl h)
  · rcases mem_inbox_handle.mp hmsg with hmsg | ⟨d, hd, hwho, rfl⟩
    · exact Or.inl (Or.inr ⟨msg, hmsg, hfor⟩)
    · exact Or.inr ⟨d, hd, hwho, hfor⟩

theorem subs_handle {s : State} {who : Conn} {p : Packet} {e : Conn × Text}
    (h : e ∈ s.broker.subs) : e ∈ (s.handle who p).broker.subs :=
  Broker.mem_subs_process.mpr (Or.inl h)

theorem inv_start : Inv parse pack start := by
  refine ⟨by simp [start], by simp [start, Broker.empty], by simp [start], fun h => ?_⟩
  simp [Waiting, waits, start] at h

/-! ## Processes start and end -/

theorem inv_serverStart {s : State} (h : Inv parse pack s) (opts : ServerMain.Options)
    (t : { t : NodeTable // ∀ n ∈ t.1, n.state = .UNKNOWN }) :
    Inv parse pack (step parse pack s (.serverStart opts t)) := by
  refine ⟨fun i c hc => ?_, h.retained, by simp [step], fun _ => ?_⟩
  · apply (h.queue i c hc).mono
    intro filter hsub
    exact Broker.mem_subs_disconnect.mpr ⟨hsub, by simp⟩
  · refine ⟨Or.inl rfl, by simp [step], ?_, by simp [step, ScanOk, ServerMain.start]⟩
    -- a new table and an empty inbox: the server has been told nothing
    rintro n hn (hready | ⟨msg, hmsg, -⟩)
    · rw [t.2 n hn] at hready
      simp at hready
    · simp [step] at hmsg

theorem inv_clientStart {s : State} (h : Inv parse pack s) (name : Text) (run : ℕ) :
    Inv parse pack (step parse pack s (.clientStart name run)) := by
  refine ⟨fun i c hc => ?_, h.retained, h.unretained, fun hw => ?_⟩
  · simp only [step] at hc
    by_cases hi : i < s.clients.length
    · rw [List.getElem?_append_left hi] at hc
      exact h.queue i c hc
    · rw [List.getElem?_append_right (by omega), List.getElem?_singleton] at hc
      split at hc
      · rw [← Option.some.inj hc]
        exact Or.inl rfl
      · simp at hc
  · have hwait := h.wait hw
    refine ⟨hwait.out, hwait.inbox, fun n hn htold => ?_, hwait.scan⟩
    refine (hwait.told n hn htold).mono rfl (fun i c hc => ?_) (fun _ _ hsub => hsub)
    have hi := (List.getElem?_eq_some_iff.mp hc).1
    exact ⟨c, by simpa [step, List.getElem?_append_left hi] using hc, rfl, rfl⟩

theorem inv_clientEnd {s : State} (h : Inv parse pack s) {i : ℕ}
    (hfresh : Fresh parse s (.clientEnd i)) :
    Inv parse pack (step parse pack s (.clientEnd i)) := by
  refine ⟨fun j c hc => ?_, h.retained, h.unretained, fun hw => ?_⟩
  · simp only [step, List.getElem?_modify] at hc
    obtain ⟨c₀, hc₀, rfl⟩ := Option.map_eq_some_iff.mp hc
    by_cases hij : i = j
    · exact Or.inr (Or.inr (by simp [hij]))
    · rw [if_neg hij]
      apply (h.queue j c₀ hc₀).mono
      intro filter hsub
      refine Broker.mem_subs_disconnect.mpr ⟨hsub, ?_⟩
      simpa using fun heq : j = i => hij heq.symm
  · have hwait := h.wait hw
    refine ⟨hwait.out, hwait.inbox, fun n hn htold => ?_, hwait.scan⟩
    obtain ⟨j, c, hc, hname, hrun, hsub⟩ := hwait.told n hn htold
    -- the client the server relies on is another one
    have hji : j ≠ i := by
      rintro rfl
      exact hfresh hw c hc hrun hsub n hn hname htold
    refine ⟨j, c, ?_, hname, hrun, ?_⟩
    · simp [step, hc, hji.symm]
    · exact Broker.mem_subs_disconnect.mpr ⟨hsub, by simpa using hji⟩

/-! ## The broker handles a packet -/

theorem inv_serverPacket {s : State} (h : Inv parse pack s)
    (hfresh : Fresh parse s .serverPacket) :
    Inv parse pack (step parse pack s .serverPacket) := by
  simp only [step]
  split
  · exact h
  · next p out hout =>
    refine ⟨fun i c hc => (h.queue i c hc).mono (fun _ hsub => subs_handle hsub), fun m hm => ?_,
      fun topic payload hmem => ?_, fun hw => ?_⟩
    · rcases Broker.mem_retained_process hm with hm | rfl
      · exact h.retained m hm
      · exact absurd (hout ▸ List.mem_cons_self) (h.unretained m.1 m.2)
    · exact h.unretained topic payload (hout ▸ List.mem_cons_of_mem p hmem)
    · have hwait := h.wait hw
      have hsubscribe : p = .subscribe back_filter ∧ out = [] := by
        rcases hwait.out with heq | heq
        · rw [hout] at heq
          exact List.cons.inj heq
        · rw [hout] at heq
          simp at heq
      obtain ⟨rfl, rfl⟩ := hsubscribe
      refine ⟨Or.inr rfl, fun msg hmsg => ?_, fun n hn htold => ?_, hwait.scan⟩
      · rcases mem_inbox_handle.mp hmsg with hmsg | ⟨d, hd, -, rfl⟩
        · exact hwait.inbox msg hmsg
        · exact h.retained _ (Broker.mem_handed_subscribe.mp hd).2.1
      · have hreach : Reachable s n.name := by
          rcases told_handle htold with htold | ⟨d, hd, -, hfor⟩
          · exact hwait.told n hn htold
          · obtain ⟨-, hm, hmatch⟩ := Broker.mem_handed_subscribe.mp hd
            exact hfresh hw hout _ hm hmatch n hn hfor
        exact hreach.mono rfl (fun i c hc => ⟨c, hc, rfl, rfl⟩) (fun _ _ hsub => subs_handle hsub)

theorem set_name_run {cs : List Client} {i : ℕ} {c : Client} (hc : cs[i]? = some c)
    (out : List Packet) (j : ℕ) (d : Client) (hd : cs[j]? = some d) :
    ∃ d' : Client, (cs.set i { c with out := out })[j]? = some d' ∧ d'.name = d.name ∧
      d'.run = d.run := by
  by_cases hij : i = j
  · subst hij
    rw [hc] at hd
    rw [← Option.some.inj hd, List.getElem?_set_self (List.getElem?_eq_some_iff.mp hc).1]
    exact ⟨_, rfl, rfl, rfl⟩
  · rw [List.getElem?_set_ne hij]
    exact ⟨d, hd, rfl, rfl⟩

/-- A packet of a client that the server learns nothing from, or only of nodes it
can reach. -/
theorem inv_handle_client {s : State} (h : Inv parse pack s) {i : ℕ} {c : Client}
    (hc : s.clients[i]? = some c) {p : Packet} {out : List Packet}
    (hqueue : Queue pack (s.broker.process (.client i) p).1.subs i { c with out := out })
    (hretain : ∀ topic payload, p = .publish topic payload true → IsReady parse payload)
    (hinbox : Waiting s → ∀ d ∈ (s.broker.process (.client i) p).2, d.who = .server s.run →
      IsReady parse d.payload ∧
        ∀ n ∈ s.nodes, statusFor parse n.name d.payload = some .STREADY → Reachable s n.name) :
    Inv parse pack
      ({ s with clients := s.clients.set i { c with out := out } }.handle (.client i) p) := by
  refine ⟨fun j d hd => ?_, fun m hm => ?_, h.unretained, fun hw => ?_⟩
  · have hd : (s.clients.set i { c with out := out })[j]? = some d := hd
    by_cases hij : i = j
    · subst hij
      rw [List.getElem?_set_self (List.getElem?_eq_some_iff.mp hc).1] at hd
      rw [← Option.some.inj hd]
      exact hqueue
    · rw [List.getElem?_set_ne hij] at hd
      exact (h.queue j d hd).mono (fun _ hsub => Broker.mem_subs_process.mpr (Or.inl hsub))
  · rcases Broker.mem_retained_process hm with hm | hp
    · exact h.retained m hm
    · exact hretain _ _ hp
  · have hwait := h.wait hw
    refine ⟨hwait.out, fun msg hmsg => ?_, fun n hn htold => ?_, hwait.scan⟩
    · rcases mem_inbox_handle.mp hmsg with hmsg | ⟨d, hd, hwho, rfl⟩
      · exact hwait.inbox msg hmsg
      · exact (hinbox hw d hd hwho).1
    · have hreach : Reachable s n.name := by
        rcases told_handle htold with htold | ⟨d, hd, hwho, hfor⟩
        · exact hwait.told n hn htold
        · exact (hinbox hw d hd hwho).2 n hn hfor
      exact hreach.mono rfl (set_name_run hc out) (fun _ _ hsub => subs_handle hsub)

theorem inv_clientPacket (hpack : ∀ name, report parse (pack name) = some (name, .STREADY))
    {s : State} (h : Inv parse pack s) {i : ℕ} (hfresh : Fresh parse s (.clientPacket i)) :
    Inv parse pack (step parse pack s (.clientPacket i)) := by
  simp only [step]
  split
  · exact h
  · next c hc =>
    split
    · exact h
    · next p out hout =>
      rcases h.queue i c hc with hall | ⟨hreport, hsub⟩ | hnone
      · -- the subscription; nothing is handed to the server
        rw [hout, Client.sends] at hall
        obtain ⟨rfl, rfl⟩ := List.cons.inj hall
        apply inv_handle_client h hc
        · exact Or.inr (Or.inl ⟨rfl, Broker.mem_subs_process.mpr (Or.inr ⟨rfl, rfl⟩)⟩)
        · simp
        · intro _ d hd hwho
          rw [(Broker.mem_handed_subscribe.mp hd).1] at hwho
          simp at hwho
      · -- the report; the client is subscribed by now
        rw [hout] at hreport
        obtain ⟨rfl, rfl⟩ := List.cons.inj hreport
        apply inv_handle_client h hc
        · exact Or.inr (Or.inr rfl)
        · intro topic payload hp
          obtain ⟨-, rfl, -⟩ := Packet.publish.inj hp
          exact ⟨_, hpack c.name⟩
        · intro hw d hd hwho
          obtain ⟨-, hpayload, filter, hlisten, -⟩ := Broker.mem_handed_publish.mp hd
          rw [hwho] at hlisten
          rw [hpayload]
          refine ⟨⟨_, hpack c.name⟩, fun n hn hfor => ?_⟩
          obtain ⟨who, hwho, hname⟩ := statusFor_eq_some.mp hfor
          have hsame : c.name = who := by
            have hboth := (hpack c.name).symm.trans hwho
            exact (Prod.mk.inj (Option.some.inj hboth)).1
          rw [← hsame] at hname
          obtain ⟨hrun, hlen⟩ := hfresh hw c hc (by simp [hout]) ⟨filter, hlisten⟩ ⟨n, hn, hname⟩
          rw [top_name_eq hlen] at hsub
          exact ⟨i, c, hc, hname, hrun, hsub⟩
      · rw [hout] at hnone
        simp at hnone

/-! ## The server -/

theorem inv_deliver {s : State} (h : Inv parse pack s) (heard : Bool) :
    Inv parse pack (step parse pack s (.deliver heard)) := by
  simp only [step]
  split
  · exact h
  · next msg inbox hinbox =>
    have hsub : ∀ msg' ∈ inbox, msg' ∈ s.inbox := by
      intro msg' hmem
      rw [hinbox]
      exact List.mem_cons_of_mem msg hmem
    split
    · refine ⟨h.queue, h.retained, h.unretained, fun hw => ?_⟩
      have hwait := h.wait hw
      have hmsg : IsReady parse msg := hwait.inbox msg (by simp [hinbox])
      refine ⟨hwait.out, fun msg' hmem => hwait.inbox msg' (hsub msg' hmem),
        fun n' hn' htold => ?_, scanOk_on_message hwait.scan hmsg⟩
      obtain ⟨i, hi⟩ := List.getElem?_of_mem hn'
      obtain ⟨n, hn, hname, -, hready⟩ := on_message_ready hmsg hi
      -- the server knew of it before it read the message
      have hbefore : Told parse s n := by
        rcases htold with hstate | ⟨msg', hmem, hfor⟩
        · rcases hready hstate with hstate | hfor
          · exact Or.inl hstate
          · exact Or.inr ⟨msg, by simp [hinbox], hfor⟩
        · rw [hname] at hfor
          exact Or.inr ⟨msg', hsub msg' hmem, hfor⟩
      rw [hname]
      exact hwait.told n (List.mem_of_getElem? hn) hbefore
    · refine ⟨h.queue, h.retained, h.unretained, fun hw => ?_⟩
      have hwait := h.wait hw
      refine ⟨hwait.out, fun msg' hmem => hwait.inbox msg' (hsub msg' hmem), fun n hn htold => ?_,
        hwait.scan⟩
      rcases htold with hstate | ⟨msg', hmem, hfor⟩
      · exact hwait.told n hn (Or.inl hstate)
      · exact hwait.told n hn (Or.inr ⟨msg', hsub msg' hmem, hfor⟩)

/-- The signal is sent once: behind it there is no way back to the wait. -/
theorem waits_of_mainStep {opts : ServerMain.Options} {m : ServerMain.Main}
    (h : waits (ServerMain.mainStep opts m).pc = true) : waits m.pc = true := by
  unfold ServerMain.mainStep at h
  cases hpc : m.pc with
  | notify i =>
      rw [hpc] at h
      cases hn : m.server.nodes[i]? with
      | none => simp [hn, waits] at h
      | some n => simp [hn, waits] at h
  | ticTest =>
      rw [hpc] at h
      by_cases hterm : m.termreq = true
      · simp [hterm, waits] at h
      · by_cases hmax : opts.max_tics = 0
        · simp [hterm, hmax, waits] at h
        · by_cases htic : m.tic_num < opts.max_tics.toUInt64
          · simp [hterm, hmax, htic, waits] at h
          · simp [hterm, hmax, htic, waits] at h
  | doTic => simp [hpc, waits] at h
  | cleanup => simp [hpc, waits] at h
  | _ => rfl

theorem signals_of_waits {m : ServerMain.Main} (h : waits m.pc = true) : signals m = [] := by
  unfold signals
  split
  · next hpc => simp [hpc, waits] at h
  · rfl

theorem inv_main {s : State} (h : Inv parse pack s) :
    Inv parse pack (step parse pack s .main) := by
  have hnodes : (step parse pack s .main).nodes = s.nodes :=
    congrArg Server.nodes (ServerMain.mainStep_server s.opts s.main)
  refine ⟨h.queue, h.retained, fun topic payload hmem => ?_, fun hw => ?_⟩
  · rcases List.mem_append.mp hmem with hmem | hmem
    · exact h.unretained topic payload hmem
    · -- the signal is not retained
      unfold signals at hmem
      split at hmem
      · obtain ⟨n, -, hn⟩ := Option.map_eq_some_iff.mp (Option.mem_toList.mp hmem)
        have hretain : false = true := (Packet.publish.inj hn).2.2
        simp at hretain
      · simp at hmem
  · have hwaiting : Waiting s := waits_of_mainStep hw
    have hsignals := signals_of_waits hwaiting
    have hwait := h.wait hwaiting
    refine ⟨?_, hwait.inbox, fun n hn htold => ?_, scanOk_mainStep hwait.scan⟩
    · simpa [step, hsignals] using hwait.out
    · rw [hnodes] at hn
      exact hwait.told n hn htold

/-- **One step.** -/
theorem inv_step (hpack : ∀ name, report parse (pack name) = some (name, .STREADY)) (s : State)
    (i : Input) (h : Inv parse pack s) (hfresh : Fresh parse s i) :
    Inv parse pack (step parse pack s i) := by
  cases i with
  | serverStart opts t => exact inv_serverStart h opts t
  | clientStart name run => exact inv_clientStart h name run
  | clientEnd i => exact inv_clientEnd h hfresh
  | serverPacket => exact inv_serverPacket h hfresh
  | clientPacket i => exact inv_clientPacket hpack h hfresh
  | deliver heard => exact inv_deliver h heard
  | main => exact inv_main h
  | signal =>
      refine ⟨h.queue, h.retained, h.unretained, fun hw => ?_⟩
      have hwait := h.wait hw
      exact ⟨hwait.out, hwait.inbox, hwait.told, hwait.scan⟩

theorem Inv.allReachable {s : State} (h : Inv parse pack s) : AllReachable s := by
  intro hpc htrue n hn
  have hwait := h.wait (by simp [Waiting, waits, hpc])
  have hscan := hwait.scan
  simp only [ScanOk, hpc] at hscan
  exact hwait.told n hn (Or.inl (hscan htrue n hn))

/-- **The start signal.** For every decoder that reads the reports of the clients,
any number of runs, servers with any node tables and clients of any names, and
every order in which they and the broker move: if every step is fresh, then in
every state in which `send_synced_signal` is called because all nodes are ready,
each node has a client of the current run that is subscribed. -/
theorem reachable_of_fresh (hpack : ∀ name, report parse (pack name) = some (name, .STREADY))
    (is : List Input) (h : EachStep (step parse pack) (Fresh parse) start is) :
    Always (step parse pack) AllReachable start is := by
  have hinv : Always (step parse pack) (Inv parse pack) start is :=
    always_of_eachStep inv_start (inv_step hpack) h
  exact hinv.imp (fun s hs => hs.allReachable)

/-- A run with one node: the server subscribes, the client comes and reports, the
main thread finds the node ready. -/
def oneRun (run : ℕ) (client : List Input) : List Input :=
  [.serverStart { sync := true, max_tics := 0 } (NodeTable.fresh "n0".toList none),
    .clientStart "n0".toList run] ++ client ++ [.deliver true] ++ List.replicate 5 .main

/-- The report of a client. -/
def ready (name : Text) : Text := packStatus name .STREADY

/-- The first run against a broker. -/
def firstRun : List Input := oneRun 1 [.serverPacket, .clientPacket 0, .clientPacket 0]

theorem reachable_firstRun :
    (firstRun.foldl (step ParseFromString ready) start).main.pc = .send ∧
      Always (step ParseFromString ready) AllReachable start firstRun := by
  refine ⟨by decide, reachable_of_fresh (fun name => report_packStatus name .STREADY)
    firstRun ?_⟩
  simp only [firstRun, oneRun, List.cons_append, List.nil_append, List.replicate, eachStep_cons]
  refine ⟨trivial, trivial, ?_, ?_, ?_, trivial, trivial, trivial, trivial, trivial, trivial,
    eachStep_nil⟩
  · intro _ _ m hm
    simp [step, start, Broker.empty, Broker.disconnect] at hm
  · intro _ c hc hlen
    rw [← Option.some.inj hc] at hlen
    simp [Client.sends] at hlen
  · intro _ c hc _ _ _
    rw [← Option.some.inj hc]
    exact ⟨rfl, by decide⟩

/-- The second run against the same broker. -/
def secondRun : List Input := firstRun ++ .clientEnd 0 :: oneRun 2 [.serverPacket]

/-- The broker has retained the report of the first run, and hands it to the new
server before the new client is subscribed. -/
theorem not_reachable_secondRun :
    ¬ Always (step ParseFromString ready) AllReachable start secondRun := by
  intro h
  have hlast := h secondRun (List.prefix_refl _)
  have hnode : 0 < (secondRun.foldl (step ParseFromString ready) start).nodes.length := by decide
  have hsubs : (secondRun.foldl (step ParseFromString ready) start).broker.subs
      = [(.server 2, back_filter)] := by decide
  obtain ⟨i, c, -, -, -, hsub⟩ := hlast (by decide) (by decide) _ (List.getElem_mem hnode)
  rw [hsubs] at hsub
  simp at hsub

end LauSim.StartSignal
