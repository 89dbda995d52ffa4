/-
What arrives at the injector: the two ends of `Pipeline`, put together.

In every state of every run the calls the injector got are the first calls that the
faults of the node stand for (`calls_in_order`), and they are all of them once
nothing is under way any more (`calls_drained`). Both are about a node with a channel
of its own (`Channel`), and about announced faults with names that can stand in a
topic, those of the node being of no component or of net, memory or power, with a
severity below 2^31 (`Regular`). What the client gets first becomes the one line that
is not a command: the backend takes it with `fgetc`, or reads it as an empty line if it
found the FIFO already there. A server with option `-s` sends a signal for that;
without, the first fault of the node is spent on it (`carried`).
-/
import LauSim.Pipeline

set_option autoImplicit false

namespace LauSim.EndToEnd

open Backend CText Mosquitto Runs Tics

variable {σ β : Type}

/-! ## The lines in the FIFO -/

/-- The last line of a client, if it has ended. -/
def farewell (ended : Bool) : Text := if ended then "exit\n".toList else []

theorem line_newline (inj : Injector β) (s : Loop β) : s.line inj "\n".toList = s := by
  have hwords : words "\n".toList = [] := by decide
  rw [Loop.line, hwords, Loop.execute, ite_self]

/-- A line of one word makes no call. -/
theorem calls_short (inj : Injector β) (s : Loop β) {l : Text} (h : (words l).length ≤ 1) :
    (s.line inj l).calls = s.calls := by
  unfold Loop.line
  split
  · cases hwords : words l with
    | nil => rfl
    | cons w ws =>
        have hnil : ws = [] := by
          rw [hwords, List.length_cons] at h
          exact List.eq_nil_of_length_eq_zero (by omega)
        rw [hnil, Loop.execute]
        split <;> rfl
  · rfl

theorem calls_farewell (inj : Injector β) (s : Loop β) (ended : Bool) :
    (lauSim_main inj s (lines (farewell ended))).calls = s.calls := by
  cases ended with
  | false => rfl
  | true =>
      have hlines : lines (farewell true) = ["exit\n".toList] := by decide
      rw [hlines]
      exact calls_short inj s (by decide)

/-- A client that ends before it was started: the backend reads `exit` or, with the
first byte taken for the start signal, `xit`. -/
theorem calls_unstarted (inj : Injector β) (s : Loop β) (fifo_created ended : Bool) :
    (lauSim_main inj s (lines ((farewell ended).drop (Fifo.skipped fifo_created)))).calls
      = s.calls := by
  cases fifo_created with
  | false => exact calls_farewell inj s ended
  | true =>
      cases ended with
      | false => rfl
      | true =>
          have hlines : lines ((farewell true).drop (Fifo.skipped true)) = ["xit\n".toList] := by
            decide
          rw [hlines]
          exact calls_short inj s (by decide)

theorem isLine_command {f : ClientFault} (h : Delivery.Ordinary f) :
    IsLine (Client.command f) := by
  rw [Client.isLine_command_iff]
  obtain ⟨hcomp | hcomp | hcomp | hcomp, -⟩ := h <;> simp [hcomp]

/-- What a started client has written, behind the byte for the start signal. -/
theorem lines_started {f : ClientFault} {fs : List ClientFault}
    (h : ∀ f ∈ fs, Delivery.Ordinary f) (rest : Text) :
    ∃ w, Client.text (Client.initial.get_faults (f :: fs)).writes ++ rest = "\n".toList ++ w ∧
      lines w = fs.map Client.command ++ lines rest := by
  refine ⟨fs.flatMap Client.command ++ rest, ?_,
    lines_flatMap (fun f hf => isLine_command (h f hf)) rest⟩
  rw [Client.get_faults_initial_cons, Client.text, List.flatMap_cons, List.flatMap_map,
    List.append_assoc]

/-- The byte is taken by `fgetc`, or is an empty line. -/
theorem lauSim_main_started (inj : Injector β) (s : Loop β) (fifo_created : Bool) (w : Text) :
    lauSim_main inj s (lines (("\n".toList ++ w).drop (Fifo.skipped fifo_created)))
      = lauSim_main inj s (lines w) := by
  cases fifo_created with
  | true => rfl
  | false =>
      have hlines : lines ("\n".toList ++ w) = "\n".toList :: lines w := lines_newline w
      rw [Fifo.skipped, if_neg (by decide), List.drop_zero, hlines, lauSim_main, List.foldl_cons,
        line_newline]
      rfl

/-- Either way all its lines are complete. -/
theorem completeLines_started {fs : List ClientFault} (h : ∀ f ∈ fs, Delivery.Ordinary f)
    {w : Text} (hw : lines w = fs.map Client.command) (fifo_created : Bool) :
    completeLines (("\n".toList ++ w).drop (Fifo.skipped fifo_created))
      = lines (("\n".toList ++ w).drop (Fifo.skipped fifo_created)) := by
  have hline : ∀ l ∈ lines w, IsLine l := by
    intro l hl
    rw [hw] at hl
    obtain ⟨f, hf, rfl⟩ := List.mem_map.mp hl
    exact isLine_command (h f hf)
  apply completeLines_eq_lines
  cases fifo_created with
  | true => exact hline
  | false =>
      have hlines : lines ("\n".toList ++ w) = "\n".toList :: lines w := lines_newline w
      rw [Fifo.skipped, if_neg (by decide), List.drop_zero, hlines, List.forall_mem_cons]
      exact ⟨⟨[], by simp, rfl⟩, hline⟩

/-- **The calls for everything the client has written.** -/
theorem calls_written (inj : Injector β) (hinj : Switches inj) {s : Loop β}
    (hrun : s.status = .running) (fifo_created ended : Bool) {done : List ClientFault}
    (h : ∀ f ∈ done.tail, Delivery.Ordinary f) :
    (lauSim_main inj s (lines ((Client.text (Client.initial.get_faults done).writes ++
      farewell ended).drop (Fifo.skipped fifo_created)))).calls
      = s.calls ++ (Delivery.throughPower done.tail).map Delivery.call := by
  cases done with
  | nil =>
      rw [List.tail_nil, Delivery.throughPower, List.map_nil, List.append_nil]
      exact calls_unstarted inj s fifo_created ended
  | cons f fs =>
      rw [List.tail_cons] at h ⊢
      obtain ⟨w, hw, hlines⟩ := lines_started (f := f) h (farewell ended)
      have hsplit : lauSim_main inj s (lines w)
          = lauSim_main inj (lauSim_main inj s (fs.map Client.command))
              (lines (farewell ended)) := by
        rw [hlines, lauSim_main, List.foldl_append]
        rfl
      rw [hw, lauSim_main_started, hsplit, calls_farewell,
        (Delivery.lauSim_main_commands hinj hrun h).1]

/-! ## Faults reach the injector -/

theorem throughPower_mono {fs gs : List ClientFault} (h : fs <+: gs) :
    Delivery.throughPower fs <+: Delivery.throughPower gs := by
  induction fs generalizing gs with
  | nil => exact List.nil_prefix
  | cons f fs ih =>
      obtain ⟨rest, rfl⟩ := h
      rw [List.cons_append, Delivery.throughPower, Delivery.throughPower]
      split
      · exact List.prefix_rfl
      · exact List.cons_prefix_cons.mpr ⟨rfl, ih (List.prefix_append fs rest)⟩

theorem tail_mono {fs gs : List ClientFault} (h : fs <+: gs) : fs.tail <+: gs.tail := by
  cases fs with
  | nil => exact List.nil_prefix
  | cons f fs =>
      obtain ⟨rest, rfl⟩ := h
      exact List.prefix_append fs rest

theorem throughPower_eq_self {fs : List ClientFault}
    (h : ∀ f ∈ fs, Delivery.target f ≠ SUBSYS_PWR) : Delivery.throughPower fs = fs := by
  induction fs with
  | nil => rfl
  | cons f fs ih =>
      rw [Delivery.throughPower, if_neg (h f List.mem_cons_self),
        ih (fun g hg => h g (List.mem_cons_of_mem _ hg))]

section

variable {serialize : ExtMsg → Text} {t : NodeTable} {name : Text} {inj : Injector β}
  {sync fifo_created : Bool} {loop0 : Loop β} {s : System σ β}

/-- What the client has worked off is a front piece of what was meant for it. -/
theorem Inv.done_front (h : Inv serialize sync t name inj fifo_created loop0 s)
    (hname : Channel name) (ht : Listed t name) (hreg : Regular name s.ticker.notified)
    {done : List ClientFault} (hdone : done ++ s.todo = FaultQueue.handedOut s.queue) :
    done <+: meant sync name s.ticker.notified := by
  have harrived : done <+: s.queue.arrived.map FaultQueue.newFault := by
    rw [← h.exact.exact, ← hdone, List.append_assoc]
    exact List.prefix_append _ _
  have hwire : s.queue.arrived.map FaultQueue.newFault <+:
      meant sync name s.ticker.notified := by
    have hsent := congrArg (List.map FaultQueue.newFault) h.wire
    rw [List.map_append] at hsent
    split at hsent
    · rw [(List.append_eq_nil_iff.mp hsent).1]
      exact List.nil_prefix
    · rw [h.announced] at hreg ⊢
      rw [forwarded_published hname ht serialize sync hreg] at hsent
      rw [← hsent]
      exact List.prefix_append _ _
  exact harrived.trans hwire

end

/-- **Faults reach the injector of their node.** For every fault manager, every tic
length and clock, with and without `-s`, and every order in which server, broker, clients
and backend move, with the node in the table once, under a name that is its channel alone:
in every state in which the faults announced so far are `Regular`, the calls `lauSim_main`
has made are the first calls of those that the faults announced for the node stand for
(without `-s`, those behind the first one), in order, up to the first power fault; none is
invented, repeated, reordered or taken from another node. -/
theorem calls_in_order (m : FaultManager σ) (L : UInt64) (serialize : ExtMsg → Text)
    (t : NodeTable) (name : Text) (hname : Channel name) (ht : Listed t name) (size : ℕ)
    (sync : Bool) (manager : σ) (fifo_created : Bool) (cmd0 : UInt64) (inputs : List Input) :
    Always (step m L serialize t name Preload.injector size)
      (fun s => Regular name s.ticker.notified → s.fifo.loop.calls <+:
        (Delivery.throughPower (carried sync name s.ticker.notified)).map Delivery.call)
      (start sync manager fifo_created cmd0 Preload.initial) inputs := by
  refine (inv_always m L hname size manager cmd0 Preload.initial inputs).imp
    (fun s h hreg => ?_)
  obtain ⟨done, hdone, hclient⟩ := h.client
  have hpre := h.done_front hname ht hreg hdone
  have htail : done.tail <+: carried sync name s.ticker.notified := by
    rw [← tail_meant]
    exact tail_mono hpre
  have hord : ∀ f ∈ done.tail, Delivery.Ordinary f :=
    fun f hf => ordinary_carried sync hreg f (htail.subset hf)
  have hexecuted := calls_lauSim_main Preload.injector (Loop.start cmd0 Preload.initial)
    (executed_front h.fifo)
  rw [h.bytes, hclient] at hexecuted
  have hall := calls_written Preload.injector Preload.switches
    (s := Loop.start cmd0 Preload.initial) rfl fifo_created s.ended hord
  rw [farewell] at hall
  rw [hall] at hexecuted
  rw [h.obeyed.calls]
  exact hexecuted.trans ((throughPower_mono htail).map Delivery.call)

/-- A manager that fails the network of its node in every tic. -/
def flaky : FaultManager Unit where
  get_nodes _ := .ok (some (.single "n0".toList (some "net".toList)), ())
  tic _ := .ok ()
  get_fail _ := .ok ([⟨1, none, some "net".toList, "n0".toList, 100⟩], ())
  inject_fail _ _ := .ok (1, ())

/-- The start, one tic, and every part after the other. -/
def oneTic : List Input :=
  [.send_synced_signal, .manage_fails 0, .get_faults true, .deliver, .deliver, .loopReturns true,
    .loopReturns true, .forward, .backend, .forward, .backend, .backend, .backend]

/-- The state behind it. -/
def afterOneTic : System Unit Preload :=
  oneTic.foldl (step flaky 0 (fun _ => []) (.single "n0".toList (some "net".toList)) "n0".toList
    Preload.injector 4096) (start true () true 0 Preload.initial)

theorem channel_n0 : Channel "n0".toList :=
  ⟨⟨by decide, by decide, by decide, by decide⟩, by decide, by decide, by decide⟩

theorem listed_n0 : Listed (.single "n0".toList (some "net".toList)) "n0".toList := by
  refine ⟨fun n hn => ?_, by decide⟩
  obtain rfl := List.mem_singleton.mp hn
  exact channel_n0.level

theorem regular_oneTic : Regular "n0".toList afterOneTic.ticker.notified := by
  have hnotified : afterOneTic.ticker.notified = [("n0".toList, some "net".toList, 100)] := by
    decide
  rw [hnotified]
  intro f hf
  obtain rfl := List.mem_singleton.mp hf
  refine ⟨channel_n0.level, fun c hc => ?_, fun _ => by decide⟩
  rw [← Option.mem_some_iff.mp hc]
  exact ⟨by decide, by decide, by decide, by decide⟩

theorem calls_in_order_oneTic :
    afterOneTic.fifo.loop.calls = [(SUBSYS_NET, 100)] ∧
      afterOneTic.fifo.loop.calls <+:
        (Delivery.throughPower (carried true "n0".toList afterOneTic.ticker.notified)).map
          Delivery.call :=
  ⟨by decide, calls_in_order flaky 0 (fun _ => []) _ _ channel_n0 listed_n0 4096 true () true 0
    oneTic oneTic List.prefix_rfl regular_oneTic⟩

/-- Nothing is under way: the client is up and has forwarded all it was sent, and the
backend has read all of it. -/
structure Drained (s : System σ β) : Prop where
  started : s.phase ≠ .waiting
  broker : s.broker = []
  pending : FaultQueue.pending s.queue.queue = []
  todo : s.todo = []
  ended : s.ended = false
  pc : s.fifo.pc = .select
  kernel : s.fifo.kernel = []
  buffer : '\n' ∉ s.fifo.buffer

section

variable {serialize : ExtMsg → Text} {t : NodeTable} {name : Text} {inj : Injector β}
  {sync fifo_created : Bool} {loop0 : Loop β} {s : System σ β}

/-- The client has seen everything that was meant for it. -/
theorem Inv.done_all (h : Inv serialize sync t name inj fifo_created loop0 s) (hd : Drained s)
    (hname : Channel name) (ht : Listed t name) (hreg : Regular name s.ticker.notified) :
    s.client = Client.initial.get_faults (meant sync name s.ticker.notified) := by
  obtain ⟨done, hdone, hclient⟩ := h.client
  rw [hd.todo, List.append_nil] at hdone
  have hexact := h.exact.exact
  have hwire := h.wire
  rw [hd.pending, List.append_nil, ← hdone] at hexact
  rw [hd.broker, List.append_nil, if_neg hd.started] at hwire
  rw [h.announced] at hreg ⊢
  rw [hclient, hexact, hwire, forwarded_published hname ht serialize sync hreg]

/-- The backend has obeyed all complete lines. -/
theorem Inv.executed_all (h : Inv serialize sync t name inj fifo_created loop0 s) (hd : Drained s) :
    s.fifo.executed = completeLines (s.fifo.written.drop (Fifo.skipped fifo_created)) ∧
      s.fifo.loop = lauSim_main inj loop0 s.fifo.executed := by
  have hpc : s.fifo.pc ≠ .fgetc ∧ s.fifo.pc ≠ .stopped := by
    rw [hd.pc]
    exact ⟨by decide, by decide⟩
  obtain ⟨first, hlen, hw⟩ := h.fifo.bytes hpc.1
  refine ⟨?_, h.fifo.loop hpc.2⟩
  rw [hw, ← hlen, List.drop_left, h.fifo.between hd.pc, hd.kernel, List.nil_append,
    List.append_nil, completeLines_append h.fifo.isLine, completeLines_eq_nil_iff.mpr hd.buffer,
    List.append_nil]

/-- They are the commands of the faults, with an empty one before them. -/
theorem Inv.commands (h : Inv serialize sync t name inj fifo_created loop0 s) (hd : Drained s)
    (hname : Channel name) (ht : Listed t name) (hreg : Regular name s.ticker.notified) :
    s.fifo.loop
      = lauSim_main inj loop0 ((carried sync name s.ticker.notified).map Client.command) := by
  obtain ⟨hexecuted, hloop⟩ := h.executed_all hd
  have hord := ordinary_carried sync hreg
  have hwritten : s.fifo.written
      = Client.text (Client.initial.get_faults (meant sync name s.ticker.notified)).writes := by
    rw [h.bytes, hd.ended, h.done_all hd hname ht hreg]
    exact List.append_nil _
  rw [← tail_meant] at hord ⊢
  cases hmeant : meant sync name s.ticker.notified with
  | nil =>
      -- the client has had nothing to write
      have hnone : s.fifo.executed = [] := by
        rw [hexecuted, hwritten, hmeant]
        exact congrArg completeLines List.drop_nil
      rw [hloop, hnone]
      rfl
  | cons f fs =>
      rw [hmeant, List.tail_cons] at hord
      rw [hmeant] at hwritten
      obtain ⟨w, hw, hlines⟩ := lines_started (f := f) hord []
      rw [List.append_nil] at hw
      rw [lines_nil, List.append_nil] at hlines
      have hcomplete : s.fifo.executed
          = lines (("\n".toList ++ w).drop (Fifo.skipped fifo_created)) := by
        rw [hexecuted, hwritten, hw]
        exact completeLines_started hord hlines fifo_created
      rw [hloop, hcomplete, lauSim_main_started, hlines, List.tail_cons]

end

/-- **When nothing is under way, everything has happened.** In every state of every run,
with names and faults as in `calls_in_order`, in which the client has forwarded all it
was sent and the backend has read all of it: the injector got a call for each fault
announced for the node (without `-s`, for each behind the first one), in order and with
its severity, no power fault is among them, and the network is as the last network fault
of them left it. -/
theorem calls_drained (m : FaultManager σ) (L : UInt64) (serialize : ExtMsg → Text)
    (t : NodeTable) (name : Text) (hname : Channel name) (ht : Listed t name) (size : ℕ)
    (sync : Bool) (manager : σ) (fifo_created : Bool) (cmd0 : UInt64) (inputs : List Input) :
    Always (step m L serialize t name Preload.injector size)
      (fun s => Regular name s.ticker.notified → Drained s →
        s.fifo.loop.calls = (carried sync name s.ticker.notified).map Delivery.call ∧
        (∀ f ∈ carried sync name s.ticker.notified, Delivery.target f ≠ SUBSYS_PWR) ∧
        s.fifo.loop.injector.net_state =
          Delivery.netAfter (carried sync name s.ticker.notified))
      (start sync manager fifo_created cmd0 Preload.initial) inputs := by
  refine (inv_always m L hname size manager cmd0 Preload.initial inputs).imp
    (fun s h hreg hd => ?_)
  have hord := ordinary_carried sync hreg
  have hcommands := h.commands hd hname ht hreg
  obtain ⟨hcalls, hstatus⟩ := Delivery.lauSim_main_commands Preload.switches
    (s := Loop.start cmd0 Preload.initial) rfl hord
  have hrunning : s.fifo.loop.status = .running := h.obeyed.alive (by rw [hd.pc]; decide)
  have hpower : ∀ f ∈ carried sync name s.ticker.notified, Delivery.target f ≠ SUBSYS_PWR := by
    intro f hf htarget
    rw [hcommands, hstatus, if_pos ⟨f, hf, htarget⟩] at hrunning
    exact absurd hrunning (by decide)
  refine ⟨?_, hpower, ?_⟩
  · rw [hcommands, hcalls, throughPower_eq_self hpower]
    rfl
  · rw [hcommands]
    exact Delivery.lauSim_main_net Preload.switches rfl rfl hord hpower

theorem calls_drained_oneTic :
    Drained afterOneTic ∧
      afterOneTic.fifo.loop.calls =
        (carried true "n0".toList afterOneTic.ticker.notified).map Delivery.call ∧
      afterOneTic.fifo.loop.injector.net_state =
        Delivery.netAfter (carried true "n0".toList afterOneTic.ticker.notified) := by
  have hd : Drained afterOneTic :=
    ⟨by decide, by decide, by decide, by decide, by decide, by decide, by decide, by decide⟩
  obtain ⟨hcalls, -, hnet⟩ := calls_drained flaky 0 (fun _ => []) _ _ channel_n0 listed_n0 4096
    true () true 0 oneTic oneTic List.prefix_rfl regular_oneTic hd
  exact ⟨hd, hcalls, hnet⟩

end LauSim.EndToEnd
