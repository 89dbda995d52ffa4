/-
`srv/main.cpp` from the installation of the signal handlers on: the plugin
table, the wait for the nodes, the start signal, the tic loop.

Three things move: the main thread, the network thread (a backchannel message
runs `Server::on_message`), and signals (`term_handler` sets `termreq`). An
input says which one moves next, so a run is any interleaving of them. The main
thread moves in the small steps between which the others can act; in particular
`all_nodes_ready` and `send_synced_signal` look at one node at a time. `trace`
is what the main thread did, in order.

The wait loop has two exits and common code behind them. `startsReady_iff` says
which one the start signal can be trusted after: the signal follows an
`all_nodes_ready` that returned true exactly if the test of the loop never found
`termreq` set.
-/
import LauSim.Lib.Runs
import LauSim.Server

set_option autoImplicit false

namespace LauSim.ServerMain

open CText Runs

/-- The options of `srv/options.h` the main loop reads. -/
structure Options where
  sync : Bool
  max_tics : UInt32
  deriving DecidableEq, Repr

/-- Where the main thread stands. -/
inductive Pc where
  /-- the handlers are installed, the plugin table is printed -/
  | listing
  /-- `while (!termreq)` of the wait loop -/
  | waitTest
  /-- inside `all_nodes_ready`, at `nodes[i]` -/
  | ready (i : ℕ)
  /-- `sleep_for` -/
  | sleep
  /-- behind the wait loop, before the log message -/
  | logReady
  /-- the call of `send_synced_signal` -/
  | send
  /-- inside `send_synced_signal`, at `nodes[i]` -/
  | notify (i : ℕ)
  /-- the test of the tic loop -/
  | ticTest
  /-- the call of `do_tic` -/
  | doTic
  /-- behind the tic loop -/
  | cleanup
  deriving DecidableEq, Repr

/-- What the main thread does, as far as others can see it. -/
inductive Event where
  /-- `all_nodes_ready` returns -/
  | all_nodes_ready (ret : Bool)
  /-- `"all nodes ready"` is logged -/
  | logged
  /-- `send_synced_signal` is called -/
  | send_synced_signal
  /-- `com_actor->notify_fail (name, NULL, 0)` -/
  | notify_fail (name : Text)
  /-- `do_tic` is called -/
  | do_tic
  deriving DecidableEq, Repr

/-- Who moves next. -/
inductive Input where
  | main
  | message (msg : Text)
  | signal
  deriving DecidableEq, Repr

/-- The server process. -/
structure Main where
  server : Server
  termreq : Bool
  tic_num : UInt64
  pc : Pc
  trace : List Event
  deriving DecidableEq, Repr

/-- `termreq = 0`, handlers installed, `Server::init` done. -/
def start (t : NodeTable) : Main :=
  { server := Server.init t, termreq := false, tic_num := 0, pc := .listing, trace := [] }

/-- The main thread does `e` and goes on to `pc`. -/
def Main.goto (s : Main) (pc : Pc) (e : List Event) : Main :=
  { s with pc := pc, trace := s.trace ++ e }

@[simp] theorem Main.goto_pc (s : Main) (pc : Pc) (e : List Event) : (s.goto pc e).pc = pc := rfl

@[simp] theorem Main.goto_trace (s : Main) (pc : Pc) (e : List Event) :
    (s.goto pc e).trace = s.trace ++ e := rfl

@[simp] theorem Main.goto_server (s : Main) (pc : Pc) (e : List Event) :
    (s.goto pc e).server = s.server := rfl

/-- One step of the main thread. -/
def mainStep (opts : Options) (s : Main) : Main :=
  match s.pc with
  | .listing => if opts.sync then s.goto .waitTest [] else s.goto .ticTest []
  -- both exits of the wait loop go to the same place
  | .waitTest => if s.termreq then s.goto .logReady [] else s.goto (.ready 0) []
  | .ready i =>
    match s.server.nodes[i]? with
    | some n =>
      if n.state = .READY then s.goto (.ready (i + 1)) []
      else s.goto .sleep [.all_nodes_ready false]
    | none => s.goto .logReady [.all_nodes_ready true]
  | .sleep => s.goto .waitTest []
  | .logReady => s.goto .send [.logged]
  | .send => s.goto (.notify 0) [.send_synced_signal]
  | .notify i =>
    match s.server.nodes[i]? with
    | some n => s.goto (.notify (i + 1)) [.notify_fail n.name]
    | none => s.goto .ticTest []
  | .ticTest =>
    -- `!termreq && (max_tics == 0 || max_tics > tic_num++)`
    if s.termreq then s.goto .cleanup []
    else if opts.max_tics = 0 then s.goto .doTic []
    else
      let s' := { s with tic_num := s.tic_num + 1 }
      if s.tic_num < opts.max_tics.toUInt64 then s'.goto .doTic [] else s'.goto .cleanup []
  | .doTic => s.goto .ticTest [.do_tic]
  | .cleanup => s

/-- The main thread only reads the table. -/
theorem mainStep_server (opts : Options) (s : Main) : (mainStep opts s).server = s.server := by
  unfold mainStep
  split
  · split <;> rfl
  · split <;> rfl
  · split
    · split <;> rfl
    · rfl
  · rfl
  · rfl
  · rfl
  · split <;> rfl
  · split
    · rfl
    · split
      · rfl
      · dsimp only
        split <;> rfl
  · rfl
  · rfl

/-- One step of the process. -/
def step (opts : Options) (parse : Text → Option Backchannel) (s : Main) : Input → Main
  | .main => mainStep opts s
  | .message msg => { s with server := s.server.on_message parse msg }
  | .signal => { s with termreq := true }

/-! ## What a start signal may be trusted after -/

/-- Every call of `send_synced_signal` comes right after the message that all
nodes are ready, and that right after an `all_nodes_ready` that returned true. -/
def StartsReady (tr : List Event) : Prop :=
  ∀ pre post, tr = pre ++ .send_synced_signal :: post →
    ∃ pre', pre = pre' ++ [.all_nodes_ready true, .logged]

/-- The test of the wait loop does not find `termreq` set. -/
def Calm (s : Main) (i : Input) : Prop := i = .main → s.pc = .waitTest → s.termreq = false

/-- The last thing the main thread saw of the nodes is that all are ready. -/
def ReadyLast (tr : List Event) : Prop := ∃ pre, tr = pre ++ [.all_nodes_ready true]

/-- No start signal yet. -/
def Unsent (tr : List Event) : Prop := Event.send_synced_signal ∉ tr

/-- A history behind the start signal, if there was one: `all_nodes_ready` had
just returned true exactly if `calm`. -/
def Started (calm : Prop) (tr : List Event) : Prop :=
  Unsent tr ∨ ∃ pre post, tr = pre ++ .logged :: .send_synced_signal :: post ∧
    Unsent pre ∧ Unsent post ∧ (ReadyLast pre ↔ calm)

/-- The history at each point of `main`, given that the steps so far were calm
exactly if `calm`: while the loop waits they were, and `all_nodes_ready` has not
returned true; behind it, it has just returned true exactly if they were. -/
def Inv (calm : Prop) (s : Main) : Prop :=
  match s.pc with
  | .listing | .waitTest | .ready _ | .sleep => calm ∧ Unsent s.trace ∧ ¬ ReadyLast s.trace
  | .logReady => Unsent s.trace ∧ (ReadyLast s.trace ↔ calm)
  | .send => ∃ tr, s.trace = tr ++ [.logged] ∧ Unsent tr ∧ (ReadyLast tr ↔ calm)
  | .notify _ | .ticTest | .doTic | .cleanup => Started calm s.trace

/-! ## Histories -/

theorem Unsent.append {tr es : List Event} (h : Unsent tr) (hes : Unsent es) :
    Unsent (tr ++ es) := by
  intro hm
  rcases List.mem_append.mp hm with hm | hm
  · exact h hm
  · exact hes hm

theorem not_readyLast_append {tr : List Event} {e : Event} (h : e ≠ .all_nodes_ready true) :
    ¬ ReadyLast (tr ++ [e]) := by
  rintro ⟨pre, heq⟩
  have hlast := (List.append_inj' heq rfl).2
  exact h (List.cons.inj hlast).1

theorem readyLast_append (tr : List Event) : ReadyLast (tr ++ [.all_nodes_ready true]) := ⟨tr, rfl⟩

theorem startsReady_of_unsent {tr : List Event} (h : Unsent tr) : StartsReady tr := by
  intro pre post heq
  exact absurd (by rw [heq]; simp) h

/-- The one start signal of a history splits it at one place only. -/
theorem split_unique {tr post pre' post' : List Event} (htr : Unsent tr) (hpost : Unsent post)
    (h : tr ++ .send_synced_signal :: post = pre' ++ .send_synced_signal :: post') : pre' = tr := by
  -- a different split would put one signal inside `tr` or inside `post`
  rcases List.append_eq_append_iff.mp h with ⟨c, hpre, hc⟩ | ⟨c, htr', hc⟩
  · cases c with
    | nil => rw [hpre, List.append_nil]
    | cons d c =>
        rw [List.cons_append, List.cons.injEq] at hc
        exact absurd (by rw [hc.2]; simp) hpost
  · cases c with
    | nil => rw [htr', List.append_nil]
    | cons d c =>
        rw [List.cons_append, List.cons.injEq] at hc
        exact absurd (by rw [htr', ← hc.1]; simp) htr

/-- A history with one start signal is right exactly if `all_nodes_ready` has
returned true just before. -/
theorem startsReady_iff_readyLast {tr post : List Event} (htr : Unsent tr) (hpost : Unsent post) :
    StartsReady (tr ++ .logged :: .send_synced_signal :: post) ↔ ReadyLast tr := by
  have hsplit : tr ++ .logged :: .send_synced_signal :: post
      = (tr ++ [.logged]) ++ .send_synced_signal :: post := by simp
  have hlogged : Unsent (tr ++ [.logged]) := htr.append (by simp [Unsent])
  constructor
  · intro h
    obtain ⟨pre, hpre⟩ := h _ _ hsplit
    refine ⟨pre, ?_⟩
    rw [show pre ++ [Event.all_nodes_ready true, .logged]
      = (pre ++ [.all_nodes_ready true]) ++ [.logged] by simp] at hpre
    exact (List.append_inj' hpre rfl).1
  · rintro ⟨pre, rfl⟩ pre' post' heq
    refine ⟨pre, ?_⟩
    rw [hsplit] at heq
    rw [split_unique hlogged hpost heq]
    simp

/-- Nothing that comes later touches the start signal. -/
theorem Started.append {calm : Prop} {tr es : List Event} (h : Started calm tr)
    (hes : Unsent es) : Started calm (tr ++ es) := by
  rcases h with h | ⟨pre, post, rfl, hpre, hpost, hiff⟩
  · exact Or.inl (h.append hes)
  · exact Or.inr ⟨pre, post ++ es, by simp, hpre, hpost.append hes, hiff⟩

/-! ## One step, and every run -/

/-- A step of the main thread outside the test of the wait loop. -/
theorem inv_mainStep {opts : Options} {calm : Prop} {s : Main} (h : Inv calm s)
    (hpc : s.pc ≠ .waitTest) : Inv calm (mainStep opts s) := by
  have hunsent : ∀ e : Event, e ≠ .send_synced_signal → Unsent [e] := by
    intro e he hm
    exact he (List.mem_singleton.mp hm).symm
  unfold mainStep
  unfold Inv at h
  split
  · next heq =>
    simp only [heq] at h
    split
    · simpa [Inv] using h
    · left
      simpa using h.2.1
  · next heq => exact absurd heq hpc
  · next i heq =>
    simp only [heq] at h
    obtain ⟨hcalm, hun, hlast⟩ := h
    split
    · split
      · simpa [Inv] using ⟨hcalm, hun, hlast⟩
      · exact ⟨hcalm, hun.append (hunsent _ (by simp)), not_readyLast_append (by simp)⟩
    · exact ⟨hun.append (hunsent _ (by simp)), iff_of_true (readyLast_append _) hcalm⟩
  · next heq =>
    simp only [heq] at h
    simpa [Inv] using h
  · next heq =>
    simp only [heq] at h
    exact ⟨s.trace, rfl, h.1, h.2⟩
  · next heq =>
    simp only [heq] at h
    obtain ⟨tr, htr, hun, hiff⟩ := h
    exact Or.inr ⟨tr, [], by simp [htr], hun, by simp [Unsent], hiff⟩
  · next i heq =>
    simp only [heq] at h
    split
    · exact h.append (hunsent _ (by simp))
    · simpa [Inv] using h
  · next heq =>
    simp only [heq] at h
    have hsame : Started calm (s.trace ++ []) := h.append (by simp [Unsent])
    split
    · exact hsame
    · split
      · exact hsame
      · dsimp only
        split
        · exact hsame
        · exact hsame
  · next heq =>
    simp only [heq] at h
    exact h.append (hunsent _ (by simp))
  · next heq =>
    rw [Inv, heq]
    simp only [heq] at h
    exact h

/-- **One step.** The history stays right, with the step counted in. The only
step that can miss `Calm` is the test that finds `termreq` set; it leaves the
loop without a fresh answer of `all_nodes_ready`. -/
theorem inv_step {opts : Options} {parse : Text → Option Backchannel} {calm : Prop} {s : Main}
    (i : Input) (h : Inv calm s) : Inv (calm ∧ Calm s i) (step opts parse s i) := by
  by_cases hcalm : Calm s i
  · rw [show (calm ∧ Calm s i) = calm from propext (and_iff_left hcalm)]
    cases i with
    | message msg => exact h
    | signal => exact h
    | main =>
        by_cases hpc : s.pc = .waitTest
        · simp only [Inv, hpc] at h
          simp only [step, mainStep, hpc, hcalm rfl hpc, Bool.false_eq_true, if_false]
          simpa [Inv] using h
        · exact inv_mainStep h hpc
  · -- the test found `termreq` set: the loop is left, and no answer is fresh
    unfold Calm at hcalm
    push Not at hcalm
    obtain ⟨rfl, hpc, hterm⟩ := hcalm
    simp only [Inv, hpc] at h
    have hterm : s.termreq = true := by simpa using hterm
    have hnot : ¬ Calm s .main := fun hc => by simpa [hterm] using hc rfl hpc
    simp only [step, mainStep, hpc, hterm, if_true]
    refine ⟨by simpa using h.2.1, iff_of_false (by simpa using h.2.2) (fun hc => hnot hc.2)⟩

theorem inv_run (opts : Options) (parse : Text → Option Backchannel) (is : List Input)
    {calm : Prop} {s : Main} (h : Inv calm s) :
    Inv (calm ∧ EachStep (step opts parse) Calm s is) (is.foldl (step opts parse) s) := by
  induction is generalizing calm s with
  | nil =>
      rw [show (calm ∧ EachStep (step opts parse) Calm s []) = calm from
        propext (and_iff_left eachStep_nil)]
      exact h
  | cons i is ih =>
      rw [propext eachStep_cons, ← and_assoc]
      exact ih (inv_step i h)

/-- What the history at any point says about start signals. -/
theorem startsReady_iff_of_inv {calm : Prop} {s : Main} (h : Inv calm s) :
    StartsReady s.trace ↔ (Event.send_synced_signal ∈ s.trace → calm) := by
  have hquiet : Unsent s.trace →
      (StartsReady s.trace ↔ (Event.send_synced_signal ∈ s.trace → calm)) := by
    intro hun
    exact iff_of_true (startsReady_of_unsent hun) (fun hm => absurd hm hun)
  have hstarted : Started calm s.trace →
      (StartsReady s.trace ↔ (Event.send_synced_signal ∈ s.trace → calm)) := by
    rintro (hun | ⟨pre, post, htr, hpre, hpost, hiff⟩)
    · exact hquiet hun
    · rw [htr, startsReady_iff_readyLast hpre hpost, hiff]
      simp
  unfold Inv at h
  split at h
  · exact hquiet h.2.1
  · exact hquiet h.2.1
  · exact hquiet h.2.1
  · exact hquiet h.2.1
  · exact hquiet h.1
  · obtain ⟨tr, htr, hun, -⟩ := h
    apply hquiet
    rw [htr]
    exact hun.append (by simp [Unsent])
  · exact hstarted h
  · exact hstarted h
  · exact hstarted h
  · exact hstarted h

/-- **The start signal and the ready cluster.** In every run of `main`, for
every node table, every order of messages and signals and every option: the
history has every start signal right after an `all_nodes_ready` that returned
true, exactly if no start signal was sent or the test of the wait loop never
found `termreq` set. -/
theorem startsReady_iff (opts : Options) (parse : Text → Option Backchannel) (t : NodeTable)
    (is : List Input) :
    StartsReady (is.foldl (step opts parse) (start t)).trace ↔
      (Event.send_synced_signal ∈ (is.foldl (step opts parse) (start t)).trace →
        EachStep (step opts parse) Calm (start t) is) := by
  have hstart : Inv True (start t) := by
    refine ⟨trivial, by simp [Unsent, start], ?_⟩
    rintro ⟨pre, hpre⟩
    simp [start] at hpre
  have hrun := inv_run opts parse is hstart
  rw [true_and] at hrun
  exact startsReady_iff_of_inv hrun

/-- One node that has not reported anything. -/
def silentNode : NodeTable := .single "n0".toList none

/-- A signal that arrives before the wait loop is entered: the loop is left at
its first test, and the start signal goes out although `all_nodes_ready` was
never asked. -/
theorem starts_unready :
    ¬ StartsReady ([Input.main, .signal, .main, .main, .main].foldl
        (step { sync := true, max_tics := 0 } (fun _ => none)) (start silentNode)).trace := by
  intro h
  obtain ⟨pre, hpre⟩ := h [.logged] [] rfl
  have hlen := congrArg List.length hpre
  simp at hlen

end LauSim.ServerMain
