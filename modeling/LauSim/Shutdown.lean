/-
How a run of the server ends: the loops of `srv/main.cpp` and `termreq`.

The handler of SIGTERM, SIGINT and SIGABRT sets `termreq`, and the main thread looks
at it at the head of its two loops. Between two looks it may scan the node table, sleep,
send the start signal to all nodes or make a tic. `steps_left` bounds what is left to do
from every place in the program; messages on the backchannel arrive all the while and
do not change it.

The server stops after a bounded number of its own steps once a signal has arrived
(`stops_after_signal`), and it does not stop for any other reason than a signal or the
limit of option `-n` (`stops_for_a_reason`).
-/
import LauSim.Lib.Runs
import LauSim.Readiness
import LauSim.ServerMain

set_option autoImplicit false

namespace LauSim.ServerMain

open CText Runs

variable {opts : Options} {parse : Text → Option Backchannel} {s : Main}

/-! ## After a signal -/

/-- How many steps the main thread has left at most, with `n` nodes in the table. -/
def steps_left (n : ℕ) : Pc → ℕ
  | .listing => n + 6
  | .waitTest => n + 5
  -- the scan, and what follows if it succeeds at the last node or fails there
  | .ready i => (n - i) + (n + 7)
  | .sleep => n + 6
  | .logReady => n + 4
  | .send => n + 3
  | .notify i => (n - i) + 2
  | .ticTest => 1
  | .doTic => 2
  | .cleanup => 0

theorem steps_left_le (n : ℕ) (pc : Pc) : steps_left n pc ≤ 2 * n + 7 := by
  cases pc <;> simp only [steps_left] <;> omega

theorem steps_left_eq_zero {n : ℕ} {pc : Pc} (h : steps_left n pc = 0) : pc = .cleanup := by
  cases pc <;> simp only [steps_left] at h <;> first | rfl | omega

/-- The calls of `do_tic` that are under way. -/
def tics_left (pc : Pc) : ℕ := if pc = .doTic then 1 else 0

theorem mainStep_termreq (opts : Options) (s : Main) :
    (mainStep opts s).termreq = s.termreq := by
  unfold mainStep
  split
  · split <;> rfl
  · split <;> rfl
  · split
    · split <;> rfl
    · rfl
  · rfl
  · rfl
  · rfl
  · split <;> rfl
  · split
    · rfl
    · split
      · rfl
      · dsimp only
        split <;> rfl
  · rfl
  · rfl

theorem lt_of_getElem? {ns : List Node} {i : ℕ} {n : Node} (h : ns[i]? = some n) :
    i < ns.length := (List.getElem?_eq_some_iff.mp h).1

/-- One step of the main thread, with the signal there. -/
theorem steps_left_mainStep (opts : Options) (h : s.termreq = true) :
    steps_left s.server.nodes.length (mainStep opts s).pc
      ≤ steps_left s.server.nodes.length s.pc - 1 := by
  unfold mainStep
  split
  · next hpc =>
    rw [hpc]
    split <;> simp only [Main.goto_pc, steps_left] <;> omega
  · next hpc =>
    rw [hpc, if_pos h]
    simp only [Main.goto_pc, steps_left]
    omega
  · next i hpc =>
    rw [hpc]
    split
    · next n hn =>
      have hi := lt_of_getElem? hn
      split <;> simp only [Main.goto_pc, steps_left] <;> omega
    · simp only [Main.goto_pc, steps_left]
      omega
  · next hpc =>
    rw [hpc]
    simp only [Main.goto_pc, steps_left]
    omega
  · next hpc =>
    rw [hpc]
    simp only [Main.goto_pc, steps_left]
    omega
  · next hpc =>
    rw [hpc]
    simp only [Main.goto_pc, steps_left]
    omega
  · next i hpc =>
    rw [hpc]
    split
    · next n hn =>
      have hi := lt_of_getElem? hn
      simp only [Main.goto_pc, steps_left]
      omega
    · simp only [Main.goto_pc, steps_left]
      omega
  · next hpc =>
    rw [hpc, if_pos h]
    simp only [Main.goto_pc, steps_left]
    omega
  · next hpc =>
    rw [hpc]
    simp only [Main.goto_pc, steps_left]
    omega
  · next hpc =>
    rw [hpc]
    simp only [steps_left]
    omega

/-- With the signal there, no new tic is begun. -/
theorem tics_left_mainStep (opts : Options) (h : s.termreq = true) :
    (mainStep opts s).trace.count .do_tic + tics_left (mainStep opts s).pc
      ≤ s.trace.count .do_tic + tics_left s.pc := by
  unfold mainStep
  split
  · split <;> simp [tics_left]
  · rw [if_pos h]
    simp [tics_left]
  · split
    · split <;> simp [tics_left]
    · simp [tics_left]
  · simp [tics_left]
  · simp [tics_left]
  · simp [tics_left]
  · split <;> simp [tics_left]
  · rw [if_pos h]
    simp [tics_left]
  · next hpc => simp [tics_left, hpc]
  · next hpc => simp [hpc]

theorem length_on_message (msg : Text) (srv : Server) :
    (srv.on_message parse msg).nodes.length = srv.nodes.length := by
  have hnames := congrArg List.length (Readiness.names_on_message parse msg srv)
  rwa [Readiness.names, Readiness.names, List.length_map, List.length_map] at hnames

/-- The signal is there, and the table has `n` nodes. -/
structure Signalled (n : ℕ) (s : Main) : Prop where
  termreq : s.termreq = true
  length : s.server.nodes.length = n

theorem Signalled.step {n : ℕ} {s : Main} (h : Signalled n s) (i : Input) :
    Signalled n (step opts parse s i) := by
  cases i with
  | main =>
      refine ⟨(mainStep_termreq opts s).trans h.termreq, ?_⟩
      rw [ServerMain.step, mainStep_server]
      exact h.length
  | message msg => exact ⟨h.termreq, (length_on_message msg s.server).trans h.length⟩
  | signal => exact ⟨rfl, h.length⟩

theorem Signalled.steps_left {n : ℕ} {s : Main} (h : Signalled n s) (i : Input) :
    ServerMain.steps_left n (ServerMain.step opts parse s i).pc
      ≤ ServerMain.steps_left n s.pc - (if i == .main then 1 else 0) := by
  cases i with
  | main =>
      have hstep := steps_left_mainStep opts h.termreq
      rw [h.length] at hstep
      exact hstep
  | message msg => exact le_rfl
  | signal => exact le_rfl

theorem Signalled.tics_left {n : ℕ} {s : Main} (h : Signalled n s) (i : Input) :
    (ServerMain.step opts parse s i).trace.count .do_tic +
        ServerMain.tics_left (ServerMain.step opts parse s i).pc
      ≤ s.trace.count .do_tic + ServerMain.tics_left s.pc := by
  cases i with
  | main => exact tics_left_mainStep opts h.termreq
  | message msg => exact le_rfl
  | signal => exact le_rfl

/-- The table keeps its length, and a signal is not forgotten. -/
theorem signalled_run (opts : Options) (parse : Text → Option Backchannel) (is : List Input)
    (s : Main) (h : s.termreq = true ∨ .signal ∈ is) :
    Signalled s.server.nodes.length (is.foldl (step opts parse) s) := by
  induction is generalizing s with
  | nil => exact ⟨h.resolve_right List.not_mem_nil, rfl⟩
  | cons i is ih =>
      have hlength : (step opts parse s i).server.nodes.length = s.server.nodes.length := by
        cases i with
        | main => rw [step, mainStep_server]
        | message msg => exact length_on_message msg s.server
        | signal => rfl
      have hsignal : (step opts parse s i).termreq = true ∨ .signal ∈ is := by
        rcases h with h | h
        · left
          cases i with
          | main => exact (mainStep_termreq opts s).trans h
          | message msg => exact h
          | signal => rfl
        · rcases List.mem_cons.mp h with rfl | h
          · exact Or.inl rfl
          · exact Or.inr h
      rw [List.foldl_cons, ← hlength]
      exact ih _ hsignal

/-- **A signal ends the run.** For every table, every option and everything that happened
before: once a signal has arrived, the main thread leaves its loops within
`2 * num_nodes + 7` of its own steps, whatever arrives in the meantime, and makes at most
one more call of `do_tic`. A call of `do_tic` is one step here and returns; when it does is
a matter of the clock (`Deadlines`). -/
theorem stops_after_signal (opts : Options) (parse : Text → Option Backchannel) (t : NodeTable)
    (is js : List Input) (hsignal : .signal ∈ is)
    (hmain : 2 * t.1.length + 7 ≤ js.count .main) :
    (js.foldl (step opts parse) (is.foldl (step opts parse) (start t))).pc = .cleanup ∧
    (js.foldl (step opts parse) (is.foldl (step opts parse) (start t))).trace.count .do_tic
      ≤ (is.foldl (step opts parse) (start t)).trace.count .do_tic + 1 := by
  have hstart := signalled_run opts parse is (start t) (Or.inr hsignal)
  generalize is.foldl (step opts parse) (start t) = s at hstart ⊢
  constructor
  · have hrank := rank_foldl (f := step opts parse)
      (r := fun s => steps_left t.1.length s.pc) (fun s i h => h.step i)
      (fun s i h => h.steps_left i) hstart js
    have hle := steps_left_le t.1.length s.pc
    have hcount : js.countP (fun i => i == .main) = js.count .main := rfl
    apply steps_left_eq_zero (n := t.1.length)
    omega
  · have htics := rank_foldl (f := step opts parse) (q := fun _ => false)
      (r := fun s => s.trace.count .do_tic + tics_left s.pc) (fun s i h => h.step i)
      (fun s i h => h.tics_left i) hstart js
    have hone : tics_left s.pc ≤ 1 := by
      unfold tics_left
      split <;> omega
    omega

theorem stops_after_signal_waiting :
    (List.replicate 9 Input.main).count .main = 9 ∧
      ((List.replicate 9 Input.main).foldl (step ⟨true, 0⟩ (fun _ => none))
        ([.main, .main, .signal].foldl (step ⟨true, 0⟩ (fun _ => none)) (start silentNode))).pc
          = .cleanup :=
  ⟨by decide, (stops_after_signal ⟨true, 0⟩ (fun _ => none) silentNode [.main, .main, .signal]
    (List.replicate 9 .main) (by decide) (by decide)).1⟩

/-! ## Why it stops -/

/-- The count of the loop and the calls it stands for. -/
structure Counting (opts : Options) (s : Main) : Prop where
  le : opts.max_tics ≠ 0 → s.trace.count .do_tic + tics_left s.pc ≤ opts.max_tics.toNat
  tic_num : opts.max_tics ≠ 0 → s.pc ≠ .cleanup →
    s.tic_num.toNat = s.trace.count .do_tic + tics_left s.pc
  cleanup : s.pc = .cleanup → s.termreq = true ∨
    opts.max_tics ≠ 0 ∧ s.trace.count .do_tic = opts.max_tics.toNat

/-- A step that neither begins nor ends a tic. -/
theorem Counting.goto (h : Counting opts s) (hpc : s.pc ≠ .doTic ∧ s.pc ≠ .cleanup) {pc : Pc}
    (hpc' : pc ≠ .doTic ∧ pc ≠ .cleanup) {es : List Event} (hes : .do_tic ∉ es) :
    Counting opts (s.goto pc es) := by
  have hleft : tics_left s.pc = 0 := if_neg hpc.1
  have hleft' : tics_left pc = 0 := if_neg hpc'.1
  have hcount : (s.trace ++ es).count .do_tic = s.trace.count .do_tic := by
    rw [List.count_append, List.count_eq_zero_of_not_mem hes, Nat.add_zero]
  refine ⟨fun hmax => ?_, fun hmax _ => ?_, fun hc => absurd hc hpc'.2⟩
  · have hle := h.le hmax
    rw [Main.goto_trace, Main.goto_pc, hcount, hleft']
    omega
  · have htic := h.tic_num hmax hpc.2
    rw [Main.goto_trace, Main.goto_pc, hcount, hleft', ← hleft]
    exact htic

/-- The test of the tic loop. -/
theorem Counting.ticTest (h : Counting opts s) (hpc : s.pc = .ticTest) :
    Counting opts (mainStep opts s) := by
  have hleft : tics_left s.pc = 0 := by
    rw [hpc]
    rfl
  have hmax32 : opts.max_tics.toUInt64.toNat = opts.max_tics.toNat := UInt32.toNat_toUInt64 _
  have hlt32 : opts.max_tics.toNat < 2 ^ 32 := UInt32.toNat_lt _
  simp only [mainStep, hpc]
  by_cases hterm : s.termreq = true
  · rw [if_pos hterm]
    refine ⟨fun hmax => ?_, fun _ hc => absurd rfl hc, fun _ => Or.inl hterm⟩
    have hle := h.le hmax
    simp only [Main.goto_trace, Main.goto_pc, List.append_nil, tics_left, reduceCtorEq, if_false]
    omega
  · rw [if_neg hterm]
    by_cases hmax : opts.max_tics = 0
    · rw [if_pos hmax]
      exact ⟨fun hne => absurd hmax hne, fun hne => absurd hmax hne, fun hc => absurd hc (by simp)⟩
    · rw [if_neg hmax]
      have hle := h.le hmax
      have htic := h.tic_num hmax (by rw [hpc]; decide)
      rw [hleft, Nat.add_zero] at hle htic
      have hnext : (s.tic_num + 1).toNat = s.tic_num.toNat + 1 := by
        rw [UInt64.toNat_add, UInt64.toNat_one, Nat.mod_eq_of_lt (by omega)]
      by_cases hlt : s.tic_num < opts.max_tics.toUInt64
      · rw [if_pos hlt]
        rw [UInt64.lt_iff_toNat_lt, hmax32] at hlt
        refine ⟨fun _ => ?_, fun _ _ => ?_, fun hc => absurd hc (by simp)⟩
        · simp only [Main.goto_trace, Main.goto_pc, List.append_nil, tics_left, if_true]
          omega
        · simp only [Main.goto, List.append_nil, tics_left, if_true, hnext]
          omega
      · rw [if_neg hlt]
        rw [UInt64.lt_iff_toNat_lt, hmax32] at hlt
        refine ⟨fun _ => ?_, fun _ hc => absurd rfl hc, fun _ => Or.inr ⟨hmax, ?_⟩⟩
        · simp only [Main.goto_trace, Main.goto_pc, List.append_nil, tics_left, reduceCtorEq,
            if_false]
          omega
        · simp only [Main.goto_trace, List.append_nil]
          omega

theorem counting_mainStep (h : Counting opts s) : Counting opts (mainStep opts s) := by
  cases hpc : s.pc with
  | listing =>
      simp only [mainStep, hpc]
      split <;> exact h.goto (by simp [hpc]) (by simp) (by simp)
  | waitTest =>
      simp only [mainStep, hpc]
      split <;> exact h.goto (by simp [hpc]) (by simp) (by simp)
  | ready i =>
      simp only [mainStep, hpc]
      split
      · split <;> exact h.goto (by simp [hpc]) (by simp) (by simp)
      · exact h.goto (by simp [hpc]) (by simp) (by simp)
  | sleep =>
      simp only [mainStep, hpc]
      exact h.goto (by simp [hpc]) (by simp) (by simp)
  | logReady =>
      simp only [mainStep, hpc]
      exact h.goto (by simp [hpc]) (by simp) (by simp)
  | send =>
      simp only [mainStep, hpc]
      exact h.goto (by simp [hpc]) (by simp) (by simp)
  | notify i =>
      simp only [mainStep, hpc]
      split <;> exact h.goto (by simp [hpc]) (by simp) (by simp)
  | ticTest => exact h.ticTest hpc
  | doTic =>
      -- the call that was begun is made
      simp only [mainStep, hpc]
      have hleft : tics_left s.pc = 1 := by
        rw [hpc]
        rfl
      refine ⟨fun hmax => ?_, fun hmax _ => ?_, fun hc => absurd hc (by simp)⟩
      · have hle := h.le hmax
        rw [hleft] at hle
        simpa [tics_left] using hle
      · have htic := h.tic_num hmax (by rw [hpc]; decide)
        rw [hleft] at htic
        simpa [Main.goto, tics_left] using htic
  | cleanup =>
      simp only [mainStep, hpc]
      exact h

theorem counting_run (opts : Options) (parse : Text → Option Backchannel) (t : NodeTable)
    (is : List Input) : Counting opts (is.foldl (step opts parse) (start t)) := by
  have hinv : Always (step opts parse) (Counting opts) (start t) is := by
    refine always_of_step ⟨fun _ => Nat.zero_le _, fun _ _ => rfl, fun hc => Pc.noConfusion hc⟩
      (fun s i h => ?_) is
    cases i with
    | main => exact counting_mainStep h
    | message msg => exact ⟨h.le, h.tic_num, h.cleanup⟩
    | signal => exact ⟨h.le, h.tic_num, fun _ => Or.inl rfl⟩
  exact hinv is List.prefix_rfl

/-- Only a signal sets `termreq`. -/
theorem signal_of_termreq (opts : Options) (parse : Text → Option Backchannel) (is : List Input)
    (s : Main) (h : (is.foldl (step opts parse) s).termreq = true) :
    s.termreq = true ∨ .signal ∈ is := by
  induction is generalizing s with
  | nil => exact Or.inl h
  | cons i is ih =>
      rcases ih (step opts parse s i) h with hstep | hmem
      · cases i with
        | main => exact Or.inl ((mainStep_termreq opts s).symm.trans hstep)
        | message msg => exact Or.inl hstep
        | signal => exact Or.inr List.mem_cons_self
      · exact Or.inr (List.mem_cons_of_mem i hmem)

/-- **The server stops for a reason.** Whatever has arrived up to now, and in whatever
order: with a limit `N` of option `-n` at most `N` calls of `do_tic` have been made, and the
main thread is behind its loops only if a signal was among what arrived or there is a limit
`N` and exactly `N` calls have been made. -/
theorem stops_for_a_reason (opts : Options) (parse : Text → Option Backchannel) (t : NodeTable)
    (is : List Input) :
    let s := is.foldl (step opts parse) (start t)
    (opts.max_tics ≠ 0 → s.trace.count .do_tic ≤ opts.max_tics.toNat) ∧
      (s.pc = .cleanup → .signal ∈ is ∨
        opts.max_tics ≠ 0 ∧ s.trace.count .do_tic = opts.max_tics.toNat) := by
  intro s
  have h : Counting opts s := counting_run opts parse t is
  refine ⟨fun hmax => ?_, fun hpc => (h.cleanup hpc).imp_left fun hterm => ?_⟩
  · have hle := h.le hmax
    omega
  · exact (signal_of_termreq opts parse is (start t) hterm).resolve_left Bool.false_ne_true

end LauSim.ServerMain
