/-
What the server shows of its fault manager.

A run of `do_tic` calls is decided by the clock and by what `get_fail` returns, and
of a fault by the three fields of `Fault.triple`. Two managers whose rounds agree in
these cannot be told apart by anything the server logs, sends or waits for: the two
runs go through the same states, or stop in the same way in the same call
(`do_tic_agrees`).

Two managers that agree in this sense stand in for each other: `transcribe` for the
manager it records (`recorded_run`), and `replay` for the run that was recorded
(`replayed_run`), also when the recorded manager is `random` (`random_replayed`).
-/
import LauSim.Dispatch
import LauSim.Lib.Agrees
import LauSim.Random
import LauSim.RecordReplay

set_option autoImplicit false

namespace LauSim.Observed

open CText SideBySide Tics

variable {σ τ : Type}

/-! ## What can be seen -/

/-- What `server.cpp` has logged, sent and waited for, and where it stands. -/
structure Visible where
  tic : UInt64
  timestamp : Int64
  log : List (LogLevel × Text)
  notified : List (Text × Option Text × UInt32)
  external : List ExtMsg
  deadlines : List Int64
  tic_calls : ℕ
  rounds : List (UInt64 × ℕ × List (Text × Option Text × UInt32))
  T0 : Int64

/-- A run of `manage_fails`, as far as it can be seen. -/
def seen (r : Round) : UInt64 × ℕ × List (Text × Option Text × UInt32) :=
  (r.tic, r.before, r.faults.map Fault.triple)

/-- Everything but the state of the fault manager, and the fields of a fault that the
server does not read. -/
def visible (s : Ticker σ) : Visible :=
  { tic := s.tic, timestamp := s.timestamp, log := s.log, notified := s.notified,
    external := s.external, deadlines := s.deadlines, tic_calls := s.tic_calls,
    rounds := s.rounds.map seen, T0 := s.T0 }

/-- Two servers that look the same, with managers in the relation `R`. -/
structure Alike (R : σ → τ → Prop) (s : Ticker σ) (s' : Ticker τ) : Prop where
  visible : visible s = visible s'
  manager : R s.manager s'.manager

/-- `tic` and `get_fail`, as `do_tic` calls them. -/
def answer (m : FaultManager σ) (s : σ) : Except Undef (List Fault × σ) :=
  m.tic s >>= m.get_fail

/-- Two answers that the server cannot tell apart. -/
structure SameAnswer (R : σ → τ → Prop) (p : List Fault × σ) (q : List Fault × τ) : Prop where
  faults : p.1.map Fault.triple = q.1.map Fault.triple
  manager : R p.2 q.2

/-! ## One call -/

/-- The line of the log for a fault. -/
def faultLog (f : Text × Option Text × UInt32) : List (LogLevel × Text) :=
  match f.2.1 with
  | some _ => []
  | none =>
    let word := if f.2.2 ≠ 0 then "failed".toList else "recovered".toList
    [(.Info, ("Node ".toList ++ (f.1 ++ (" ".toList ++ word))).take 511)]

/-- The message for external programs. -/
def extMessage (fs : List (Text × Option Text × UInt32)) : ExtMsg :=
  { failing_nodes := (fs.filter (fun f => decide (f.2.1 = none ∧ f.2.2 ≠ 0))).map Prod.fst,
    spare_nodes := (fs.filter (fun f => decide (f.2.1 = none ∧ f.2.2 = 0))).map Prod.fst }

/-- The server behind `manage_fails`, which got the list `failed`. -/
def managed (s : Ticker σ) (failed : List Fault) (manager : σ) : Ticker σ :=
  let fs := failed.map Fault.triple
  { s with
    manager := manager
    rounds := s.rounds ++ [⟨s.tic, s.tic_calls - 1, failed⟩]
    log := s.log ++
      if fs = [] then [] else (.Info, "Tic #".toList ++ fmtU s.tic.toNat) :: fs.flatMap faultLog
    notified := s.notified ++ fs
    external := s.external ++ if fs = [] then [] else [extMessage fs] }

theorem foldl_dispatch_eq (fs : List Fault) (s : Ticker σ) :
    fs.foldl dispatch s =
      { s with
        notified := s.notified ++ fs.map Fault.triple
        log := s.log ++ (fs.map Fault.triple).flatMap faultLog } := by
  induction fs generalizing s with
  | nil => simp
  | cons f fs ih =>
      have hone : dispatch s f = { s with
          notified := s.notified ++ [f.triple], log := s.log ++ faultLog f.triple } := by
        unfold dispatch faultLog Fault.triple
        cases f.component with
        | some c => simp
        | none => rfl
      rw [List.foldl_cons, ih, hone]
      simp only [List.map_cons, List.flatMap_cons, List.append_assoc, List.singleton_append]

theorem classified_eq (fs : List Fault) : classified fs = extMessage (fs.map Fault.triple) := by
  unfold classified extMessage
  rw [List.filter_map, List.filter_map, List.map_map, List.map_map]
  rfl

/-- `manage_fails` reads the triples of the faults. -/
theorem manage_fails_eq (m : FaultManager σ) (s : Ticker σ) :
    manage_fails m s =
      ask (m.get_fail s.manager) >>= fun p => .ok (managed s p.1 p.2) := by
  unfold manage_fails
  congr 1
  funext p
  obtain ⟨failed, manager⟩ := p
  dsimp only
  unfold managed
  by_cases hnil : failed = []
  · rw [if_pos hnil, hnil]
    simp [pure, Except.pure]
  · have hmap : failed.map Fault.triple ≠ [] := by simpa using hnil
    rw [if_neg hnil, foldl_dispatch_eq, extMsg_eq, classified_eq]
    simp only [if_neg hmap, pure, Except.pure, List.append_assoc, List.singleton_append]

theorem agrees_ask {α β : Type} {R : α → β → Prop} {x : Except Undef α} {y : Except Undef β}
    (h : Agrees R x y) : Agrees R (ask x) (ask y) := by
  cases x with
  | error e =>
      cases y with
      | error e' => exact congrArg Stop.undef h
      | ok b => exact h.elim
  | ok a =>
      cases y with
      | error e' => exact h.elim
      | ok b => exact h

theorem ask_bind {α β : Type} (x : Except Undef α) (f : α → Except Undef β) :
    ask (x >>= f) = ask x >>= fun a => ask (f a) := by
  cases x <;> rfl

/-- A call of `do_tic`, with the two calls of the manager put together. -/
theorem do_tic_eq (m : FaultManager σ) (L : UInt64) (s : Ticker σ) (c : Call) :
    do_tic m L s c =
      ask (answer m s.manager) >>= fun p =>
        skip_to_end_of_tic L c.readings (managed { s with
          timestamp := base s c, T0 := if s.rounds = [] then c.first else s.T0,
          tic_calls := s.tic_calls + 1 } p.1 p.2) := by
  unfold do_tic answer
  rw [ask_bind, bind_assoc]
  dsimp only
  congr 1
  funext manager
  rw [manage_fails_eq, bind_assoc]
  rfl

section

variable {R : σ → τ → Prop} {s : Ticker σ} {s' : Ticker τ}

theorem rounds_nil_iff (h : visible s = visible s') : s.rounds = [] ↔ s'.rounds = [] := by
  have hrounds : s.rounds.map seen = s'.rounds.map seen := congrArg Visible.rounds h
  rw [← List.map_eq_nil_iff (f := seen), hrounds, List.map_eq_nil_iff]

/-- The start of `do_tic`. -/
theorem visible_base (h : visible s = visible s') (c : Call) :
    visible { s with
        timestamp := base s c, T0 := if s.rounds = [] then c.first else s.T0,
        tic_calls := s.tic_calls + 1 } =
      visible { s' with
        timestamp := base s' c, T0 := if s'.rounds = [] then c.first else s'.T0,
        tic_calls := s'.tic_calls + 1 } := by
  have hnil := rounds_nil_iff h
  simp only [visible, Visible.mk.injEq] at h ⊢
  obtain ⟨htic, hts, hlog, hnot, hext, hdead, hcalls, hrounds, hT0⟩ := h
  refine ⟨htic, ?_, hlog, hnot, hext, hdead, by rw [hcalls], hrounds, ?_⟩
  · rw [base, base, htic, hts]
  · simp only [hnil, hT0]

theorem visible_managed (h : visible s = visible s') {fs : List Fault} {gs : List Fault}
    (hfs : fs.map Fault.triple = gs.map Fault.triple) (manager : σ) (manager' : τ) :
    visible (managed s fs manager) = visible (managed s' gs manager') := by
  simp only [visible, Visible.mk.injEq] at h
  obtain ⟨htic, hts, hlog, hnot, hext, hdead, hcalls, hrounds, hT0⟩ := h
  simp only [visible, managed, Visible.mk.injEq, List.map_append, List.map_singleton, seen]
  refine ⟨htic, hts, ?_, ?_, ?_, hdead, hcalls, ?_, hT0⟩
  · rw [hlog, hfs, htic]
  · rw [hnot, hfs]
  · rw [hext, hfs]
  · rw [hrounds, hfs, htic, hcalls]

/-- The end of a tic does not ask the manager. -/
theorem skip_agrees (h : Alike R s s') (L : UInt64) (readings : List Int64) :
    Agrees (Alike R) (skip_to_end_of_tic L readings s) (skip_to_end_of_tic L readings s') := by
  have hvis := h.visible
  simp only [visible, Visible.mk.injEq] at hvis
  obtain ⟨htic, hts, hlog, hnot, hext, hdead, hcalls, hrounds, hT0⟩ := hvis
  unfold skip_to_end_of_tic
  by_cases hL : L = 0
  · -- no tic length, no waiting
    rw [if_pos hL, if_pos hL]
    refine ⟨?_, h.manager⟩
    simp only [visible, Visible.mk.injEq]
    exact ⟨by rw [htic], hts, hlog, hnot, hext, hdead, hcalls, hrounds, hT0⟩
  · rw [if_neg hL, if_neg hL]
    refine (agrees_of_eq (by rw [hts])).bind (fun ts ts' hts' => ?_)
    subst hts'
    refine (agrees_of_eq rfl).bind (fun p q hpq => ?_)
    subst hpq
    refine ⟨?_, h.manager⟩
    simp only [visible, Visible.mk.injEq]
    exact ⟨by rw [htic], trivial, by rw [hlog], hnot, hext, by rw [hdead], hcalls, hrounds, hT0⟩

/-- **One call.** If the managers answer alike, the servers stay alike. -/
theorem do_tic_agrees {S : σ → τ → Prop} {m : FaultManager σ} {m' : FaultManager τ} (L : UInt64)
    (c : Call) (h : visible s = visible s')
    (hanswer : Agrees (SameAnswer S) (answer m s.manager) (answer m' s'.manager)) :
    Agrees (Alike S) (do_tic m L s c) (do_tic m' L s' c) := by
  rw [do_tic_eq, do_tic_eq]
  refine (agrees_ask hanswer).bind (fun p q hpq => ?_)
  -- the manager is asked before the deadline is looked at
  refine skip_agrees ⟨?_, hpq.manager⟩ L c.readings
  exact visible_managed (visible_base h c) hpq.faults p.2 q.2

end

/-! ## A recorded run -/

/-- The calls `cs` of `do_tic`, from the server behind `init` on. -/
def run (m : FaultManager σ) (L : UInt64) (manager : σ) (cs : List Call) :
    Except Stop (Ticker σ) := cs.foldl (step m L) (.ok (start manager))

/-- The lists that `manage_fails` got. -/
def lists (s : Ticker σ) : List (List Fault) := s.rounds.map Round.faults

theorem rounds_run {m : FaultManager σ} {L : UInt64} (cs : List Call) {s₀ s : Ticker σ}
    (h : cs.foldl (step m L) (.ok s₀) = .ok s) :
    ∃ fss, m.tics cs.length s₀.manager = .ok (fss, s.manager) ∧ lists s = lists s₀ ++ fss := by
  induction cs generalizing s₀ with
  | nil =>
      rw [← Except.ok.inj h]
      exact ⟨[], rfl, (List.append_nil _).symm⟩
  | cons c cs ih =>
      rw [List.foldl_cons, step_eq] at h
      cases hdo : do_tic m L s₀ c with
      | error e =>
          rw [hdo, foldl_step_error] at h
          simp at h
      | ok s₁ =>
          rw [hdo] at h
          -- the first call is a round of the manager, the others are those of the hypothesis
          obtain ⟨⟨manager, fs, htic, hget, hrounds⟩, -⟩ := do_tic_ok hdo
          obtain ⟨fss, htics, hlists⟩ := ih h
          refine ⟨fs :: fss, FaultManager.tics_succ htic hget htics, ?_⟩
          rw [hlists, lists, hrounds, List.map_append, List.append_assoc]
          rfl

/-- The lists of a run are those of the rounds of its manager. -/
theorem tics_run {m : FaultManager σ} {L : UInt64} {manager : σ} {cs : List Call} {s : Ticker σ}
    (h : run m L manager cs = .ok s) : m.tics cs.length manager = .ok (lists s, s.manager) := by
  obtain ⟨fss, htics, hlists⟩ := rounds_run cs h
  rw [hlists]
  exact htics

/-- `transcribe` answers what the manager behind it answers. -/
theorem answer_transcribe (m : FaultManager σ) (s : Transcribe σ) :
    Agrees (SameAnswer (fun (r : Transcribe σ) b => r.nested = b))
      (answer (Transcribe.manager m) s) (answer m s.nested) := by
  unfold answer Transcribe.manager Transcribe.tic
  dsimp only
  cases m.tic s.nested with
  | error e => exact rfl
  | ok a =>
      simp only [bind, Except.bind, pure, Except.pure, Transcribe.get_fail]
      cases m.get_fail a with
      | error e => exact rfl
      | ok p => exact ⟨rfl, rfl⟩

theorem run_transcribe (m : FaultManager σ) (L : UInt64) (r : Transcribe σ) (cs : List Call) :
    Agrees (Alike (fun (r : Transcribe σ) b => r.nested = b)) (run (Transcribe.manager m) L r cs)
      (run m L r.nested cs) := by
  have hstart : Agrees (Alike (fun (r : Transcribe σ) b => r.nested = b))
      (.ok (start r) : Except Stop (Ticker (Transcribe σ))) (.ok (start r.nested)) := ⟨rfl, rfl⟩
  refine agrees_foldl (R := fun _ => Alike (fun (r : Transcribe σ) b => r.nested = b))
    (fun _ s s' c h => ?_) cs hstart
  refine do_tic_agrees L c h.visible ?_
  rw [← h.manager]
  exact answer_transcribe m s.manager

/-- The rounds of the nested manager, as `transcribe` writes them down. -/
theorem file_run {m : FaultManager σ} {L : UInt64} {r : Transcribe σ} {cs : List Call}
    {s : Ticker (Transcribe σ)} (h : run (Transcribe.manager m) L r cs = .ok s) :
    s.manager.file = r.file ++ Transcribe.ticsText r.tic_num (lists s) := by
  obtain ⟨s', hs', -⟩ := (run_transcribe m L r cs).exists_ok h
  -- the run of the nested manager gives what `transcribe` has written
  have htics := Transcribe.tics_manager (tics_run hs') r.tic_num r.file
  have hr : ({ tic_num := r.tic_num, file := r.file, nested := r.nested } : Transcribe σ) = r := rfl
  rw [hr, tics_run h] at htics
  obtain ⟨hlists, hmanager⟩ := Prod.mk.inj (Except.ok.inj htics)
  rw [hmanager, hlists]

/-- **Recording is transparent.** For every fault manager, every tic length and every
clock: a server whose manager is recorded by `transcribe` and one that has the manager
itself stop in the same call for the same reason, or end up having logged, sent and
waited for the same, with the manager in the same state; and what was added to the file
is a heading for each tic and a line for each fault that the server got. -/
theorem recorded_run (m : FaultManager σ) (L : UInt64) (r : Transcribe σ) (cs : List Call) :
    (run (Transcribe.manager m) L r cs).map (fun s => (visible s, s.manager.nested))
        = (run m L r.nested cs).map (fun s => (visible s, s.manager)) ∧
      ∀ s, run (Transcribe.manager m) L r cs = .ok s →
        s.manager.file = r.file ++ Transcribe.ticsText r.tic_num (lists s) := by
  have hagree := run_transcribe m L r cs
  constructor
  · -- both stop, or both get through
    generalize run (Transcribe.manager m) L r cs = x at hagree
    generalize run m L r.nested cs = y at hagree
    cases x with
    | error e =>
        cases y with
        | error e' => exact congrArg Except.error hagree
        | ok s' => exact hagree.elim
    | ok s =>
        cases y with
        | error e' => exact hagree.elim
        | ok s' =>
            have hmanager : s.manager.nested = s'.manager := hagree.manager
            simp only [Except.map, hagree.visible, hmanager]
  · intro s hs
    exact file_run hs

/-! ## A replayed run -/

/-- Two servers that look the same, and whose managers give the same lists in the next
`n` rounds. -/
def InStep (m : FaultManager σ) (m' : FaultManager τ) (n : ℕ) (s : Ticker σ) (s' : Ticker τ) :
    Prop :=
  visible s = visible s' ∧ ∃ fss a gss b, m.tics n s.manager = .ok (fss, a) ∧
    m'.tics n s'.manager = .ok (gss, b) ∧
      fss.map (List.map Fault.triple) = gss.map (List.map Fault.triple)

theorem InStep.do_tic {m : FaultManager σ} {m' : FaultManager τ} {n : ℕ} {s : Ticker σ}
    {s' : Ticker τ} (h : InStep m m' (n + 1) s s') (L : UInt64) (c : Call) :
    Agrees (InStep m m' n) (Tics.do_tic m L s c) (Tics.do_tic m' L s' c) := by
  obtain ⟨hvisible, fss, a, gss, b, hm, hm', h⟩ := h
  obtain ⟨s₁, fs, s₂, fss, htic, hget, hrest, rfl⟩ := FaultManager.tics_succ_inv hm
  obtain ⟨s₁', gs, s₂', gss, htic', hget', hrest', rfl⟩ := FaultManager.tics_succ_inv hm'
  rw [List.map_cons, List.map_cons, List.cons.injEq] at h
  have hanswer : Agrees (SameAnswer (fun x y => x = s₂ ∧ y = s₂')) (answer m s.manager)
      (answer m' s'.manager) := by
    unfold answer
    rw [htic, htic']
    simp only [bind, Except.bind, hget, hget']
    exact ⟨h.1, rfl, rfl⟩
  refine (do_tic_agrees L c hvisible hanswer).imp (fun x y hxy => ?_)
  refine ⟨hxy.visible, fss, a, gss, b, ?_, ?_, h.2⟩
  · rw [hxy.manager.1]
    exact hrest
  · rw [hxy.manager.2]
    exact hrest'

/-- Managers that give the same lists give the same run. -/
theorem run_of_tics {m : FaultManager σ} {m' : FaultManager τ} {a a' : σ} {b b' : τ}
    {fss gss : List (List Fault)} (L : UInt64) (cs : List Call)
    (hm : m.tics cs.length a = .ok (fss, a')) (hm' : m'.tics cs.length b = .ok (gss, b'))
    (h : fss.map (List.map Fault.triple) = gss.map (List.map Fault.triple)) :
    Agrees (fun s s' => visible s = visible s') (run m L a cs) (run m' L b cs) := by
  have hstart : Agrees (InStep m m' cs.length) (.ok (start a) : Except Stop (Ticker σ))
      (.ok (start b)) := ⟨rfl, fss, a', gss, b', hm, hm', h⟩
  exact (agrees_foldl (fun n s s' c hs => hs.do_tic L c) cs hstart).imp (fun s s' hs => hs.1)

/-- What replay plays of a transcript whose tics it can count is what was recorded. -/
theorem played_all {fss gss : List (List Fault)} {n : ℕ} (hlen : fss.length = n)
    (hlen' : gss.length = n) (hn : n < 2 ^ 64)
    (h : ∀ k < n, (gss[k]?).map (List.map Fault.triple) = some (RecordReplay.played 0 fss k)) :
    fss.map (List.map Fault.triple) = gss.map (List.map Fault.triple) := by
  apply List.ext_getElem?
  intro k
  rw [List.getElem?_map, List.getElem?_map]
  by_cases hk : k < n
  · -- no tic number has wrapped
    rw [h k hk, RecordReplay.played, if_pos (by omega), List.getElem?_eq_getElem (by omega),
      List.getD_eq_getElem?_getD, List.getElem?_eq_getElem (by omega)]
    rfl
  · rw [List.getElem?_eq_none (by omega), List.getElem?_eq_none (by omega)]

/-- A server that replays the transcript of a run. -/
theorem run_transcript {m : FaultManager σ} {L : UInt64} {manager : σ} {cs : List Call}
    {s : Ticker σ} (hrun : run m L manager cs = .ok s) (hlen : cs.length < 2 ^ 64)
    {t : NodeTable} (ht : ∀ n ∈ t.1, RecordReplay.PlainNode n)
    (hfaults : RecordReplay.PlainFaults (lists s)) :
    ∃ t' q s', Replay.manager.get_nodes (Replay.init (Transcribe.transcript t (lists s)))
          = .ok (some t', q) ∧ NodeTable.names t' = NodeTable.names t ∧
      run Replay.manager L q cs = .ok s' ∧ visible s' = visible s := by
  obtain ⟨t', gss, q', hdrive, hnames, hgss⟩ :=
    RecordReplay.drive_transcript ht hfaults cs.length
  obtain ⟨q, hnodes, htics⟩ := FaultManager.drive_some_inv hdrive
  -- replay gives in each tic the list that was recorded in it
  have hm := tics_run hrun
  have hsame := played_all (FaultManager.tics_length hm) (FaultManager.tics_length htics) hlen hgss
  obtain ⟨s', hs', hvisible⟩ := (run_of_tics L cs hm htics hsame).exists_ok hrun
  exact ⟨t', q, s', hnodes, hnames, hs', hvisible.symm⟩

/-- What `get_nodes` of `transcribe` gives, and leaves behind. -/
theorem get_nodes_transcribe {m : FaultManager σ} {s : σ} {t : NodeTable} {r : Transcribe σ}
    (h : (Transcribe.manager m).get_nodes (Transcribe.init s) = .ok (some t, r)) :
    r.tic_num = 0 ∧ r.file = Transcribe.nodesText t ∧ m.get_nodes s = .ok (some t, r.nested) := by
  obtain ⟨⟨ret, nested⟩, hnodes, h⟩ := FaultManager.bind_eq_ok h
  cases ret with
  | none => simp [pure, Except.pure] at h
  | some t' =>
      simp only [pure, Except.pure, Except.ok.injEq, Prod.mk.injEq, Option.some.injEq] at h
      obtain ⟨rfl, rfl⟩ := h
      exact ⟨rfl, rfl, hnodes⟩

/-- **A recorded run can be run again.** For every fault manager, tic length and clock: if
`Server::init` gets the table `t` through `transcribe` and the calls `cs` return, with
plain names and fewer than `2 ^ 64` tics, then a server that has `replay` on that file for its
manager gets the same names, and with the same clock it logs the same lines, announces
the same faults, sends the same messages and waits for the same deadlines. The lines are
those of `server.cpp`; those the manager logs about its own reading are not among them. -/
theorem replayed_run (m : FaultManager σ) (manager : σ) (L : UInt64) (cs : List Call)
    (t : NodeTable) (r : Transcribe σ) (s : Ticker (Transcribe σ))
    (hnodes : (Transcribe.manager m).get_nodes (Transcribe.init manager) = .ok (some t, r))
    (hrun : run (Transcribe.manager m) L r cs = .ok s) (hlen : cs.length < 2 ^ 64)
    (ht : ∀ n ∈ t.1, RecordReplay.PlainNode n)
    (hfaults : RecordReplay.PlainFaults (lists s)) :
    ∃ t' q s', Replay.manager.get_nodes (Replay.init s.manager.file) = .ok (some t', q) ∧
      NodeTable.names t' = NodeTable.names t ∧ run Replay.manager L q cs = .ok s' ∧
      visible s' = visible s := by
  obtain ⟨htic_num, hfile, -⟩ := get_nodes_transcribe hnodes
  have htranscript : s.manager.file = Transcribe.transcript t (lists s) := by
    rw [file_run hrun, htic_num, hfile]
    rfl
  rw [htranscript]
  exact run_transcript hrun hlen ht hfaults

/-- One node whose network fails in the first of two tics, recorded and replayed. -/
theorem replayed_run_scripted :
    ∃ r s t' q s', (Transcribe.manager (RecordReplay.scripted RecordReplay.oneNode)).get_nodes
          (Transcribe.init [[RecordReplay.oneFault], []]) = .ok (some RecordReplay.oneNode, r) ∧
      run (Transcribe.manager (RecordReplay.scripted RecordReplay.oneNode)) 10 r
          [⟨0, [5]⟩, ⟨0, [25, 25]⟩] = .ok s ∧
      Replay.manager.get_nodes (Replay.init s.manager.file) = .ok (some t', q) ∧
      run Replay.manager 10 q [⟨0, [5]⟩, ⟨0, [25, 25]⟩] = .ok s' ∧ visible s' = visible s := by
  have hplain : RecordReplay.PlainFaults [[RecordReplay.oneFault], []] := by
    intro fs hfs f hf
    rcases List.mem_cons.mp hfs with rfl | hfs
    · obtain rfl := List.mem_singleton.mp hf
      exact RecordReplay.plain_oneFault
    · obtain rfl := List.mem_singleton.mp hfs
      exact absurd hf List.not_mem_nil
  obtain ⟨t', q, s', hnodes, -, hrun, hvisible⟩ :=
    replayed_run (RecordReplay.scripted RecordReplay.oneNode) [[RecordReplay.oneFault], []] 10
      [⟨0, [5]⟩, ⟨0, [25, 25]⟩] RecordReplay.oneNode _ _ rfl rfl (by simp)
      RecordReplay.plain_oneNode hplain
  exact ⟨_, _, t', q, s', rfl, rfl, hnodes, hrun, hvisible⟩

/-! ## The random manager -/

theorem plain_nodeName (i : ℕ) : RecordReplay.Plain (Random.nodeName i) := by
  intro c hc
  rcases List.mem_append.mp hc with hc | hc
  · have hword : RecordReplay.Plain "node".toList := by simp [RecordReplay.Plain, nul]
    exact hword c hc
  · exact RecordReplay.plain_fmtU i c hc

theorem hash_not_mem_nodeName (i : ℕ) : '#' ∉ Random.nodeName i := by
  intro hc
  rcases List.mem_append.mp hc with hc | hc
  · exact absurd hc (by decide)
  · exact absurd (digitValue_lt_of_mem_fmtU hc) (by decide)

theorem plainFault_nodeName {f : Fault} {i : ℕ} (hnode : f.node = Random.nodeName i)
    (hcomponent : f.component = none) : RecordReplay.PlainFault f := by
  refine ⟨⟨?_, fun htic => ?_⟩, fun c hc => ?_⟩
  · rw [hnode]
    exact plain_nodeName i
  · rw [hnode] at htic
    exact hash_not_mem_nodeName i (htic.subset (by decide))
  · rw [hcomponent] at hc
    exact absurd hc (by simp)

/-- The nodes of the random manager. -/
theorem get_nodes_random (libc : Random.Libc) {num : ℕ} (h : num < 2 ^ 31) (h0 : 0 < num) :
    ∃ t, (Random.manager libc).get_nodes (Random.init num h) = .ok (some t, Random.init num h) ∧
      ∀ n ∈ t.1, RecordReplay.PlainNode n := by
  have hne : (Random.init num h).nodes ≠ [] := by
    simp only [Random.init, ne_eq, List.map_eq_nil_iff, List.range_eq_nil]
    omega
  refine ⟨⟨(Random.init num h).nodes.map MyNode.p, Random.length_nodes_lt _⟩, ?_, ?_⟩
  · simp only [Random.manager, Random.get_nodes, if_neg hne]
  · intro n hn
    obtain ⟨x, hx, rfl⟩ := List.mem_map.mp hn
    obtain ⟨i, -, rfl⟩ := List.mem_map.mp hx
    exact ⟨⟨by simp [Random.newNode, Random.nodeName], plain_nodeName i⟩,
      fun c hc => absurd hc List.not_mem_nil⟩

theorem plainFaults_random (libc : Random.Libc) {num : ℕ} (h : num < 2 ^ 31) (n : ℕ) :
    RecordReplay.PlainFaults (Random.lists libc (Random.init num h) n) := by
  have hnodup : (Random.names (Random.init num h)).Nodup := by
    rw [Random.names_init]
    exact List.nodup_range.map Random.nodeName_injective
  intro fs hfs f hf
  obtain ⟨hsub, hfields⟩ := (Random.lists_spec libc n hnodup).2.2 fs hfs
  have hname := hsub.subset (List.mem_map_of_mem hf)
  rw [Random.names_init] at hname
  obtain ⟨i, -, hi⟩ := List.mem_map.mp hname
  exact plainFault_nodeName hi.symm (hfields f hf).1

/-- **A random run can be run again.** For every number of nodes, all results of `rand` and
every pattern of failures of `realloc`: a server whose manager is `random` behind
`transcribe` gets a table, and whatever it then logs, announces, sends and waits for in fewer
than `2 ^ 64` tics, a server that replays the file does with the same clock, but for the lines
its manager logs. -/
theorem random_replayed (libc : Random.Libc) (num : ℕ) (h : num < 2 ^ 31) (h0 : 0 < num)
    (L : UInt64) (cs : List Call) (hlen : cs.length < 2 ^ 64) :
    ∃ t r, (Transcribe.manager (Random.manager libc)).get_nodes
          (Transcribe.init (Random.init num h)) = .ok (some t, r) ∧
      ∀ s, run (Transcribe.manager (Random.manager libc)) L r cs = .ok s →
        ∃ t' q s', Replay.manager.get_nodes (Replay.init s.manager.file) = .ok (some t', q) ∧
          NodeTable.names t' = NodeTable.names t ∧ run Replay.manager L q cs = .ok s' ∧
          visible s' = visible s := by
  obtain ⟨t, hnodes, ht⟩ := get_nodes_random libc h h0
  let r : Transcribe Random := ⟨0, [] ++ Transcribe.nodesText t, Random.init num h⟩
  have hget : (Transcribe.manager (Random.manager libc)).get_nodes
      (Transcribe.init (Random.init num h)) = .ok (some t, r) := by
    simp only [Transcribe.manager, Transcribe.get_nodes, Transcribe.init, hnodes]
    rfl
  refine ⟨t, r, hget, fun s hs => ?_⟩
  have hlists : lists s = Random.lists libc (Random.init num h) cs.length := by
    have htics := Transcribe.tics_manager (Random.tics_manager libc (Random.init num h) cs.length)
      0 ([] ++ Transcribe.nodesText t)
    rw [tics_run hs] at htics
    exact (Prod.mk.inj (Except.ok.inj htics)).1
  have htranscript : s.manager.file = Transcribe.transcript t (lists s) := file_run hs
  rw [htranscript]
  refine run_transcript hs hlen ht ?_
  rw [hlists]
  exact plainFaults_random libc h cs.length

theorem random_replayed_two_nodes :
    ∃ t r, (Transcribe.manager (Random.manager ⟨fun _ => 0, fun _ => true⟩)).get_nodes
          (Transcribe.init (Random.init 2 (by decide))) = .ok (some t, r) ∧
      ∀ s, run (Transcribe.manager (Random.manager ⟨fun _ => 0, fun _ => true⟩)) 0 r
          [⟨0, []⟩, ⟨0, []⟩] = .ok s →
        ∃ t' q s', Replay.manager.get_nodes (Replay.init s.manager.file) = .ok (some t', q) ∧
          NodeTable.names t' = NodeTable.names t ∧
          run Replay.manager 0 q [⟨0, []⟩, ⟨0, []⟩] = .ok s' ∧ visible s' = visible s :=
  random_replayed ⟨fun _ => 0, fun _ => true⟩ 2 (by decide) (by decide) 0 [⟨0, []⟩, ⟨0, []⟩]
    (by simp)

end LauSim.Observed
