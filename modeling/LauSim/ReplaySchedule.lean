/-
Replay plays the schedule its file spells out, for arbitrary files.

The abstract side is `Lib/Schedule`: a marked stream and a look-ahead player.
Here `classify` reads a line of the file as an item of a stream (a heading is a
mark, a well-formed fault line an entry, anything else is skipped), `player`
reads the plugin's globals as a player, and `tic_spec` and `tics_spec` say that
`tic` is the player's call. The counters have to agree with the player's time,
which is where the bound on the number of calls comes from: `tic_num` wraps at
`2 ^ 64`.
-/
import LauSim.Lib.Schedule
import LauSim.Replay

set_option autoImplicit false

namespace LauSim.Replay

open CText Schedule

/-- Node, component and severity of a fault. -/
abbrev Triple := Text × Option Text × UInt32

/-- What a line of the file is to `tic`. -/
def classify (l : Text) : Item Triple :=
  if isHeading (cstr l) then .mark ((get_tic_num (cstr l)).getD 0).toNat
  else
    match parse_fault (cstr l) with
    | none => .skip
    | some t => .entry t

/-- `get_tic_num` has a number for a heading. -/
def Readable (l : Text) : Prop := isHeading (cstr l) = true → (get_tic_num (cstr l)).isSome = true

instance (l : Text) : Decidable (Readable l) :=
  inferInstanceAs (Decidable (isHeading (cstr l) = true → (get_tic_num (cstr l)).isSome = true))

/-- The globals, read as a player. -/
def player (s : Replay) : Player Triple :=
  if s.done then none else some (s.nxt_tic.toNat, s.file.map classify)

/-! ## One line -/

/-- What the loop body does with a line, by the kind of line it is. -/
theorem read_line_spec {l : Text} (h : Readable l) (s : Replay) :
    (∃ num, classify l = .mark (UInt64.toNat num) ∧
        read_line (cstr l) s = .ok { s with nxt_tic := num }) ∨
    (∃ t f, classify l = .entry t ∧ Fault.triple f = t ∧
        read_line (cstr l) s = .ok { s with id := s.id + 1, faults := s.faults ++ [f] }) ∨
    (classify l = .skip ∧ read_line (cstr l) s = .ok s) := by
  unfold classify read_line
  by_cases hhead : isHeading (cstr l) = true
  · -- a heading has a number, so the call does not return an unassigned one
    left
    obtain ⟨num, hnum⟩ := Option.isSome_iff_exists.mp (h hhead)
    refine ⟨num, ?_, ?_⟩
    · rw [if_pos hhead, hnum]
      rfl
    · simp only [if_pos hhead, tic_num_of, hnum, bind, Except.bind, pure, Except.pure]
  · right
    simp only [if_neg hhead]
    cases hparse : parse_fault (cstr l) with
    | none => exact Or.inr ⟨rfl, rfl⟩
    | some t => exact Or.inl ⟨t, _, rfl, rfl, rfl⟩

/-! ## The loop -/

theorem tic_loop_of_not_lt {s : Replay} (h : ¬ s.nxt_tic < s.tic_num) (ls : List Text) :
    tic_loop ls s = .ok { s with file := ls } := by
  have hcond : ¬ (s.nxt_tic < s.tic_num ∧ s.done = false) := fun hc => h hc.1
  cases ls with
  | nil => rw [tic_loop, if_neg hcond]
  | cons l ls => rw [tic_loop, if_neg hcond]

/-- **The loop is the look-ahead.** In the call number `k` (`tic_num` is already
`k + 1`) the lines are read as `lookahead k` reads their items. The induction is
on the lines left; what it carries is that the heading read last is not ahead. -/
theorem tic_loop_spec {k : ℕ} {ls : List Text} (hread : ∀ l ∈ ls, Readable l) {s : Replay}
    (hdone : s.done = false) (htic : s.tic_num.toNat = k + 1) (hnxt : s.nxt_tic.toNat ≤ k) :
    ∃ s', tic_loop ls s = .ok s' ∧ s'.tic_num = s.tic_num ∧
      s'.faults.map Fault.triple
        = s.faults.map Fault.triple ++ (lookahead k (ls.map classify)).1 ∧
      s'.player = (lookahead k (ls.map classify)).2 ∧ ∀ l ∈ s'.file, Readable l := by
  induction ls generalizing s with
  | nil =>
      have hlt : s.nxt_tic < s.tic_num := UInt64.lt_iff_toNat_lt.mpr (by omega)
      refine ⟨{ s with file := [], done := true }, ?_, rfl, ?_, rfl, ?_⟩
      · rw [tic_loop, if_pos ⟨hlt, hdone⟩]
      · simp [lookahead]
      · intro l hl
        exact absurd hl List.not_mem_nil
  | cons l ls ih =>
      have hlt : s.nxt_tic < s.tic_num := UInt64.lt_iff_toNat_lt.mpr (by omega)
      have hreadl : Readable l := hread l List.mem_cons_self
      have hreads : ∀ l ∈ ls, Readable l := fun x hx => hread x (List.mem_cons_of_mem _ hx)
      have hstep : tic_loop (l :: ls) s = (read_line (cstr l) s >>= tic_loop ls) := by
        rw [tic_loop, if_pos ⟨hlt, hdone⟩]
      rw [List.map_cons, hstep]
      rcases read_line_spec hreadl s with ⟨num, hcl, hrl⟩ | ⟨t, f, hcl, hf, hrl⟩ | ⟨hcl, hrl⟩
      · rw [hcl, hrl]
        by_cases hahead : k < num.toNat
        · -- the heading lies ahead: the loop ends, the rest stays in the file
          have hstop : ¬ num < s.tic_num := by
            rw [UInt64.lt_iff_toNat_lt]
            omega
          refine ⟨{ s with nxt_tic := num, file := ls }, ?_, rfl, ?_, ?_, hreads⟩
          · exact tic_loop_of_not_lt (s := { s with nxt_tic := num }) hstop ls
          · simp [lookahead, if_pos hahead]
          · simp [lookahead, if_pos hahead, player, hdone]
        · -- the heading is not ahead: the loop goes on with it
          simp only [lookahead, if_neg hahead]
          exact ih hreads (s := { s with nxt_tic := num }) hdone htic (by simpa using hahead)
      · rw [hcl, hrl]
        obtain ⟨s', hloop, htic', hfaults, hplayer, hfile⟩ :=
          ih hreads (s := { s with id := s.id + 1, faults := s.faults ++ [f] }) hdone htic hnxt
        refine ⟨s', hloop, htic', ?_, hplayer, hfile⟩
        rw [hfaults]
        simp [lookahead, hf]
      · rw [hcl, hrl]
        simp only [lookahead]
        exact ih hreads hdone htic hnxt

/-! ## One call, and a run of calls -/

/-- The state before call number `k`: the counter counts the calls, as long as
the file has not ended, and the headings still to come are readable. -/
structure Before (k : ℕ) (s : Replay) : Prop where
  tic_num : s.done = false → s.tic_num.toNat = k
  readable : ∀ l ∈ s.file, Readable l

/-- **`tic` is the player's call**, as long as the counter does not wrap. -/
theorem tic_spec {k : ℕ} (hk : k + 1 < 2 ^ 64) {s : Replay} (h : Before k s) :
    ∃ s', tic s = .ok s' ∧ s'.faults.map Fault.triple = (s.player.tic k).1 ∧
      s'.player = (s.player.tic k).2 ∧ Before (k + 1) s' := by
  unfold tic
  by_cases hdone : s.done = true
  · refine ⟨{ s with faults := [] }, by simp [hdone], ?_, ?_, ?_, h.readable⟩
    · simp [player, hdone, Player.tic]
    · simp [player, hdone, Player.tic]
    · intro hd
      exact absurd hd (by simp [hdone])
  · have hdone : s.done = false := by simpa using hdone
    have htic : s.tic_num.toNat = k := h.tic_num hdone
    have hsucc : (s.tic_num + 1).toNat = k + 1 := by
      rw [UInt64.toNat_add, htic, UInt64.toNat_one, Nat.mod_eq_of_lt hk]
    have hplayer : s.player = some (s.nxt_tic.toNat, s.file.map classify) := by
      simp [player, hdone]
    simp only [if_neg (show ¬ s.done = true by simp [hdone])]
    by_cases hlt : s.tic_num < s.nxt_tic
    · -- the tic of the last heading has not come: nothing is read
      have hwait : k < s.nxt_tic.toNat := by
        have h' := UInt64.lt_iff_toNat_lt.mp hlt
        omega
      refine ⟨{ s with faults := [], tic_num := s.tic_num + 1 }, if_pos hlt, ?_, ?_, ?_⟩
      · rw [hplayer, Player.tic, if_pos hwait]
        rfl
      · rw [hplayer, Player.tic, if_pos hwait]
        simp [player, hdone]
      · exact ⟨fun _ => hsucc, h.readable⟩
    · have hdue : s.nxt_tic.toNat ≤ k := by
        rw [UInt64.lt_iff_toNat_lt] at hlt
        omega
      obtain ⟨s', hloop, htic', hfaults, hplayer', hfile⟩ :=
        tic_loop_spec h.readable (s := { s with faults := [], tic_num := s.tic_num + 1 })
          hdone hsucc hdue
      have hcall : s.player.tic k = lookahead k (s.file.map classify) := by
        rw [hplayer, Player.tic, if_neg (by omega)]
      refine ⟨s', ?_, ?_, ?_, ?_, hfile⟩
      · rw [if_neg hlt]
        exact hloop
      · rw [hcall, hfaults]
        rfl
      · rw [hcall, hplayer']
      · intro _
        rw [htic']
        exact hsucc

/-- **A run of calls is the player's run.** -/
theorem tics_spec {n k : ℕ} (hn : k + n < 2 ^ 64) {s : Replay} (h : Before k s) :
    ∃ fss s', manager.tics n s = .ok (fss, s') ∧
      fss.map (List.map Fault.triple) = (s.player.run n k).1 ∧
      s'.player = (s.player.run n k).2 ∧ Before (k + n) s' := by
  induction n generalizing k s with
  | zero => exact ⟨[], s, rfl, rfl, rfl, h⟩
  | succ n ih =>
      obtain ⟨s₁, htic, hfaults, hplayer, hbefore⟩ := tic_spec (by omega) h
      obtain ⟨fss, s', htics, hrun, hplayer', hbefore'⟩ := ih (by omega) hbefore
      refine ⟨s₁.faults :: fss, s', ?_, ?_, ?_, ?_⟩
      · exact FaultManager.tics_succ htic rfl htics
      · rw [List.map_cons, hfaults, hrun, hplayer]
        rfl
      · rw [hplayer', hplayer]
        rfl
      · rw [show k + (n + 1) = k + 1 + n by omega]
        exact hbefore'

/-! ## The parts of a file

A file that `get_nodes` accepts is a count, that many node lines, one line that
may be a heading, and the body. -/

/-- The number in the first line. -/
def nodeCount (content : Text) : ℕ :=
  match lines content with
  | [] => 0
  | l :: _ => (strtoull (cstr l)).1.toNat

/-- The number in the line behind the node table, 0 if that line is absent or
no heading. -/
def headingTic : Option Text → ℕ
  | none => 0
  | some l =>
    if strstr (cstr l) "tic".toList then ((get_tic_num (cstr l)).getD 0).toNat else 0

/-- The number of the first heading. -/
def firstTic (content : Text) : ℕ := headingTic (lines content)[nodeCount content + 1]?

/-- The lines behind that one. -/
def body (content : Text) : List Text := (lines content).drop (nodeCount content + 2)

theorem read_nodes_drop {k i : ℕ} {ls ls' : List Text} {ns : List Node}
    (h : read_nodes k i ls = .ok (some ns, ls')) : ls' = ls.drop k := by
  induction k generalizing i ls ls' ns with
  | zero =>
      simp only [read_nodes, Except.ok.injEq, Prod.mk.injEq, Option.some.injEq] at h
      rw [← h.2]
      rfl
  | succ k ih =>
      cases ls with
      | nil => simp [read_nodes] at h
      | cons l ls =>
          obtain ⟨n, ns', -, hrest, -⟩ := read_nodes_cons h
          rw [List.drop_succ_cons]
          exact ih hrest

/-- The line behind the node table sets `nxt_tic` if it is a heading, and is
consumed in any case. -/
theorem first_heading_spec {s s' : Replay} (hnxt : s.nxt_tic = 0)
    (h : first_heading s = .ok s') :
    s'.file = s.file.drop 1 ∧ s'.nxt_tic.toNat = headingTic s.file.head? ∧
      s'.tic_num = s.tic_num ∧ s'.done = s.done := by
  unfold first_heading at h
  cases hfile : s.file with
  | nil =>
      simp only [hfile, Except.ok.injEq] at h
      subst h
      simp [hfile, hnxt, headingTic]
  | cons l ls =>
      simp only [hfile] at h
      by_cases htic : strstr (cstr l) "tic".toList = true
      · rw [if_pos htic] at h
        obtain ⟨num, hnum, h⟩ := FaultManager.bind_eq_ok h
        simp only [pure, Except.pure, Except.ok.injEq] at h
        subst h
        unfold tic_num_of at hnum
        split at hnum
        · next num' hnum' =>
          rw [Except.ok.injEq] at hnum
          refine ⟨rfl, ?_, rfl, rfl⟩
          rw [List.head?_cons, headingTic, if_pos htic, hnum', hnum]
          rfl
        · simp at hnum
      · rw [if_neg htic, Except.ok.injEq] at h
        subst h
        refine ⟨rfl, ?_, rfl, rfl⟩
        rw [List.head?_cons, headingTic, if_neg htic, hnxt]
        rfl

/-- **What `get_nodes` leaves**, when it returns 0: the body of the file, and
the first heading in `nxt_tic`. -/
theorem get_nodes_spec {content : Text} {t : NodeTable} {s : Replay}
    (h : manager.get_nodes (init content) = .ok (some t, s)) :
    s.player = some (firstTic content, (body content).map classify) ∧
      s.file = body content ∧ s.tic_num = 0 := by
  obtain ⟨l, ls, ls', hlines, hns, hhead⟩ := get_nodes_some h
  have hlines : lines content = l :: ls := hlines
  obtain ⟨hfile, hnxt, htic, hdone⟩ := first_heading_spec rfl hhead
  have hcount : nodeCount content = (strtoull (cstr l)).1.toNat := by
    rw [nodeCount, hlines]
  have hbody : body content = ls'.drop 1 := by
    rw [body, hlines, hcount, read_nodes_drop hns, List.drop_drop]
    rfl
  have hfirst : firstTic content = headingTic ls'.head? := by
    rw [firstTic, hlines, hcount, read_nodes_drop hns, List.getElem?_cons_succ, List.head?_drop]
  refine ⟨?_, ?_, htic⟩
  · rw [player, hdone, hnxt, hfile, hbody, hfirst]
    rfl
  · rw [hfile, hbody]

/-- A file whose second heading goes back: both faults are due at call 2. -/
def backward : Text := "1\nn0,1,net\n[tic#2]\nn0,,100\n[tic#1]\nn0,net,-1\n".toList

/-- What `get_nodes` makes of `backward`. -/
def backwardNodes : NodeTable := .single "n0".toList (some "net".toList)

/-- The state `get_nodes` leaves on `backward`. -/
def backwardState : Replay :=
  { file := ["n0,,100\n".toList, "[tic#1]\n".toList, "n0,net,-1\n".toList],
    tic_num := 0, nxt_tic := 2, id := 0, done := false, faults := [] }

end LauSim.Replay
