/-
What `plugins/replay/replay.c` takes for a heading.

`tic` looks for `tic#` anywhere in a line, and `get_nodes` for `tic` in the line behind
the node table. Both tests are looser than what `transcribe` writes, in two ways.

A line may pass the test without a number: `get_tic_num` then returns a value that was
never written, if there is nothing behind the first token, and 0 if there is something
`strtoull` cannot read (`determined_iff`).

And a line may pass the test that was not written as a heading: a fault line, whose
names may contain `tic#`. The fault is lost and `nxt_tic` is set by it
(`unambiguous_iff`).
-/
import LauSim.Rerecord

set_option autoImplicit false

namespace LauSim.Headings

open CText Schedule Transcribe Replay RecordReplay

/-! ## The number of a heading -/

/-- `strtoull` can read a number at the start of the token. -/
def Numeric (tok : Text) : Prop := (strtoull tok).2 ≠ tok

instance (tok : Text) : Decidable (Numeric tok) := inferInstanceAs (Decidable (_ ≠ _))

/-- The tokens of a line that the loop of `get_tic_num` comes to. -/
def tokens (l : Text) : List Text := (strtoks " #\t\n".toList (cstr l)).tail

/-- The loop stops at a token `strtoull` can read, and the number is that of the token. -/
def Determined (l : Text) : Prop :=
  ∃ pre tok rest, tokens l = pre ++ tok :: rest ∧ (∀ t ∈ pre, ¬ Numeric t) ∧ Numeric tok ∧
    tic_num_of (cstr l) = .ok (strtoull tok).1

theorem loop_of_numeric {pre : List Text} {tok : Text} (hpre : ∀ t ∈ pre, ¬ Numeric t)
    (htok : Numeric tok) (num : Option UInt64) (rest : List Text) :
    get_tic_num.loop num (pre ++ tok :: rest) = some (strtoull tok).1 := by
  induction pre generalizing num with
  | nil =>
      rw [List.nil_append, get_tic_num.loop]
      exact if_neg htok
  | cons t pre ih =>
      obtain ⟨ht, hpre⟩ := List.forall_mem_cons.mp hpre
      rw [List.cons_append, get_tic_num.loop]
      dsimp only
      rw [if_pos (not_not.mp ht)]
      exact ih hpre _

/-- `num` is written as soon as there is a token. -/
theorem isSome_loop (num : Option UInt64) (toks : List Text) :
    (get_tic_num.loop num toks).isSome = true ↔ num.isSome = true ∨ toks ≠ [] := by
  induction toks generalizing num with
  | nil => simp [get_tic_num.loop]
  | cons tok toks ih =>
      rw [get_tic_num.loop]
      dsimp only
      split
      · rw [ih]
        simp
      · simp

theorem determined_iff_numeric (l : Text) : Determined l ↔ ∃ tok ∈ tokens l, Numeric tok := by
  constructor
  · rintro ⟨pre, tok, rest, htoks, -, htok, -⟩
    rw [htoks]
    exact ⟨tok, by simp, htok⟩
  · intro h
    obtain ⟨tok, htok⟩ : ∃ tok, (tokens l).find? (fun t => decide (Numeric t)) = some tok := by
      rw [← Option.isSome_iff_exists, List.find?_isSome]
      simpa using h
    obtain ⟨hnum, pre, rest, htoks, hpre⟩ := List.find?_eq_some_iff_append.mp htok
    have hpre : ∀ t ∈ pre, ¬ Numeric t := fun t ht => by simpa using hpre t ht
    have hnum : Numeric tok := of_decide_eq_true hnum
    refine ⟨pre, tok, rest, htoks, hpre, hnum, ?_⟩
    have hget : get_tic_num (cstr l) = some (strtoull tok).1 := by
      rw [get_tic_num, ← tokens, htoks]
      exact loop_of_numeric hpre hnum none rest
    rw [tic_num_of, hget]

theorem tic_num_of_eq_error_iff (l : Text) :
    tic_num_of (cstr l) = .error .unassigned ↔ tokens l = [] := by
  have hsome := isSome_loop none (tokens l)
  rw [tokens, ← get_tic_num, ← tokens] at hsome
  rw [tic_num_of]
  cases hget : get_tic_num (cstr l) with
  | none =>
      rw [hget] at hsome
      simpa using hsome
  | some num =>
      rw [hget] at hsome
      simpa using hsome

/-! ## Runs without an unassigned number -/

/-- The line behind the node table, if it passes the test of `get_nodes`, and every line
of the body that passes the test of `tic` have a token that can be read. -/
def Headed (content : Text) : Prop :=
  (∀ l, (lines content)[nodeCount content + 1]? = some l → strstr (cstr l) "tic".toList = true →
    ∃ tok ∈ tokens l, Numeric tok) ∧
  ∀ l ∈ body content, isHeading (cstr l) = true → ∃ tok ∈ tokens l, Numeric tok

theorem read_node_error {i : ℕ} {buf : Text} {e : Undef} (h : read_node i buf = .error e) :
    e = .nullToken := by
  unfold read_node at h
  split at h
  · exact (Except.error.inj h).symm
  · simp at h
  · split at h
    · simp at h
    · simp at h

theorem read_nodes_error {k i : ℕ} {ls : List Text} {e : Undef}
    (h : read_nodes k i ls = .error e) : e = .nullToken := by
  induction k generalizing i ls with
  | zero => simp [read_nodes] at h
  | succ k ih =>
      cases ls with
      | nil => simp [read_nodes] at h
      | cons l ls =>
          rw [read_nodes] at h
          rcases FaultManager.bind_eq_error h with hnode | ⟨ret, -, h⟩
          · exact read_node_error hnode
          · cases ret with
            | none => simp [pure, Except.pure] at h
            | some n =>
                rcases FaultManager.bind_eq_error h with hrest | ⟨⟨ret, ls'⟩, -, h⟩
                · exact ih hrest
                · cases ret with
                  | none => simp [pure, Except.pure] at h
                  | some ns => simp [pure, Except.pure] at h

theorem first_heading_error {s : Replay} {e : Undef} (h : first_heading s = .error e) :
    ∃ l, s.file.head? = some l ∧ strstr (cstr l) "tic".toList = true ∧ tokens l = [] := by
  unfold first_heading at h
  cases hfile : s.file with
  | nil => simp [hfile] at h
  | cons l ls =>
      simp only [hfile] at h
      split at h
      · next htic =>
        rcases FaultManager.bind_eq_error h with hnum | ⟨_, -, h⟩
        · refine ⟨l, rfl, htic, (tic_num_of_eq_error_iff l).mp ?_⟩
          rw [tic_num_of] at hnum ⊢
          split at hnum
          · simp at hnum
          · rfl
        · simp [pure, Except.pure] at h
      · simp at h

theorem get_nodes_ne_unassigned {content : Text} (h : Headed content) :
    Replay.manager.get_nodes (Replay.init content) ≠ .error .unassigned := by
  intro herr
  have herr : Replay.get_nodes (Replay.init content) = .error .unassigned := herr
  rcases get_nodes_cases (Replay.init content) with ⟨-, hget⟩ | ⟨l, ls, hlines, ⟨-, hget⟩ | ⟨-,
    ⟨e, hns, hget⟩ | ⟨ls', -, hget⟩ | ⟨ns, ls', hns, ⟨e, hhead, -⟩ | ⟨s', hlt, -, hget⟩⟩⟩⟩
  · exact absurd (herr.symm.trans hget) (by simp)
  · exact absurd (herr.symm.trans hget) (by simp)
  · -- the node loop fails with a NULL token only
    rw [read_nodes_error hns] at hget
    exact absurd (herr.symm.trans hget) (by simp)
  · exact absurd (herr.symm.trans hget) (by simp)
  · -- the line behind the table is handed to `get_tic_num`
    have hlines : lines content = l :: ls := hlines
    obtain ⟨l', hl', htic, hnone⟩ := first_heading_error hhead
    have hbehind : (lines content)[nodeCount content + 1]? = some l' := by
      have hcount : nodeCount content = (strtoull (cstr l)).1.toNat := by
        rw [nodeCount, hlines]
      rw [hlines, hcount, List.getElem?_cons_succ, ← List.head?_drop, ← read_nodes_drop hns]
      exact hl'
    obtain ⟨tok, htok, -⟩ := h.1 l' hbehind htic
    rw [hnone] at htok
    exact List.not_mem_nil htok
  · exact absurd (herr.symm.trans hget) (by simp)

theorem drive_ne_unassigned {content : Text} (h : Headed content) (n : ℕ) :
    Replay.manager.drive n (Replay.init content) ≠ .error .unassigned := by
  intro herr
  rcases FaultManager.bind_eq_error herr with hnodes | ⟨⟨ret, s⟩, hnodes, herr⟩
  · exact get_nodes_ne_unassigned h hnodes
  · cases ret with
    | none => simp [pure, Except.pure] at herr
    | some t =>
        obtain ⟨-, hfile, htic⟩ := get_nodes_spec hnodes
        have hbefore : Before 0 s := by
          refine ⟨fun _ => by rw [htic]; rfl, fun l hl hhead => ?_⟩
          rw [hfile] at hl
          obtain ⟨tok, htok, -⟩ := h.2 l hl hhead
          rw [get_tic_num, isSome_loop]
          exact Or.inr (List.ne_nil_of_mem htok)
        -- a run whose headings all have a number returns, however long it is
        obtain ⟨fss, s', htics, -⟩ := tics_all hbefore n
        rcases FaultManager.bind_eq_error herr with htics' | ⟨_, -, herr⟩
        · rw [htics] at htics'
          simp at htics'
        · simp [pure, Except.pure] at herr

/-- **The number of a heading, exactly.** For every line: the loop of `get_tic_num` stops
at a token that `strtoull` can read, whose number it returns, exactly if there is such a
token behind the first one, and the number it returns is unassigned exactly if there is
no token behind the first one at all. For every file and every number of tics: if every
line that is handed to `get_tic_num` has a token that can be read, no run takes an
unassigned number. -/
theorem determined_iff (l content : Text) (n : ℕ) :
    (Determined l ↔ ∃ tok ∈ tokens l, Numeric tok) ∧
    (tic_num_of (cstr l) = .error .unassigned ↔ tokens l = []) ∧
    (Headed content → Replay.manager.drive n (Replay.init content) ≠ .error .unassigned) :=
  ⟨determined_iff_numeric l, tic_num_of_eq_error_iff l, fun h => drive_ne_unassigned h n⟩

/-- A file with a heading behind the table and one in the body. -/
theorem determined_backward :
    Headed backward ∧ Determined "[tic#2]\n".toList ∧
      Replay.manager.drive 4 (Replay.init backward) ≠ .error .unassigned := by
  have hbehind : (lines backward)[nodeCount backward + 1]? = some "[tic#2]\n".toList := by
    decide +kernel
  have hnumeric : ∃ tok ∈ tokens "[tic#2]\n".toList, Numeric tok := by decide +kernel
  have hheaded : Headed backward := by
    refine ⟨fun l hl _ => ?_, by decide +kernel⟩
    rw [hbehind, Option.some_inj] at hl
    rw [← hl]
    exact hnumeric
  obtain ⟨hline, -, hrun⟩ := determined_iff "[tic#2]\n".toList backward 4
  exact ⟨hheaded, hline.mpr hnumeric, hrun hheaded⟩

/-- A line that `tic` takes for a heading, without a number. -/
theorem not_determined_tic :
    isHeading (cstr "tic#\n".toList) = true ∧ ¬ Determined "tic#\n".toList ∧
      tic_num_of (cstr "tic#\n".toList) = .error .unassigned := by
  refine ⟨by decide, ?_, by decide⟩
  rw [determined_iff_numeric]
  rintro ⟨tok, htok, -⟩
  have hnone : tokens "tic#\n".toList = [] := by decide
  rw [hnone] at htok
  exact List.not_mem_nil htok

/-! ## Where a run sets `nxt_tic` -/

/-- The lines the loop of `tic` reads, each with the state it is read in. -/
def tic_loop.reads : List Text → Replay → List (Replay × Text)
  | [], _ => []
  | l :: ls, s =>
    if s.nxt_tic < s.tic_num ∧ s.done = false then
      (s, l) :: match read_line (cstr l) s with
        | .ok s' => tic_loop.reads ls s'
        | .error _ => []
    else []

/-- Those of a call of `tic`. -/
def tic.reads (s : Replay) : List (Replay × Text) :=
  if s.done then []
  else if s.tic_num < s.nxt_tic then []
  else tic_loop.reads s.file { s with faults := [], tic_num := s.tic_num + 1 }

/-- Those of `n` calls of `tic`. -/
def reads : ℕ → Replay → List (Replay × Text)
  | 0, _ => []
  | n + 1, s => tic.reads s ++ match Replay.tic s with
    | .ok s' => reads n s'
    | .error _ => []

/-- The line changes `nxt_tic`: there is no way on with the old value. -/
def Changes (s : Replay) (l : Text) : Prop :=
  ¬ ∃ s', read_line (cstr l) s = .ok s' ∧ s'.nxt_tic = s.nxt_tic

theorem isHeading_of_changes {s : Replay} {l : Text} (h : Changes s l) :
    isHeading (cstr l) = true := by
  by_contra hhead
  apply h
  rw [read_line, if_neg hhead]
  split
  · exact ⟨s, rfl, rfl⟩
  · exact ⟨_, rfl, rfl⟩

theorem mem_tic_loop_reads {ls : List Text} {s : Replay} {p : Replay × Text}
    (h : p ∈ tic_loop.reads ls s) : p.2 ∈ ls := by
  induction ls generalizing s with
  | nil => exact absurd h List.not_mem_nil
  | cons l ls ih =>
      rw [tic_loop.reads] at h
      split at h
      · rcases List.mem_cons.mp h with rfl | h
        · exact List.mem_cons_self
        · split at h
          · exact List.mem_cons_of_mem _ (ih h)
          · exact absurd h List.not_mem_nil
      · exact absurd h List.not_mem_nil

theorem tic_loop_suffix {ls : List Text} {s s' : Replay} (h : tic_loop ls s = .ok s') :
    s'.file <:+ ls := by
  induction ls generalizing s with
  | nil =>
      rw [tic_loop] at h
      split at h
      · rw [← Except.ok.inj h]
      · rw [← Except.ok.inj h]
  | cons l ls ih =>
      rw [tic_loop] at h
      split at h
      · obtain ⟨s₁, -, h⟩ := FaultManager.bind_eq_ok h
        exact (ih h).trans (List.suffix_cons l ls)
      · rw [← Except.ok.inj h]

theorem tic_suffix {s s' : Replay} (h : Replay.tic s = .ok s') : s'.file <:+ s.file := by
  unfold Replay.tic at h
  dsimp only at h
  split at h
  · rw [← Except.ok.inj h]
  · split at h
    · rw [← Except.ok.inj h]
    · exact tic_loop_suffix h

/-- A run reads lines of the file only. -/
theorem mem_reads {n : ℕ} {s : Replay} {p : Replay × Text} (h : p ∈ reads n s) : p.2 ∈ s.file := by
  induction n generalizing s with
  | zero => exact absurd h List.not_mem_nil
  | succ n ih =>
      rw [reads] at h
      rcases List.mem_append.mp h with h | h
      · unfold tic.reads at h
        split at h
        · exact absurd h List.not_mem_nil
        · split at h
          · exact absurd h List.not_mem_nil
          · exact mem_tic_loop_reads h
      · split at h
        · next s' htic => exact (tic_suffix htic).subset (ih h)
        · exact absurd h List.not_mem_nil

/-! ## Recordings -/

/-- The line of the fault is taken for a fault line, with its names and its severity. -/
def TakenAsFault (f : Fault) : Prop :=
  isHeading (cstr (faultLine f)) = false ∧ ∀ s : Replay, ∃ g : Fault,
    read_line (cstr (faultLine f)) s
      = .ok { s with id := s.id + 1, faults := s.faults ++ [g] } ∧
    g.node = f.node ∧ g.component.getD [] = f.component.getD [] ∧ g.severity = f.severity

/-- No name of the fault contains `tic#`. -/
def NoTic (f : Fault) : Prop :=
  ¬ "tic#".toList <:+: f.node ∧ ¬ "tic#".toList <:+: f.component.getD []

theorem takenAsFault_iff {f : Fault} (h : PlainNames f) : TakenAsFault f ↔ NoTic f := by
  have hhead := isHeading_faultLine_iff f
  unfold TakenAsFault NoTic
  rw [cstr_faultLine h, ← not_or, ← hhead, Bool.not_eq_true]
  refine and_iff_left_of_imp (fun hno s => ?_)
  rw [read_line, if_neg (by rw [hno]; simp), parse_fault_names h]
  refine ⟨_, rfl, rfl, ?_, rfl⟩
  dsimp only
  split
  · next hnil =>
    rw [hnil]
    rfl
  · rfl

/-- The lines of a recording are the headings and the fault lines. -/
theorem mem_lines_ticsText {fss : List (List Fault)} (h : ∀ fs ∈ fss, ∀ f ∈ fs, PlainNames f)
    {k : UInt64} {l : Text} (hl : l ∈ lines (ticsText k fss)) :
    (∃ j, l = heading j) ∨ ∃ fs ∈ fss, ∃ f ∈ fs, l = faultLine f := by
  induction fss generalizing k with
  | nil => exact absurd hl List.not_mem_nil
  | cons fs fss ih =>
      obtain ⟨hfs, hfss⟩ := List.forall_mem_cons.mp h
      rw [lines_ticsText hfs] at hl
      rcases List.mem_cons.mp hl with rfl | hl
      · exact Or.inl ⟨k, rfl⟩
      · rcases List.mem_append.mp hl with hl | hl
        · obtain ⟨f, hf, rfl⟩ := List.mem_map.mp hl
          exact Or.inr ⟨fs, List.mem_cons_self, f, hf, rfl⟩
        · rcases ih hfss hl with hj | ⟨gs, hgs, hf⟩
          · exact Or.inl hj
          · exact Or.inr ⟨gs, List.mem_cons_of_mem _ hgs, hf⟩

/-- **Unambiguous transcripts, exactly.** For every recording of faults with plain names:
every fault line is taken by `tic` for a fault line, and in every run, from every state
whose file is the rest of a recording, `nxt_tic` changes only at headings that
`transcribe` has written, also in the run on a whole transcript, which `get_nodes`
leaves behind the heading of tic 0, exactly if no name of a fault contains `tic#`. -/
theorem unambiguous_iff (fss : List (List Fault)) (h : ∀ fs ∈ fss, ∀ f ∈ fs, PlainNames f) :
    ((∀ fs ∈ fss, ∀ f ∈ fs, TakenAsFault f) ∧
      (∀ k s n, s.file <:+ lines (ticsText k fss) →
        ∀ p ∈ reads n s, Changes p.1 p.2 → ∃ j, p.2 = heading j) ∧
      ∀ t : NodeTable, (∀ node ∈ t.1, PlainNode node) → ∃ t' s,
        Replay.manager.get_nodes (Replay.init (transcript t fss)) = .ok (some t', s) ∧
        s.nxt_tic = 0 ∧
        ∀ n, ∀ p ∈ reads n s, Changes p.1 p.2 → ∃ j, p.2 = heading j) ↔
      ∀ fs ∈ fss, ∀ f ∈ fs, NoTic f := by
  constructor
  · rintro ⟨htaken, -, -⟩ fs hfs f hf
    exact (takenAsFault_iff (h fs hfs f hf)).mp (htaken fs hfs f hf)
  · intro hno
    have hruns : ∀ k s n, s.file <:+ lines (ticsText k fss) →
        ∀ p ∈ reads n s, Changes p.1 p.2 → ∃ j, p.2 = heading j := by
      intro k s n hfile p hp hchanges
      rcases mem_lines_ticsText h (hfile.subset (mem_reads hp)) with hj | ⟨fs, hfs, f, hf, heq⟩
      · exact hj
      · -- a fault line that changes `nxt_tic` would be a heading
        have hhead := isHeading_of_changes hchanges
        rw [heq, ((takenAsFault_iff (h fs hfs f hf)).mpr (hno fs hfs f hf)).1] at hhead
        exact absurd hhead (by decide)
    refine ⟨fun fs hfs f hf => (takenAsFault_iff (h fs hfs f hf)).mpr (hno fs hfs f hf), hruns,
      fun t ht => ?_⟩
    obtain ⟨t', -, hnodes⟩ := get_nodes_transcript ht h
    exact ⟨t', _, hnodes, rfl, fun n => hruns 0 _ n (List.tail_suffix _)⟩

/-- A fault of a node with `tic#` in its name. -/
def ticFault : Fault :=
  { id := 1, name := none, component := none, node := "tic#7".toList, severity := 0 }

theorem plain_ticFault : PlainNames ticFault := by
  constructor
  · show Plain "tic#7".toList
    simp [Plain, nul]
  · exact plain_nil

/-- A fault of a component of another node than that of `oneFault`. -/
def netFault : Fault :=
  { id := 2, name := none, component := some "net".toList, node := "n1".toList, severity := 100 }

theorem plain_netFault : PlainFault netFault := by
  refine ⟨⟨by simp [Plain, netFault, nul], ?_⟩, fun c hc => ?_⟩
  · show ¬ "tic#".toList <:+: "n1".toList
    decide
  · rw [← Option.mem_some_iff.mp hc]
    exact ⟨by decide, plain_net, by decide⟩

/-- Two tics with faults of two nodes, all with plain names. -/
theorem unambiguous_two_tics :
    (∀ fs ∈ [[oneFault], [netFault, oneFault]], ∀ f ∈ fs, PlainNames f) ∧
      ∀ fs ∈ [[oneFault], [netFault, oneFault]], ∀ f ∈ fs, TakenAsFault f := by
  have hplain : PlainFaults [[oneFault], [netFault, oneFault]] := by
    intro fs hfs f hf
    have hmem : f = oneFault ∨ f = netFault := by
      rcases List.mem_pair.mp hfs with rfl | rfl
      · exact Or.inl (List.mem_singleton.mp hf)
      · exact (List.mem_pair.mp hf).symm
    rcases hmem with rfl | rfl
    · exact plain_oneFault
    · exact plain_netFault
  have hnames := PlainFaults.names hplain
  refine ⟨hnames, ((unambiguous_iff _ hnames).mpr (fun fs hfs f hf => ?_)).1⟩
  exact ⟨(hplain fs hfs f hf).1.2, (plain_component (hplain fs hfs f hf)).2⟩

/-- The line of `ticFault` is taken for the heading of tic 7. -/
theorem not_unambiguous_tic :
    (∀ fs ∈ [[ticFault]], ∀ f ∈ fs, PlainNames f) ∧
      ¬ (∀ fs ∈ [[ticFault]], ∀ f ∈ fs, TakenAsFault f) ∧
      Changes (Replay.init []) (faultLine ticFault) := by
  have hhead : isHeading (cstr (faultLine ticFault)) = true := by decide
  have hread : read_line (cstr (faultLine ticFault)) (Replay.init [])
      = .ok { Replay.init [] with nxt_tic := 7 } := by decide
  refine ⟨fun fs hfs f hf => ?_, fun htaken => ?_, ?_⟩
  · rw [List.mem_singleton.mp hfs, List.mem_singleton] at hf
    rw [hf]
    exact plain_ticFault
  · have hnot := (htaken _ List.mem_cons_self _ List.mem_cons_self).1
    rw [hhead] at hnot
    exact absurd hnot (by decide)
  · rintro ⟨s', hs', hnxt⟩
    rw [hread] at hs'
    rw [← Except.ok.inj hs'] at hnxt
    exact absurd hnxt (by decide)

end LauSim.Headings
