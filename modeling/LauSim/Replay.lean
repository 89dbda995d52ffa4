/-
`plugins/replay/replay.c`: the fault manager that plays a transcript back.

The stream is read by `getline` only, so the state keeps the list of the lines
still to come (`CText.getline_eq`). A line is a buffer; the string functions see
its `cstr`. The counters `tic_num` and `nxt_tic` are 64-bit and wrap; `done` is
the end-of-file flag. `num_fault` is the length of `faults`.

`get_tic_num` returns `none` where its local `num` is never written; reading
that value is `Undef.unassigned`. In `get_nodes` the first token of a node line
goes to `strlen` unchecked, which is `Undef.nullToken` on a line of delimiters.
Allocations succeed, the debug messages are left out, and so are two tests that
never fire: `getline` does not return 0, and a pointer one past a comma is not
NULL.
-/
import LauSim.FaultManager

set_option autoImplicit false

namespace LauSim

open CText

/-- The globals of the plugin. -/
structure Replay where
  file : List Text
  tic_num : UInt64
  nxt_tic : UInt64
  id : UInt64
  done : Bool
  faults : List Fault
  deriving DecidableEq, Repr

namespace Replay

/-- What `init` leaves after opening a file with the given content; the other
globals are zero from the start. -/
def init (content : Text) : Replay :=
  { file := lines content, tic_num := 0, nxt_tic := 0, id := 0, done := false, faults := [] }

/-! ## Headings -/

/-- The token loop of `get_tic_num`, up to the first token `strtoull` can read; `num` is
written for every token the loop comes to. -/
def get_tic_num.loop (num : Option UInt64) : List Text → Option UInt64
  | [] => num
  | start :: rest =>
    match strtoull start with
    | (num, stop) => if stop = start then get_tic_num.loop (some num) rest else some num

/-- The first token is dropped before the loop starts. -/
def get_tic_num (buf : Text) : Option UInt64 :=
  get_tic_num.loop none (strtoks " #\t\n".toList buf).tail

/-- The value `get_tic_num` returns, if it has one. -/
def tic_num_of (buf : Text) : Except Undef UInt64 :=
  match get_tic_num buf with
  | some num => .ok num
  | none => .error .unassigned

/-! ## The node table -/

/-- The loop over the components of a node line: one token each, `none` when
the line ends early. -/
def read_components : Nat → List Text → Option (List Component)
  | 0, _ => some []
  | _ + 1, [] => none
  | m + 1, cur :: toks =>
    (read_components m toks).map (fun cs => { name := cur, severity := 0 } :: cs)

/-- The components are the next `m` tokens, if there are as many. -/
theorem read_components_eq (m : Nat) (toks : List Text) :
    read_components m toks =
      if m ≤ toks.length then some ((toks.take m).map (fun x => { name := x, severity := 0 }))
      else none := by
  induction m generalizing toks with
  | zero => simp [read_components]
  | succ m ih =>
      cases toks with
      | nil => simp [read_components]
      | cons cur toks =>
          rw [read_components, ih, List.length_cons, List.take_succ_cons]
          by_cases hle : m ≤ toks.length
          · simp [hle]
          · simp [hle]

theorem read_components_some {m : Nat} {toks : List Text} {cs : List Component}
    (h : read_components m toks = some cs) :
    m ≤ toks.length ∧ cs = (toks.take m).map (fun x => { name := x, severity := 0 }) := by
  rw [read_components_eq] at h
  by_cases hle : m ≤ toks.length
  · rw [if_pos hle] at h
    exact ⟨hle, (Option.some.inj h).symm⟩
  · rw [if_neg hle] at h
    simp at h

theorem read_components_length {m : Nat} {toks : List Text} {cs : List Component}
    (h : read_components m toks = some cs) : cs.length = m := by
  obtain ⟨hle, rfl⟩ := read_components_some h
  rw [List.length_map, List.length_take, Nat.min_eq_left hle]

/-- The body of the node loop on the line `buf`; `none` where `get_nodes`
returns 1. The component count is cut to `unsigned`. -/
def read_node (i : Nat) (buf : Text) : Except Undef (Option Node) :=
  match strtoks ",\n".toList buf with
  -- `strlen (NULL)`
  | [] => .error .nullToken
  | [_] => .ok none
  | name :: cur :: toks =>
    match h : read_components (strtoull cur).1.toUInt32.toNat toks with
    | none => .ok none
    | some cs =>
      .ok (some
        { name := name, id := Int32.ofNat i, type := .uniform_node, state := .UNKNOWN,
          components := cs,
          num_lt := by rw [read_components_length h]; exact UInt32.toNat_lt _ })

/-- The node loop: `k` more nodes, the first of index `i`. The result is the
node list, or `none`, and the lines left. -/
def read_nodes : Nat → Nat → List Text → Except Undef (Option (List Node) × List Text)
  | 0, _, ls => .ok (some [], ls)
  | _ + 1, _, [] => .ok (none, [])
  | k + 1, i, l :: ls => do
    match ← read_node i (cstr l) with
    | none => return (none, ls)
    | some n =>
      match ← read_nodes k (i + 1) ls with
      | (none, ls) => return (none, ls)
      | (some ns, ls) => return (some (n :: ns), ls)

/-- What a node loop that succeeds is made of. -/
theorem read_nodes_cons {k i : Nat} {l : Text} {ls ls' : List Text} {ns : List Node}
    (h : read_nodes (k + 1) i (l :: ls) = .ok (some ns, ls')) :
    ∃ n ns', read_node i (cstr l) = .ok (some n) ∧
      read_nodes k (i + 1) ls = .ok (some ns', ls') ∧ ns = n :: ns' := by
  rw [read_nodes] at h
  obtain ⟨ret, hnode, h⟩ := FaultManager.bind_eq_ok h
  cases ret with
  | none => simp [pure, Except.pure] at h
  | some n =>
      obtain ⟨⟨ret, ls₂⟩, hrest, h⟩ := FaultManager.bind_eq_ok h
      cases ret with
      | none => simp [pure, Except.pure] at h
      | some ns' =>
          simp only [pure, Except.pure, Except.ok.injEq, Prod.mk.injEq, Option.some.injEq] at h
          obtain ⟨rfl, rfl⟩ := h
          exact ⟨n, ns', hnode, hrest, rfl⟩

theorem read_nodes_length {k i : Nat} {ls ls' : List Text} {ns : List Node}
    (h : read_nodes k i ls = .ok (some ns, ls')) : ns.length = k := by
  induction k generalizing i ls ns with
  | zero =>
      simp only [read_nodes, Except.ok.injEq, Prod.mk.injEq, Option.some.injEq] at h
      rw [← h.1]
      rfl
  | succ k ih =>
      cases ls with
      | nil => simp [read_nodes] at h
      | cons l ls =>
          obtain ⟨n, ns', -, hrest, rfl⟩ := read_nodes_cons h
          rw [List.length_cons, ih hrest]

/-- The line behind the node table: a heading if it contains `tic`, else it is
dropped with a warning. -/
def first_heading (s : Replay) : Except Undef Replay :=
  match s.file with
  | [] => .ok s
  | l :: ls =>
    if strstr (cstr l) "tic".toList then do
      let num ← tic_num_of (cstr l)
      return { s with file := ls, nxt_tic := num }
    else .ok { s with file := ls }

def get_nodes (s : Replay) : Except Undef (Option NodeTable × Replay) :=
  match s.file with
  | [] => .ok (none, s)
  | l :: ls =>
    match strtoull (cstr l) with
    | (nodes_num, cur) =>
      -- no number in the first line
      if cur = cstr l then .ok (none, { s with file := ls })
      else
        match h : read_nodes nodes_num.toNat 0 ls with
        | .error e => .error e
        | .ok (none, ls) => .ok (none, { s with file := ls })
        | .ok (some ns, ls) => do
          let s ← first_heading { s with file := ls }
          return (some ⟨ns, by rw [read_nodes_length h]; exact UInt64.toNat_lt _⟩, s)

/-- `get_nodes` on a file whose count, node lines and first heading are read. -/
theorem get_nodes_of_read {s s' : Replay} {l : Text} {ls ls' : List Text} {ns : List Node}
    (hfile : s.file = l :: ls) (hcount : (strtoull (cstr l)).2 ≠ cstr l)
    (hns : read_nodes (strtoull (cstr l)).1.toNat 0 ls = .ok (some ns, ls'))
    (hhead : first_heading { s with file := ls' } = .ok s') :
    ∃ hlt, get_nodes s = .ok (some ⟨ns, hlt⟩, s') := by
  have hlt : ns.length < 2 ^ 64 := by
    rw [read_nodes_length hns]
    exact UInt64.toNat_lt _
  refine ⟨hlt, ?_⟩
  unfold get_nodes
  rw [hfile]
  dsimp only
  rw [if_neg hcount]
  split
  · next e he => rw [hns] at he; simp at he
  · next ls₂ he => rw [hns] at he; simp at he
  · next ns₂ ls₂ he =>
    rw [hns, Except.ok.injEq, Prod.mk.injEq, Option.some.injEq] at he
    obtain ⟨rfl, rfl⟩ := he
    simp only [hhead, bind, Except.bind, pure, Except.pure]

/-- Everything `get_nodes` can do: the file is empty; the first line begins with no
number; or the node loop fails, gives up, or leaves the table and the line behind it. -/
theorem get_nodes_cases (s : Replay) :
    (s.file = [] ∧ get_nodes s = .ok (none, s)) ∨
    ∃ l ls, s.file = l :: ls ∧
      (((strtoull (cstr l)).2 = cstr l ∧ get_nodes s = .ok (none, { s with file := ls })) ∨
        (strtoull (cstr l)).2 ≠ cstr l ∧
          ((∃ e, read_nodes (strtoull (cstr l)).1.toNat 0 ls = .error e ∧
              get_nodes s = .error e) ∨
            (∃ ls', read_nodes (strtoull (cstr l)).1.toNat 0 ls = .ok (none, ls') ∧
              get_nodes s = .ok (none, { s with file := ls' })) ∨
            ∃ ns ls', read_nodes (strtoull (cstr l)).1.toNat 0 ls = .ok (some ns, ls') ∧
              ((∃ e, first_heading { s with file := ls' } = .error e ∧ get_nodes s = .error e) ∨
                ∃ s' hlt, first_heading { s with file := ls' } = .ok s' ∧
                  get_nodes s = .ok (some ⟨ns, hlt⟩, s')))) := by
  cases hfile : s.file with
  | nil =>
      refine Or.inl ⟨rfl, ?_⟩
      rw [get_nodes, hfile]
  | cons l ls =>
      refine Or.inr ⟨l, ls, rfl, ?_⟩
      by_cases hnum : (strtoull (cstr l)).2 = cstr l
      · refine Or.inl ⟨hnum, ?_⟩
        rw [get_nodes, hfile]
        exact if_pos hnum
      · refine Or.inr ⟨hnum, ?_⟩
        cases hread : read_nodes (strtoull (cstr l)).1.toNat 0 ls with
        | error e =>
            refine Or.inl ⟨e, rfl, ?_⟩
            rw [get_nodes, hfile]
            dsimp only
            rw [if_neg hnum]
            split
            · next he =>
              rw [hread] at he
              rw [Except.error.inj he]
            · next he => rw [hread] at he; simp at he
            · next he => rw [hread] at he; simp at he
        | ok out =>
            right
            obtain ⟨ret, ls'⟩ := out
            cases ret with
            | none =>
                refine Or.inl ⟨ls', rfl, ?_⟩
                rw [get_nodes, hfile]
                dsimp only
                rw [if_neg hnum]
                split
                · next he => rw [hread] at he; simp at he
                · next he =>
                  rw [hread] at he
                  rw [(Prod.mk.inj (Except.ok.inj he)).2]
                · next he => rw [hread] at he; simp at he
            | some ns =>
                refine Or.inr ⟨ns, ls', rfl, ?_⟩
                cases hhead : first_heading { s with file := ls' } with
                | error e =>
                    refine Or.inl ⟨e, rfl, ?_⟩
                    rw [get_nodes, hfile]
                    dsimp only
                    rw [if_neg hnum]
                    split
                    · next he => rw [hread] at he; simp at he
                    · next he => rw [hread] at he; simp at he
                    · next he =>
                      rw [hread, Except.ok.injEq, Prod.mk.injEq] at he
                      obtain ⟨-, rfl⟩ := he
                      simp only [hhead, bind, Except.bind]
                | ok s' =>
                    obtain ⟨hlt, hget⟩ := get_nodes_of_read hfile hnum hread hhead
                    exact Or.inr ⟨s', hlt, rfl, hget⟩

/-- What a call that returns a table has read. -/
theorem get_nodes_some {s s' : Replay} {t : NodeTable} (h : get_nodes s = .ok (some t, s')) :
    ∃ l ls ls', s.file = l :: ls ∧
      read_nodes (strtoull (cstr l)).1.toNat 0 ls = .ok (some t.1, ls') ∧
      first_heading { s with file := ls' } = .ok s' := by
  rcases get_nodes_cases s with ⟨-, hget⟩ | ⟨l, ls, hfile, ⟨-, hget⟩ | ⟨-, ⟨e, -, hget⟩ |
    ⟨ls', -, hget⟩ | ⟨ns, ls', hread, ⟨e, -, hget⟩ | ⟨s₁, hlt, hhead, hget⟩⟩⟩⟩
  · exact absurd (h.symm.trans hget) (by simp)
  · exact absurd (h.symm.trans hget) (by simp)
  · exact absurd (h.symm.trans hget) (by simp)
  · exact absurd (h.symm.trans hget) (by simp)
  · exact absurd (h.symm.trans hget) (by simp)
  · rw [h, Except.ok.injEq, Prod.mk.injEq, Option.some_inj] at hget
    obtain ⟨rfl, rfl⟩ := hget
    exact ⟨l, ls, ls', hfile, hread, hhead⟩

/-! ## One tic -/

/-- A line that contains `tic#` is a heading. -/
def isHeading (buf : Text) : Bool := strstr buf "tic#".toList

/-- What the rest of the loop body makes of a line that is no heading: node,
component (NULL when empty) and severity, if the line has two commas and a
number behind the second. The severity is cut to `unsigned`. -/
def parse_fault (buf : Text) : Option (Text × Option Text × UInt32) :=
  match strchr ',' buf with
  | none => none
  | some (name, rest) =>
    match strchr ',' rest with
    | none => none
    | some (comp, sev_str) =>
      match strtoull sev_str with
      | (severity, tmp) =>
        if tmp = sev_str then none
        else some (name, if comp = [] then none else some comp, severity.toUInt32)

/-- The loop body of `tic` on the buffer `buf`. -/
def read_line (buf : Text) (s : Replay) : Except Undef Replay :=
  if isHeading buf then do
    let num ← tic_num_of buf
    return { s with nxt_tic := num }
  else
    match parse_fault buf with
    | none => .ok s
    | some (name, comp, severity) =>
      .ok { s with
            id := s.id + 1
            faults := s.faults ++
              [{ id := (s.id + 1).toUInt32.toInt32, name := none, component := comp,
                 node := name, severity := severity }] }

/-- `while (nxt_tic < tic_num && !done)`, over the lines left. -/
def tic_loop : List Text → Replay → Except Undef Replay
  | [], s =>
    -- `getline` returns -1 at the end of the file
    if s.nxt_tic < s.tic_num ∧ s.done = false then .ok { s with file := [], done := true }
    else .ok { s with file := [] }
  | l :: ls, s =>
    if s.nxt_tic < s.tic_num ∧ s.done = false then do
      let s ← read_line (cstr l) s
      tic_loop ls s
    else .ok { s with file := l :: ls }

def tic (s : Replay) : Except Undef Replay :=
  let s := { s with faults := [] }
  if s.done then .ok s
  else
    -- `tic_num++ < nxt_tic`: the old value is compared, the new one is kept
    let s' := { s with tic_num := s.tic_num + 1 }
    if s.tic_num < s.nxt_tic then .ok s' else tic_loop s'.file s'

def get_fail (s : Replay) : Except Undef (List Fault × Replay) := .ok (s.faults, s)

def inject_fail (_ : Fault) (s : Replay) : Except Undef (Int × Replay) := .ok (1, s)

/-- `fm`. -/
def manager : FaultManager Replay where
  get_nodes := get_nodes
  tic := tic
  get_fail := get_fail
  inject_fail := inject_fail

end Replay

end LauSim
