/-
The memory of `plugins/random/random.c`: the nodes `init` makes, the lists of `tic`, and what
`cleanup` gives back of them.

`cleanup` frees all that the plugin has a pointer to: the last list, the nodes with their names
and the array of nodes. `realloc` keeps the old array when it fails, but the plugin has assigned
its result to `faults` and sets `num_fault` to 0, so the array and the faults in it are
forgotten. `random_memory`: nothing dead is read or freed in a run, and behind `cleanup` is left
exactly what has been forgotten so, one list for each tic in which a `realloc` fails.

Other allocations succeed. The loop of `tic` is the one of `Random.tic_loop`, seen from the
memory: `rand` and `realloc` answer as they do there.
-/
import LauSim.FaultLists
import LauSim.Random

set_option autoImplicit false

namespace LauSim.RandomMemory

open FaultLists

/-- A `mynode` and its name. -/
structure NodeBlocks where
  self : ℕ
  name : ℕ
  deriving DecidableEq, Repr

/-- A list the plugin has no pointer to any more. -/
structure Forgotten where
  entries : List Entry
  faults : Option ℕ
  deriving DecidableEq, Repr

/-- The pointers of the plugin; the heap is in `list`. `forgotten` is not a variable of the
plugin: it has the lists that have been lost, each as it was when `realloc` failed. -/
structure Memory where
  list : FaultList
  nodes : ℕ
  table : List NodeBlocks
  forgotten : List Forgotten
  deriving DecidableEq, Repr

/-! ## The plugin's functions -/

/-- The body of the loop of `init`. -/
def new_node (arr : ℕ) (h : Heap) : NodeBlocks × Heap :=
  let self := h.malloc
  let name := self.2.malloc
  ({ self := self.1, name := name.1 }, name.2.useAll [arr, self.1, name.1])

def new_nodes (arr : ℕ) : ℕ → Heap → List NodeBlocks × Heap
  | 0, h => ([], h)
  | num + 1, h =>
    let node := new_node arr h
    let out := new_nodes arr num node.2
    (node.1 :: out.1, out.2)

def init (num : ℕ) (h : Heap) : Memory :=
  let nodes := h.malloc
  let out := new_nodes nodes.1 num nodes.2
  { list := FaultList.start out.2, nodes := nodes.1, table := out.1, forgotten := [] }

/-- The loop reads these blocks. -/
def touch (bs : List ℕ) (m : FaultList) : FaultList := { m with heap := m.heap.useAll bs }

/-- The loop of `tic`: the list at its end, and the one it has forgotten. -/
def tic_loop (libc : Random.Libc) (arr : ℕ) :
    List (MyNode × NodeBlocks) → FaultList → ℕ → ℕ → FaultList × List Forgotten
  | [], m, _, _ => (m, [])
  | (n, b) :: ns, m, rands, reallocs =>
    let m := touch [arr, b.self] m
    if n.healthy then
      if libc.rand rands < Random.prob then
        if libc.realloc reallocs then
          tic_loop libc arr ns (m.add 0 [b.name]) (rands + 1) (reallocs + 1)
        else
          -- `faults == NULL`: the old array is still there, and nobody knows it
          ({ m with faults := none, entries := [] }, [{ entries := m.entries, faults := m.faults }])
      else tic_loop libc arr ns m (rands + 1) reallocs
    else tic_loop libc arr ns m rands reallocs

/-- `tic`, where `s` is the plugin before it. -/
def tic (libc : Random.Libc) (s : Random) (m : Memory) : Memory :=
  let out := tic_loop libc m.nodes (s.nodes.zip m.table) m.list.clear s.rands s.reallocs
  { m with list := out.1, forgotten := m.forgotten ++ out.2 }

/-- A round of the server: `tic`, `get_fail`, and the reads of the list. -/
def round (libc : Random.Libc) (x : Random × Memory) : Random × Memory :=
  let m := tic libc x.1 x.2
  (x.1.tic libc, { m with list := m.list.read })

/-- The body of the loop of `cleanup`. -/
def free_node (arr : ℕ) (h : Heap) (b : NodeBlocks) : Heap :=
  (((h.useAll [arr, b.self]).free (some b.name)).use arr).free (some b.self)

def cleanup (m : Memory) : Heap :=
  (m.table.foldl (free_node m.nodes) m.list.free_faults).free (some m.nodes)

/-! ## What the plugin owns -/

def NodeBlocks.blocks (b : NodeBlocks) : List ℕ := [b.name, b.self]

/-- The faults and their array. -/
def Forgotten.blocks (l : Forgotten) : List ℕ :=
  l.entries.flatMap Entry.blocks ++ l.faults.toList

/-- What is there besides the list. -/
def Memory.blocks (m : Memory) : List ℕ := m.nodes :: m.table.flatMap NodeBlocks.blocks

/-- What has been forgotten. -/
def Memory.leaked (m : Memory) : List ℕ := m.forgotten.flatMap Forgotten.blocks

/-- The list, the nodes, what has been forgotten, and `frame` are all that is live. -/
def Holds (m : Memory) (frame : List ℕ) : Prop :=
  m.list.Holds (m.leaked ++ (m.blocks ++ frame))

/-- A list of random: no strings, and an array as soon as there is a fault. -/
structure Plain (entries : List Entry) (faults : Option ℕ) : Prop where
  strings : ∀ e ∈ entries, e.strings = []
  faults : faults.isSome = true ↔ entries ≠ []

variable {m : Memory} {frame : List ℕ}

/-! ## `init` -/

theorem owns_new_node {h : Heap} {bs : List ℕ} (howns : h.Owns bs) {arr : ℕ} (harr : arr ∈ bs) :
    (new_node arr h).2.Owns ((new_node arr h).1.blocks ++ bs) := by
  have hnew := howns.malloc.malloc
  rw [new_node]
  dsimp only
  rw [hnew.useAll (by simp [harr])]
  exact hnew

theorem owns_new_nodes (num : ℕ) {h : Heap} {bs : List ℕ} (howns : h.Owns bs) {arr : ℕ}
    (harr : arr ∈ bs) :
    (new_nodes arr num h).2.Owns ((new_nodes arr num h).1.flatMap NodeBlocks.blocks ++ bs) := by
  induction num generalizing h bs with
  | zero => exact howns
  | succ num ih =>
      have hrest := ih (owns_new_node howns harr) (List.mem_append_right _ harr)
      refine hrest.perm ?_
      rw [new_nodes, List.flatMap_cons, List.append_assoc]
      exact List.perm_append_comm_assoc _ _ _

theorem length_new_nodes (arr num : ℕ) (h : Heap) : (new_nodes arr num h).1.length = num := by
  induction num generalizing h with
  | zero => rfl
  | succ num ih => exact congrArg (· + 1) (ih (new_node arr h).2)

theorem holds_init (num : ℕ) {h : Heap} (howns : h.Owns frame) : Holds (init num h) frame := by
  have harr : h.malloc.1 ∈ h.malloc.1 :: frame := List.mem_cons_self
  exact FaultList.holds_start ((owns_new_nodes num howns.malloc harr).perm List.perm_middle)

/-! ## The loop of `tic` -/

theorem touch_of_mem {l : FaultList} {rest : List ℕ} (h : l.Holds rest) {bs : List ℕ}
    (hbs : ∀ b ∈ bs, b ∈ rest) : touch bs l = l := by
  rw [touch, h.owns.useAll fun b hb => List.mem_append_right _ (hbs b hb)]

/-- What the loop leaves, and what it forgets. -/
theorem holds_tic_loop (libc : Random.Libc) {arr : ℕ} {rest : List ℕ} (harr : arr ∈ rest)
    (ns : List (MyNode × NodeBlocks)) (hns : ∀ n ∈ ns, n.2.self ∈ rest ∧ n.2.name ∈ rest)
    {l : FaultList} (h : l.Holds rest) (r a : ℕ) :
    (tic_loop libc arr ns l r a).1.Holds
      ((tic_loop libc arr ns l r a).2.flatMap Forgotten.blocks ++ rest) := by
  induction ns generalizing l r a with
  | nil => exact h
  | cons n ns ih =>
      obtain ⟨n, b⟩ := n
      obtain ⟨hself, hname⟩ := hns _ List.mem_cons_self
      have hns' : ∀ n ∈ ns, n.2.self ∈ rest ∧ n.2.name ∈ rest :=
        fun n hn => hns n (List.mem_cons_of_mem _ hn)
      have htouch : touch [arr, b.self] l = l := touch_of_mem h (by simp [harr, hself])
      rw [tic_loop, htouch]
      split
      · split
        · split
          · exact ih hns' (h.add 0 (by simp [hname])) _ _
          · -- all that the list had is live and in nobody's hands
            refine ⟨?_, fun _ he => absurd he List.not_mem_nil⟩
            simp only [FaultList.blocks, Forgotten.blocks, List.flatMap_nil, Option.toList_none,
              List.nil_append, List.flatMap_cons, List.append_nil]
            exact h.owns
        · exact ih hns' h _ _
      · exact ih hns' h _ _

theorem Plain.add {l : FaultList} (h : Plain l.entries l.faults) (lent : List ℕ) :
    Plain (l.add 0 lent).entries (l.add 0 lent).faults := by
  refine ⟨fun e he => ?_, ?_⟩
  · rcases List.mem_append.mp he with he | he
    · exact h.strings e he
    · rw [List.mem_singleton.mp he]
      rfl
  · exact iff_of_true rfl (by simp [FaultList.add])

theorem plain_tic_loop (libc : Random.Libc) (arr : ℕ) (ns : List (MyNode × NodeBlocks))
    {l : FaultList} (h : Plain l.entries l.faults) (r a : ℕ) :
    ∀ lost ∈ (tic_loop libc arr ns l r a).2, Plain lost.entries lost.faults := by
  induction ns generalizing l r a with
  | nil => exact fun lost hlost => absurd hlost List.not_mem_nil
  | cons n ns ih =>
      obtain ⟨n, b⟩ := n
      have htouch : Plain (touch [arr, b.self] l).entries (touch [arr, b.self] l).faults := h
      rw [tic_loop]
      split
      · split
        · split
          · exact ih (htouch.add _) _ _
          · intro lost hlost
            rw [List.mem_singleton.mp hlost]
            exact htouch
        · exact ih htouch _ _
      · exact ih htouch _ _

theorem length_entries_add {l : FaultList} (k : ℕ) (lent : List ℕ) :
    (l.add k lent).entries.length = l.entries.length + 1 := by
  rw [FaultList.add, List.length_append, List.length_singleton]

/-- The loop asks `realloc` for every fault it adds, and for one more if it fails. -/
theorem counts_tic_loop (libc : Random.Libc) (arr : ℕ) (ns : List MyNode)
    (bs : List NodeBlocks) (hlen : ns.length = bs.length) (l : FaultList) (fs : List Fault)
    (hl : l.entries.length = fs.length) (r a : ℕ) :
    (tic_loop libc arr (ns.zip bs) l r a).1.entries.length
        = (Random.tic_loop libc ns fs r a).faults.length ∧
      a ≤ (Random.tic_loop libc ns fs r a).reallocs ∧
      (tic_loop libc arr (ns.zip bs) l r a).2.map (fun lost => lost.entries.length)
        = ((((List.range' a ((Random.tic_loop libc ns fs r a).reallocs - a)).map
            libc.realloc).idxOf? false).map (fs.length + ·)).toList := by
  induction ns generalizing bs l fs r a with
  | nil => simp [tic_loop, Random.tic_loop, hl]
  | cons n ns ih =>
      obtain ⟨b, bs, rfl⟩ := List.exists_cons_of_length_eq_add_one (hlen.symm)
      have hlen' : ns.length = bs.length := Nat.succ.inj hlen
      have htouch : (touch [arr, b.self] l).entries.length = fs.length := hl
      rw [List.zip_cons_cons, tic_loop, Random.tic_loop]
      dsimp only
      split
      · split
        · split
          · next hok =>
            obtain ⟨hcount, hle, hlost⟩ := ih bs hlen' ((touch [arr, b.self] l).add 0 [b.name])
              (fs ++ [Random.newFault n.p])
              (by rw [length_entries_add, htouch, List.length_append, List.length_singleton])
              (r + 1) (a + 1)
            refine ⟨hcount, Nat.le_of_succ_le hle, ?_⟩
            dsimp only
            rw [hlost]
            obtain ⟨d, hd⟩ := Nat.exists_eq_add_of_le hle
            rw [hd, show a + 1 + d - (a + 1) = d by omega, show a + 1 + d - a = d + 1 by omega,
              List.range'_succ, List.map_cons, hok, List.idxOf?_cons, List.length_append,
              List.length_singleton]
            cases ((List.range' (a + 1) d).map libc.realloc).idxOf? false with
            | none => rfl
            | some k => simp [Nat.add_assoc, Nat.add_comm 1 k]
          · next hok =>
            refine ⟨rfl, Nat.le_succ a, ?_⟩
            dsimp only
            rw [show a + 1 - a = 1 by omega, List.range'_one, List.map_singleton,
              List.map_singleton, Bool.eq_false_of_not_eq_true hok, htouch]
            rfl
        · exact ih bs hlen' _ fs htouch (r + 1) a
      · exact ih bs hlen' _ fs htouch r a

/-! ## The rounds -/

/-- What `realloc` answers in the next tic. -/
def answers (libc : Random.Libc) (s : Random) : List Bool :=
  (List.range' s.reallocs ((s.tic libc).reallocs - s.reallocs)).map libc.realloc

/-- How many calls of `realloc` succeed in the next tic before one fails, if one does. -/
def fails_after (libc : Random.Libc) (s : Random) : Option ℕ := (answers libc s).idxOf? false

theorem Holds.round (libc : Random.Libc) {s : Random} (h : Holds m frame) :
    Holds (RandomMemory.round libc (s, m)).2 frame := by
  have htable : ∀ n ∈ s.nodes.zip m.table,
      n.2.self ∈ m.leaked ++ (m.blocks ++ frame) ∧ n.2.name ∈ m.leaked ++ (m.blocks ++ frame) := by
    intro n hn
    have hblocks : ∀ b ∈ n.2.blocks, b ∈ m.leaked ++ (m.blocks ++ frame) := fun b hb =>
      List.mem_append_right _ (List.mem_append_left _ (List.mem_cons_of_mem _
        (List.mem_flatMap.mpr ⟨n.2, (List.of_mem_zip hn).2, hb⟩)))
    exact ⟨hblocks _ (by simp [NodeBlocks.blocks]), hblocks _ (by simp [NodeBlocks.blocks])⟩
  have harr : m.nodes ∈ m.leaked ++ (m.blocks ++ frame) := by simp [Memory.blocks]
  have hloop := holds_tic_loop libc harr _ htable (FaultList.Holds.clear h) s.rands s.reallocs
  have hleaked : (tic libc s m).leaked = m.leaked ++ (tic_loop libc m.nodes (s.nodes.zip m.table)
      m.list.clear s.rands s.reallocs).2.flatMap Forgotten.blocks := List.flatMap_append
  have htic : Holds (tic libc s m) frame := by
    rw [Holds, hleaked, List.append_assoc]
    refine ⟨hloop.owns.perm ?_, fun e he b hb => ?_⟩
    · exact List.Perm.append_left _ (List.perm_append_comm_assoc _ _ _)
    · exact (List.perm_append_comm_assoc _ _ _).subset (hloop.lent e he b hb)
  rw [Holds, RandomMemory.round, FaultList.Holds.read htic]
  exact htic

/-- The table has an entry for each node. -/
theorem length_round (libc : Random.Libc) {x : Random × Memory}
    (h : x.1.nodes.length = x.2.table.length) :
    (round libc x).1.nodes.length = (round libc x).2.table.length := by
  have hkept := (Random.tic_loop_kept libc x.1.nodes [] x.1.rands x.1.reallocs).length_eq
  exact hkept.symm.trans h

/-- The list has as many faults as the tic reports, and what is forgotten is counted. -/
theorem counts_round (libc : Random.Libc) {s : Random} (h : s.nodes.length = m.table.length) :
    (round libc (s, m)).2.list.entries.length = (s.tic libc).faults.length ∧
      (round libc (s, m)).2.forgotten.map (fun lost => lost.entries.length)
        = m.forgotten.map (fun lost => lost.entries.length) ++ (fails_after libc s).toList := by
  obtain ⟨hcount, -, hlost⟩ := counts_tic_loop libc m.nodes s.nodes m.table h m.list.clear [] rfl
    s.rands s.reallocs
  refine ⟨hcount, ?_⟩
  rw [round, tic, List.map_append, hlost]
  congr 1
  rw [fails_after]
  exact congrArg Option.toList (by simp [answers, Random.tic])

/-! ## `cleanup` -/

theorem owns_free_nodes (ns : List NodeBlocks) {h : Heap} {arr : ℕ} {bs : List ℕ}
    (howns : h.Owns (ns.flatMap NodeBlocks.blocks ++ bs)) (harr : arr ∈ bs) :
    (ns.foldl (free_node arr) h).Owns bs := by
  induction ns generalizing h with
  | nil => exact howns
  | cons b ns ih =>
      have hall : h.Owns (b.name :: b.self :: (ns.flatMap NodeBlocks.blocks ++ bs)) := howns
      have huse : h.useAll [arr, b.self] = h := hall.useAll (by simp [harr])
      have hname := hall.free
      apply ih
      rw [free_node, huse, hname.use (by simp [harr])]
      exact hname.free

theorem Holds.cleanup (h : Holds m frame) : (cleanup m).Owns (m.leaked ++ frame) := by
  have hlist : m.list.free_faults.Owns
      (m.table.flatMap NodeBlocks.blocks ++ (m.nodes :: (m.leaked ++ frame))) := by
    refine (FaultList.Holds.free_faults h).perm ?_
    rw [List.perm_iff_count]
    intro b
    simp only [Memory.blocks, List.count_append, List.count_cons]
    omega
  exact (owns_free_nodes m.table hlist List.mem_cons_self).free

/-! ## Any number of rounds -/

/-- What holds after `n` rounds from the plugin `s`. -/
structure Rounds (libc : Random.Libc) (s : Random) (frame : List ℕ) (n : ℕ)
    (x : Random × Memory) : Prop where
  holds : Holds x.2 frame
  plugin : x.1 = (Random.tic libc)^[n] s
  table : x.1.nodes.length = x.2.table.length
  count : x.2.list.entries.length = x.1.faults.length
  lost : x.2.forgotten.map (fun lost => lost.entries.length) =
    (List.range n).flatMap fun i => (fails_after libc ((Random.tic libc)^[i] s)).toList
  plain : ∀ lost ∈ x.2.forgotten, Plain lost.entries lost.faults

theorem rounds_init (libc : Random.Libc) (num : ℕ) (hnum : num < 2 ^ 31) {h : Heap}
    (hframe : h.Owns frame) :
    Rounds libc (Random.init num hnum) frame 0 (Random.init num hnum, init num h) where
  holds := holds_init num hframe
  plugin := rfl
  table := by rw [init, length_new_nodes, Random.init, List.length_map, List.length_range]
  count := rfl
  lost := rfl
  plain := fun _ hl => absurd hl List.not_mem_nil

theorem Rounds.round {libc : Random.Libc} {s : Random} {n : ℕ} {x : Random × Memory}
    (h : Rounds libc s frame n x) : Rounds libc s frame (n + 1) (round libc x) := by
  obtain ⟨hcount, hlost⟩ := counts_round libc h.table
  refine ⟨h.holds.round libc, ?_, length_round libc h.table, hcount, ?_, fun lost hmem => ?_⟩
  · rw [Function.iterate_succ_apply', ← h.plugin]
    rfl
  · rw [hlost, h.lost, h.plugin, List.range_succ, List.flatMap_append, List.flatMap_singleton]
  · rcases List.mem_append.mp hmem with hmem | hmem
    · exact h.plain lost hmem
    · -- the loop has begun without a list
      have hempty : Plain x.2.list.clear.entries x.2.list.clear.faults := by
        refine ⟨fun e he => absurd he List.not_mem_nil, ?_⟩
        simp [FaultList.clear, FaultList.start]
      exact plain_tic_loop libc _ _ hempty _ _ lost hmem

theorem rounds_run {libc : Random.Libc} {s : Random} {x : Random × Memory}
    (h : Rounds libc s frame 0 x) (n : ℕ) : Rounds libc s frame n ((round libc)^[n] x) := by
  induction n with
  | zero => exact h
  | succ n ih =>
      rw [Function.iterate_succ_apply']
      exact ih.round

/-- **The memory of random.** For every number of nodes, whatever `rand` and `realloc` answer,
and after any number of rounds: no read and no `free` has met memory that was not there, the
list in memory has as many faults as the tic has reported, and what is left of the plugin
behind `cleanup` is what it has forgotten. That is one list for each tic in which a `realloc`
fails: if it fails after `k` successful calls, the `k` faults, and their array if there is
one. -/
theorem random_memory (libc : Random.Libc) (num : ℕ) (hnum : num < 2 ^ 31) (h : Heap)
    (frame : List ℕ) (hframe : h.Owns frame) (n : ℕ) :
    let x := (round libc)^[n] (Random.init num hnum, init num h)
    x.2.list.heap.bad = [] ∧ x.2.list.entries.length = x.1.faults.length ∧
      (cleanup x.2).Owns (x.2.forgotten.flatMap Forgotten.blocks ++ frame) ∧
      x.2.forgotten.map (fun lost => lost.entries.length) = (List.range n).flatMap (fun i =>
        (fails_after libc ((Random.tic libc)^[i] (Random.init num hnum))).toList) ∧
      ∀ lost ∈ x.2.forgotten, (∀ e ∈ lost.entries, e.blocks = [e.self]) ∧
        (lost.faults.isSome = true ↔ lost.entries ≠ []) := by
  intro x
  have hx : Rounds libc (Random.init num hnum) frame n x :=
    rounds_run (rounds_init libc num hnum hframe) n
  refine ⟨hx.holds.owns.bad, hx.count, hx.holds.cleanup, hx.lost, fun lost hlost => ?_⟩
  refine ⟨fun e he => ?_, (hx.plain lost hlost).faults⟩
  rw [Entry.blocks, (hx.plain lost hlost).strings e he, List.nil_append]

/-- Three nodes fail, and there is no memory for the third report. -/
def thirdFails : Random.Libc where
  rand := fun _ => 0
  realloc := fun n => decide (n ≠ 2)

/-- The first two faults and their array are forgotten. -/
theorem random_memory_third_fails :
    let x := (round thirdFails)^[2] (Random.init 3 (by decide), init 3 ⟨1, [0], []⟩)
    x.2.list.heap.bad = [] ∧ x.2.list.entries.length = x.1.faults.length ∧
      (cleanup x.2).Owns (x.2.forgotten.flatMap Forgotten.blocks ++ [0]) ∧
      x.2.forgotten.map (fun lost => lost.entries.length) = [2] := by
  intro x
  obtain ⟨hbad, hlen, howns, hcounts, -⟩ := random_memory thirdFails 3 (by decide) ⟨1, [0], []⟩
    [0] ⟨List.Perm.refl _, by simp, by simp, rfl⟩ 2
  exact ⟨hbad, hlen, howns, hcounts.trans (by decide)⟩

end LauSim.RandomMemory
