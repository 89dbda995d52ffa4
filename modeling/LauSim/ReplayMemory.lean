/-
The memory of `plugins/replay/replay.c`: the node table of `get_nodes`, the lists of `tic`, and
what `cleanup` gives back of them.

`get_nodes` makes two arrays, and for each node its name, an array of pointers to its
components, an array of the components and their names. `cleanup` frees the last list, the
pointer arrays, the nodes, what the caller's pointer was before `get_nodes` (`node_ptr`), and
closes the file. `replay_memory`: nothing dead is read or freed in a run, the list of a tic
lives exactly until the next one, and behind `cleanup` is left of the plugin what it has no
`free` for, `kept`: the array it has handed out, the names, and the components.

Allocations succeed, and hand out a block also for an array of no entries. The line buffers,
which are freed in the call that makes them, are left out.
-/
import LauSim.FaultLists
import LauSim.Replay

set_option autoImplicit false

namespace LauSim.ReplayMemory

open FaultLists

/-- What belongs to a node besides its entry in `nodes`. -/
structure NodeBlocks where
  name : ℕ
  components : ℕ
  comps : ℕ
  names : List ℕ
  deriving DecidableEq, Repr

/-- The pointers of the plugin, and `lau_nodes`, the variable of the caller of `get_nodes`; the
heap is in `list`. -/
structure Memory where
  list : FaultList
  file : ℕ
  nodes : Option ℕ
  table : List NodeBlocks
  node_ptr : Option ℕ
  lau_nodes : Option ℕ
  deriving DecidableEq, Repr

/-- The open file, and no table yet. -/
def init (h : Heap) : Memory :=
  { list := FaultList.start h.malloc.2
    file := h.malloc.1
    nodes := none
    table := []
    node_ptr := none
    lau_nodes := none }

/-- The body of the node loop of `get_nodes`, for the node it reads from its line. -/
def read_node (nodes arr : ℕ) (n : Node) (h : Heap) : NodeBlocks × Heap :=
  let name := h.malloc
  let components := name.2.malloc
  let comps := components.2.malloc
  let names := comps.2.mallocs n.num_components
  ({ name := name.1, components := components.1, comps := comps.1, names := names.1 },
    -- all that is written to
    names.2.useAll ([arr, nodes, name.1, components.1, comps.1] ++ names.1))

def read_nodes (nodes arr : ℕ) : List Node → Heap → List NodeBlocks × Heap
  | [], h => ([], h)
  | n :: ns, h =>
    let blocks := read_node nodes arr n h
    let out := read_nodes nodes arr ns blocks.2
    (blocks.1 :: out.1, out.2)

/-- A `get_nodes` that returns 0 with the nodes `ns`. -/
def get_nodes (ns : List Node) (m : Memory) : Memory :=
  let nodes := m.list.heap.malloc
  let arr := nodes.2.malloc
  let out := read_nodes nodes.1 arr.1 ns arr.2
  { m with
    list := { m.list with heap := out.2 }
    nodes := some nodes.1
    table := out.1
    -- not the new array, but what was there before it
    node_ptr := m.lau_nodes
    lau_nodes := some arr.1 }

/-- The strings `tic` makes for a fault: the node, and the component if there is one. -/
def strings (f : Fault) : ℕ := if f.component.isSome then 2 else 1

/-- `tic`, where `fs` is the list it builds. -/
def tic (fs : List Fault) (m : FaultList) : FaultList :=
  (fs.map strings).foldl (fun m k => m.add k []) m.clear

/-- A round of the server: `tic`, `get_fail`, and the reads of the list. -/
def round (m : Memory) (fs : List Fault) : Memory := { m with list := (tic fs m.list).read }

/-- One `free (nodes[i].components)`. -/
def free_components (nodes : Option ℕ) (h : Heap) (n : NodeBlocks) : Heap :=
  (h.useAll nodes.toList).free (some n.components)

def cleanup (m : Memory) : Heap :=
  let h := m.table.foldl (free_components m.nodes) m.list.free_faults
  ((h.free m.nodes).free m.node_ptr).free (some m.file)

/-! ## What the plugin owns -/

/-- What nothing in the plugin frees. -/
def NodeBlocks.kept (n : NodeBlocks) : List ℕ := n.name :: n.comps :: n.names

def NodeBlocks.blocks (n : NodeBlocks) : List ℕ := n.components :: n.kept

/-- What is there besides the list. -/
def Memory.blocks (m : Memory) : List ℕ :=
  m.file :: (m.nodes.toList ++ m.node_ptr.toList ++ m.lau_nodes.toList
    ++ m.table.flatMap NodeBlocks.blocks)

/-- What is left behind `cleanup`. -/
def Memory.kept (m : Memory) : List ℕ := m.lau_nodes.toList ++ m.table.flatMap NodeBlocks.kept

/-- The list, the table, the file and `frame` are all that is live. -/
def Holds (m : Memory) (frame : List ℕ) : Prop := m.list.Holds (m.blocks ++ frame)

variable {m : Memory} {frame : List ℕ}

theorem holds_init {h : Heap} (howns : h.Owns frame) : Holds (init h) frame :=
  FaultList.holds_start howns.malloc

/-! ## `get_nodes` -/

theorem owns_read_node {h : Heap} {bs : List ℕ} (howns : h.Owns bs) {nodes arr : ℕ}
    (hnodes : nodes ∈ bs) (harr : arr ∈ bs) (n : Node) :
    (read_node nodes arr n h).2.Owns ((read_node nodes arr n h).1.blocks ++ bs) := by
  have hnew := howns.malloc.malloc.malloc.mallocs n.num_components
  rw [read_node]
  dsimp only
  rw [hnew.useAll]
  · refine hnew.perm ?_
    rw [List.perm_iff_count]
    intro b
    simp only [NodeBlocks.blocks, NodeBlocks.kept, List.count_append, List.count_cons]
    omega
  · intro x hx
    simp only [List.cons_append, List.mem_cons, List.nil_append] at hx
    simp only [List.mem_append, List.mem_cons]
    rcases hx with rfl | rfl | rfl | rfl | rfl | hx <;> tauto

theorem owns_read_nodes (ns : List Node) {h : Heap} {bs : List ℕ} (howns : h.Owns bs)
    {nodes arr : ℕ} (hnodes : nodes ∈ bs) (harr : arr ∈ bs) :
    (read_nodes nodes arr ns h).2.Owns
      ((read_nodes nodes arr ns h).1.flatMap NodeBlocks.blocks ++ bs) := by
  induction ns generalizing h bs with
  | nil => exact howns
  | cons n ns ih =>
      have hrest := ih (owns_read_node howns hnodes harr n) (List.mem_append_right _ hnodes)
        (List.mem_append_right _ harr)
      refine hrest.perm ?_
      rw [read_nodes, List.flatMap_cons, List.append_assoc]
      exact List.perm_append_comm_assoc _ _ _

/-- The first call makes the table. -/
theorem holds_get_nodes {h : Heap} (howns : h.Owns frame) (ns : List Node) :
    Holds (get_nodes ns (init h)) frame := by
  have harrs := howns.malloc.malloc.malloc
  have hnodes : h.malloc.2.malloc.1 ∈ h.malloc.2.malloc.2.malloc.1 :: h.malloc.2.malloc.1 ::
      h.malloc.1 :: frame := List.mem_cons_of_mem _ List.mem_cons_self
  have htable := owns_read_nodes ns harrs hnodes List.mem_cons_self
  refine ⟨htable.perm ?_, fun _ he => absurd he List.not_mem_nil⟩
  rw [List.perm_iff_count]
  intro b
  simp only [get_nodes, init, FaultList.start, FaultList.blocks, Memory.blocks, List.count_append,
    List.count_cons, Option.toList_some, Option.toList_none, List.count_nil, List.flatMap_nil,
    List.append_nil]
  omega

theorem length_kept_read_nodes (nodes arr : ℕ) (ns : List Node) (h : Heap) :
    ((read_nodes nodes arr ns h).1.flatMap NodeBlocks.kept).length
      = (ns.map fun n => n.num_components + 2).sum := by
  induction ns generalizing h with
  | nil => rfl
  | cons n ns ih =>
      rw [read_nodes, List.flatMap_cons, List.length_append, ih, List.map_cons, List.sum_cons]
      congr 1
      rw [read_node, NodeBlocks.kept, List.length_cons, List.length_cons, Heap.length_mallocs]

/-! ## The rounds -/

theorem holds_adds (ks : List ℕ) {m : FaultList} {frame : List ℕ} (h : m.Holds frame) :
    (ks.foldl (fun m k => m.add k []) m).Holds frame := by
  induction ks generalizing m with
  | nil => exact h
  | cons k ks ih => exact ih (h.add k fun b hb => absurd hb List.not_mem_nil)

theorem later_adds (ks : List ℕ) (m : FaultList) :
    m.heap.Later (ks.foldl (fun m k => m.add k []) m).heap := by
  induction ks generalizing m with
  | nil => exact Heap.Later.refl _
  | cons k ks ih => exact (FaultList.later_add k [] m).trans (ih (m.add k []))

theorem Holds.round (h : Holds m frame) (fs : List Fault) : Holds (round m fs) frame := by
  have htic : (tic fs m.list).Holds (m.blocks ++ frame) := holds_adds _ h.clear
  rw [ReplayMemory.round, htic.read]
  exact htic

theorem holds_rounds (fss : List (List Fault)) {m : Memory} (h : Holds m frame) :
    Holds (fss.foldl ReplayMemory.round m) frame := by
  induction fss generalizing m with
  | nil => exact h
  | cons fs fss ih => exact ih (h.round fs)

/-- The rounds leave the table alone. -/
theorem kept_rounds (fss : List (List Fault)) (m : Memory) :
    (fss.foldl round m).kept = m.kept := by
  induction fss generalizing m with
  | nil => rfl
  | cons fs fss ih => exact ih (round m fs)

/-! ## `cleanup` -/

/-- The loop gives the pointer arrays back and nothing else. -/
theorem owns_free_components (ns : List NodeBlocks) {h : Heap} {nodes : Option ℕ} {bs : List ℕ}
    (howns : h.Owns (ns.flatMap NodeBlocks.blocks ++ bs)) (hnodes : ∀ b ∈ nodes.toList, b ∈ bs) :
    (ns.foldl (free_components nodes) h).Owns (ns.flatMap NodeBlocks.kept ++ bs) := by
  induction ns generalizing h bs with
  | nil => exact howns
  | cons n ns ih =>
      have huse : h.useAll nodes.toList = h :=
        howns.useAll fun x hx => List.mem_append_right _ (hnodes x hx)
      have hfree : (free_components nodes h n).Owns
          (n.kept ++ (ns.flatMap NodeBlocks.blocks ++ bs)) := by
        rw [free_components, huse]
        apply Heap.Owns.free
        refine howns.perm (List.Perm.of_eq ?_)
        simp [NodeBlocks.blocks]
      have hnodes' : ∀ b ∈ nodes.toList, b ∈ n.kept ++ bs :=
        fun b hb => List.mem_append_right _ (hnodes b hb)
      refine (ih (hfree.perm (List.perm_append_comm_assoc _ _ _)) hnodes').perm ?_
      rw [List.flatMap_cons, List.append_assoc]
      exact List.perm_append_comm_assoc _ _ _

theorem Holds.cleanup (h : Holds m frame) : (cleanup m).Owns (m.kept ++ frame) := by
  obtain ⟨list, file, nodes, table, node_ptr, lau_nodes⟩ := m
  have hlist : list.free_faults.Owns (table.flatMap NodeBlocks.blocks ++
      (nodes.toList ++ (node_ptr.toList ++ (file :: (lau_nodes.toList ++ frame))))) := by
    refine (FaultList.Holds.free_faults h).perm ?_
    rw [List.perm_iff_count]
    intro b
    simp only [Memory.blocks, List.count_append, List.count_cons]
    omega
  have hloop := owns_free_components table hlist fun b hb => List.mem_append_left _ hb
  -- the three blocks that are left to free come to the front
  have hfront : (table.foldl (free_components nodes) list.free_faults).Owns
      (nodes.toList ++ (node_ptr.toList ++ (file ::
        ((Memory.mk list file nodes table node_ptr lau_nodes).kept ++ frame)))) := by
    refine hloop.perm ?_
    rw [List.perm_iff_count]
    intro b
    simp only [Memory.kept, List.count_append, List.count_cons]
    omega
  exact hfront.freeOption.freeOption.free

/-- **The memory of replay.** Whatever nodes and lists a file gives, and whatever other memory
`frame` there is: after any number of rounds no read and no `free` has met memory that was not
there, the live memory is the list of the last tic, the table and the rest, and no block of the
list survives the next tic. `cleanup` frees the list, and of the table all but `kept`, which
has one array, and for each node its name, its components and their names. -/
theorem replay_memory (h : Heap) (frame : List ℕ) (hframe : h.Owns frame) (ns : List Node)
    (fss : List (List Fault)) :
    let m := fss.foldl round (get_nodes ns (init h))
    m.list.heap.bad = [] ∧ m.list.heap.live.Perm (m.list.blocks ++ (m.blocks ++ frame)) ∧
      (∀ fs, ∀ b ∈ m.list.blocks, b ∉ (tic fs m.list).heap.live) ∧
      (cleanup m).Owns (m.kept ++ frame) ∧
      m.kept.length = 1 + (ns.map fun n => n.num_components + 2).sum := by
  intro m
  have hm : Holds m frame := holds_rounds fss (holds_get_nodes hframe ns)
  refine ⟨hm.owns.bad, hm.owns.live, fun fs b hb => ?_, hm.cleanup, ?_⟩
  · exact hm.not_mem_live hb (later_adds _ m.list.clear)
  · have hkept : m.kept = (get_nodes ns (init h)).kept := kept_rounds fss _
    rw [hkept, Memory.kept, List.length_append]
    exact congrArg (1 + ·) (length_kept_read_nodes _ _ ns _)

/-- A node with a component, two tics, one block of somebody else. -/
theorem replay_memory_two :
    let n : Node := { name := "n0".toList, id := 0, type := .uniform_node, state := .UNKNOWN,
                      components := [{ name := "net".toList, severity := 0 }],
                      num_lt := by decide }
    let flt : Fault := { id := 1, name := none, component := some "net".toList,
                         node := "n0".toList, severity := 100 }
    let m := [[flt, flt], [flt]].foldl round (get_nodes [n] (init ⟨1, [0], []⟩))
    m.list.heap.bad = [] ∧ m.list.heap.live.Perm (m.list.blocks ++ (m.blocks ++ [0])) ∧
      (cleanup m).Owns (m.kept ++ [0]) ∧ m.kept.length = 4 := by
  intro n flt m
  obtain ⟨hbad, hlive, -, hcleanup, hkept⟩ := replay_memory ⟨1, [0], []⟩ [0]
    ⟨List.Perm.refl _, by simp, by simp, rfl⟩ [n] [[flt, flt], [flt]]
  exact ⟨hbad, hlive, hcleanup, hkept⟩

end LauSim.ReplayMemory
