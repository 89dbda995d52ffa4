/-
`plugins/random/random.c`: the fault manager that fails nodes at random.

The plugin is a deterministic function of what the C library answers, so the
library is a parameter: what the `n`-th call of `rand` returns, and whether the
`n`-th call of `realloc` succeeds (`Libc`). `rand` is called for healthy nodes
only, `realloc` for nodes that fail only; the state counts the calls of both.

Two laws meet in one loop. A node is marked before there is memory for its report,
so it is reported at most once, whatever happens (`each_node_once`). For the same
reason it is not reported at all if the memory is not there, and neither are the
nodes that failed in the same tic before it (`reported_iff`).

A name is "node" and an `int`, which fits the 64 bytes it is printed to. The number
of nodes is an `int`, and the array `nodes` has as many entries.
-/
import LauSim.FaultManager

set_option autoImplicit false

namespace LauSim

open CText

/-- `mynode`. -/
structure MyNode where
  p : Node
  healthy : Bool
  deriving DecidableEq, Repr

/-- The globals of the plugin; `faults` stands for its first `num_fault` entries. The
last two fields count the calls of `rand` and `realloc`. -/
structure Random where
  nodes : List MyNode
  num_lt : nodes.length < 2 ^ 31
  faults : List Fault
  rands : ℕ
  reallocs : ℕ

namespace Random

/-- What the library answers to the `n`-th call. -/
structure Libc where
  rand : ℕ → ℕ
  realloc : ℕ → Bool

def RAND_MAX : ℕ := 2147483647

def prob : ℕ := RAND_MAX / 10

/-! ## The plugin's functions -/

/-- `"node%d"`. -/
def nodeName (i : ℕ) : Text := "node".toList ++ fmtU i

/-- Node `i` as `init` makes it; what is not set is zero. -/
def newNode (i : ℕ) : MyNode :=
  { p := { name := nodeName i, id := 0, type := .uniform_node, state := .UNKNOWN,
           components := [], num_lt := Nat.two_pow_pos 32 }
    healthy := true }

/-- What `init` leaves for `num` nodes. -/
def init (num : ℕ) (h : num < 2 ^ 31) : Random :=
  { nodes := (List.range num).map newNode
    num_lt := lt_of_eq_of_lt (by rw [List.length_map, List.length_range]) h
    faults := []
    rands := 0
    reallocs := 0 }

/-- The fault `tic` makes of a node. -/
def newFault (p : Node) : Fault :=
  { id := p.id, name := some "node-failed".toList, component := none, node := p.name,
    severity := 100 }

/-- What the loop of `tic` changes. -/
structure Loop where
  nodes : List MyNode
  faults : List Fault
  rands : ℕ
  reallocs : ℕ

/-- The loop of `tic` over the nodes that are left, `faults` being the list so far. -/
def tic_loop (libc : Libc) : List MyNode → List Fault → ℕ → ℕ → Loop
  | [], faults, rands, reallocs => ⟨[], faults, rands, reallocs⟩
  | n :: ns, faults, rands, reallocs =>
    if n.healthy then
      if libc.rand rands < prob then
        if libc.realloc reallocs then
          let out := tic_loop libc ns (faults ++ [newFault n.p]) (rands + 1) (reallocs + 1)
          { out with nodes := { n with healthy := false } :: out.nodes }
        else
          -- `return`: no list, and the nodes behind are not looked at
          ⟨{ n with healthy := false } :: ns, [], rands + 1, reallocs + 1⟩
      else
        let out := tic_loop libc ns faults (rands + 1) reallocs
        { out with nodes := n :: out.nodes }
    else
      let out := tic_loop libc ns faults rands reallocs
      { out with nodes := n :: out.nodes }

/-- A node before and after a tic. -/
def Kept (n n' : MyNode) : Prop := n'.p = n.p ∧ (n'.healthy = true → n.healthy = true)

theorem kept_refl (n : MyNode) : Kept n n := ⟨rfl, id⟩

/-- No node is lost or renamed, and none gets healthy. -/
theorem tic_loop_kept (libc : Libc) (ns : List MyNode) (fs : List Fault) (r a : ℕ) :
    List.Forall₂ Kept ns (tic_loop libc ns fs r a).nodes := by
  induction ns generalizing fs r a with
  | nil => exact List.Forall₂.nil
  | cons n ns ih =>
      have hfailed : Kept n { n with healthy := false } := ⟨rfl, fun h => absurd h (by simp)⟩
      rw [tic_loop]
      split
      · split
        · split
          · exact List.Forall₂.cons hfailed (ih _ _ _)
          · exact List.Forall₂.cons hfailed (List.forall₂_same.mpr (fun x _ => kept_refl x))
        · exact List.Forall₂.cons (kept_refl n) (ih _ _ _)
      · exact List.Forall₂.cons (kept_refl n) (ih _ _ _)

def tic (libc : Libc) (s : Random) : Random :=
  let out := tic_loop libc s.nodes [] s.rands s.reallocs
  { nodes := out.nodes
    num_lt := lt_of_eq_of_lt (tic_loop_kept libc s.nodes [] s.rands s.reallocs).length_eq.symm
      s.num_lt
    faults := out.faults
    rands := out.rands
    reallocs := out.reallocs }

def get_fail (s : Random) : List Fault × Random := (s.faults, s)

theorem length_nodes_lt (s : Random) : (s.nodes.map MyNode.p).length < 2 ^ 64 := by
  have hlt := s.num_lt
  rw [List.length_map]
  omega

/-- `num <= 0` is an error. -/
def get_nodes (s : Random) : Option NodeTable :=
  if s.nodes = [] then none else some ⟨s.nodes.map MyNode.p, length_nodes_lt s⟩

/-- `fm`. -/
def manager (libc : Libc) : FaultManager Random where
  get_nodes s := .ok (get_nodes s, s)
  tic s := .ok (tic libc s)
  get_fail s := .ok (get_fail s)
  inject_fail _ s := .ok (1, s)

/-! ## One tic -/

/-- The nodes that are healthy in `ns` and not in `ns'`, in order. -/
def flipped (ns ns' : List MyNode) : List Node :=
  ((ns.zip ns').filter (fun x => x.1.healthy && !x.2.healthy)).map (fun x => x.1.p)

/-- The nodes that are due in a tic: the healthy ones get the next results of `rand`,
one each, and those with a result below `prob` fail. -/
def due (libc : Libc) (rands : ℕ) (ns : List MyNode) : List MyNode :=
  (((ns.filter MyNode.healthy).zipIdx rands).filter (fun x => decide (libc.rand x.2 < prob))).map
    Prod.fst

/-- There is memory for the report of every node that is due. -/
def Room (libc : Libc) (s : Random) : Prop :=
  ∀ j < (due libc s.rands s.nodes).length, libc.realloc (s.reallocs + j) = true

theorem flipped_cons (n n' : MyNode) (ns ns' : List MyNode) :
    flipped (n :: ns) (n' :: ns') =
      if n.healthy && !n'.healthy then n.p :: flipped ns ns' else flipped ns ns' := by
  rw [flipped, List.zip_cons_cons, List.filter_cons]
  split
  · rfl
  · rfl

theorem due_cons (libc : Libc) (r : ℕ) (n : MyNode) (ns : List MyNode) :
    due libc r (n :: ns) =
      if n.healthy then
        if libc.rand r < prob then n :: due libc (r + 1) ns else due libc (r + 1) ns
      else due libc r ns := by
  unfold due
  by_cases hn : n.healthy = true
  · rw [List.filter_cons_of_pos hn, List.zipIdx_cons, List.filter_cons, if_pos hn]
    by_cases hr : libc.rand r < prob
    · rw [if_pos hr, if_pos (decide_eq_true hr), List.map_cons]
    · rw [if_neg hr, if_neg (by simpa using hr)]
  · rw [List.filter_cons_of_neg hn, if_neg hn]

/-- **The loop.** Either all memory is there, and the nodes that have failed are
reported in order, or some is not, and nothing is reported though something failed. -/
theorem tic_loop_spec (libc : Libc) (ns : List MyNode) (fs : List Fault) (r a : ℕ) :
    ((∀ j < (due libc r ns).length, libc.realloc (a + j) = true) ∧
      (tic_loop libc ns fs r a).faults
        = fs ++ (flipped ns (tic_loop libc ns fs r a).nodes).map newFault) ∨
    (¬ (∀ j < (due libc r ns).length, libc.realloc (a + j) = true) ∧
      (tic_loop libc ns fs r a).faults = [] ∧
      flipped ns (tic_loop libc ns fs r a).nodes ≠ []) := by
  induction ns generalizing fs r a with
  | nil => exact Or.inl ⟨fun j hj => absurd hj (Nat.not_lt_zero j), by simp [tic_loop, flipped]⟩
  | cons n ns ih =>
      rw [tic_loop, due_cons]
      by_cases hn : n.healthy = true
      · simp only [if_pos hn]
        by_cases hr : libc.rand r < prob
        · simp only [if_pos hr]
          by_cases ha : libc.realloc a = true
          · simp only [if_pos ha]
            -- this node is reported; the others are numbered from the next call on
            have hfirst : (∀ j < (n :: due libc (r + 1) ns).length, libc.realloc (a + j) = true) ↔
                ∀ j < (due libc (r + 1) ns).length, libc.realloc (a + 1 + j) = true := by
              constructor
              · intro h j hj
                rw [show a + 1 + j = a + (j + 1) by omega]
                exact h (j + 1) (by rw [List.length_cons]; omega)
              · intro h j hj
                cases j with
                | zero => exact ha
                | succ j =>
                    rw [List.length_cons] at hj
                    rw [show a + (j + 1) = a + 1 + j by omega]
                    exact h j (by omega)
            rw [hfirst, flipped_cons, if_pos (by simp [hn])]
            rcases ih (fs ++ [newFault n.p]) (r + 1) (a + 1) with ⟨hroom, hfs⟩ | ⟨hroom, hfs, -⟩
            · exact Or.inl ⟨hroom, by rw [hfs, List.append_assoc, List.map_cons]; rfl⟩
            · exact Or.inr ⟨hroom, hfs, List.cons_ne_nil _ _⟩
          · simp only [if_neg ha]
            refine Or.inr ⟨fun h => ha ?_, trivial, ?_⟩
            · exact h 0 (by rw [List.length_cons]; omega)
            · rw [flipped_cons, if_pos (by simp [hn])]
              exact List.cons_ne_nil _ _
        · simp only [if_neg hr]
          rw [flipped_cons, if_neg (by simp)]
          exact ih fs (r + 1) a
      · simp only [if_neg hn]
        rw [flipped_cons, if_neg (by simp)]
        exact ih fs r a

/-! ## What is failed and what is reported -/

/-- Every node whose flag went from 1 to 0 between `s` and `s'` is in the list the next
`get_fail` returns. -/
def Reported (s s' : Random) : Prop :=
  ∀ (i : ℕ) (n n' : MyNode), s.nodes[i]? = some n → s'.nodes[i]? = some n' →
    n.healthy = true → n'.healthy = false → ∃ f ∈ (get_fail s').1, f.node = n.p.name

theorem mem_flipped {ns ns' : List MyNode} {p : Node} :
    p ∈ flipped ns ns' ↔ ∃ (i : ℕ) (n n' : MyNode), ns[i]? = some n ∧ ns'[i]? = some n' ∧
      n.healthy = true ∧ n'.healthy = false ∧ n.p = p := by
  rw [flipped, List.mem_map]
  constructor
  · rintro ⟨⟨n, n'⟩, hmem, hp⟩
    obtain ⟨hzip, hflags⟩ := List.mem_filter.mp hmem
    obtain ⟨i, hi⟩ := List.getElem?_of_mem hzip
    rw [List.getElem?_zip_eq_some] at hi
    rw [Bool.and_eq_true, Bool.not_eq_true'] at hflags
    exact ⟨i, n, n', hi.1, hi.2, hflags.1, hflags.2, hp⟩
  · rintro ⟨i, n, n', hn, hn', hflag, hflag', hp⟩
    have hzip : (ns.zip ns')[i]? = some (n, n') := List.getElem?_zip_eq_some.mpr ⟨hn, hn'⟩
    refine ⟨(n, n'), List.mem_filter.mpr ⟨List.mem_of_getElem? hzip, ?_⟩, hp⟩
    rw [hflag, hflag']
    rfl

/-- **One tic.** A tic reports every node it fails exactly if there is memory for all
the reports. -/
theorem reported_tic_iff (libc : Libc) (s : Random) : Reported s (tic libc s) ↔ Room libc s := by
  have hspec := tic_loop_spec libc s.nodes [] s.rands s.reallocs
  have hnodes : (tic libc s).nodes = (tic_loop libc s.nodes [] s.rands s.reallocs).nodes := rfl
  have hfaults : (get_fail (tic libc s)).1
      = (tic_loop libc s.nodes [] s.rands s.reallocs).faults := rfl
  rcases hspec with ⟨hroom, hfs⟩ | ⟨hroom, hfs, hne⟩
  · refine iff_of_true ?_ hroom
    intro i n n' hn hn' hflag hflag'
    rw [hfaults, hfs, List.nil_append]
    have hmem := mem_flipped.mpr ⟨i, n, n', hn, hn', hflag, hflag', rfl⟩
    exact ⟨newFault n.p, List.mem_map_of_mem hmem, rfl⟩
  · refine iff_of_false ?_ hroom
    intro h
    obtain ⟨p, hp⟩ := List.exists_mem_of_ne_nil _ hne
    obtain ⟨i, n, n', hn, hn', hflag, hflag', -⟩ := mem_flipped.mp hp
    obtain ⟨f, hf, -⟩ := h i n n' hn hn' hflag hflag'
    rw [hfaults, hfs] at hf
    exact absurd hf List.not_mem_nil

/-- The state after `k` tics. -/
def after (libc : Libc) (num : ℕ) (h : num < 2 ^ 31) (k : ℕ) : Random :=
  (tic libc)^[k] (init num h)

/-- **No node fails silently, exactly.** For every number of nodes, all results of
`rand` and every pattern of successes of `realloc`: in a run of `n` tics each tic
reports every node it fails exactly if in each tic every `realloc` for a node that is
due succeeds. -/
theorem reported_iff (libc : Libc) (num : ℕ) (h : num < 2 ^ 31) (n : ℕ) :
    (∀ k < n, Reported (after libc num h k) (after libc num h (k + 1))) ↔
      ∀ k < n, Room libc (after libc num h k) := by
  refine forall_congr' fun k => imp_congr_right fun _ => ?_
  have hnext : after libc num h (k + 1) = tic libc (after libc num h k) :=
    Function.iterate_succ_apply' (tic libc) k (init num h)
  rw [hnext]
  exact reported_tic_iff libc _

/-- Memory for all reports, and the second call of `rand` spares its node. -/
def spares : Libc where
  rand := fun k => if k = 1 then RAND_MAX else 0
  realloc := fun _ => true

/-- One node fails in the first tic and the other in the second. -/
theorem reported_two_nodes :
    (after spares 2 (by decide) 1).faults.map Fault.node = ["node0".toList] ∧
    (after spares 2 (by decide) 2).faults.map Fault.node = ["node1".toList] ∧
    ∀ k < 2, Reported (after spares 2 (by decide) k) (after spares 2 (by decide) (k + 1)) :=
  ⟨by decide, by decide, (reported_iff spares 2 (by decide) 2).mpr (fun _ _ _ _ => rfl)⟩

/-- Without memory the node fails and nothing is reported. -/
theorem not_reported_no_memory :
    ¬ ∀ k < 1, Reported (after ⟨fun _ => 0, fun _ => false⟩ 1 (by decide) k)
      (after ⟨fun _ => 0, fun _ => false⟩ 1 (by decide) (k + 1)) := by
  intro h
  obtain ⟨f, hf, -⟩ := h 0 (by decide) 0 (newNode 0) { newNode 0 with healthy := false }
    rfl rfl rfl rfl
  exact absurd hf List.not_mem_nil

/-! ## Every node fails once -/

theorem flipped_sublist {ns ns' : List MyNode} (h : ns.length = ns'.length) :
    (flipped ns ns').Sublist (ns.map MyNode.p) := by
  have hfst : (ns.zip ns').map (fun x => x.1.p) = ns.map MyNode.p := by
    rw [show (fun x : MyNode × MyNode => x.1.p) = MyNode.p ∘ Prod.fst from rfl, ← List.map_map,
      List.map_fst_zip h.le]
  rw [flipped, ← hfst]
  exact List.filter_sublist.map _

theorem kept_getElem? {ns ns' : List MyNode} (h : List.Forall₂ Kept ns ns') {j : ℕ} {x : MyNode}
    (hx : ns'[j]? = some x) : ∃ y, ns[j]? = some y ∧ Kept y x := by
  have hlen := h.length_eq
  obtain ⟨hj, rfl⟩ := List.getElem?_eq_some_iff.mp hx
  exact ⟨ns[j], List.getElem?_eq_getElem (by omega), h.get (by omega) hj⟩

/-- The names of the nodes. -/
def names (s : Random) : List Text := s.nodes.map (fun n => n.p.name)

theorem names_tic (libc : Libc) (s : Random) : names (tic libc s) = names s := by
  have hkept : List.Forall₂ Kept s.nodes (tic libc s).nodes := tic_loop_kept _ _ _ _ _
  refine List.ext_getElem? fun j => ?_
  rw [names, names, List.getElem?_map, List.getElem?_map]
  cases hx : (tic libc s).nodes[j]? with
  | none =>
      rw [List.getElem?_eq_none_iff, ← hkept.length_eq, ← List.getElem?_eq_none_iff] at hx
      rw [hx]
  | some x =>
      obtain ⟨y, hy, hyx⟩ := kept_getElem? hkept hx
      rw [hy, Option.map_some, Option.map_some, hyx.1]

/-- Every node called `name` has failed. -/
def Down (s : Random) (name : Text) : Prop :=
  ∀ n ∈ s.nodes, n.p.name = name → n.healthy = false

/-- A node that has failed stays failed. -/
theorem Down.tic {s : Random} {name : Text} (h : Down s name) (libc : Libc) :
    Down (tic libc s) name := by
  intro x hx hname
  obtain ⟨j, hj⟩ := List.getElem?_of_mem hx
  obtain ⟨y, hy, hyx⟩ := kept_getElem? (tic_loop_kept libc s.nodes [] s.rands s.reallocs) hj
  have hdown := h y (List.mem_of_getElem? hy) (by rw [← hyx.1]; exact hname)
  by_contra hup
  rw [hyx.2 (by simpa using hup)] at hdown
  simp at hdown

theorem Down.iterate {s : Random} {name : Text} (h : Down s name) (libc : Libc) (k : ℕ) :
    Down ((Random.tic libc)^[k] s) name := by
  induction k generalizing s with
  | zero => exact h
  | succ k ih => exact ih (h.tic libc)

/-- **One list**: nodes in the order of the table, that were healthy and are not any
more. -/
theorem tic_faults (libc : Libc) {s : Random} (hnames : (names s).Nodup) :
    ∃ ps : List Node, ps.Sublist (s.nodes.map MyNode.p) ∧
      (tic libc s).faults = ps.map newFault ∧
      ∀ p ∈ ps, ¬ Down s p.name ∧ Down (tic libc s) p.name := by
  have hkept : List.Forall₂ Kept s.nodes (tic libc s).nodes := tic_loop_kept _ _ _ _ _
  rcases tic_loop_spec libc s.nodes [] s.rands s.reallocs with ⟨-, hfs⟩ | ⟨-, hfs, -⟩
  · refine ⟨flipped s.nodes (tic libc s).nodes, flipped_sublist hkept.length_eq, hfs, ?_⟩
    intro p hp
    obtain ⟨i, n, n', hn, hn', hflag, hflag', rfl⟩ := mem_flipped.mp hp
    constructor
    · intro hdown
      rw [hdown n (List.mem_of_getElem? hn) rfl] at hflag
      exact Bool.false_ne_true hflag
    · -- the names tell the positions apart
      intro x hx hname
      obtain ⟨j, hj⟩ := List.getElem?_of_mem hx
      obtain ⟨y, hy, hyx⟩ := kept_getElem? hkept hj
      have hij : i = j := by
        have hi : i < (names s).length := by
          rw [names, List.length_map]
          exact (List.getElem?_eq_some_iff.mp hn).1
        apply (List.getElem?_inj hi hnames).mp
        rw [names, List.getElem?_map, List.getElem?_map, hn, hy, Option.map_some, Option.map_some,
          ← hname, hyx.1]
      subst hij
      rw [hn', Option.some_inj] at hj
      rw [← hj]
      exact hflag'
  · exact ⟨[], List.nil_sublist _, hfs, fun p hp => absurd hp List.not_mem_nil⟩

/-- The lists of `n` tics from `s` on. -/
def lists (libc : Libc) (s : Random) (n : ℕ) : List (List Fault) :=
  (List.range n).map (fun k => (get_fail ((tic libc)^[k + 1] s)).1)

theorem lists_succ (libc : Libc) (s : Random) (n : ℕ) :
    lists libc s (n + 1) = (tic libc s).faults :: lists libc (tic libc s) n := by
  rw [lists, List.range_succ_eq_map, List.map_cons, List.map_map]
  rfl

theorem tics_manager (libc : Libc) (s : Random) (n : ℕ) :
    (manager libc).tics n s = .ok (lists libc s n, (tic libc)^[n] s) := by
  induction n generalizing s with
  | zero => rfl
  | succ n ih =>
      have hget : (manager libc).get_fail (tic libc s)
          = .ok ((tic libc s).faults, tic libc s) := rfl
      rw [FaultManager.tics_succ rfl hget (ih (tic libc s)), lists_succ]
      rfl

/-- **A run.** The lists of a run name no node twice: what is named was healthy when the
run began, and has failed when it ends. The induction is on the tics: what the first
list names has failed before the second tic. -/
theorem lists_spec (libc : Libc) (n : ℕ) {s : Random} (hnames : (names s).Nodup) :
    ((lists libc s n).flatten.map Fault.node).Nodup ∧
    (∀ f ∈ (lists libc s n).flatten, ¬ Down s f.node ∧ Down ((tic libc)^[n] s) f.node) ∧
    ∀ fs ∈ lists libc s n, (fs.map Fault.node).Sublist (names s) ∧
      ∀ f ∈ fs, f.component = none ∧ f.severity = 100 := by
  induction n generalizing s with
  | zero =>
      have hnil : lists libc s 0 = [] := rfl
      rw [hnil]
      exact ⟨List.nodup_nil, fun f hf => absurd hf List.not_mem_nil,
        fun fs hfs => absurd hfs List.not_mem_nil⟩
  | succ n ih =>
      obtain ⟨ps, hsub, hfs, hps⟩ := tic_faults libc hnames
      have hmap : (ps.map newFault).map Fault.node = ps.map Node.name := by
        rw [List.map_map]
        rfl
      have hsub' : (ps.map Node.name).Sublist (names s) := by
        have hall := hsub.map Node.name
        rwa [List.map_map] at hall
      obtain ⟨hnodup, hdown, hlists⟩ := ih (s := tic libc s) (by rw [names_tic]; exact hnames)
      have hfirst : ∀ f ∈ ps.map newFault, ¬ Down s f.node ∧ Down (tic libc s) f.node := by
        intro f hf
        obtain ⟨p, hp, rfl⟩ := List.mem_map.mp hf
        exact hps p hp
      rw [lists_succ, hfs]
      refine ⟨?_, ?_, ?_⟩
      · rw [List.flatten_cons, List.map_append, List.nodup_append]
        refine ⟨by rw [hmap]; exact hnames.sublist hsub', hnodup, ?_⟩
        rintro _ hold name hnew rfl
        obtain ⟨f, hf, rfl⟩ := List.mem_map.mp hold
        obtain ⟨g, hg, hgf⟩ := List.mem_map.mp hnew
        apply (hdown g hg).1
        rw [hgf]
        exact (hfirst f hf).2
      · intro f hf
        rw [List.flatten_cons] at hf
        rcases List.mem_append.mp hf with hf | hf
        · exact ⟨(hfirst f hf).1, (hfirst f hf).2.iterate libc n⟩
        · exact ⟨fun h => (hdown f hf).1 (h.tic libc), (hdown f hf).2⟩
      · intro fs hfs
        rcases List.mem_cons.mp hfs with rfl | hfs
        · refine ⟨by rw [hmap]; exact hsub', fun f hf => ?_⟩
          obtain ⟨p, -, rfl⟩ := List.mem_map.mp hf
          exact ⟨rfl, rfl⟩
        · rw [← names_tic libc s]
          exact hlists fs hfs

theorem nodeName_injective : Function.Injective nodeName := by
  intro i j h
  have hdigits := List.append_cancel_left h
  rw [← digitsValue_fmtU i, hdigits, digitsValue_fmtU]

theorem names_init (num : ℕ) (h : num < 2 ^ 31) :
    names (init num h) = (List.range num).map nodeName := by
  rw [names, init, List.map_map]
  rfl

/-- **Every node fails at most once.** For every number of nodes, all results of `rand`,
every pattern of successes of `realloc` and every number of tics: the lists of the run
name each of the nodes at most once, and nothing else; each list is in the order of the
node numbers; a fault has no component and severity 100; and a node that was reported
in a tic is unhealthy after that tic and every later one. -/
theorem each_node_once (libc : Libc) (num : ℕ) (h : num < 2 ^ 31) (n : ℕ) :
    ∃ fss, (manager libc).tics n (init num h) = .ok (fss, after libc num h n) ∧
      (fss.flatten.map Fault.node).Nodup ∧
      (∀ fs ∈ fss, ∃ is : List ℕ, is.Pairwise (· < ·) ∧ (∀ i ∈ is, i < num) ∧
        fs.map Fault.node = is.map nodeName) ∧
      (∀ fs ∈ fss, ∀ f ∈ fs, f.component = none ∧ f.severity = 100) ∧
      ∀ k m, k < m → m ≤ n → ∀ fs, fss[k]? = some fs → ∀ f ∈ fs, ∀ x ∈ (after libc num h m).nodes,
        x.p.name = f.node → x.healthy = false := by
  have hnodup : (names (init num h)).Nodup := by
    rw [names_init]
    exact List.nodup_range.map nodeName_injective
  obtain ⟨honce, -, hlists⟩ := lists_spec libc n hnodup
  refine ⟨lists libc (init num h) n, tics_manager libc _ n, honce, ?_,
    fun fs hfs => (hlists fs hfs).2, ?_⟩
  · intro fs hfs
    have hsub := (hlists fs hfs).1
    rw [names_init, List.sublist_map_iff] at hsub
    obtain ⟨is, his, heq⟩ := hsub
    exact ⟨is, List.pairwise_lt_range.sublist his,
      fun i hi => List.mem_range.mp (his.subset hi), heq⟩
  · intro k m hkm hmn fs hfs f hf
    -- the run of `m` tics has that list too
    have hmem : fs ∈ lists libc (init num h) m := by
      rw [lists, List.getElem?_map, List.getElem?_range (by omega), Option.map_some,
        Option.some_inj] at hfs
      rw [← hfs]
      exact List.mem_map_of_mem (List.mem_range.mpr hkm)
    exact ((lists_spec libc m hnodup).2.1 f (List.mem_flatten_of_mem hmem hf)).2

/-- Two nodes that both fail in the first of two tics. -/
theorem each_of_two_nodes_once :
    ∃ fss, (manager ⟨fun _ => 0, fun _ => true⟩).tics 2 (init 2 (by decide))
        = .ok (fss, after ⟨fun _ => 0, fun _ => true⟩ 2 (by decide) 2) ∧
      (fss.flatten.map Fault.node).Nodup ∧
      (∀ fs ∈ fss, ∃ is : List ℕ, is.Pairwise (· < ·) ∧ (∀ i ∈ is, i < 2) ∧
        fs.map Fault.node = is.map nodeName) ∧
      (∀ fs ∈ fss, ∀ f ∈ fs, f.component = none ∧ f.severity = 100) ∧
      ∀ k m, k < m → m ≤ 2 → ∀ fs, fss[k]? = some fs → ∀ f ∈ fs,
        ∀ x ∈ (after ⟨fun _ => 0, fun _ => true⟩ 2 (by decide) m).nodes,
        x.p.name = f.node → x.healthy = false :=
  each_node_once ⟨fun _ => 0, fun _ => true⟩ 2 (by decide) 2

end Random

end LauSim
