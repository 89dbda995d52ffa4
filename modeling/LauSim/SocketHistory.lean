/-
What the socket table of the preload backend holds, told from the history alone.

The table is maintained call by call: a descriptor is put at its end, taken out
of its middle with a `memmove`, or lost with all the others when the network
fails. The kernel uses the numbers again. Still, in every reachable state the
table is the list of the descriptors that were created, in that order, and
neither closed nor lost since (`table_eq_tracked`). The argument is one lemma
about a step (`table_step`), for tables without duplicates, and an induction over
the history from its end.
-/
import LauSim.Preload

set_option autoImplicit false

namespace LauSim.Preload

open Backend Runs

/-! ## The removal -/

/-- `memmove (&block[dst], &block[src], sizeof (int) * n)`. -/
def memmove (block : List Int) (dst src n : ℕ) : List Int :=
  block.take dst ++ ((block.drop src).take n ++ block.drop (dst + n))

/-- The length the code computes moves the whole tail and nothing else: the
first entries that still count are the table without entry `i`. -/
theorem take_memmove {table : List Int} {i : ℕ} (hi : i < table.length) :
    (memmove table i (i + 1) (table.length - 1 - i)).take (table.length - 1)
      = table.eraseIdx i := by
  have htail : (table.drop (i + 1)).take (table.length - 1 - i) = table.drop (i + 1) :=
    List.take_of_length_le (by rw [List.length_drop]; omega)
  rw [memmove, htail, ← List.append_assoc, ← List.eraseIdx_eq_take_drop_succ]
  apply List.take_left'
  rw [List.length_eraseIdx_of_lt hi]

/-- `remove_sock_from_list` is the `memmove` of the source, with `num_fds` decremented
before the length is computed. -/
theorem table_remove_sock (sock : Int) (s : Preload) :
    (remove_sock_from_list sock s).2.table
      = if s.table.idxOf sock < s.num_fds then
          (memmove s.table (s.table.idxOf sock) (s.table.idxOf sock + 1)
            (s.num_fds - 1 - s.table.idxOf sock)).take (s.num_fds - 1)
        else s.table := by
  unfold remove_sock_from_list
  dsimp only
  split
  · next hlt => exact (take_memmove hlt).symm
  · rfl

/-- In a table without duplicates it leaves all the others. -/
theorem table_remove_sock_of_nodup {s : Preload} (hnodup : s.table.Nodup) (sock : Int) :
    (remove_sock_from_list sock s).2.table = s.table.filter (· != sock) := by
  rw [← hnodup.erase_eq_filter, table_remove_sock]
  split
  · next hlt => rw [num_fds, take_memmove hlt, List.erase_eq_eraseIdx_of_idxOf rfl]
  · next hlt =>
    have hnot : sock ∉ s.table := by rwa [num_fds, List.idxOf_lt_length_iff] at hlt
    exact (List.erase_of_not_mem hnot).symm

/-! ## What the history says -/

/-- The network socket a call creates: a successful `socket` with an internet
domain, or a successful `accept` on a descriptor of the table. -/
def created (s : Preload) : Op → Option Int
  | .socket domain ret => if inet domain = true ∧ 0 ≤ ret then some ret else none
  | .accept sock ret => if sock ∈ s.table ∧ 0 ≤ ret then some ret else none
  | .close _ => none
  | .set_net _ => none

/-- A call after which `fd` does not count any more: it is closed, or the network
goes from nominal to failed. -/
def Ends (s : Preload) (fd : Int) : Op → Prop
  | .socket _ _ => False
  | .accept _ _ => False
  | .close x => x = fd
  | .set_net severity => s.net_state = 0 ∧ severity ≠ 0

instance decidableEnds (s : Preload) (fd : Int) : (op : Op) → Decidable (Ends s fd op)
  | .socket _ _ => inferInstanceAs (Decidable False)
  | .accept _ _ => inferInstanceAs (Decidable False)
  | .close x => inferInstanceAs (Decidable (x = fd))
  | .set_net severity => inferInstanceAs (Decidable (s.net_state = 0 ∧ severity ≠ 0))

/-- The state before call number `i`. -/
def stateAt (ops : List Op) (i : ℕ) : Preload := (ops.take i).foldl step initial

/-- No call after number `i` ends `fd`. -/
def Kept (ops : List Op) (i : ℕ) (fd : Int) : Prop :=
  ∀ j < ops.length, i < j → ∀ op ∈ ops[j]?, ¬ Ends (stateAt ops j) fd op

instance decidableKept (ops : List Op) (i : ℕ) (fd : Int) : Decidable (Kept ops i fd) :=
  inferInstanceAs (Decidable (∀ j < ops.length, i < j → ∀ op ∈ ops[j]?,
    ¬ Ends (stateAt ops j) fd op))

/-- The descriptor call number `i` has created, if it still counts. -/
def tracked (ops : List Op) (i : ℕ) : Option Int :=
  (ops[i]?.bind (created (stateAt ops i))).filter (fun fd => decide (Kept ops i fd))

/-- What the kernel promises: -1, or a descriptor that is not open. -/
def KernelOk (s : Preload) : Op → Prop
  | .socket _ ret => ret = -1 ∨ (0 ≤ ret ∧ ret ∉ s.socks.map Sock.fd)
  | .accept _ ret => ret = -1 ∨ (0 ≤ ret ∧ ret ∉ s.socks.map Sock.fd)
  | .close _ => True
  | .set_net _ => True

instance decidableKernelOk (s : Preload) : (op : Op) → Decidable (KernelOk s op)
  | .socket _ ret => inferInstanceAs (Decidable (ret = -1 ∨ (0 ≤ ret ∧ ret ∉ s.socks.map Sock.fd)))
  | .accept _ ret => inferInstanceAs (Decidable (ret = -1 ∨ (0 ≤ ret ∧ ret ∉ s.socks.map Sock.fd)))
  | .close _ => inferInstanceAs (Decidable True)
  | .set_net _ => inferInstanceAs (Decidable True)

/-! ## One step -/

/-- The table holds open descriptors, each of them once. -/
structure TableOk (s : Preload) : Prop where
  nodup : s.table.Nodup
  isOpen : ∀ fd ∈ s.table, fd ∈ s.socks.map Sock.fd

theorem table_opened (ret : Int) (net : Bool) (s : Preload) :
    (opened ret net s).table = s.table := by
  unfold opened
  split
  · rfl
  · rfl

theorem table_add_sock (ret : Int) (s : Preload) :
    (add_sock_to_list ret s).2.table = s.table ++ (if 0 ≤ ret then some ret else none).toList := by
  unfold add_sock_to_list
  by_cases hret : ret < 0
  · rw [if_pos hret, if_neg (by omega), Option.toList_none, List.append_nil]
  · rw [if_neg hret, if_pos (by omega), Option.toList_some]

/-- A call that ends nothing. -/
theorem filter_not_ends (s : Preload) (op : Op) (h : ∀ fd, ¬ Ends s fd op) :
    s.table.filter (fun fd => decide (¬ Ends s fd op)) = s.table :=
  List.filter_eq_self.mpr (fun fd _ => decide_eq_true (h fd))

theorem table_socket (domain ret : Int) (s : Preload) :
    (step s (.socket domain ret)).table = s.table ++ (created s (.socket domain ret)).toList := by
  simp only [step, socket, created]
  by_cases hd : inet domain = true
  · rw [if_pos hd, table_add_sock, table_opened]
    simp only [hd, true_and]
  · rw [if_neg hd, table_opened, if_neg (fun h => hd h.1), Option.toList_none, List.append_nil]

theorem table_accept (sock ret : Int) (s : Preload) :
    (step s (.accept sock ret)).table = s.table ++ (created s (.accept sock ret)).toList := by
  simp only [step, accept, created, is_in_list, num_fds, table_opened, List.idxOf_lt_length_iff]
  by_cases hmem : sock ∈ s.table
  · simp only [hmem, decide_true, true_and]
    rw [table_add_sock]
  · simp only [hmem, decide_false, false_and, if_false, Option.toList_none, List.append_nil]

/-- **One step.** What a call ends leaves the table, what it creates is put behind. -/
theorem table_step {s : Preload} (hnodup : s.table.Nodup) (op : Op) :
    (step s op).table
      = s.table.filter (fun fd => decide (¬ Ends s fd op)) ++ (created s op).toList := by
  cases op with
  | socket domain ret => rw [table_socket, filter_not_ends s (.socket domain ret) (fun _ h => h)]
  | accept sock ret => rw [table_accept, filter_not_ends s (.accept sock ret) (fun _ h => h)]
  | close sock =>
      have hends : s.table.filter (fun fd => decide (¬ Ends s fd (.close sock)))
          = s.table.filter (· != sock) := by
        apply List.filter_congr
        intro fd _
        by_cases h : sock = fd
        · simp [Ends, h]
        · simp [Ends, h, Ne.symm h]
      rw [hends, created, Option.toList_none, List.append_nil]
      exact table_remove_sock_of_nodup hnodup sock
  | set_net severity =>
      rw [created, Option.toList_none, List.append_nil, step_set_net, lauSim_switch_net]
      by_cases hfail : s.net_state = 0 ∧ severity ≠ 0
      · have hnil : s.table.filter (fun fd => decide (¬ Ends s fd (.set_net severity))) = [] := by
          apply List.filter_eq_nil_iff.mpr
          intro fd _ hnot
          exact (of_decide_eq_true hnot) hfail
        rw [if_pos hfail, hnil]
      · rw [if_neg hfail, filter_not_ends s (.set_net severity) (fun _ h => hfail h)]
        split
        · rfl
        · rfl

/-! ### The open descriptors -/

theorem socks_add_sock (ret : Int) (s : Preload) : (add_sock_to_list ret s).2.socks = s.socks := by
  unfold add_sock_to_list
  split
  · rfl
  · rfl

theorem socks_remove_sock (sock : Int) (s : Preload) :
    (remove_sock_from_list sock s).2.socks = s.socks := by
  unfold remove_sock_from_list
  dsimp only
  split
  · rfl
  · rfl

theorem socks_socket (domain ret : Int) (s : Preload) :
    (step s (.socket domain ret)).socks = (opened ret (inet domain) s).socks := by
  simp only [step, socket]
  split
  · exact socks_add_sock ret _
  · rfl

theorem socks_accept (sock ret : Int) (s : Preload) :
    (step s (.accept sock ret)).socks = (opened ret (s.table.contains sock) s).socks := by
  simp only [step, accept, is_in_list]
  split
  · next h =>
    rw [socks_add_sock]
    exact congrArg (fun r => r.2.socks) h.symm
  · next h => exact congrArg (fun r => r.2.socks) h.symm

theorem mem_opened {ret fd : Int} (net : Bool) {s : Preload}
    (h : fd ∈ s.socks.map Sock.fd ∨ (fd = ret ∧ 0 ≤ ret)) :
    fd ∈ (opened ret net s).socks.map Sock.fd := by
  unfold opened
  split
  · next hret =>
    rcases h with h | ⟨-, hle⟩
    · exact h
    · omega
  · rw [List.map_append, List.mem_append, List.map_singleton, List.mem_singleton]
    rcases h with h | ⟨rfl, -⟩
    · exact Or.inl h
    · exact Or.inr rfl

theorem map_fd_shutdown (table : List Int) (socks : List Sock) :
    (shutdown table socks).map Sock.fd = socks.map Sock.fd := by
  rw [shutdown, List.map_map]
  apply List.map_congr_left
  intro d _
  simp only [Function.comp_apply]
  split
  · rfl
  · rfl

theorem socks_set_net (severity : UInt64) (s : Preload) :
    (step s (.set_net severity)).socks.map Sock.fd = s.socks.map Sock.fd := by
  rw [step_set_net, lauSim_switch_net]
  split
  · exact map_fd_shutdown s.table s.socks
  · split
    · rfl
    · rfl

/-- A descriptor stays open unless it is closed. -/
theorem mem_socks_step {s : Preload} {op : Op} {fd : Int} (hfd : fd ∈ s.socks.map Sock.fd)
    (hends : ¬ Ends s fd op) : fd ∈ (step s op).socks.map Sock.fd := by
  cases op with
  | socket domain ret =>
      rw [socks_socket]
      exact mem_opened _ (Or.inl hfd)
  | accept sock ret =>
      rw [socks_accept]
      exact mem_opened _ (Or.inl hfd)
  | close x =>
      obtain ⟨d, hd, hdfd⟩ := List.mem_map.mp hfd
      refine List.mem_map.mpr ⟨d, ?_, hdfd⟩
      simp only [step, close, socks_remove_sock, List.mem_filter]
      refine ⟨hd, ?_⟩
      rw [hdfd, bne_iff_ne]
      exact fun h => hends h.symm
  | set_net severity =>
      rw [socks_set_net]
      exact hfd

theorem created_mem_socks {s : Preload} {op : Op} {fd : Int} (h : created s op = some fd) :
    fd ∈ (step s op).socks.map Sock.fd := by
  cases op with
  | socket domain ret =>
      obtain ⟨hcond, hret⟩ := Option.ite_none_right_eq_some.mp h
      rw [socks_socket]
      exact mem_opened _ (Or.inr ⟨(Option.some.inj hret).symm, hcond.2⟩)
  | accept sock ret =>
      obtain ⟨hcond, hret⟩ := Option.ite_none_right_eq_some.mp h
      rw [socks_accept]
      exact mem_opened _ (Or.inr ⟨(Option.some.inj hret).symm, hcond.2⟩)
  | close x => exact absurd h (by simp [created])
  | set_net severity => exact absurd h (by simp [created])

/-- A descriptor the kernel hands out is not open yet. -/
theorem created_not_mem {s : Preload} {op : Op} {fd : Int} (hkernel : KernelOk s op)
    (h : created s op = some fd) : fd ∉ s.socks.map Sock.fd := by
  have hfresh : ∀ {p : Prop} [Decidable p] {ret : Int},
      (ret = -1 ∨ (0 ≤ ret ∧ ret ∉ s.socks.map Sock.fd)) →
      (if p ∧ 0 ≤ ret then some ret else none) = some fd → fd ∉ s.socks.map Sock.fd := by
    intro p _ ret hret hsome
    obtain ⟨⟨-, hle⟩, heq⟩ := Option.ite_none_right_eq_some.mp hsome
    rw [← Option.some.inj heq]
    rcases hret with rfl | ⟨-, hnot⟩
    · omega
    · exact hnot
  cases op with
  | socket domain ret => exact hfresh hkernel h
  | accept sock ret => exact hfresh hkernel h
  | close x => exact absurd h (by simp [created])
  | set_net severity => exact absurd h (by simp [created])

theorem tableOk_step {s : Preload} {op : Op} (h : TableOk s) (hkernel : KernelOk s op) :
    TableOk (step s op) := by
  refine ⟨?_, ?_⟩
  · rw [table_step h.nodup, List.nodup_append]
    refine ⟨h.nodup.filter _, Option.toList_nodup _, ?_⟩
    rintro fd hfd _ hnew rfl
    have hopen := h.isOpen fd (List.mem_filter.mp hfd).1
    exact created_not_mem hkernel (Option.mem_toList.mp hnew) hopen
  · intro fd hfd
    rw [table_step h.nodup] at hfd
    rcases List.mem_append.mp hfd with hold | hnew
    · obtain ⟨hmem, hends⟩ := List.mem_filter.mp hold
      exact mem_socks_step (h.isOpen fd hmem) (of_decide_eq_true hends)
    · exact created_mem_socks (Option.mem_toList.mp hnew)

theorem tableOk_initial : TableOk initial := by
  refine ⟨List.nodup_nil, ?_⟩
  intro fd hfd
  exact absurd hfd List.not_mem_nil

/-! ## The whole history -/

/-- A longer history has the same states before the same calls. -/
theorem stateAt_append {ops : List Op} {i : ℕ} (hi : i ≤ ops.length) (op : Op) :
    stateAt (ops ++ [op]) i = stateAt ops i := by
  rw [stateAt, stateAt, List.take_append_of_le_length hi]

theorem stateAt_length (ops : List Op) : stateAt ops ops.length = ops.foldl step initial := by
  rw [stateAt, List.take_length]

/-- One more call may end what was kept up to now. -/
theorem kept_append {ops : List Op} {i : ℕ} (hi : i < ops.length) (op : Op) (fd : Int) :
    Kept (ops ++ [op]) i fd ↔ Kept ops i fd ∧ ¬ Ends (ops.foldl step initial) fd op := by
  constructor
  · intro h
    refine ⟨?_, ?_⟩
    · intro j hj hij op' hop'
      have hj' := h j (by rw [List.length_append]; omega) hij op'
        (by rw [List.getElem?_append_left hj]; exact hop')
      rwa [stateAt_append hj.le] at hj'
    · have hlast := h ops.length (by simp) hi op (by simp)
      rwa [stateAt_append (le_refl _), stateAt_length] at hlast
  · rintro ⟨h, hlast⟩ j hj hij op' hop'
    rw [List.length_append, List.length_singleton] at hj
    by_cases hlt : j < ops.length
    · rw [stateAt_append hlt.le]
      rw [List.getElem?_append_left hlt] at hop'
      exact h j hlt hij op' hop'
    · have hj_eq : j = ops.length := by omega
      subst hj_eq
      rw [List.getElem?_concat_length, Option.mem_some_iff] at hop'
      rw [stateAt_append (le_refl _), stateAt_length, ← hop']
      exact hlast

theorem tracked_append {ops : List Op} {i : ℕ} (hi : i < ops.length) (op : Op) :
    tracked (ops ++ [op]) i
      = (tracked ops i).filter (fun fd => decide (¬ Ends (ops.foldl step initial) fd op)) := by
  rw [tracked, tracked, stateAt_append hi.le, List.getElem?_append_left hi, Option.filter_filter]
  congr 1
  funext fd
  rw [← Bool.decide_and]
  exact decide_eq_decide.mpr (kept_append hi op fd)

/-- Nothing has come after the last call. -/
theorem tracked_last (ops : List Op) (op : Op) :
    tracked (ops ++ [op]) ops.length = created (ops.foldl step initial) op := by
  have hkept : ∀ fd, Kept (ops ++ [op]) ops.length fd := by
    intro fd j hj hlt
    rw [List.length_append, List.length_singleton] at hj
    omega
  rw [tracked, List.getElem?_concat_length, Option.bind_some, stateAt_append (le_refl _),
    stateAt_length]
  cases created (ops.foldl step initial) op with
  | none => rfl
  | some fd => exact Option.filter_some_pos (decide_eq_true (hkept fd))

theorem filterMap_tracked_append (ops : List Op) (op : Op) :
    (List.range (ops ++ [op]).length).filterMap (tracked (ops ++ [op]))
      = ((List.range ops.length).filterMap (tracked ops)).filter
          (fun fd => decide (¬ Ends (ops.foldl step initial) fd op))
        ++ (created (ops.foldl step initial) op).toList := by
  have hold : (List.range ops.length).filterMap (tracked (ops ++ [op]))
      = (List.range ops.length).filterMap (fun i => (tracked ops i).filter
          (fun fd => decide (¬ Ends (ops.foldl step initial) fd op))) := by
    apply List.filterMap_congr
    intro i hi
    exact tracked_append (List.mem_range.mp hi) op
  rw [List.length_append, List.length_singleton, List.range_succ, List.filterMap_append, hold,
    ← List.filter_filterMap, List.filterMap_cons, tracked_last]
  cases created (ops.foldl step initial) op <;> rfl

/-- **The table is what the history says.** Let the kernel return from `socket`
and `accept` only -1 or a descriptor that is not open. Then in every reachable
state the table has no duplicates and consists, in the order of their creation,
of exactly the descriptors that were created as internet sockets or accepted on a
descriptor of the table, and neither closed since nor lost to a failure of the
network. -/
theorem table_eq_tracked (ops : List Op) (hkernel : EachStep step KernelOk initial ops) :
    (ops.foldl step initial).table.Nodup ∧
      (ops.foldl step initial).table = (List.range ops.length).filterMap (tracked ops) := by
  have hok : Always step TableOk initial ops :=
    always_of_eachStep tableOk_initial (fun s op => tableOk_step) hkernel
  refine ⟨(hok ops List.prefix_rfl).nodup, ?_⟩
  clear hkernel
  -- from the end: a state is one step from the state before the last call
  induction ops using List.reverseRecOn with
  | nil => rfl
  | append_singleton ops op ih =>
      have hbefore : Always step TableOk initial ops :=
        fun pre hpre => hok pre (hpre.trans (List.prefix_append ops [op]))
      rw [List.foldl_append, List.foldl_cons, List.foldl_nil, filterMap_tracked_append,
        table_step (hbefore ops List.prefix_rfl).nodup, ih hbefore]

/-- A number that is used again, an accepted connection and a failed call. -/
theorem table_eq_tracked_reused :
    ([Op.socket 2 3, .socket 10 4, .accept 3 5, .close 4, .accept 4 (-1), .socket 2 4].foldl
        step initial).table.Nodup ∧
      [3, 5, 4] = (List.range 6).filterMap (tracked
        [.socket 2 3, .socket 10 4, .accept 3 5, .close 4, .accept 4 (-1), .socket 2 4]) :=
  table_eq_tracked
    [.socket 2 3, .socket 10 4, .accept 3 5, .close 4, .accept 4 (-1), .socket 2 4] (by decide)

end LauSim.Preload
