/-
The two promises of the preload backend's socket table, and exactly when the
code keeps them.

The representation invariant (`RepOk`) says that `fds` is NULL with an empty
table or a live allocation that is large enough. It holds in a run as long as no
internet socket is opened: the first one makes `realloc` ask for one byte per
entry. (Behind that, the pointer stays dangling after a failure; no run gets
there without breaking the invariant before.)

The purpose of the switch (`NetDown`) says that a failed network carries no live
socket. The failure is applied on the edge from nominal to failed, so a socket
opened while the network is down stays alive; that is the only way to break it.
-/
import LauSim.Preload

set_option autoImplicit false

namespace LauSim.Preload

open Backend Runs

/-! ## The representation invariant -/

/-- `fds` is NULL and the table empty, or `fds` is live and holds the table. -/
def RepOk (s : Preload) : Prop :=
  (s.fds = .null ∧ s.num_fds = 0) ∨
    ∃ bytes, s.fds = .live bytes ∧ s.num_fds * sizeofInt ≤ bytes

/-- The invariant, and no undefined use of the pointer so far. -/
def MemoryOk (s : Preload) : Prop := RepOk s ∧ ∀ a ∈ s.accesses, a.Safe

/-- The state of a run without internet sockets: the pointer is never set. -/
structure Untouched (s : Preload) : Prop where
  fds : s.fds = .null
  table : s.table = []
  accesses : ∀ a ∈ s.accesses, a.Safe

theorem Untouched.memoryOk {s : Preload} (h : Untouched s) : MemoryOk s := by
  refine ⟨Or.inl ⟨h.fds, ?_⟩, h.accesses⟩
  rw [num_fds, h.table]
  rfl

theorem untouched_step {s : Preload} {op : Op} (h : Untouched s) (hop : ¬ op.Opens) :
    Untouched (step s op) := by
  have hnum : s.num_fds = 0 := by rw [num_fds, h.table]; rfl
  cases op with
  | socket domain ret =>
      -- either the domain is another one, or the call failed and nothing is added
      simp only [step, socket, opened]
      by_cases hd : inet domain = true
      · have hret : ret < 0 := by
          by_contra hge
          exact hop ⟨hd, by omega⟩
        simp only [hd, if_true, hret, add_sock_to_list]
        exact h
      · rw [if_neg hd]
        split
        · exact h
        · exact ⟨h.fds, h.table, h.accesses⟩
  | accept sock ret =>
      -- the table is empty, so the socket is not in it
      have hopen : Untouched (opened ret (s.table.contains sock) s) := by
        unfold opened
        split
        · exact h
        · exact ⟨h.fds, h.table, h.accesses⟩
      have hlen : (opened ret (s.table.contains sock) s).num_fds = 0 := by
        rw [num_fds, hopen.table]
        rfl
      simp only [step, accept, is_in_list, hlen, Nat.not_lt_zero, decide_false, Nat.min_zero,
        indices, List.range_zero, List.map_nil, List.append_nil]
      exact ⟨hopen.fds, hopen.table, hopen.accesses⟩
  | close fd =>
      simp only [step, close, remove_sock_from_list, hnum, Nat.not_lt_zero, if_false, indices,
        List.range_zero, List.map_nil, List.append_nil]
      exact ⟨h.fds, h.table, h.accesses⟩
  | set_net severity =>
      simp only [step_set_net, lauSim_switch_net]
      split
      · -- `free (NULL)` is defined and does nothing
        refine ⟨by rw [h.fds]; rfl, rfl, ?_⟩
        intro a ha
        rw [hnum] at ha
        simp only [indices, List.range_zero, List.map_nil, List.nil_append, List.mem_append,
          List.mem_singleton] at ha
        rcases ha with ha | rfl
        · exact h.accesses a ha
        · rw [h.fds]
          exact nofun
      · split
        · exact ⟨h.fds, h.table, h.accesses⟩
        · exact h

/-- The first internet socket is stored in an allocation of one byte. -/
theorem not_repOk_of_opens {s : Preload} {op : Op} (h : Untouched s) (hop : op.Opens) :
    ¬ RepOk (step s op) := by
  cases op with
  | socket domain ret =>
      obtain ⟨hd, hret⟩ := hop
      have hret' : ¬ ret < 0 := by omega
      simp only [step, socket, hd, if_true, opened, hret', if_false, add_sock_to_list, RepOk,
        num_fds, realloc, h.table, List.nil_append, List.length_singleton, List.length_nil,
        sizeofInt]
      rintro (⟨hnull, -⟩ | ⟨bytes, hlive, hsize⟩)
      · simp at hnull
      · rw [Ptr.live.injEq] at hlive
        omega
  | accept sock ret => exact hop.elim
  | close fd => exact hop.elim
  | set_net severity => exact hop.elim

/-- **The representation invariant, exactly.** In a run of hooked calls and
network switches, the table is well represented in every state and every use of
the pointer is defined exactly if no `socket` call with an internet domain
succeeds. -/
theorem memoryOk_iff (ops : List Op) :
    Always step MemoryOk initial ops ↔ ∀ op ∈ ops, ¬ op.Opens := by
  have hstart : Untouched initial := by
    refine ⟨rfl, rfl, ?_⟩
    intro a ha
    exact absurd ha List.not_mem_nil
  rw [always_iff_eachStep hstart (fun s hs => hs.memoryOk)
    (fun s op hs hop => untouched_step hs hop)
    (fun s op hs hok hopens => not_repOk_of_opens hs hopens hok.1)]
  exact eachStep_input_iff

/-- One socket is enough. -/
theorem not_memoryOk_one_socket : ¬ Always step MemoryOk initial [.socket 2 3] := by
  intro h
  have hrep := (h [.socket 2 3] (List.prefix_refl _)).1
  rcases hrep with ⟨hnull, -⟩ | ⟨bytes, hlive, hsize⟩
  · exact absurd hnull (by decide)
  · have hbytes : bytes = 1 := by
      have hfds : ([Op.socket 2 3].foldl step initial).fds = .live 1 := by decide
      rw [hfds, Ptr.live.injEq] at hlive
      exact hlive.symm
    rw [hbytes] at hsize
    exact absurd hsize (by decide)

/-! ## A failed network carries no live socket -/

/-- While the network has failed, every open network socket is shut down. -/
def NetDown (s : Preload) : Prop := s.net_state = 1 → ∀ d ∈ s.socks, d.net = true → d.shut = true

/-- What the code keeps up: an open network socket is shut down or in the table,
and a failed network has an empty table. -/
structure Tracked (s : Preload) : Prop where
  net_state : s.net_state = 0 ∨ s.net_state = 1
  socks : ∀ d ∈ s.socks, d.net = true → d.shut = true ∨ d.fd ∈ s.table
  failed : s.net_state = 1 → s.table = []

theorem Tracked.netDown {s : Preload} (h : Tracked s) : NetDown s := by
  intro hfail d hd hnet
  rcases h.socks d hd hnet with hshut | hmem
  · exact hshut
  · rw [h.failed hfail] at hmem
    exact absurd hmem List.not_mem_nil

/-- A new descriptor that is no network socket changes nothing of this. -/
theorem Tracked.opened {s : Preload} (h : Tracked s) (ret : Int) :
    Tracked (opened ret false s) := by
  unfold Preload.opened
  split
  · exact h
  · refine ⟨h.net_state, ?_, h.failed⟩
    intro d hd hnet
    rcases List.mem_append.mp hd with hd | hd
    · exact h.socks d hd hnet
    · rw [List.mem_singleton.mp hd] at hnet
      simp at hnet

/-- A new network socket goes to the table, if the network is up. -/
theorem Tracked.add {s : Preload} (h : Tracked s) (hup : s.net_state = 0) {s' : Preload}
    (ret : Int) (hnet : s'.net_state = s.net_state)
    (htable : s'.table = s.table ++ [ret])
    (hsocks : s'.socks = s.socks ++ [{ fd := ret, net := true, shut := false }]) :
    Tracked s' := by
  refine ⟨by rw [hnet]; exact h.net_state, ?_, fun hf => ?_⟩
  · intro d hd hdnet
    rw [hsocks] at hd
    rw [htable]
    rcases List.mem_append.mp hd with hd | hd
    · rcases h.socks d hd hdnet with hshut | hmem
      · exact Or.inl hshut
      · exact Or.inr (List.mem_append_left _ hmem)
    · rw [List.mem_singleton.mp hd]
      exact Or.inr (by simp)
  · rw [hnet, hup] at hf
    exact absurd hf (by decide)

/-- Removing one descriptor from the table keeps all the others. -/
theorem mem_remove_sock {s : Preload} {fd x : Int} (hx : x ≠ fd) (hmem : x ∈ s.table) :
    x ∈ (remove_sock_from_list fd s).2.table := by
  unfold remove_sock_from_list
  dsimp only
  split
  · next hlt =>
    rw [List.mem_eraseIdx_iff_getElem]
    obtain ⟨j, hj, hjx⟩ := List.mem_iff_getElem.mp hmem
    refine ⟨j, hj, ?_, hjx⟩
    rintro rfl
    exact hx (by rw [← hjx]; exact List.getElem_idxOf hlt)
  · exact hmem

theorem tracked_socket {s : Preload} {domain ret : Int} (h : Tracked s)
    (hop : (Op.socket domain ret).Opens → s.net_state = 0) :
    Tracked (step s (.socket domain ret)) := by
  simp only [step, socket]
  by_cases hd : inet domain = true
  · -- the one call whose descriptor must not come while the network is down
    rw [if_pos hd]
    by_cases hret : ret < 0
    · simp only [Preload.opened, add_sock_to_list, hret, if_true]
      exact h
    · have hup : s.net_state = 0 := hop ⟨hd, by omega⟩
      simp only [Preload.opened, add_sock_to_list, hret, if_false, hd]
      exact h.add hup ret rfl rfl rfl
  · rw [if_neg hd, show inet domain = false by simpa using hd]
    exact h.opened ret

theorem tracked_accept {s : Preload} (sock ret : Int) (h : Tracked s) :
    Tracked (step s (.accept sock ret)) := by
  simp only [step, accept, is_in_list]
  by_cases hmem : sock ∈ s.table
  · -- a socket of the table: the network is up
    have hup : s.net_state = 0 := by
      rcases h.net_state with hup | hfail
      · exact hup
      · rw [h.failed hfail] at hmem
        exact absurd hmem List.not_mem_nil
    have hlt : s.table.idxOf sock < s.table.length := List.idxOf_lt_length_iff.mpr hmem
    by_cases hret : ret < 0
    · simp only [Preload.opened, hret, if_true, num_fds, hlt, decide_true, add_sock_to_list]
      exact ⟨h.net_state, h.socks, h.failed⟩
    · simp only [Preload.opened, hret, if_false, num_fds, hlt, decide_true, add_sock_to_list]
      exact h.add hup ret rfl rfl (by simp [hmem])
  · have hcontains : s.table.contains sock = false := by simpa using hmem
    have hlt : ¬ s.table.idxOf sock < s.table.length := by
      rw [List.idxOf_lt_length_iff]
      exact hmem
    have hopen := h.opened ret
    have htable : (Preload.opened ret false s).table = s.table := by
      unfold Preload.opened
      split
      · rfl
      · rfl
    rw [← htable] at hlt
    simp only [hcontains, num_fds, hlt, decide_false]
    exact ⟨hopen.net_state, hopen.socks, hopen.failed⟩

/-- The closed descriptor leaves the table and the record, the others stay. -/
theorem tracked_close {s : Preload} (fd : Int) (h : Tracked s) : Tracked (step s (.close fd)) := by
  have hsame : (remove_sock_from_list fd s).2.net_state = s.net_state ∧
      (remove_sock_from_list fd s).2.socks = s.socks := by
    unfold remove_sock_from_list
    dsimp only
    split
    · exact ⟨rfl, rfl⟩
    · exact ⟨rfl, rfl⟩
  simp only [step, close]
  refine ⟨by rw [hsame.1]; exact h.net_state, ?_, ?_⟩
  · intro d hd hnet
    rw [hsame.2] at hd
    obtain ⟨hd, hne⟩ := List.mem_filter.mp hd
    rcases h.socks d hd hnet with hshut | hmem
    · exact Or.inl hshut
    · exact Or.inr (mem_remove_sock (by simpa using hne) hmem)
  · intro hfail
    have hempty : s.table = [] := h.failed (by rw [← hsame.1]; exact hfail)
    simp [remove_sock_from_list, num_fds, hempty]

theorem tracked_set_net {s : Preload} (severity : UInt64) (h : Tracked s) :
    Tracked (step s (.set_net severity)) := by
  simp only [step_set_net, lauSim_switch_net]
  split
  · -- the edge: everything in the table is shut down, and the table emptied
    refine ⟨Or.inr rfl, ?_, fun _ => rfl⟩
    intro d hd hnet
    obtain ⟨d₀, hd₀, rfl⟩ := List.mem_map.mp hd
    left
    by_cases hin : s.table.contains d₀.fd = true
    · rw [if_pos hin]
    · rw [if_neg hin] at hnet ⊢
      rcases h.socks d₀ hd₀ hnet with hshut | hmem
      · exact hshut
      · exact absurd (List.contains_iff_mem.mpr hmem) hin
  · split
    · -- recovery: only the state changes
      refine ⟨Or.inl rfl, h.socks, ?_⟩
      intro hfail
      exact absurd (show (0 : UInt64) = 1 from hfail) (by decide)
    · exact h

theorem tracked_step {s : Preload} {op : Op} (h : Tracked s)
    (hop : op.Opens → s.net_state = 0) : Tracked (step s op) := by
  cases op with
  | socket domain ret => exact tracked_socket h hop
  | accept sock ret => exact tracked_accept sock ret h
  | close fd => exact tracked_close fd h
  | set_net severity => exact tracked_set_net severity h

/-- A network socket opened while the network is down is alive. -/
theorem not_netDown_of_opens {s : Preload} {op : Op} (hfail : s.net_state = 1)
    (hop : op.Opens) : ¬ NetDown (step s op) := by
  cases op with
  | socket domain ret =>
      obtain ⟨hd, hret⟩ := hop
      have hret' : ¬ ret < 0 := by omega
      intro hdown
      have hshut := hdown (by
        simp only [step, socket, hd, if_true, Preload.opened, hret', if_false, add_sock_to_list]
        exact hfail) { fd := ret, net := true, shut := false } (by
        simp [step, socket, hd, Preload.opened, hret', add_sock_to_list]) rfl
      simp at hshut
  | accept sock ret => exact hop.elim
  | close fd => exact hop.elim
  | set_net severity => exact hop.elim

/-- **A failed network carries no live socket, exactly.** In a run of hooked
calls and network switches, every open network socket is shut down in every
state with a failed network exactly if no `socket` call with an internet domain
succeeds while the network is failed. -/
theorem netDown_iff (ops : List Op) :
    Always step NetDown initial ops ↔
      EachStep step (fun s op => op.Opens → s.net_state = 0) initial ops := by
  have hstart : Tracked initial := by
    refine ⟨Or.inl rfl, ?_, fun _ => rfl⟩
    intro d hd
    exact absurd hd List.not_mem_nil
  apply always_iff_eachStep hstart (fun s hs => hs.netDown)
  · intro s op hs hop
    exact tracked_step hs hop
  · intro s op hs hdown hopens
    rcases hs.net_state with hup | hfail
    · exact hup
    · exact absurd hdown (not_netDown_of_opens hfail hopens)

/-- The network fails, then the application opens a socket. -/
theorem not_netDown_late_socket :
    ¬ Always step NetDown initial [.set_net 100, .socket 2 3] := by
  intro h
  have hdown := h [.set_net 100, .socket 2 3] (List.prefix_refl _)
  have hshut := hdown (by decide) { fd := 3, net := true, shut := false } (by decide) rfl
  simp at hshut

end LauSim.Preload
