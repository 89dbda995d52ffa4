/-
The hooks of `client/src/preload.c` under threads.

`Preload` runs each hooked call in one piece. In a program with threads the calls overlap: the
mutex protects the table only while it is looked at or changed, and each hook also calls the
libc function behind it, before or after. Here a thread has a place inside its call, each
critical section and each libc function is one step, and a run is any interleaving of the steps
of any number of threads (the one of the command loop included, which calls
`lauSim_switch_net`). `alone`: a call that nobody interrupts is the one of `Preload`.

The table is a list of descriptors, as in `Preload.table`: it has room for every entry, and
`free` does nothing to it. What the array `fds` behind it does is `SocketTable`'s subject.

The program has to be in order: it closes only descriptors that are open and that no other
thread is opening, closing or accepting on (`Legal`, with what the kernel promises about new
descriptors). `table_live`: in every such run the table never has an entry twice and never one
that is not the open socket it was made for.
-/
import LauSim.SocketHistory

set_option autoImplicit false

namespace LauSim.Hooks

open Preload Runs

/-- Where a thread stands. -/
inductive Place where
  /-- in the code of the program -/
  | app
  /-- `add_sock_to_list (fd)`, before the lock -/
  | adding (fd : Int)
  /-- `is_in_list (sock)` of an `accept` that has returned `fd`, before the lock -/
  | looking (sock fd : Int)
  /-- the same behind the unlock, with the index of the loop -/
  | counting (i : ℕ) (fd : Int)
  /-- `remove_sock_from_list (fd)`, before the lock -/
  | removing (fd : Int)
  /-- before `lauSim_hooks.close (fd)` -/
  | closing (fd : Int)
  /-- `lauSim_switch_net` behind its first test, before the lock -/
  | switching
  /-- the same behind the unlock -/
  | marking
  deriving DecidableEq, Repr

/-- What a thread does next: begin a call (with what the libc function returns), or go on. -/
inductive Act where
  | socket (domain ret : Int)
  | accept (sock ret : Int)
  | close (fd : Int)
  | set_net (severity : UInt64)
  /-- a call that is not hooked opens a descriptor -/
  | file (fd : Int)
  | go
  deriving DecidableEq, Repr

/-- Whether `sock` is a network socket. -/
def isNet (sh : Preload) (sock : Int) : Bool := sh.socks.any fun d => d.fd == sock && d.net

/-- The critical section of `lauSim_switch_net`. -/
def shut_all (sh : Preload) : Preload :=
  { sh with
    fds := free sh.fds
    table := []
    accesses := sh.accesses ++ (indices sh.fds sh.num_fds ++ [.free sh.fds])
    socks := shutdown sh.table sh.socks }

/-- The libc function `close`. -/
def close_fd (fd : Int) (sh : Preload) : Preload :=
  { sh with socks := sh.socks.filter (fun d => d.fd != fd) }

/-- One step of a thread, with the table as a list. `files` are the descriptors the hooks do not
know. -/
def move (sh : Preload) (files : List Int) : Place → Act → Preload × List Int × Place
  | .app, .socket domain ret =>
    (opened ret (inet domain) sh, files,
      if inet domain = true ∧ 0 ≤ ret then .adding ret else .app)
  | .app, .accept sock ret => (opened ret (isNet sh sock) sh, files, .looking sock ret)
  | .app, .close fd => (sh, files, .removing fd)
  | .app, .set_net severity =>
    -- `net_state` is read without the lock
    if sh.net_state = 0 ∧ severity ≠ 0 then (sh, files, .switching)
    else if sh.net_state ≠ 0 ∧ severity = 0 then ({ sh with net_state := 0 }, files, .app)
    else (sh, files, .app)
  | .app, .file fd => (sh, fd :: files, .app)
  | .adding fd, .go => ((add_sock_to_list fd sh).2, files, .app)
  | .looking sock fd, .go => ((is_in_list sock sh).2, files, .counting (sh.table.idxOf sock) fd)
  | .counting i fd, .go => (sh, files, if i < sh.num_fds ∧ 0 ≤ fd then .adding fd else .app)
  | .removing fd, .go => ((remove_sock_from_list fd sh).2, files, .closing fd)
  | .closing fd, .go => (close_fd fd sh, files.filter (fun x => x != fd), .app)
  | .switching, .go => (shut_all sh, files, .marking)
  | .marking, .go => ({ sh with net_state := 1 }, files, .app)
  -- a thread inside a call begins no other
  | p, _ => (sh, files, p)

variable {τ : Type} [DecidableEq τ]

structure Threads (τ : Type) where
  shared : Preload
  files : List Int
  place : τ → Place

/-- The thread `ta.1` makes a step. -/
def step (s : Threads τ) (ta : τ × Act) : Threads τ :=
  { shared := (move s.shared s.files (s.place ta.1) ta.2).1
    files := (move s.shared s.files (s.place ta.1) ta.2).2.1
    place := Function.update s.place ta.1 (move s.shared s.files (s.place ta.1) ta.2).2.2 }

/-- The program starts, with some descriptors open. -/
def start (files : List Int) : Threads τ :=
  { shared := Preload.initial, files := files, place := fun _ => .app }

/-! ## One thread alone -/

/-- The call of `Preload`. -/
def Act.op : Act → Option Op
  | .socket domain ret => some (.socket domain ret)
  | .accept sock ret => some (.accept sock ret)
  | .close fd => some (.close fd)
  | .set_net severity => some (.set_net severity)
  | .file _ => none
  | .go => none

/-- Everything but the record of what the kernel has open. -/
def own (sh : Preload) : Preload := { sh with socks := [] }

theorem own_opened (ret : Int) (net : Bool) (sh : Preload) : own (opened ret net sh) = own sh := by
  unfold opened
  split
  · rfl
  · rfl

theorem own_add_sock (fd : Int) (sh : Preload) :
    own (add_sock_to_list fd sh).2 = own (add_sock_to_list fd (own sh)).2 := by
  unfold add_sock_to_list
  split
  · rfl
  · rfl

theorem own_is_in_list (sock : Int) (sh : Preload) :
    own (is_in_list sock sh).2 = own (is_in_list sock (own sh)).2 := rfl

theorem num_fds_is_in_list (sock : Int) (sh : Preload) :
    (is_in_list sock sh).2.num_fds = sh.num_fds := rfl

/-- What a thread works with. -/
def view (s : Threads τ) (t : τ) : Preload × List Int × Place := (s.shared, s.files, s.place t)

def moveOn (v : Preload × List Int × Place) (a : Act) : Preload × List Int × Place :=
  move v.1 v.2.1 v.2.2 a

theorem view_step (s : Threads τ) (t : τ) (a : Act) :
    view (step s (t, a)) t = moveOn (view s t) a := by
  rw [view, step]
  simp only [Function.update_self]
  rfl

theorem moveOn_counting (sh : Preload) (files : List Int) (i : ℕ) (fd : Int) :
    moveOn (sh, files, .counting i fd) .go
      = (sh, files, if i < sh.num_fds ∧ 0 ≤ fd then .adding fd else .app) := rfl

theorem moveOn_app (sh : Preload) (files : List Int) :
    moveOn (sh, files, .app) .go = (sh, files, .app) := rfl

/-- `is_in_list` has the index and `num_fds` of one table, then. -/
theorem alone_accept (sh : Preload) (files : List Int) (sock ret : Int) :
    let v := moveOn (moveOn (moveOn (moveOn (sh, files, .app) (.accept sock ret)) .go) .go) .go
    v.2.2 = .app ∧ own v.1 = own (Preload.step sh (.accept sock ret)) := by
  intro v
  have hown : ∀ net, own (is_in_list sock (opened ret net sh)).2 = own (is_in_list sock sh).2 := by
    intro net
    rw [own_is_in_list, own_opened, ← own_is_in_list]
  have hnum : ∀ net, (opened ret net sh).num_fds = sh.num_fds := by
    intro net
    rw [num_fds, table_opened, num_fds]
  have hin : ∀ net, (is_in_list sock (opened ret net sh)).1
      = decide (sh.table.idxOf sock < sh.num_fds) := by
    intro net
    rw [is_in_list, hnum, table_opened]
  -- the index of the loop is that of the table as it is
  have hsecond : moveOn (moveOn (sh, files, .app) (.accept sock ret)) .go
      = ((is_in_list sock (opened ret (isNet sh sock) sh)).2, files,
          .counting ((opened ret (isNet sh sock) sh).table.idxOf sock) ret) := rfl
  have hv : v = moveOn ((is_in_list sock (opened ret (isNet sh sock) sh)).2, files,
      if sh.table.idxOf sock < sh.num_fds ∧ 0 ≤ ret then .adding ret else .app) .go := by
    rw [table_opened] at hsecond
    simp only [v]
    rw [hsecond, moveOn_counting, num_fds_is_in_list, hnum]
  have hstep : own (Preload.step sh (.accept sock ret))
      = if sh.table.idxOf sock < sh.num_fds then
          own (add_sock_to_list ret (is_in_list sock sh).2).2
        else own (is_in_list sock sh).2 := by
    simp only [Preload.step, Preload.accept]
    split
    · next s' heq =>
      have hyes := hin (sh.table.contains sock)
      rw [heq] at hyes
      rw [if_pos (of_decide_eq_true hyes.symm), own_add_sock, own_add_sock _ (is_in_list sock sh).2,
        ← hown (sh.table.contains sock), heq]
    · next s' heq =>
      have hno := hin (sh.table.contains sock)
      rw [heq] at hno
      rw [if_neg (of_decide_eq_false hno.symm), ← hown (sh.table.contains sock), heq]
  rw [hstep, hv]
  split
  · next hadd =>
    refine ⟨rfl, ?_⟩
    rw [if_pos hadd.1, own_add_sock ret (is_in_list sock sh).2, ← hown (isNet sh sock),
      ← own_add_sock]
    rfl
  · next hadd =>
    refine ⟨rfl, ?_⟩
    rw [moveOn_app, hown]
    split
    · next hlt =>
      have hneg : ret < 0 := by
        have := not_and.mp hadd hlt
        omega
      rw [add_sock_to_list, if_pos hneg]
    · rfl

/-- A call without interruption, in at most three more steps. -/
theorem alone (s : Threads τ) (t : τ) (h : s.place t = .app) {a : Act} {op : Op}
    (ha : a.op = some op) :
    let s' := [(t, a), (t, .go), (t, .go), (t, .go)].foldl step s
    s'.place t = .app ∧ own s'.shared = own (Preload.step s.shared op) := by
  intro s'
  have hview : view s' t = moveOn (moveOn (moveOn (moveOn (view s t) a) .go) .go) .go := by
    simp only [s', List.foldl_cons, List.foldl_nil, view_step]
  suffices hmoves : (moveOn (moveOn (moveOn (moveOn (view s t) a) .go) .go) .go).2.2 = .app ∧
      own (moveOn (moveOn (moveOn (moveOn (view s t) a) .go) .go) .go).1
        = own (Preload.step s.shared op) by
    rw [← hview] at hmoves
    exact hmoves
  have hs : view s t = (s.shared, s.files, .app) := by rw [view, h]
  rw [hs]
  generalize s.shared = sh
  generalize s.files = files
  cases a with
  | socket domain ret =>
      obtain rfl : Op.socket domain ret = op := Option.some.inj ha
      have hfirst : moveOn (sh, files, .app) (.socket domain ret)
          = (opened ret (inet domain) sh, files,
              if inet domain = true ∧ 0 ≤ ret then .adding ret else .app) := rfl
      rw [hfirst]
      split
      · next hadd =>
        refine ⟨rfl, ?_⟩
        change own (add_sock_to_list ret (opened ret (inet domain) sh)).2 = _
        rw [Preload.step, Preload.socket, if_pos hadd.1]
      · next hadd =>
        refine ⟨rfl, ?_⟩
        change own (opened ret (inet domain) sh) = _
        rw [Preload.step, Preload.socket]
        split
        · next hinet =>
          have hneg : ret < 0 := by
            have := not_and.mp hadd hinet
            omega
          rw [add_sock_to_list, if_pos hneg]
        · rfl
  | accept sock ret =>
      obtain rfl : Op.accept sock ret = op := Option.some.inj ha
      exact alone_accept sh files sock ret
  | close fd =>
      obtain rfl : Op.close fd = op := Option.some.inj ha
      exact ⟨rfl, rfl⟩
  | set_net severity =>
      obtain rfl : Op.set_net severity = op := Option.some.inj ha
      have hfirst : moveOn (sh, files, .app) (.set_net severity)
          = if sh.net_state = 0 ∧ severity ≠ 0 then (sh, files, .switching)
            else if sh.net_state ≠ 0 ∧ severity = 0 then ({ sh with net_state := 0 }, files, .app)
            else (sh, files, .app) := rfl
      rw [hfirst, step_set_net, lauSim_switch_net]
      split
      · exact ⟨rfl, rfl⟩
      · split
        · exact ⟨rfl, rfl⟩
        · exact ⟨rfl, rfl⟩
  | file fd => cases ha
  | go => cases ha

/-! ## A program in order -/

/-- The descriptors of the hooked calls that are open. -/
def sockets (sh : Preload) : List Int := sh.socks.map Sock.fd

def Open (s : Threads τ) (fd : Int) : Prop := fd ∈ sockets s.shared ∨ fd ∈ s.files

/-- The descriptor the call has opened and not put into the table. -/
def Place.fresh : Place → Option Int
  | .adding fd => some fd
  | .looking _ fd => if fd < 0 then none else some fd
  | .counting _ fd => if fd < 0 then none else some fd
  | _ => none

/-- The descriptor the call is about to close. -/
def Place.leaving : Place → Option Int
  | .removing fd => some fd
  | .closing fd => some fd
  | _ => none

def Place.holds (p : Place) : Option Int := p.fresh.or p.leaving

/-- The socket `is_in_list` is about to look for. -/
def Place.listener : Place → Option Int
  | .looking sock _ => some sock
  | _ => none

/-- What the kernel and the program keep to: a new descriptor is not open; a descriptor is
closed while it is open, and while no other thread is opening, closing or accepting on it. -/
def Legal (s : Threads τ) (ta : τ × Act) : Prop :=
  s.place ta.1 = .app →
    match ta.2 with
    | .socket _ ret => 0 ≤ ret → ¬ Open s ret
    | .accept _ ret => 0 ≤ ret → ¬ Open s ret
    | .close fd => Open s fd ∧ ∀ t, (s.place t).holds ≠ some fd ∧ (s.place t).listener ≠ some fd
    | .file fd => ¬ Open s fd
    | .set_net _ => True
    | .go => True

instance (s : Threads τ) (fd : Int) : Decidable (Open s fd) := inferInstanceAs (Decidable (_ ∨ _))

instance [Fintype τ] (s : Threads τ) (ta : τ × Act) : Decidable (Legal s ta) :=
  match ta with
  | (t, .socket _ ret) => inferInstanceAs (Decidable (s.place t = .app → 0 ≤ ret → ¬ Open s ret))
  | (t, .accept _ ret) => inferInstanceAs (Decidable (s.place t = .app → 0 ≤ ret → ¬ Open s ret))
  | (t, .close fd) => inferInstanceAs (Decidable (s.place t = .app → Open s fd ∧
      ∀ t, (s.place t).holds ≠ some fd ∧ (s.place t).listener ≠ some fd))
  | (t, .file fd) => inferInstanceAs (Decidable (s.place t = .app → ¬ Open s fd))
  | (t, .set_net _) => inferInstanceAs (Decidable (s.place t = .app → True))
  | (t, .go) => inferInstanceAs (Decidable (s.place t = .app → True))

/-- What a place says about its descriptor. -/
def Fits (sh : Preload) (files : List Int) (p : Place) : Prop :=
  (∀ fd, p.fresh = some fd → fd ∈ sockets sh ∧ fd ∉ sh.table) ∧
    (∀ fd, p.leaving = some fd → fd ∈ sockets sh ∨ fd ∈ files) ∧
    ∀ fd, p = .closing fd → fd ∉ sh.table

/-- Every open descriptor has one meaning, and at most one thread is opening or closing it. -/
structure Sound (s : Threads τ) : Prop where
  fds : (sockets s.shared).Nodup
  files : ∀ fd ∈ s.files, fd ∉ sockets s.shared
  table : s.shared.table.Nodup
  live : ∀ fd ∈ s.shared.table, fd ∈ sockets s.shared
  fits : ∀ t, Fits s.shared s.files (s.place t)
  apart : ∀ t t' fd, (s.place t).holds = some fd → (s.place t').holds = some fd → t = t'

theorem holds_of_fresh {p : Place} {fd : Int} (h : p.fresh = some fd) : p.holds = some fd := by
  rw [Place.holds, h]
  rfl

theorem holds_of_leaving {p : Place} {fd : Int} (h : p.leaving = some fd) :
    p.holds = some fd := by
  cases p with
  | removing fd' => exact h
  | closing fd' => exact h
  | app => cases h
  | adding fd' => cases h
  | looking sock fd' => cases h
  | counting i fd' => cases h
  | switching => cases h
  | marking => cases h

/-- A place is not concerned by what leaves its descriptor alone. -/
theorem Fits.frame {sh sh' : Preload} {files files' : List Int} {p : Place}
    (h : Fits sh files p)
    (hkeep : ∀ fd, p.holds = some fd → (fd ∈ sockets sh → fd ∈ sockets sh') ∧
      (fd ∈ files → fd ∈ files') ∧ (fd ∈ sh'.table → fd ∈ sh.table)) : Fits sh' files' p := by
  obtain ⟨hfresh, hleaving, hclosing⟩ := h
  refine ⟨fun fd hp => ?_, fun fd hp => ?_, fun fd hp => ?_⟩
  · obtain ⟨hsock, -, htable⟩ := hkeep fd (holds_of_fresh hp)
    exact ⟨hsock (hfresh fd hp).1, fun hmem => (hfresh fd hp).2 (htable hmem)⟩
  · obtain ⟨hsock, hfile, -⟩ := hkeep fd (holds_of_leaving hp)
    exact (hleaving fd hp).imp hsock hfile
  · have hholds : p.holds = some fd := by rw [hp]; rfl
    exact fun hmem => hclosing fd hp ((hkeep fd hholds).2.2 hmem)

/-- **Step rule.** A thread that keeps what the others hold as it is. -/
theorem Sound.moved {s : Threads τ} (h : Sound s) {t : τ} {sh : Preload} {files : List Int}
    {p : Place} (hfds : (sockets sh).Nodup) (hfiles : ∀ fd ∈ files, fd ∉ sockets sh)
    (htable : sh.table.Nodup) (hlive : ∀ fd ∈ sh.table, fd ∈ sockets sh) (hmine : Fits sh files p)
    (hnew : ∀ fd, p.holds = some fd → ∀ t', t' ≠ t → (s.place t').holds ≠ some fd)
    (hkeep : ∀ t', t' ≠ t → ∀ fd, (s.place t').holds = some fd →
      (fd ∈ sockets s.shared → fd ∈ sockets sh) ∧ (fd ∈ s.files → fd ∈ files) ∧
        (fd ∈ sh.table → fd ∈ s.shared.table)) :
    Sound { shared := sh, files := files, place := Function.update s.place t p } := by
  refine ⟨hfds, hfiles, htable, hlive, ?_, fun t₁ t₂ fd h₁ h₂ => ?_⟩
  · exact (Function.forall_update_iff s.place fun _ p => Fits sh files p).mpr
      ⟨hmine, fun t' ht => (h.fits t').frame (hkeep t' ht)⟩
  · dsimp only at h₁ h₂
    by_cases ht₁ : t₁ = t
    · by_cases ht₂ : t₂ = t
      · rw [ht₁, ht₂]
      · subst ht₁
        rw [Function.update_self] at h₁
        rw [Function.update_of_ne ht₂] at h₂
        exact absurd h₂ (hnew fd h₁ t₂ ht₂)
    · rw [Function.update_of_ne ht₁] at h₁
      by_cases ht₂ : t₂ = t
      · subst ht₂
        rw [Function.update_self] at h₂
        exact absurd h₁ (hnew fd h₂ t₁ ht₁)
      · rw [Function.update_of_ne ht₂] at h₂
        exact h.apart t₁ t₂ fd h₁ h₂

omit [DecidableEq τ] in
/-- What a thread holds no other one does. -/
theorem Sound.alone_holds {s : Threads τ} (h : Sound s) {t : τ} {fd : Int}
    (hfd : (s.place t).holds = some fd) : ∀ t', t' ≠ t → (s.place t').holds ≠ some fd :=
  fun t' ht heq => ht (h.apart t' t fd heq hfd)

omit [DecidableEq τ] in
/-- What a thread holds is open. -/
theorem Sound.holds_open {s : Threads τ} (h : Sound s) {t : τ} {fd : Int}
    (hfd : (s.place t).holds = some fd) : Open s fd := by
  obtain ⟨hfresh, hleaving, -⟩ := h.fits t
  rw [Place.holds] at hfd
  cases hf : (s.place t).fresh with
  | some fd' =>
      rw [hf] at hfd
      obtain rfl : fd' = fd := Option.some.inj hfd
      exact Or.inl (hfresh fd' hf).1
  | none =>
      rw [hf] at hfd
      exact hleaving fd hfd

/-- The descriptors stay as they are, and the table loses nothing the others hold outside it. -/
theorem Sound.retabled {s : Threads τ} (h : Sound s) {t : τ} {sh : Preload} {p : Place}
    (hsocks : sockets sh = sockets s.shared) (htable : sh.table.Nodup)
    (hlive : ∀ fd ∈ sh.table, fd ∈ sockets s.shared) (hmine : Fits sh s.files p)
    (hnew : ∀ fd, p.holds = some fd → ∀ t', t' ≠ t → (s.place t').holds ≠ some fd)
    (hkeep : ∀ t', t' ≠ t → ∀ fd, (s.place t').holds = some fd → fd ∈ sh.table →
      fd ∈ s.shared.table) :
    Sound { shared := sh, files := s.files, place := Function.update s.place t p } := by
  refine h.moved ?_ ?_ htable ?_ hmine hnew fun t' ht fd hfd => ⟨?_, id, hkeep t' ht fd hfd⟩
  · rw [hsocks]
    exact h.fds
  · rw [hsocks]
    exact h.files
  · rw [hsocks]
    exact hlive
  · rw [hsocks]
    exact id

/-- Table and descriptors stay as they are. -/
theorem Sound.replaced {s : Threads τ} (h : Sound s) {t : τ} {sh : Preload} {p : Place}
    (htable : sh.table = s.shared.table) (hsocks : sockets sh = sockets s.shared)
    (hmine : Fits s.shared s.files p)
    (hnew : ∀ fd, p.holds = some fd → ∀ t', t' ≠ t → (s.place t').holds ≠ some fd) :
    Sound { shared := sh, files := s.files, place := Function.update s.place t p } := by
  refine h.retabled hsocks ?_ ?_ (hmine.frame fun fd _ => ?_) hnew fun t' _ fd _ hin => ?_
  · rw [htable]
    exact h.table
  · rw [htable]
    exact h.live
  · rw [htable, hsocks]
    exact ⟨id, id, id⟩
  · rwa [htable] at hin

theorem fits_of_holds_none {sh : Preload} {files : List Int} {p : Place} (h : p.holds = none) :
    Fits sh files p := by
  refine ⟨fun fd hfd => ?_, fun fd hfd => ?_, fun fd hfd => ?_⟩
  · rw [holds_of_fresh hfd] at h
    cases h
  · rw [holds_of_leaving hfd] at h
    cases h
  · rw [hfd] at h
    cases h

/-- The thread holds nothing afterwards. -/
theorem Sound.released {s : Threads τ} (h : Sound s) {t : τ} {sh : Preload} {p : Place}
    (htable : sh.table = s.shared.table) (hsocks : sockets sh = sockets s.shared)
    (hp : p.holds = none) :
    Sound { shared := sh, files := s.files, place := Function.update s.place t p } :=
  h.replaced htable hsocks (fits_of_holds_none hp) fun fd hfd => by rw [hp] at hfd; cases hfd

/-! ### The steps -/

theorem sockets_opened (ret : Int) (net : Bool) (sh : Preload) :
    sockets (opened ret net sh) = sockets sh ++ if ret < 0 then [] else [ret] := by
  rw [sockets, opened]
  split
  · rw [List.append_nil]
    rfl
  · rw [List.map_append]
    rfl

theorem Sound.opened {s : Threads τ} (h : Sound s) {t : τ} {ret : Int}
    (hret : 0 ≤ ret → ¬ Open s ret) (net : Bool) {p : Place}
    (hp : ∀ fd, p.holds = some fd → fd = ret ∧ 0 ≤ ret) (hstays : p.leaving = none) :
    Sound { shared := opened ret net s.shared, files := s.files,
            place := Function.update s.place t p } := by
  have hmem : ∀ fd, fd ∈ sockets (Preload.opened ret net s.shared) ↔
      fd ∈ sockets s.shared ∨ fd = ret ∧ 0 ≤ ret := by
    intro fd
    rw [sockets_opened, List.mem_append]
    split
    · next hneg => simp [hneg]
    · next hneg => simp [not_lt.mp hneg]
  have htable : (Preload.opened ret net s.shared).table = s.shared.table := table_opened ret net _
  refine h.moved ?_ ?_ ?_ ?_ ⟨?_, ?_, ?_⟩ ?_ ?_
  · rw [sockets_opened]
    split
    · rw [List.append_nil]
      exact h.fds
    · next hneg =>
      refine h.fds.append (List.nodup_singleton ret) ?_
      rw [List.disjoint_singleton]
      exact fun hmem => hret (not_lt.mp hneg) (Or.inl hmem)
  · intro fd hfd hsock
    rcases (hmem fd).mp hsock with hold | ⟨rfl, hle⟩
    · exact h.files fd hfd hold
    · exact hret hle (Or.inr hfd)
  · rw [htable]
    exact h.table
  · intro fd hfd
    rw [htable] at hfd
    exact (hmem fd).mpr (Or.inl (h.live fd hfd))
  · intro fd hfd
    obtain ⟨rfl, hle⟩ := hp fd (holds_of_fresh hfd)
    refine ⟨(hmem fd).mpr (Or.inr ⟨rfl, hle⟩), fun hin => hret hle (Or.inl ?_)⟩
    rw [htable] at hin
    exact h.live fd hin
  · intro fd hfd
    rw [hstays] at hfd
    cases hfd
  · rintro fd rfl
    cases hstays
  · -- the number is new, and what the others hold is open
    intro fd hfd t' _ heq
    obtain ⟨rfl, hle⟩ := hp fd hfd
    exact hret hle (h.holds_open heq)
  · intro t' _ fd _
    exact ⟨fun hin => (hmem fd).mpr (Or.inl hin), id, fun hin => htable ▸ hin⟩

theorem Sound.added {s : Threads τ} (h : Sound s) {t : τ} {fd : Int}
    (hplace : s.place t = .adding fd) :
    Sound { shared := (add_sock_to_list fd s.shared).2, files := s.files,
            place := Function.update s.place t .app } := by
  have hfresh : (s.place t).fresh = some fd := by rw [hplace]; rfl
  have hsocks : sockets (add_sock_to_list fd s.shared).2 = sockets s.shared := by
    rw [sockets, socks_add_sock]
    rfl
  obtain ⟨hopen, hnot⟩ := (h.fits t).1 fd hfresh
  have htable : ∀ x, x ∈ (add_sock_to_list fd s.shared).2.table → x ∈ s.shared.table ∨ x = fd := by
    intro x hx
    rw [table_add_sock, List.mem_append] at hx
    rcases hx with hx | hx
    · exact Or.inl hx
    · split at hx
      · exact Or.inr (by simpa using hx)
      · simp at hx
  refine h.retabled hsocks ?_ ?_ (fits_of_holds_none rfl) ?_ ?_
  · rw [table_add_sock]
    split
    · refine h.table.append (List.nodup_singleton fd) ?_
      rw [Option.toList_some, List.disjoint_singleton]
      exact hnot
    · rw [Option.toList_none, List.append_nil]
      exact h.table
  · intro x hx
    rcases htable x hx with hold | rfl
    · exact h.live x hold
    · exact hopen
  · intro x hx
    cases hx
  · -- what another thread holds is not what this one adds
    intro t' ht x hx hin
    rcases htable x hin with hold | rfl
    · exact hold
    · exact absurd hx (h.alone_holds (holds_of_fresh hfresh) t' ht)

theorem Sound.removed {s : Threads τ} (h : Sound s) {t : τ} {fd : Int}
    (hplace : s.place t = .removing fd) :
    Sound { shared := (remove_sock_from_list fd s.shared).2, files := s.files,
            place := Function.update s.place t (.closing fd) } := by
  have hleaving : (s.place t).leaving = some fd := by rw [hplace]; rfl
  have hsocks : sockets (remove_sock_from_list fd s.shared).2 = sockets s.shared := by
    rw [sockets, socks_remove_sock]
    rfl
  have htable := table_remove_sock_of_nodup h.table fd
  have hmem : ∀ x, x ∈ (remove_sock_from_list fd s.shared).2.table ↔
      x ∈ s.shared.table ∧ x ≠ fd := by
    intro x
    rw [htable, List.mem_filter, bne_iff_ne]
  refine h.retabled hsocks ?_ ?_ ⟨?_, ?_, ?_⟩ ?_ ?_
  · rw [htable]
    exact h.table.filter _
  · intro x hx
    exact h.live x ((hmem x).mp hx).1
  · intro x hx
    cases hx
  · intro x hx
    rw [hsocks]
    exact (h.fits t).2.1 x (hleaving.trans hx)
  · intro x hx hin
    exact ((hmem x).mp hin).2 (Place.closing.inj hx).symm
  · intro x hx
    exact h.alone_holds ((holds_of_leaving hleaving).trans hx)
  · intro t' _ x _ hin
    exact ((hmem x).mp hin).1

theorem mem_sockets_close {fd x : Int} {sh : Preload} :
    x ∈ sockets (close_fd fd sh) ↔ x ∈ sockets sh ∧ x ≠ fd := by
  simp only [sockets, close_fd, List.mem_map, List.mem_filter, bne_iff_ne]
  constructor
  · rintro ⟨d, ⟨hd, hne⟩, rfl⟩
    exact ⟨⟨d, hd, rfl⟩, hne⟩
  · rintro ⟨⟨d, hd, rfl⟩, hne⟩
    exact ⟨d, ⟨hd, hne⟩, rfl⟩

theorem Sound.closed {s : Threads τ} (h : Sound s) {t : τ} {fd : Int}
    (hplace : s.place t = .closing fd) :
    Sound { shared := close_fd fd s.shared, files := s.files.filter (fun x => x != fd),
            place := Function.update s.place t .app } := by
  have hholds : (s.place t).holds = some fd := by rw [hplace]; rfl
  refine h.moved ?_ ?_ h.table ?_ (fits_of_holds_none rfl) ?_ ?_
  · exact h.fds.sublist (List.Sublist.map _ List.filter_sublist)
  · intro x hx hin
    exact h.files x (List.mem_filter.mp hx).1 (mem_sockets_close.mp hin).1
  · -- the entry has gone before the descriptor
    intro x hx
    refine mem_sockets_close.mpr ⟨h.live x hx, ?_⟩
    rintro rfl
    exact (h.fits t).2.2 x hplace hx
  · intro x hx
    cases hx
  · intro t' ht x hx
    have hne : x ≠ fd := by
      rintro rfl
      exact h.alone_holds hholds t' ht hx
    exact ⟨fun hin => mem_sockets_close.mpr ⟨hin, hne⟩,
      fun hin => List.mem_filter.mpr ⟨hin, bne_iff_ne.mpr hne⟩, id⟩

theorem sockets_shut_all (sh : Preload) : sockets (shut_all sh) = sockets sh :=
  map_fd_shutdown sh.table sh.socks

theorem Sound.shut {s : Threads τ} (h : Sound s) (t : τ) :
    Sound { shared := shut_all s.shared, files := s.files,
            place := Function.update s.place t .marking } := by
  refine h.retabled (sockets_shut_all s.shared) List.nodup_nil ?_ (fits_of_holds_none rfl) ?_ ?_
  · intro x hx
    cases hx
  · intro x hx
    cases hx
  · intro t' _ x _ hin
    cases hin

theorem Sound.file {s : Threads τ} (h : Sound s) (t : τ) {fd : Int} (hfd : ¬ Open s fd) :
    Sound { shared := s.shared, files := fd :: s.files,
            place := Function.update s.place t .app } := by
  refine h.moved h.fds ?_ h.table h.live (fits_of_holds_none rfl) ?_ ?_
  · exact List.forall_mem_cons.mpr ⟨fun hin => hfd (Or.inl hin), h.files⟩
  · intro x hx
    cases hx
  · intro t' _ x _
    exact ⟨id, fun hin => List.mem_cons_of_mem _ hin, id⟩

/-- What a step can be. -/
inductive Moves (sh : Preload) (files : List Int) :
    Place → Act → Preload × List Int × Place → Prop where
  | stay (p : Place) (a : Act) : Moves sh files p a (sh, files, p)
  | socket (domain ret : Int) (h : ¬ (inet domain = true ∧ 0 ≤ ret)) :
      Moves sh files .app (.socket domain ret) (opened ret (inet domain) sh, files, .app)
  | socketNet (domain ret : Int) (hnet : inet domain = true) (hret : 0 ≤ ret) :
      Moves sh files .app (.socket domain ret) (opened ret (inet domain) sh, files, .adding ret)
  | accept (sock ret : Int) :
      Moves sh files .app (.accept sock ret)
        (opened ret (isNet sh sock) sh, files, .looking sock ret)
  | close (fd : Int) : Moves sh files .app (.close fd) (sh, files, .removing fd)
  | fail (severity : UInt64) : Moves sh files .app (.set_net severity) (sh, files, .switching)
  | repair (severity : UInt64) :
      Moves sh files .app (.set_net severity) ({ sh with net_state := 0 }, files, .app)
  | file (fd : Int) : Moves sh files .app (.file fd) (sh, fd :: files, .app)
  | add (fd : Int) :
      Moves sh files (.adding fd) .go ((add_sock_to_list fd sh).2, files, .app)
  | look (sock fd : Int) :
      Moves sh files (.looking sock fd) .go
        ((is_in_list sock sh).2, files, .counting (sh.table.idxOf sock) fd)
  | counted (i : ℕ) (fd : Int) (hi : i < sh.table.length) (hfd : 0 ≤ fd) :
      Moves sh files (.counting i fd) .go (sh, files, .adding fd)
  | passed (i : ℕ) (fd : Int) (h : ¬ (i < sh.table.length ∧ 0 ≤ fd)) :
      Moves sh files (.counting i fd) .go (sh, files, .app)
  | remove (fd : Int) :
      Moves sh files (.removing fd) .go ((remove_sock_from_list fd sh).2, files, .closing fd)
  | closed (fd : Int) :
      Moves sh files (.closing fd) .go
        (close_fd fd sh, files.filter (fun x => x != fd), .app)
  | shut : Moves sh files .switching .go (shut_all sh, files, .marking)
  | mark : Moves sh files .marking .go ({ sh with net_state := 1 }, files, .app)

theorem moves_begin (sh : Preload) (files : List Int) (a : Act) :
    Moves sh files .app a (move sh files .app a) := by
  cases a with
  | socket domain ret =>
      have hmove : move sh files .app (.socket domain ret) = (opened ret (inet domain) sh, files,
          if inet domain = true ∧ 0 ≤ ret then .adding ret else .app) := rfl
      rw [hmove]
      split
      · next h => exact .socketNet domain ret h.1 h.2
      · next h => exact .socket domain ret h
  | accept sock ret => exact .accept sock ret
  | close fd => exact .close fd
  | set_net severity =>
      have hmove : move sh files .app (.set_net severity)
          = if sh.net_state = 0 ∧ severity ≠ 0 then (sh, files, .switching)
            else if sh.net_state ≠ 0 ∧ severity = 0 then ({ sh with net_state := 0 }, files, .app)
            else (sh, files, .app) := rfl
      rw [hmove]
      split
      · exact .fail severity
      · split
        · exact .repair severity
        · exact .stay .app _
  | file fd => exact .file fd
  | go => exact .stay .app .go

theorem moves_go (sh : Preload) (files : List Int) (p : Place) :
    Moves sh files p .go (move sh files p .go) := by
  cases p with
  | app => exact .stay .app .go
  | adding fd => exact .add fd
  | looking sock fd => exact .look sock fd
  | counting i fd =>
      have hmove : move sh files (.counting i fd) .go
          = (sh, files, if i < sh.num_fds ∧ 0 ≤ fd then .adding fd else .app) := rfl
      rw [hmove]
      split
      · next h => exact .counted i fd h.1 h.2
      · next h => exact .passed i fd h
  | removing fd => exact .remove fd
  | closing fd => exact .closed fd
  | switching => exact .shut
  | marking => exact .mark

/-- Inside a call only `go` is a step. -/
theorem move_inside (sh : Preload) (files : List Int) {p : Place} {a : Act} (hp : p ≠ .app)
    (ha : a ≠ .go) : move sh files p a = (sh, files, p) := by
  cases a with
  | go => exact absurd rfl ha
  | socket domain ret => cases p <;> first | rfl | exact absurd rfl hp
  | accept sock ret => cases p <;> first | rfl | exact absurd rfl hp
  | close fd => cases p <;> first | rfl | exact absurd rfl hp
  | set_net severity => cases p <;> first | rfl | exact absurd rfl hp
  | file fd => cases p <;> first | rfl | exact absurd rfl hp

theorem moves_move (sh : Preload) (files : List Int) (p : Place) (a : Act) :
    Moves sh files p a (move sh files p a) := by
  by_cases hp : p = .app
  · rw [hp]
    exact moves_begin sh files a
  · by_cases ha : a = .go
    · rw [ha]
      exact moves_go sh files p
    · rw [move_inside sh files hp ha]
      exact .stay p a

theorem step_moves (s : Threads τ) (t : τ) (a : Act) :
    ∃ sh files p, Moves s.shared s.files (s.place t) a (sh, files, p) ∧
      step s (t, a) = { shared := sh, files := files, place := Function.update s.place t p } := by
  have hmoves := moves_move s.shared s.files (s.place t) a
  rw [step]
  generalize move s.shared s.files (s.place t) a = v at hmoves ⊢
  exact ⟨v.1, v.2.1, v.2.2, hmoves, rfl⟩

theorem sound_step {s : Threads τ} {ta : τ × Act} (h : Sound s) (hl : Legal s ta) :
    Sound (step s ta) := by
  obtain ⟨t, a⟩ := ta
  obtain ⟨sh, files, p, hmoves, hstep⟩ := step_moves s t a
  rw [hstep]
  clear hstep
  generalize hplace : s.place t = q at hmoves
  cases hmoves with
  | stay =>
      refine h.replaced rfl rfl (hplace ▸ h.fits t) fun x hx => ?_
      exact h.alone_holds (by rw [hplace]; exact hx)
  | socket domain ret hno =>
      refine h.opened (hl hplace) _ (fun fd hfd => ?_) rfl
      cases hfd
  | socketNet domain ret hnet hret =>
      refine h.opened (hl hplace) _ (fun fd hfd => ?_) rfl
      exact ⟨(Option.some.inj hfd).symm, hret⟩
  | accept sock ret =>
      refine h.opened (hl hplace) _ (fun fd hfd => ?_) rfl
      rw [Place.holds, Place.fresh] at hfd
      split at hfd
      · cases hfd
      · next hneg => exact ⟨(Option.some.inj hfd).symm, not_lt.mp hneg⟩
  | close fd =>
      obtain ⟨hopen, hother⟩ := hl hplace
      refine h.replaced rfl rfl ⟨?_, ?_, ?_⟩ ?_
      · intro x hx
        cases hx
      · intro x hx
        obtain rfl : fd = x := Option.some.inj hx
        exact hopen
      · intro x hx
        cases hx
      · -- nobody else may close it
        intro x hx t' _
        obtain rfl : fd = x := Option.some.inj hx
        exact (hother t').1
  | fail severity => exact h.released rfl rfl rfl
  | repair severity => exact h.released rfl rfl rfl
  | file fd => exact h.file t (hl hplace)
  | add fd => exact h.added hplace
  | look sock fd =>
      have hfits : Fits s.shared s.files (.looking sock fd) := hplace ▸ h.fits t
      refine h.replaced rfl rfl ⟨hfits.1, hfits.2.1, fun x hx => by cases hx⟩ fun x hx => ?_
      exact h.alone_holds (by rw [hplace]; exact hx)
  | counted i fd hi hfd =>
      -- right or wrong, the connection goes from one place to the next
      have hfresh : (s.place t).fresh = some fd := by
        rw [hplace, Place.fresh, if_neg (by omega)]
      refine h.replaced rfl rfl ⟨?_, ?_, ?_⟩ ?_
      · intro x hx
        exact (h.fits t).1 x (hfresh.trans hx)
      · intro x hx
        cases hx
      · intro x hx
        cases hx
      · intro x hx
        exact h.alone_holds ((holds_of_fresh hfresh).trans hx)
  | passed i fd hno => exact h.released rfl rfl rfl
  | remove fd => exact h.removed hplace
  | closed fd => exact h.closed hplace
  | shut => exact h.shut t
  | mark => exact h.released rfl rfl rfl

omit [DecidableEq τ] in
theorem sound_start (files : List Int) : Sound (start files : Threads τ) where
  fds := List.nodup_nil
  files := fun _ _ h => by cases h
  table := List.nodup_nil
  live := fun _ h => by cases h
  fits := fun _ => fits_of_holds_none rfl
  apart := fun _ _ _ h => by cases h

end LauSim.Hooks
