/-
`plugin_manager::cleanup` against the network thread.

The main thread calls the `cleanup` of the registered plugins in the order of
their addresses. Until the mosquitto plugin has its turn the network loop runs,
and messages are handled between and during the other calls: a message is a list
of uses of data that somebody else tears down, and an input says whether the main
thread or the network thread moves next. `loop_stop` waits for the callback that
is running.

Two things are torn down while others may still use them. The fault manager that
owns the node table frees it (`replay`, `random`; with `transcribe` the nested
manager is the owner), and the file logger closes its file. The cleanups of the
other plugins use neither; that of mosquitto logs after it has stopped the loop.
Nothing in the order of the addresses puts mosquitto before the two, which is all
that safety needs and also all that can be asked (`safe_iff`).
-/
import LauSim.Lib.Runs
import LauSim.PluginManager
import LauSim.Readiness

set_option autoImplicit false

namespace LauSim.Teardown

open CText Runs Readiness PluginManager Backchannel

/-- Data of another plugin. -/
inductive Use where
  /-- a read of the node table -/
  | table
  /-- a call of `log_fun` of the logger in use -/
  | log
  deriving DecidableEq, Repr

/-- What `cleanup` finds. `filelog` is the file logger if it is the logger in use,
`callback` says whether mosquitto is the `com_actor` and calls the server. -/
structure Setup (α : Type) [LinearOrder α] where
  plugins : Registry α
  mosquitto : α
  owner : α
  filelog : Option α
  callback : Bool
  table : NodeTable
  owner_mem : owner ∈ plugins.keys
  filelog_mem : ∀ f ∈ filelog, f ∈ plugins.keys
  mosquitto_ne_owner : mosquitto ≠ owner
  mosquitto_ne_filelog : filelog ≠ some mosquitto

/-- Who moves next: the main thread calls a `cleanup`, a message arrives, the
network thread goes on with the message it has. -/
inductive Input where
  | main
  | message (msg : Text)
  | network
  deriving DecidableEq, Repr

/-- The plugins still to be visited, the network thread with what it is about to
do, what has been torn down, and the uses that came too late. -/
structure State (α : Type) where
  rest : List α
  loop : Bool
  pending : List Use
  freed : Bool
  closed : Bool
  late : List Use
  deriving DecidableEq, Repr

variable {α : Type} [LinearOrder α]

/-- The loop runs if the plugin is there; `init` succeeded, or it would not be. -/
def start (c : Setup α) : State α :=
  { rest := c.plugins.keys, loop := decide (c.mosquitto ∈ c.plugins.keys), pending := [],
    freed := false, closed := false, late := [] }

omit [LinearOrder α] in
/-- A use, and whether it comes too late. -/
def State.use (u : Use) (s : State α) : State α :=
  if (match u with | .table => s.freed | .log => s.closed) then { s with late := s.late ++ [u] }
  else s

/-- The `cleanup` of the plugin `p`. -/
def cleanup (c : Setup α) (p : α) (s : State α) : State α :=
  let s := { s with freed := s.freed || decide (p = c.owner),
                    closed := s.closed || decide (c.filelog = some p) }
  -- `loop_stop`, then `cleanup_mosquitto` logs
  if p = c.mosquitto then State.use .log { s with loop := false } else s

variable (parse : Text → Option Backchannel)

/-- What `Server::on_message` uses. `set_node_state` reads the table if there is
an entry to look at. -/
def on_message_uses (t : NodeTable) (msg : Text) : List Use :=
  match parse msg with
  | none => [.log]
  | some back =>
    match back.type with
    | .LOG => if back.logErrMsg.isSome then [.log] else []
    | .ERROR => if back.logErrMsg.isSome then [.log] else []
    | .STATUS =>
      match back.newStatus with
      | none => [.log]
      | some _ => if t.1 = [] then [.log] else [.table, .log]
    | .OTHER => []

/-- What `ComMosquitto::on_message` uses. -/
def uses (c : Setup α) (msg : Text) : List Use :=
  .log :: (if msg = [] ∨ c.callback = false then [] else on_message_uses parse c.table msg)

def step (c : Setup α) (s : State α) : Input → State α
  | .main =>
    match s.rest with
    | [] => s
    | p :: rest =>
      if p = c.mosquitto ∧ s.pending ≠ [] then s else cleanup c p { s with rest := rest }
  | .message msg =>
    if s.loop = true ∧ s.pending = [] then { s with pending := uses parse c msg } else s
  | .network =>
    match s.pending with
    | [] => s
    | u :: us => State.use u { s with pending := us }

omit [LinearOrder α] in
/-- Nothing was used after it had been torn down. -/
def Safe (s : State α) : Prop := s.late = []

/-- The mosquitto plugin, if it is registered, lies below the owner of the table,
unless no message makes the server read it, and below the file logger. -/
def StopsFirst (c : Setup α) : Prop :=
  c.mosquitto ∈ c.plugins.keys →
    (c.callback = true → c.table.1 ≠ [] → c.mosquitto < c.owner) ∧
    ∀ f ∈ c.filelog, c.mosquitto < f

/-! ## What a message uses -/

/-- The uses of the log are the lines the server writes. -/
theorem length_log_on_message (t : NodeTable) (msg : Text) (srv : Server) :
    (srv.on_message parse msg).log.length
      = srv.log.length + (on_message_uses parse t msg).count .log := by
  unfold Server.on_message on_message_uses
  cases parse msg with
  | none => simp [Server.log_fun]
  | some back =>
      dsimp only
      cases back.type with
      | LOG => cases back.logErrMsg <;> simp [Server.log_fun]
      | ERROR => cases back.logErrMsg <;> simp [Server.log_fun]
      | STATUS =>
          cases back.newStatus with
          | none => simp [Server.log_fun]
          | some st => by_cases ht : t.1 = [] <;> simp [Server.log_fun, ht]
      | OTHER => cases srv.other_cb <;> simp

/-- The table is read for a report, and for nothing else. -/
theorem table_mem_on_message_uses (t : NodeTable) (msg : Text) :
    .table ∈ on_message_uses parse t msg ↔ (report parse msg).isSome = true ∧ t.1 ≠ [] := by
  unfold on_message_uses report
  cases parse msg with
  | none => simp
  | some back =>
      dsimp only
      cases htype : back.type with
      | LOG => cases back.logErrMsg <;> simp
      | ERROR => cases back.logErrMsg <;> simp
      | STATUS =>
          cases back.newStatus with
          | none => simp
          | some st => by_cases ht : t.1 = [] <;> simp [ht]
      | OTHER => simp

theorem on_message_uses_of_report {t : NodeTable} {msg : Text} (ht : t.1 ≠ [])
    (hmsg : (report parse msg).isSome = true) : on_message_uses parse t msg = [.table, .log] := by
  unfold report at hmsg
  unfold on_message_uses
  cases hparse : parse msg with
  | none => simp [hparse] at hmsg
  | some back =>
      simp only [hparse] at hmsg
      by_cases htype : back.type = .STATUS
      · rw [if_pos htype, Option.isSome_map] at hmsg
        obtain ⟨st, hst⟩ := Option.isSome_iff_exists.mp hmsg
        simp only [htype, hst, if_neg ht]
      · simp [htype] at hmsg

theorem table_mem_uses {c : Setup α} {msg : Text} :
    .table ∈ uses parse c msg ↔
      (msg ≠ [] ∧ c.callback = true) ∧ (report parse msg).isSome = true ∧ c.table.1 ≠ [] := by
  unfold uses
  by_cases hskip : msg = [] ∨ c.callback = false
  · rw [if_pos hskip]
    have hnot : ¬ (msg ≠ [] ∧ c.callback = true) := by
      rintro ⟨hmsg, hcb⟩
      rcases hskip with h | h
      · exact hmsg h
      · simp [hcb] at h
    simp [hnot]
  · rw [if_neg hskip, List.mem_cons, table_mem_on_message_uses]
    push Not at hskip
    have hcb : c.callback = true := by simpa using hskip.2
    simp [hskip.1, hcb]

/-! ## Stopped in time -/

/-- What holds while the plugins are visited: the loop runs only if mosquitto is
still to come, what is torn down is behind, and the network thread has work only
while the loop runs. -/
structure Inv (c : Setup α) (s : State α) : Prop where
  suffix : s.rest <:+ c.plugins.keys
  loop : s.loop = true → c.mosquitto ∈ s.rest
  freed : s.freed = true → c.owner ∉ s.rest
  closed : s.closed = true → ∃ f, c.filelog = some f ∧ f ∉ s.rest
  pending : s.pending ≠ [] → s.loop = true
  table : .table ∈ s.pending → c.callback = true ∧ c.table.1 ≠ []
  safe : Safe s

variable {parse} {c : Setup α} {s : State α}

theorem inv_start (c : Setup α) : Inv c (start c) where
  suffix := List.suffix_refl _
  loop := by simp [start]
  freed := by simp [start]
  closed := by simp [start]
  pending := by simp [start]
  table := by simp [start]
  safe := rfl

omit [LinearOrder α] in
theorem use_of_not_torn {u : Use} (htable : u = .table → s.freed = false)
    (hlog : u = .log → s.closed = false) : s.use u = s := by
  cases u with
  | table => simp [State.use, htable rfl]
  | log => simp [State.use, hlog rfl]

/-- While mosquitto is still to come, so is the file logger. -/
theorem Inv.not_closed (h : Inv c s) (hc : StopsFirst c) (hm : c.mosquitto ∈ s.rest) :
    s.closed = false := by
  by_contra hclosed
  obtain ⟨f, hf, hnot⟩ := h.closed (by simpa using hclosed)
  have hlt := (hc (h.suffix.subset hm)).2 f hf
  exact hnot (OrdMap.mem_of_suffix h.suffix hm (c.filelog_mem f hf) hlt)

theorem Inv.not_freed (h : Inv c s) (hc : StopsFirst c) (hm : c.mosquitto ∈ s.rest)
    (htable : c.callback = true ∧ c.table.1 ≠ []) : s.freed = false := by
  by_contra hfreed
  have hnot := h.freed (by simpa using hfreed)
  have hlt := (hc (h.suffix.subset hm)).1 htable.1 htable.2
  exact hnot (OrdMap.mem_of_suffix h.suffix hm c.owner_mem hlt)

/-- A plugin that is visited is not visited again. -/
theorem Inv.not_mem_rest (h : Inv c s) {p : α} {rest : List α} (hrest : s.rest = p :: rest) :
    p ∉ rest := by
  have hsorted := c.plugins.keys_sorted.sublist h.suffix.sublist
  rw [hrest] at hsorted
  intro hp
  exact lt_irrefl p ((List.pairwise_cons.mp hsorted).1 p hp)

/-- What the `cleanup` of another plugin than mosquitto does. -/
theorem cleanup_of_ne {p : α} (hp : p ≠ c.mosquitto) (s : State α) :
    cleanup c p s = { s with freed := s.freed || decide (p = c.owner),
                             closed := s.closed || decide (c.filelog = some p) } := by
  rw [cleanup, if_neg hp]

/-- What that of mosquitto does. -/
theorem cleanup_mosquitto (s : State α) :
    cleanup c c.mosquitto s = State.use .log { s with loop := false } := by
  rw [cleanup, if_pos rfl]
  simp [c.mosquitto_ne_owner, c.mosquitto_ne_filelog]

theorem inv_cleanup (hc : StopsFirst c) (h : Inv c s) {p : α} {rest : List α}
    (hrest : s.rest = p :: rest) (hidle : p = c.mosquitto → s.pending = []) :
    Inv c (cleanup c p { s with rest := rest }) := by
  have hsuffix : rest <:+ c.plugins.keys := (List.suffix_cons p rest).trans (hrest ▸ h.suffix)
  have hsub : ∀ q, q ∉ s.rest → q ∉ rest := by
    intro q hq hmem
    exact hq (hrest ▸ List.mem_cons_of_mem p hmem)
  by_cases hp : p = c.mosquitto
  · subst hp
    have hopen : s.closed = false := h.not_closed hc (hrest ▸ List.mem_cons_self)
    rw [cleanup_mosquitto, use_of_not_torn]
    · refine ⟨hsuffix, by simp, fun hf => hsub _ (h.freed hf), ?_, ?_, h.table, h.safe⟩
      · simp [hopen]
      · intro hpending
        exact absurd (hidle rfl) hpending
    · simp
    · intro _
      exact hopen
  · rw [cleanup_of_ne hp]
    have hnot := h.not_mem_rest hrest
    refine ⟨hsuffix, fun hl => ?_, fun hf => ?_, fun hcl => ?_, h.pending, h.table, h.safe⟩
    · have hmem := h.loop hl
      rw [hrest] at hmem
      exact List.mem_of_ne_of_mem (fun heq => hp heq.symm) hmem
    · rcases Bool.or_eq_true_iff.mp hf with hf | hf
      · exact hsub _ (h.freed hf)
      · rw [← of_decide_eq_true hf]
        exact hnot
    · rcases Bool.or_eq_true_iff.mp hcl with hcl | hcl
      · obtain ⟨f, hf, hfrest⟩ := h.closed hcl
        exact ⟨f, hf, hsub f hfrest⟩
      · exact ⟨p, of_decide_eq_true hcl, hnot⟩

/-- **One step.** -/
theorem inv_step (hc : StopsFirst c) (s : State α) (i : Input) (h : Inv c s) :
    Inv c (step parse c s i) := by
  cases i with
  | main =>
      simp only [step]
      split
      · exact h
      · next p rest hrest =>
        by_cases hwait : p = c.mosquitto ∧ s.pending ≠ []
        · rw [if_pos hwait]
          exact h
        · rw [if_neg hwait]
          push Not at hwait
          exact inv_cleanup hc h hrest hwait
  | message msg =>
      simp only [step]
      by_cases hfree : s.loop = true ∧ s.pending = []
      · rw [if_pos hfree]
        refine ⟨h.suffix, h.loop, h.freed, h.closed, fun _ => hfree.1, fun htable => ?_, h.safe⟩
        obtain ⟨⟨-, hcb⟩, -, hne⟩ := (table_mem_uses parse).mp htable
        exact ⟨hcb, hne⟩
      · rw [if_neg hfree]
        exact h
  | network =>
      simp only [step]
      split
      · exact h
      · next u us hpending =>
        have hloop : s.loop = true := h.pending (by simp [hpending])
        have hm := h.loop hloop
        rw [use_of_not_torn]
        · refine ⟨h.suffix, h.loop, h.freed, h.closed, fun _ => hloop, fun htable => ?_, h.safe⟩
          exact h.table (by rw [hpending]; exact List.mem_cons_of_mem u htable)
        · rintro rfl
          exact h.not_freed hc hm (h.table (by simp [hpending]))
        · intro _
          exact h.not_closed hc hm

/-! ## Stopped too late -/

/-- The main thread alone, up to the turn of mosquitto. -/
theorem foldl_main {visited rest : List α} (s : State α) (hrest : s.rest = visited ++ rest)
    (hm : c.mosquitto ∉ visited) :
    (List.replicate visited.length Input.main).foldl (step parse c) s
      = { s with rest := rest, freed := s.freed || decide (c.owner ∈ visited),
                 closed := s.closed || decide (∃ p ∈ visited, c.filelog = some p) } := by
  induction visited generalizing s with
  | nil =>
      rw [List.nil_append] at hrest
      simp [← hrest]
  | cons p visited ih =>
      have hp : p ≠ c.mosquitto := fun h => hm (h ▸ List.mem_cons_self)
      have hstep : step parse c s .main
          = cleanup c p { s with rest := visited ++ rest } := by
        simp only [step, hrest, List.cons_append]
        rw [if_neg (fun h => hp h.1)]
      rw [List.length_cons, List.replicate_succ, List.foldl_cons, hstep, cleanup_of_ne hp,
        ih _ rfl (fun h => hm (List.mem_cons_of_mem p h))]
      simp [Bool.or_assoc, eq_comm (a := c.owner)]

/-- The state when it is the turn of mosquitto and no message has come. -/
theorem exists_turn (parse : Text → Option Backchannel) (hm : c.mosquitto ∈ c.plugins.keys) :
    ∃ (is : List Input) (rest : List α), is.foldl (step parse c) (start c) =
      { rest := c.mosquitto :: rest, loop := true, pending := [],
        freed := decide (c.owner < c.mosquitto),
        closed := decide (∃ f, c.filelog = some f ∧ f < c.mosquitto), late := [] } := by
  obtain ⟨visited, rest, hkeys⟩ := List.append_of_mem hm
  have hnot : c.mosquitto ∉ visited := by
    intro hv
    exact lt_irrefl _ ((OrdMap.mem_visited hkeys hm).mp hv)
  refine ⟨List.replicate visited.length .main, rest, ?_⟩
  rw [foldl_main (start c) hkeys hnot]
  have hclosed :
      (∃ p ∈ visited, c.filelog = some p) ↔ ∃ f, c.filelog = some f ∧ f < c.mosquitto := by
    constructor
    · rintro ⟨p, hp, hf⟩
      exact ⟨p, hf, (OrdMap.mem_visited hkeys (c.filelog_mem p hf)).mp hp⟩
    · rintro ⟨f, hf, hlt⟩
      exact ⟨f, (OrdMap.mem_visited hkeys (c.filelog_mem f hf)).mpr hlt, hf⟩
  simp [start, hm, hclosed, OrdMap.mem_visited hkeys c.owner_mem]

/-- A report that comes after the table was freed. -/
theorem exists_late_table (hm : c.mosquitto ∈ c.plugins.keys) (hcb : c.callback = true)
    (ht : c.table.1 ≠ []) (hlt : c.owner < c.mosquitto) {msg : Text} (hne : msg ≠ [])
    (hmsg : (report parse msg).isSome = true) :
    ∃ is : List Input, ¬ Safe (is.foldl (step parse c) (start c)) := by
  obtain ⟨is, rest, hturn⟩ := exists_turn parse hm
  refine ⟨is ++ [.message msg, .network, .network], ?_⟩
  have huses : uses parse c msg = [.log, .table, .log] := by
    rw [uses, if_neg (by simp [hne, hcb]), on_message_uses_of_report parse ht hmsg]
  rw [List.foldl_append, hturn]
  by_cases hclosed : ∃ f, c.filelog = some f ∧ f < c.mosquitto
  · simp [step, huses, State.use, Safe, hlt, hclosed]
  · simp [step, huses, State.use, Safe, hlt, hclosed]

/-- The `cleanup` of mosquitto logs, also if the file was closed. -/
theorem exists_late_log (parse : Text → Option Backchannel) (hm : c.mosquitto ∈ c.plugins.keys)
    {f : α} (hf : c.filelog = some f) (hlt : f < c.mosquitto) :
    ∃ is : List Input, ¬ Safe (is.foldl (step parse c) (start c)) := by
  obtain ⟨is, rest, hturn⟩ := exists_turn parse hm
  refine ⟨is ++ [.main], ?_⟩
  have hclosed : ∃ f, c.filelog = some f ∧ f < c.mosquitto := ⟨f, hf, hlt⟩
  rw [List.foldl_append, hturn, List.foldl_cons, List.foldl_nil]
  simp only [step]
  rw [if_neg (by simp), cleanup_mosquitto]
  simp [State.use, Safe, hclosed]

/-- **Teardown.** For all plugins at all addresses, and a decoder for which some
message is a report: whatever arrives until the loop is stopped, and however the
two threads interleave, nothing is used after it was torn down, exactly if the
mosquitto plugin comes before the file logger and, if reports make the server
read the table, before its owner. -/
theorem safe_iff (c : Setup α) {msg : Text} (hne : msg ≠ [])
    (hmsg : (report parse msg).isSome = true) :
    (∀ is, Always (step parse c) Safe (start c) is) ↔ StopsFirst c := by
  constructor
  · intro h hm
    have hall : ∀ is : List Input, Safe (is.foldl (step parse c) (start c)) := by
      intro is
      exact h is is (List.prefix_refl is)
    refine ⟨fun hcb ht => ?_, fun f hf => ?_⟩
    · by_contra hnot
      have hlt := lt_of_le_of_ne (not_lt.mp hnot) c.mosquitto_ne_owner.symm
      obtain ⟨is, hlate⟩ := exists_late_table hm hcb ht hlt hne hmsg
      exact hlate (hall is)
    · by_contra hnot
      have hfm : f ≠ c.mosquitto := by
        rintro rfl
        exact c.mosquitto_ne_filelog hf
      obtain ⟨is, hlate⟩ := exists_late_log parse hm hf (lt_of_le_of_ne (not_lt.mp hnot) hfm)
      exact hlate (hall is)
  · intro hc is
    have hok : EachStep (step parse c) (fun _ _ => True) (start c) is := fun _ _ _ => trivial
    have hinv : Always (step parse c) (Inv c) (start c) is :=
      always_of_eachStep (inv_start c) (fun s i h _ => inv_step hc s i h) hok
    exact hinv.imp (fun s hs => hs.safe)

/-- A fault manager with one node at the address 2, the file logger at 3, and
mosquitto below or above both. -/
def threePlugins (below : Bool) : Setup ℕ where
  plugins := ((OrdMap.empty.emplace 2 PL_FAULT_MANAGER).emplace 3 PL_LOGGER).emplace
    (bif below then 1 else 4) PL_COM_ACTOR
  mosquitto := bif below then 1 else 4
  owner := 2
  filelog := some 3
  callback := true
  table := .single "n0".toList none
  owner_mem := by cases below <;> decide
  filelog_mem := by cases below <;> decide
  mosquitto_ne_owner := by cases below <;> decide
  mosquitto_ne_filelog := by cases below <;> decide

/-- Mosquitto below both: every run is safe. -/
theorem safe_mosquitto_below :
    StopsFirst (threePlugins true) ∧
      ∀ is, Always (step ParseFromString (threePlugins true)) Safe (start (threePlugins true))
        is := by
  have hfirst : StopsFirst (threePlugins true) := fun _ => ⟨by decide, by decide⟩
  have hne : packStatus "n0".toList .STREADY ≠ [] := by decide
  exact ⟨hfirst, (safe_iff (threePlugins true) hne (by decide)).mpr hfirst⟩

/-- Mosquitto above both. A ready report that arrives after the fault manager was
cleaned up reads the table it has freed, and the log line about it goes to the
closed file. -/
theorem not_safe_mosquitto_above :
    ¬ Always (step ParseFromString (threePlugins false)) Safe (start (threePlugins false))
      [.main, .main, .message (packStatus "n0".toList .STREADY), .network, .network, .network] := by
  intro h
  have hlate := h _ (List.prefix_refl _)
  revert hlate
  unfold Safe
  decide

end LauSim.Teardown
