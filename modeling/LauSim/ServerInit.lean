/-
`Server::init` and the way of `main` from `load_config` to its loops.

Between the two stands what the plugins have in their slots. `main` calls `lf` of the
configured logger and `set_ll` of what it hands out; `Server::init` logs its first message,
runs the hooks, asks whether its three fields are set, and then calls `c` of both
communication plugins, reads `capabilities`, calls `set_callback` if the backchannel is
asynchronous, and `fm` and `get_nodes` of the fault manager. None of these is tested for NULL:
a plugin may have the capability and no getter, or a getter that returns NULL. A getter does
nothing but hand out its table, and what is called and is not NULL returns.

`start_server_iff`: the server gets to its loops exactly if everything on this way is there
and returns 0, and it dies on the way exactly if a use of NULL or an exception comes before
the first refusal.
-/
import LauSim.Boot

set_option autoImplicit false

namespace LauSim.Boot

open CText PluginManager Config Nested

variable {α : Type} [LinearOrder α] {pl : α → Plugin} {lib : Libraries α}
  {hook : α → Option (Hook α)}

/-! ## The tables of the plugins -/

def COM_ASYNC : BitVec 32 := 2

/-- The table `lf` hands out: which of its functions are there, `false` is NULL. -/
structure LoggerSlots where
  set_ll : Bool
  log_fun : Bool
  deriving DecidableEq, Repr

/-- The table `c` hands out, as far as `Server::init` reads it. -/
structure ComSlots where
  capabilities : BitVec 32
  set_callback : Bool
  deriving DecidableEq, Repr

/-- The table `fm` hands out: what `get_nodes` returns, if it is not NULL. -/
structure ManagerSlots where
  get_nodes : Option Int
  deriving DecidableEq, Repr

/-- The getters of a plugin: `none` for NULL in the slot, `some none` for one that returns
NULL. -/
structure Getters where
  lf : Option (Option LoggerSlots)
  c : Option (Option ComSlots)
  fm : Option (Option ManagerSlots)
  deriving DecidableEq, Repr

/-- The built-in `standard_log`. -/
def standard_log : LoggerSlots := { set_ll := true, log_fun := true }

/-- `logger_used` behind the test of `conf->logger` in `main`; `none` where the process ends
in a use of NULL. -/
def logger_used (g : α → Getters) (c : Conf α) : Option LoggerSlots :=
  match c.logger with
  | none => some standard_log
  | some p => do
    let logger ← (g p).lf
    let logger ← logger
    if logger.set_ll then some logger else none

/-- What `get_nodes` returns to `Server::init`, behind its calls of `c` and `fm`; `none` where
the process ends in a use of NULL. -/
def ask_nodes (actor notify manager : Getters) : Option Int := do
  let com_actor ← actor.c
  -- what `com_notify` is, is not looked at before the first fault
  let _ ← notify.c
  let com ← com_actor
  if com.capabilities &&& COM_ASYNC = COM_ASYNC ∧ com.set_callback = false then none
  else do
    let fm ← manager.fm
    let fm ← fm
    fm.get_nodes

/-- `lf` hands out a logger with both functions. -/
def Getters.Logs (g : Getters) : Prop :=
  ∃ l, g.lf = some (some l) ∧ l.set_ll = true ∧ l.log_fun = true

/-- `c` hands out a table, and the callback can be set if the backchannel is asynchronous. -/
def Getters.Talks (g : Getters) : Prop :=
  ∃ t, g.c = some (some t) ∧
    (t.capabilities &&& COM_ASYNC = COM_ASYNC → t.set_callback = true)

/-- `fm` hands out a manager whose `get_nodes` returns `ret`. -/
def Getters.Manages (g : Getters) (ret : Int) : Prop :=
  ∃ m, g.fm = some (some m) ∧ m.get_nodes = some ret

/-- What `main` does with the logger of the configuration meets no NULL. -/
def LoggerUsable (g : α → Getters) (c : Conf α) : Prop := ∀ p, c.logger = some p → (g p).Logs

/-- What `Server::init` does with the tables of the other three fields meets no NULL. -/
structure TablesUsable (g : α → Getters) (c : Conf α) : Prop where
  actor : ∀ p, c.com_actor = some p → (g p).Talks
  notify : ∀ p, c.com_notify = some p → (g p).c ≠ none
  manager : ∀ p, c.fault_manager = some p → ∃ ret, (g p).Manages ret

omit [LinearOrder α] in
/-- The logger behind `main`'s test and the first message of `Server::init`. -/
theorem logger_used_iff (g : α → Getters) (c : Conf α) :
    (∃ l, logger_used g c = some l ∧ l.log_fun = true) ↔ LoggerUsable g c := by
  unfold logger_used LoggerUsable
  cases c.logger with
  | none => exact iff_of_true ⟨standard_log, rfl, rfl⟩ (by simp)
  | some p =>
      simp only [Option.some.injEq, forall_eq']
      unfold Getters.Logs
      rcases (g p).lf with _ | _ | l
      · simp
      · simp
      · cases hset : l.set_ll with
        | false => simp [hset]
        | true => simp [hset]

theorem ask_nodes_iff (actor notify manager : Getters) (ret : Int) :
    ask_nodes actor notify manager = some ret ↔
      actor.Talks ∧ notify.c ≠ none ∧ manager.Manages ret := by
  unfold ask_nodes Getters.Talks Getters.Manages
  rcases actor.c with _ | _ | com
  · simp
  · cases notify.c with
    | none => simp
    | some _ => simp
  · cases notify.c with
    | none => simp
    | some _ =>
        by_cases hcall : com.capabilities &&& COM_ASYNC = COM_ASYNC ∧ com.set_callback = false
        · simp [hcall.1, hcall.2]
        · have hset : com.capabilities &&& COM_ASYNC = COM_ASYNC → com.set_callback = true := by
            intro hasync
            exact (Bool.not_eq_false _).mp fun hno => hcall ⟨hasync, hno⟩
          rcases manager.fm with _ | _ | fm
          · simp
          · simp
          · simpa [hcall] using fun _ => hset

/-! ## `Server::init` and the way to the loops -/

/-- How `main` comes out of its first part. -/
inductive Outcome (α : Type) [LinearOrder α] where
  | exits (code : Int)
  /-- an exception nobody catches, or a use of NULL -/
  | aborts
  | runs (r : Registry α)

/-- `Server::init`; its messages on the way go to `logger`. -/
def server_init (hook : α → Option (Hook α)) (g : α → Getters) (c : Conf α)
    (logger : LoggerSlots) (r : Registry α) : Outcome α :=
  if logger.log_fun = false then .aborts
  else
    match post_hooks hook r.keys r with
    | (.throws, _) => .aborts
    | (.null_call, _) => .aborts
    | (.ret ret, r) =>
      if ret ≠ 0 then .exits 1
      else
        match c.com_actor, c.com_notify, c.fault_manager with
        | some actor, some notify, some manager =>
          match ask_nodes (g actor) (g notify) (g manager) with
          | none => .aborts
          | some ret => if ret ≠ 0 then .exits 1 else .runs r
        | _, _, _ => .exits 1

/-- `main` from `load_config` to the first loop. -/
def start_server (pl : α → Plugin) (lib : Libraries α) (hook : α → Option (Hook α))
    (g : α → Getters) (file : Option (List Text)) : Outcome α :=
  match load_config pl lib file Conf.initial OrdMap.empty with
  | (.throws, _) => .aborts
  | (.ret ret, s) =>
    if ret ≠ 0 then .exits 1
    else
      match logger_used g s.conf with
      | none => .aborts
      | some logger =>
        match runCalls pl (role_calls s.conf) s.plugins with
        | (false, _) => .aborts
        | (true, r) => server_init hook g s.conf logger r

variable {g : α → Getters}

/-- The registry with the roles of the configuration. -/
def with_roles (pl : α → Plugin) (s : Loading α) : Registry α :=
  (runCalls pl (role_calls s.conf) s.plugins).2

/-- A field is set exactly if a line sets it. -/
theorem Good.get_eq_none_iff {lines : List Text} {s : Loading α} (h : Good pl lines s) (f : Field) :
    s.conf.get f = none ↔ lastLine f.keys lines = none := by
  have hfield := h.field f
  cases hlast : lastLine f.keys lines with
  | none =>
      rw [hlast] at hfield
      exact iff_of_true hfield rfl
  | some line =>
      rw [hlast] at hfield
      obtain ⟨v, p, -, -, hget, -⟩ := hfield
      rw [hget]
      simp

theorem start_server_of_load {file : Option (List Text)} {s : Loading α} {lines : List Text}
    (hgood : Good pl lines s)
    (h : load_config pl lib file Conf.initial OrdMap.empty = (.ret 0, s)) :
    start_server pl lib hook g file =
      match logger_used g s.conf with
      | none => .aborts
      | some logger => server_init hook g s.conf logger (with_roles pl s) := by
  obtain ⟨r, hrun, -⟩ := given_fields (fits_of_good hgood) fields
  have hrun' : runCalls pl (role_calls s.conf) s.plugins = (true, r) := hrun
  rw [start_server, h]
  simp only [with_roles, hrun']
  rfl

/-- The file has a line for each field but the logger outside the library sections. -/
def Complete (lines : List Text) : Prop :=
  ∀ f : Field, f ≠ .logger → (lastLine f.keys lines).isSome = true

/-- The fields `Server::init` asks for are set. -/
theorem Good.complete_iff {lines : List Text} {s : Loading α} (h : Good pl lines s) :
    Complete lines ↔
      ∃ actor notify manager, s.conf.com_actor = some actor ∧ s.conf.com_notify = some notify ∧
        s.conf.fault_manager = some manager := by
  have hfield : ∀ f : Field,
      (lastLine f.keys lines).isSome = true ↔ ∃ p, s.conf.get f = some p := by
    intro f
    rw [← Option.isSome_iff_exists, ← not_iff_not, Bool.not_eq_true, Bool.not_eq_true,
      Option.isSome_eq_false_iff, Option.isSome_eq_false_iff, Option.isNone_iff_eq_none,
      Option.isNone_iff_eq_none, Good.get_eq_none_iff h f]
  constructor
  · intro hall
    obtain ⟨actor, hactor⟩ := (hfield .com_actor).mp (hall _ (by decide))
    obtain ⟨notify, hnotify⟩ := (hfield .com_notify).mp (hall _ (by decide))
    obtain ⟨manager, hmanager⟩ := (hfield .fault_manager).mp (hall _ (by decide))
    exact ⟨actor, notify, manager, hactor, hnotify, hmanager⟩
  · rintro ⟨actor, notify, manager, hactor, hnotify, hmanager⟩ f hf
    refine (hfield f).mpr ?_
    cases f with
    | logger => exact absurd rfl hf
    | com_actor => exact ⟨actor, hactor⟩
    | com_notify => exact ⟨notify, hnotify⟩
    | fault_manager => exact ⟨manager, hmanager⟩

/-- `Server::init` behind its hooks, with all fields set. -/
theorem server_init_of_fields {c : Conf α} {logger : LoggerSlots} (hlog : logger.log_fun = true)
    {r r' : Registry α} (h : post_hooks hook r.keys r = (.ret 0, r')) {actor notify manager : α}
    (hactor : c.com_actor = some actor) (hnotify : c.com_notify = some notify)
    (hmanager : c.fault_manager = some manager) :
    server_init hook g c logger r =
      match ask_nodes (g actor) (g notify) (g manager) with
      | none => .aborts
      | some ret => if ret ≠ 0 then .exits 1 else .runs r' := by
  rw [server_init, h, hactor, hnotify, hmanager, hlog]
  rfl

/-- `Server::init` behind its hooks, with a field that is not set. -/
theorem server_init_of_incomplete {c : Conf α} {logger : LoggerSlots}
    (hlog : logger.log_fun = true) {r r' : Registry α}
    (h : post_hooks hook r.keys r = (.ret 0, r'))
    (hnone : ¬ ∃ actor notify manager, c.com_actor = some actor ∧ c.com_notify = some notify ∧
      c.fault_manager = some manager) :
    server_init hook g c logger r = .exits 1 := by
  rw [server_init, h, hlog]
  simp only [Bool.true_eq_false, if_false, ne_eq, not_true_eq_false]
  split
  · next actor notify manager hactor hnotify hmanager =>
      exact absurd ⟨actor, notify, manager, hactor, hnotify, hmanager⟩ hnone
  · rfl

omit [LinearOrder α] in
/-- The tables can be used exactly if `get_nodes` is reached and returns. -/
theorem tablesUsable_iff {c : Conf α} {actor notify manager : α}
    (hactor : c.com_actor = some actor) (hnotify : c.com_notify = some notify)
    (hmanager : c.fault_manager = some manager) :
    TablesUsable g c ↔ ∃ ret, ask_nodes (g actor) (g notify) (g manager) = some ret := by
  constructor
  · intro h
    obtain ⟨ret, hret⟩ := h.manager manager hmanager
    exact ⟨ret, (ask_nodes_iff _ _ _ _).mpr
      ⟨h.actor actor hactor, h.notify notify hnotify, hret⟩⟩
  · rintro ⟨ret, hret⟩
    obtain ⟨htalks, hcom, hmanages⟩ := (ask_nodes_iff _ _ _ _).mp hret
    refine ⟨fun p hp => ?_, fun p hp => ?_, fun p hp => ⟨ret, ?_⟩⟩
    · exact Option.some.inj (hactor.symm.trans hp) ▸ htalks
    · exact Option.some.inj (hnotify.symm.trans hp) ▸ hcom
    · exact Option.some.inj (hmanager.symm.trans hp) ▸ hmanages

theorem Getters.Manages.unique {t : Getters} {ret ret' : Int} (h : t.Manages ret)
    (h' : t.Manages ret') : ret = ret' := by
  obtain ⟨m, hfm, hret⟩ := h
  obtain ⟨m', hfm', hret'⟩ := h'
  obtain rfl : m = m' := Option.some.inj (Option.some.inj (hfm.symm.trans hfm'))
  exact Option.some.inj (hret.symm.trans hret')

/-- How `Server::init` ends behind its hooks. -/
theorem server_init_cases {lines : List Text} {s : Loading α} (hgood : Good pl lines s)
    {logger : LoggerSlots} (hlog : logger.log_fun = true) {r r' : Registry α}
    (h : post_hooks hook r.keys r = (.ret 0, r')) :
    (¬ Complete lines ∧
      server_init hook g s.conf logger r = .exits 1) ∨
    (Complete lines ∧
      ((¬ TablesUsable g s.conf ∧ server_init hook g s.conf logger r = .aborts) ∨
      (TablesUsable g s.conf ∧ ((∃ p, s.conf.fault_manager = some p ∧ ¬ (g p).Manages 0) ∧
          server_init hook g s.conf logger r = .exits 1 ∨
        (∀ p, s.conf.fault_manager = some p → (g p).Manages 0) ∧
          server_init hook g s.conf logger r = .runs r')))) := by
  by_cases hall : Complete lines
  · right
    obtain ⟨actor, notify, manager, hactor, hnotify, hmanager⟩ := (Good.complete_iff hgood).mp hall
    rw [server_init_of_fields hlog h hactor hnotify hmanager,
      tablesUsable_iff hactor hnotify hmanager]
    cases hask : ask_nodes (g actor) (g notify) (g manager) with
    | none => exact ⟨hall, Or.inl ⟨by simp, rfl⟩⟩
    | some ret =>
        have hmanages := ((ask_nodes_iff _ _ _ _).mp hask).2.2
        refine ⟨hall, Or.inr ⟨⟨ret, rfl⟩, ?_⟩⟩
        by_cases hret : ret = 0
        · subst hret
          exact Or.inr ⟨fun p hp => Option.some.inj (hmanager.symm.trans hp) ▸ hmanages, rfl⟩
        · exact Or.inl ⟨⟨manager, hmanager, fun hzero => hret (hmanages.unique hzero)⟩,
            if_pos hret⟩
  · left
    exact ⟨hall, server_init_of_incomplete hlog h (mt (Good.complete_iff hgood).mpr hall)⟩

/-- A logger that cannot be used ends `main` before the first hook. -/
theorem start_server_of_logger {lines : List Text} {s : Loading α} (hgood : Good pl lines s)
    (h : load_config pl lib (some lines) Conf.initial OrdMap.empty = (.ret 0, s))
    (hlog : ¬ LoggerUsable g s.conf) : start_server pl lib hook g (some lines) = .aborts := by
  rw [start_server_of_load hgood h]
  cases hused : logger_used g s.conf with
  | none => rfl
  | some logger =>
      have hno : logger.log_fun = false := by
        rw [← Bool.not_eq_true]
        exact fun hyes => hlog ((logger_used_iff g s.conf).mp ⟨logger, hused, hyes⟩)
      exact if_pos hno

/-- How `main` goes on when the file has been loaded. -/
theorem start_server_of_loaded {lines : List Text} {s : Loading α} (hgood : Good pl lines s)
    (hload : load_config pl lib (some lines) Conf.initial OrdMap.empty = (.ret 0, s)) :
    ((∃ r, start_server pl lib hook g (some lines) = .runs r) ↔
      LoggerUsable g s.conf ∧
        (post_hooks hook (with_roles pl s).keys (with_roles pl s)).1 = .ret 0 ∧
        Complete lines ∧ TablesUsable g s.conf ∧
        ∀ p, s.conf.fault_manager = some p → (g p).Manages 0) ∧
    (start_server pl lib hook g (some lines) = .aborts ↔
      ¬ LoggerUsable g s.conf ∨
        (post_hooks hook (with_roles pl s).keys (with_roles pl s)).1 = .throws ∨
        (post_hooks hook (with_roles pl s).keys (with_roles pl s)).1 = .null_call ∨
        ((post_hooks hook (with_roles pl s).keys (with_roles pl s)).1 = .ret 0 ∧
          Complete lines ∧ ¬ TablesUsable g s.conf)) := by
  by_cases hlog : LoggerUsable g s.conf
  · obtain ⟨logger, hused, hfun⟩ := (logger_used_iff g s.conf).mpr hlog
    have hstart : start_server pl lib hook g (some lines)
        = server_init hook g s.conf logger (with_roles pl s) := by
      rw [start_server_of_load hgood hload, hused]
    rw [hstart]
    rcases hhooks : post_hooks hook (with_roles pl s).keys (with_roles pl s) with
      ⟨ret | - | -, r⟩
    · by_cases hzero : ret = 0
      · subst hzero
        -- the fields, the tables and `get_nodes`
        rcases server_init_cases (g := g) hgood hfun hhooks with ⟨hnot, hout⟩ | ⟨hall, h⟩
        · simp [hout, hnot, hlog]
        · rcases h with ⟨hno, hout⟩ | ⟨hyes, ⟨hbad, hout⟩ | ⟨hok, hout⟩⟩
          · rw [hout]
            refine ⟨iff_of_false (by simp) fun hc => hno hc.2.2.2.1, ?_⟩
            exact iff_of_true rfl (Or.inr (Or.inr (Or.inr ⟨rfl, hall, hno⟩)))
          · obtain ⟨p, hp, hbad⟩ := hbad
            rw [hout]
            refine ⟨iff_of_false (by simp) fun hc => hbad (hc.2.2.2.2 p hp), ?_⟩
            simp [hyes, hlog]
          · rw [hout]
            refine ⟨iff_of_true ⟨r, rfl⟩ ⟨hlog, rfl, hall, hyes, hok⟩, ?_⟩
            simp [hyes, hlog]
      · have hexit : server_init hook g s.conf logger (with_roles pl s) = .exits 1 := by
          rw [server_init, hhooks, hfun]
          exact if_pos hzero
        rw [hexit]
        simp [hzero, hlog]
    · simp [server_init, hhooks, hfun]
    · simp [server_init, hhooks, hfun]
  · rw [start_server_of_logger hgood hload hlog]
    simp [hlog]

/-- **When the server starts.** For every file, every behaviour of the libraries, all hooks
that register no plugin, and whatever the plugins have in their slots `lf`, `c` and `fm`:
`main` gets to its loops exactly if the file loads, the logger of the configuration can be
used, all hooks return 0 on the roles of the configuration, the file has a line for each field
but the logger outside the library sections, the tables of these plugins can be used, and
`get_nodes` returns 0. It ends in an exception or a use of NULL exactly if the loading does,
the logger cannot be used, a hook ends so, or all is well up to the tables and they cannot be
used; the four calls of `add_role` never throw. -/
theorem start_server_iff (pl : α → Plugin) (lib : Libraries α) (hook : α → Option (Hook α))
    (g : α → Getters) (lines : List Text) :
    ((∃ r, start_server pl lib hook g (some lines) = .runs r) ↔
      ∃ s, load_config pl lib (some lines) Conf.initial OrdMap.empty = (.ret 0, s) ∧
        LoggerUsable g s.conf ∧
        (post_hooks hook (with_roles pl s).keys (with_roles pl s)).1 = .ret 0 ∧
        Complete lines ∧ TablesUsable g s.conf ∧
        ∀ p, s.conf.fault_manager = some p → (g p).Manages 0) ∧
    (start_server pl lib hook g (some lines) = .aborts ↔
      (load_config pl lib (some lines) Conf.initial OrdMap.empty).1 = .throws ∨
      ∃ s, load_config pl lib (some lines) Conf.initial OrdMap.empty = (.ret 0, s) ∧
        (¬ LoggerUsable g s.conf ∨
          (post_hooks hook (with_roles pl s).keys (with_roles pl s)).1 = .throws ∨
          (post_hooks hook (with_roles pl s).keys (with_roles pl s)).1 = .null_call ∨
          ((post_hooks hook (with_roles pl s).keys (with_roles pl s)).1 = .ret 0 ∧
            Complete lines ∧ ¬ TablesUsable g s.conf))) := by
  rcases hload : load_config pl lib (some lines) Conf.initial OrdMap.empty with ⟨ret | -, s⟩
  · by_cases hret : ret = 0
    · subst hret
      have hinj : ∀ s', ((.ret 0, s) : End × Loading α) = (.ret 0, s') ↔ s = s' := by simp
      simp only [hinj, exists_eq_left', reduceCtorEq, false_or]
      exact start_server_of_loaded (good_load_config hload) hload
    · have hexit : start_server pl lib hook g (some lines) = .exits 1 := by
        rw [start_server, hload]
        exact if_pos hret
      rw [hexit]
      simp [hret]
  · have habort : start_server pl lib hook g (some lines) = .aborts := by
      rw [start_server, hload]
    rw [habort]
    simp

end LauSim.Boot
