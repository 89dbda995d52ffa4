/-
The registry of `srv/plugin_internal.cpp`: which plugins there are, and in which
roles they are used.

The registry is a map from plugin pointers to roles. Pointers are a type `α` with
any linear order, the order in which the map is iterated; `pl` is what they point
to. `std::map::at` throws for a key the map does not have; the exception is a
result of its own.

Uniqueness is by name while the map is keyed by pointer, so `get_by_name` has to
be read together with the invariant: it finds the first plugin of a name in the
order of the addresses, and there is only one.
-/
import LauSim.Lib.CText
import LauSim.Lib.OrdMap
import LauSim.Lib.Runs

set_option autoImplicit false

namespace LauSim.PluginManager

open CText Runs

/-- `plugin_type_t`, a set of the flags below. -/
abbrev PluginType := UInt64

def PL_NONE : PluginType := 0
def PL_COM_ACTOR : PluginType := 1
def PL_COM_EXTERN : PluginType := 2
def PL_FAULT_MANAGER : PluginType := 4
def PL_LOGGER : PluginType := 8
def PL_OTHER : PluginType := 32

/-- The fields of `plugin` the registry reads. -/
structure Plugin where
  name : Text
  pl_type : PluginType
  deriving DecidableEq, Repr

/-- `HAS_PL_TYPE`. -/
def Plugin.has (p : Plugin) (t : PluginType) : Bool := decide (p.pl_type &&& t ≠ 0)

variable {α : Type} [LinearOrder α] (pl : α → Plugin)

/-- `plugin_manager::plugins`. -/
abbrev Registry (α : Type) [LinearOrder α] := OrdMap α PluginType

/-- What a call gives back to its caller. -/
inductive Result where
  | ret (r : Int)
  /-- `std::out_of_range` -/
  | out_of_range
  deriving DecidableEq, Repr

def get_by_name (name : Text) (r : Registry α) : Option α :=
  (r.entries.find? (fun e => streq name (pl e.1).name)).map Prod.fst

def register_plugin (p : α) (r : Registry α) : Result × Registry α :=
  if (get_by_name pl (pl p).name r).isSome ∨ p ∈ r.keys then (.ret (-1), r)
  else (.ret 0, r.emplace p PL_NONE)

/-- `set_role` and `add_role`: they differ in what becomes of the old role. -/
def update_role (f : PluginType → PluginType → PluginType) (p : Option α) (new_role : PluginType)
    (r : Registry α) : Result × Registry α :=
  match p with
  | none => (.ret (-1), r)
  | some p =>
    if (pl p).pl_type &&& new_role ≠ new_role then (.ret (-1), r)
    else if p ∈ r.keys then (.ret 0, r.modify p (fun role => f role new_role))
    else (.out_of_range, r)

def set_role : Option α → PluginType → Registry α → Result × Registry α :=
  update_role pl (fun _ new_role => new_role)

def add_role : Option α → PluginType → Registry α → Result × Registry α :=
  update_role pl (fun role new_role => role ||| new_role)

/-- The calls that can change the registry. -/
inductive Call (α : Type) where
  | register_plugin (p : α)
  | set_role (p : Option α) (new_role : PluginType)
  | add_role (p : Option α) (new_role : PluginType)
  deriving DecidableEq, Repr

/-- The plugin a call is about. -/
def Call.plugin : Call α → Option α
  | .register_plugin p => some p
  | .set_role p _ => p
  | .add_role p _ => p

def call : Call α → Registry α → Result × Registry α
  | .register_plugin p => register_plugin pl p
  | .set_role p new_role => set_role pl p new_role
  | .add_role p new_role => add_role pl p new_role

/-- The registry after some calls. -/
def run (cs : List (Call α)) (r : Registry α) : Registry α :=
  cs.foldl (fun r c => (call pl c r).2) r

/-- The calls of a plugin, up to one that throws: whether none did, and the registry
they leave. -/
def runCalls : List (Call α) → Registry α → Bool × Registry α
  | [], r => (true, r)
  | c :: cs, r =>
    match call pl c r with
    | (.out_of_range, r) => (false, r)
    | (.ret _, r) => runCalls cs r

/-- They are some of the calls. -/
theorem runCalls_eq_run (cs : List (Call α)) (r : Registry α) :
    ∃ cs', (runCalls pl cs r).2 = run pl cs' r := by
  induction cs generalizing r with
  | nil => exact ⟨[], rfl⟩
  | cons c cs ih =>
      rw [runCalls]
      split
      · next r' hcall =>
        refine ⟨[c], ?_⟩
        rw [run, List.foldl_cons, List.foldl_nil, hcall]
      · next ret r' hcall =>
        obtain ⟨cs', hcs'⟩ := ih r'
        refine ⟨c :: cs', ?_⟩
        rw [hcs', run, run, List.foldl_cons, hcall]

/-! ## What a registry is -/

/-- No two plugins have one name, and roles stay within the capabilities. -/
structure Inv (r : Registry α) : Prop where
  names : ∀ p ∈ r.keys, ∀ q ∈ r.keys, streq (pl p).name (pl q).name = true → p = q
  roles : ∀ e ∈ r.entries, e.2 &&& ~~~(pl e.1).pl_type = 0

theorem inv_empty : Inv pl (OrdMap.empty : Registry α) :=
  ⟨by simp [OrdMap.empty, OrdMap.keys], by simp [OrdMap.empty]⟩

variable {pl}

/-- A plugin that is found is registered under the name; one that is registered
under it is found, if there is only one. -/
theorem get_by_name_eq_some {r : Registry α} {name : Text} {p : α}
    (h : get_by_name pl name r = some p) : p ∈ r.keys ∧ streq name (pl p).name = true := by
  obtain ⟨e, he, rfl⟩ := Option.map_eq_some_iff.mp h
  have hname := List.find?_some he
  exact ⟨OrdMap.mem_keys_of_mem (List.mem_of_find?_eq_some he), by simpa using hname⟩

theorem isSome_get_by_name {r : Registry α} {name : Text} {p : α} (hp : p ∈ r.keys)
    (hname : streq name (pl p).name = true) : (get_by_name pl name r).isSome = true := by
  obtain ⟨v, hv⟩ := OrdMap.mem_keys.mp hp
  rw [get_by_name, Option.isSome_map, List.find?_isSome]
  exact ⟨(p, v), hv, hname⟩

theorem Inv.get_by_name_iff {r : Registry α} (h : Inv pl r) {name : Text} {p : α} :
    get_by_name pl name r = some p ↔ p ∈ r.keys ∧ streq name (pl p).name = true := by
  constructor
  · exact get_by_name_eq_some
  · rintro ⟨hp, hname⟩
    obtain ⟨q, hq⟩ := Option.isSome_iff_exists.mp (isSome_get_by_name hp hname)
    obtain ⟨hqr, hqname⟩ := get_by_name_eq_some hq
    rw [hq, h.names q hqr p hp (streq_trans (streq_symm hqname) hname)]

/-! ## What a call can do -/

/-- A role that passes the test of `set_role` and `add_role` is within the capabilities. -/
theorem and_not_of_and_eq {t n : PluginType} (h : t &&& n = n) : n &&& ~~~t = 0 := by
  rw [← h, UInt64.and_comm t, UInt64.and_assoc, UInt64.and_not_self, UInt64.and_zero]

theorem or_and_not {t m n : PluginType} (hm : m &&& ~~~t = 0) (hn : n &&& ~~~t = 0) :
    (m ||| n) &&& ~~~t = 0 := by
  have hdistrib : (m ||| n) &&& ~~~t = (m &&& ~~~t) ||| (n &&& ~~~t) :=
    UInt64.toBitVec_inj.mp BitVec.and_or_distrib_right
  rw [hdistrib, hm, hn, UInt64.or_zero]

/-- `f` keeps a role within the capabilities of `p`. -/
def Keeps (p : Plugin) (f : PluginType → PluginType) : Prop :=
  ∀ role, role &&& ~~~p.pl_type = 0 → f role &&& ~~~p.pl_type = 0

/-- Everything `out` can be after a call about the plugin `who` in the registry
`r`: nothing was done, a plugin whose name is new was added, or the role of a
registered one was changed. -/
def Outcome (pl : α → Plugin) (who : Option α) (r : Registry α) (out : Result × Registry α) : Prop :=
  (out.1 ≠ .ret 0 ∧ out.2 = r) ∨
  out.1 = .ret 0 ∧ ∃ p, who = some p ∧
    ((p ∉ r.keys ∧ (∀ q ∈ r.keys, streq (pl p).name (pl q).name = false) ∧
        out.2 = r.emplace p PL_NONE) ∨
      ∃ f, Keeps (pl p) f ∧ out.2 = r.modify p f)

theorem register_plugin_outcome (p : α) (r : Registry α) :
    Outcome pl (some p) r (register_plugin pl p r) := by
  unfold register_plugin
  by_cases h : (get_by_name pl (pl p).name r).isSome ∨ p ∈ r.keys
  · rw [if_pos h]
    exact Or.inl ⟨by simp, rfl⟩
  · rw [if_neg h]
    push Not at h
    refine Or.inr ⟨rfl, p, rfl, Or.inl ⟨h.2, fun q hq => ?_, rfl⟩⟩
    by_contra hname
    exact h.1 (isSome_get_by_name hq (by simpa using hname))

theorem update_role_outcome {f : PluginType → PluginType → PluginType} {new_role : PluginType}
    (hf : ∀ p : Plugin, p.pl_type &&& new_role = new_role → Keeps p (fun role => f role new_role))
    (p : Option α) (r : Registry α) : Outcome pl p r (update_role pl f p new_role r) := by
  unfold update_role
  cases p with
  | none => exact Or.inl ⟨by simp, rfl⟩
  | some p =>
      dsimp only
      by_cases hsub : (pl p).pl_type &&& new_role = new_role
      · rw [if_neg (not_not.mpr hsub)]
        by_cases hp : p ∈ r.keys
        · rw [if_pos hp]
          exact Or.inr ⟨rfl, p, rfl, Or.inr ⟨_, hf (pl p) hsub, rfl⟩⟩
        · rw [if_neg hp]
          exact Or.inl ⟨by simp, rfl⟩
      · rw [if_pos hsub]
        exact Or.inl ⟨by simp, rfl⟩

theorem call_outcome (pl : α → Plugin) (c : Call α) (r : Registry α) :
    Outcome pl c.plugin r (call pl c r) := by
  cases c with
  | register_plugin p => exact register_plugin_outcome p r
  | set_role p new_role =>
      exact update_role_outcome (fun _ hn _ _ => and_not_of_and_eq hn) p r
  | add_role p new_role =>
      exact update_role_outcome (fun _ hn _ hm => or_and_not hm (and_not_of_and_eq hn)) p r

/-! ## One call, and every sequence of calls -/

/-- A call that fails changes nothing. -/
theorem call_of_ne (c : Call α) {r : Registry α} (h : (call pl c r).1 ≠ .ret 0) :
    (call pl c r).2 = r := by
  rcases call_outcome pl c r with ⟨-, hr⟩ | ⟨hret, -⟩
  · exact hr
  · exact absurd hret h

/-- A call changes no entry but that of its own plugin. -/
theorem mem_call_of_ne {c : Call α} {r : Registry α} {e : α × PluginType}
    (h : c.plugin ≠ some e.1) : e ∈ (call pl c r).2.entries ↔ e ∈ r.entries := by
  rcases call_outcome pl c r with ⟨-, hr⟩ | ⟨-, p, hp, ⟨hnew, -, hr⟩ | ⟨f, -, hr⟩⟩
  · rw [hr]
  · have hne : e ≠ (p, PL_NONE) := by
      rintro rfl
      exact h hp
    rw [hr, OrdMap.mem_emplace hnew]
    exact or_iff_left hne
  · have hne : e.1 ≠ p := by
      rintro rfl
      exact h hp
    rw [hr, OrdMap.mem_modify]
    simp [hne]

/-- A plugin that is registered stays registered. -/
theorem mem_keys_call {c : Call α} {r : Registry α} {p : α} (h : p ∈ r.keys) :
    p ∈ (call pl c r).2.keys := by
  rcases call_outcome pl c r with ⟨-, hr⟩ | ⟨-, q, -, ⟨hnew, -, hr⟩ | ⟨f, -, hr⟩⟩
  · rw [hr]
    exact h
  · rw [hr, OrdMap.mem_keys_emplace hnew]
    exact Or.inl h
  · rw [hr, OrdMap.keys_modify]
    exact h

/-- A name that is new stays unique once its plugin is added. -/
theorem Inv.emplace {r : Registry α} (h : Inv pl r) {p : α} (hnew : p ∉ r.keys)
    (hname : ∀ q ∈ r.keys, streq (pl p).name (pl q).name = false) :
    Inv pl (r.emplace p PL_NONE) := by
  constructor
  · intro a ha b hb hab
    rw [OrdMap.mem_keys_emplace hnew] at ha hb
    rcases ha with ha | rfl
    · rcases hb with hb | rfl
      · exact h.names a ha b hb hab
      · have hba := streq_symm hab
        rw [hname a ha] at hba
        simp at hba
    · rcases hb with hb | rfl
      · rw [hname b hb] at hab
        simp at hab
      · rfl
  · intro e he
    rcases (OrdMap.mem_emplace hnew).mp he with he | rfl
    · exact h.roles e he
    · exact UInt64.zero_and

theorem Inv.modify {r : Registry α} (h : Inv pl r) {p : α} {f : PluginType → PluginType}
    (hf : Keeps (pl p) f) : Inv pl (r.modify p f) := by
  constructor
  · rw [OrdMap.keys_modify]
    exact h.names
  · intro e he
    rcases OrdMap.mem_modify.mp he with ⟨-, he⟩ | ⟨hp, role, hrole, hval⟩
    · exact h.roles e he
    · rw [hp, hval]
      exact hf role (h.roles _ hrole)

/-- **One call.** -/
theorem inv_call (c : Call α) {r : Registry α} (h : Inv pl r) : Inv pl (call pl c r).2 := by
  rcases call_outcome pl c r with ⟨-, hr⟩ | ⟨-, p, -, ⟨hnew, hname, hr⟩ | ⟨f, hf, hr⟩⟩
  · rw [hr]
    exact h
  · rw [hr]
    exact h.emplace hnew hname
  · rw [hr]
    exact h.modify hf

theorem inv_run (cs : List (Call α)) {r : Registry α} (h : Inv pl r) : Inv pl (run pl cs r) := by
  induction cs generalizing r with
  | nil => exact h
  | cons c cs ih => exact ih (inv_call c h)

theorem mem_keys_run (cs : List (Call α)) {r : Registry α} {p : α} (h : p ∈ r.keys) :
    p ∈ (run pl cs r).keys := by
  induction cs generalizing r with
  | nil => exact h
  | cons c cs ih => exact ih (mem_keys_call h)

/-! ## Calls that throw -/

/-- A call that asks for a role of a plugin that could have it and is not registered. -/
def Unregistered (pl : α → Plugin) (r : Registry α) (call : Call α) : Prop :=
  ∃ p role, (call = .set_role (some p) role ∨ call = .add_role (some p) role) ∧
    (pl p).pl_type &&& role = role ∧ p ∉ r.keys

/-- The role of a registered plugin: the call returns, and no plugin comes or goes. -/
theorem update_role_of_mem (pl : α → Plugin) (f : PluginType → PluginType → PluginType)
    (role : PluginType) {p : α} {r : Registry α} (hp : p ∈ r.keys) :
    ∃ ret r', update_role pl f (some p) role r = (.ret ret, r') ∧ r'.keys = r.keys := by
  unfold update_role
  dsimp only
  by_cases hsub : (pl p).pl_type &&& role = role
  · rw [if_neg (not_not.mpr hsub), if_pos hp]
    exact ⟨0, _, rfl, OrdMap.keys_modify _ _ _⟩
  · rw [if_pos hsub]
    exact ⟨-1, r, rfl, rfl⟩

/-- The exception of `std::map::at`, for a role the plugin could have. -/
theorem update_role_out_of_range_iff {f : PluginType → PluginType → PluginType} {p : Option α}
    {role : PluginType} {r : Registry α} :
    (update_role pl f p role r).1 = .out_of_range ↔
      ∃ q, p = some q ∧ (pl q).pl_type &&& role = role ∧ q ∉ r.keys := by
  unfold update_role
  cases p with
  | none => simp
  | some p =>
      dsimp only
      by_cases hsub : (pl p).pl_type &&& role = role
      · rw [if_neg (not_not.mpr hsub)]
        by_cases hp : p ∈ r.keys
        · rw [if_pos hp]
          simp [hp]
        · rw [if_neg hp]
          simp [hp, hsub]
      · rw [if_pos hsub]
        simp [hsub]

theorem call_out_of_range_iff {call : Call α} {r : Registry α} :
    (PluginManager.call pl call r).1 = .out_of_range ↔ Unregistered pl r call := by
  unfold Unregistered
  cases call with
  | register_plugin p =>
      rw [PluginManager.call, register_plugin]
      split
      · simp
      · simp
  | set_role p role =>
      rw [PluginManager.call, set_role, update_role_out_of_range_iff]
      constructor
      · rintro ⟨q, rfl, h⟩
        exact ⟨q, role, Or.inl rfl, h⟩
      · rintro ⟨q, role', heq | heq, h⟩
        · obtain ⟨rfl, rfl⟩ := Call.set_role.inj heq
          exact ⟨q, rfl, h⟩
        · simp at heq
  | add_role p role =>
      rw [PluginManager.call, add_role, update_role_out_of_range_iff]
      constructor
      · rintro ⟨q, rfl, h⟩
        exact ⟨q, role, Or.inr rfl, h⟩
      · rintro ⟨q, role', heq | heq, h⟩
        · simp at heq
        · obtain ⟨rfl, rfl⟩ := Call.add_role.inj heq
          exact ⟨q, rfl, h⟩

theorem runCalls_iff {calls : List (Call α)} {r : Registry α} :
    (runCalls pl calls r).1 = true ↔
      EachStep (fun r call => (PluginManager.call pl call r).2)
        (fun r call => ¬ Unregistered pl r call) r calls := by
  induction calls generalizing r with
  | nil => exact iff_of_true rfl eachStep_nil
  | cons call calls ih =>
      rw [eachStep_cons, ← call_out_of_range_iff, ← ih, runCalls]
      split
      · next r' hcall => simp [hcall]
      · next ret r' hcall => simp [hcall]

/-- **The registry.** For all plugins, every order of their addresses and every
sequence of calls: every plugin is registered at most once, no two have the same
name, and the roles are within the capabilities; a call that returns non-zero or
throws changes nothing, a successful one only the entry of its own plugin; and
`get_by_name` finds a plugin exactly if it is registered under the name. -/
theorem registry_sound (pl : α → Plugin) (cs : List (Call α)) :
    let r := run pl cs OrdMap.empty
    r.keys.Nodup ∧
    (∀ p ∈ r.keys, ∀ q ∈ r.keys, streq (pl p).name (pl q).name = true → p = q) ∧
    (∀ e ∈ r.entries, e.2 &&& ~~~(pl e.1).pl_type = 0) ∧
    (∀ c, (call pl c r).1 ≠ .ret 0 → (call pl c r).2 = r) ∧
    (∀ c e, c.plugin ≠ some e.1 → (e ∈ (call pl c r).2.entries ↔ e ∈ r.entries)) ∧
    (∀ name p, get_by_name pl name r = some p ↔
      p ∈ r.keys ∧ streq name (pl p).name = true) := by
  intro r
  have hinv : Inv pl r := inv_run cs (inv_empty pl)
  refine ⟨r.keys_nodup, hinv.names, hinv.roles, fun c => call_of_ne c,
    fun c e => mem_call_of_ne, fun name p => hinv.get_by_name_iff⟩

end LauSim.PluginManager
