/-
The roles of the plugins in `main` of `srv/main.cpp`: configuration and `post_init` hooks.

The configuration file names a plugin for each field. `main` makes these names roles in the
registry with four calls of `add_role`, whose results it does not look at, and `Server::init`
runs the `post_init` hooks in the order of the plugin map before it looks whether the fields
it needs are set. A hook may change roles: the one of `transcribe` gives the role of a fault
manager to the plugin it records and keeps `PL_OTHER` for itself.

What the plugins look up afterwards is `get_by_type`. `roles_of_config`: when the libraries
have only registered their plugins, it finds for each field the plugin the file names, and
nothing else has that role. `roles_of_recording`: with `transcribe` as fault manager it finds
the recorded manager.
-/
import LauSim.Config
import LauSim.Libraries
import LauSim.Nested

set_option autoImplicit false

namespace LauSim.Boot

open CText PluginManager Config Nested

variable {α : Type} [LinearOrder α] (pl : α → Plugin)

/-! ## Roles -/

/-- `get_by_type`: the first plugin that is used in all the roles of `type`. -/
def get_by_type (type : PluginType) (r : Registry α) : Option α :=
  (r.entries.find? (fun e => decide (e.2 &&& type = type))).map Prod.fst

/-- The four calls of `main`. -/
def role_calls (c : Conf α) : List (Call α) :=
  [.add_role c.com_actor PL_COM_ACTOR, .add_role c.com_notify PL_COM_EXTERN,
    .add_role c.logger PL_LOGGER, .add_role c.fault_manager PL_FAULT_MANAGER]

/-- The fields in the order of these calls. -/
def fields : List Field := [.com_actor, .com_notify, .logger, .fault_manager]

/-- What the configuration uses `p` for, among the fields `fs`. -/
def uses (c : Conf α) (fs : List Field) (p : α) : PluginType :=
  fs.foldr (fun f role => (if c.get f = some p then f.type else PL_NONE) ||| role) PL_NONE

/-- What is in a field is registered and has the capability. -/
def Fits (c : Conf α) (r : Registry α) : Prop :=
  ∀ f p, c.get f = some p → p ∈ r.keys ∧ (pl p).has f.type = true

/-- The role of every plugin of `r` has grown by what `c` uses it for in `fs`. -/
def Given (c : Conf α) (fs : List Field) (r r' : Registry α) : Prop :=
  r'.keys = r.keys ∧
    ∀ p role', (p, role') ∈ r'.entries ↔ ∃ role, (p, role) ∈ r.entries ∧ role' = role ||| uses c fs p

variable {pl}

/-- A word and a single flag have the flag in common or nothing. -/
theorem and_flag {t : PluginType} {i : ℕ} (h : t.toBitVec = BitVec.twoPow 64 i) (x : PluginType) :
    x &&& t = 0 ∨ x &&& t = t := by
  rw [← UInt64.toBitVec_inj, ← UInt64.toBitVec_inj, UInt64.toBitVec_and, h, BitVec.and_twoPow]
  split
  · exact Or.inr rfl
  · exact Or.inl rfl

/-- The type of a field is a single flag, so "has one of" is "has all of". -/
theorem has_type_iff (p : Plugin) (f : Field) :
    p.has f.type = true ↔ p.pl_type &&& f.type = f.type := by
  have hflag : p.pl_type &&& f.type = 0 ∨ p.pl_type &&& f.type = f.type := by
    cases f with
    | com_actor => exact and_flag (i := 0) (by decide) _
    | com_notify => exact and_flag (i := 1) (by decide) _
    | logger => exact and_flag (i := 3) (by decide) _
    | fault_manager => exact and_flag (i := 2) (by decide) _
  have hne : f.type ≠ 0 := by cases f <;> decide
  rw [Plugin.has, decide_eq_true_eq]
  constructor
  · intro h
    exact hflag.resolve_left h
  · intro h
    rw [h]
    exact hne

/-- One call: what is in a field gets the role of the field. -/
theorem given_field {c : Conf α} {r : Registry α} (h : Fits pl c r) (f : Field) :
    ∃ ret r', call pl (.add_role (c.get f) f.type) r = (.ret ret, r') ∧ Given c [f] r r' := by
  cases hf : c.get f with
  | none =>
      -- `nullptr` is refused
      refine ⟨-1, r, rfl, rfl, fun p role' => ?_⟩
      simp [uses, hf, PL_NONE]
  | some p =>
      obtain ⟨hp, hhas⟩ := h f p hf
      have hcall : call pl (.add_role (some p) f.type) r
          = (.ret 0, r.modify p fun role => role ||| f.type) := by
        rw [call, add_role, update_role]
        rw [if_neg (not_not.mpr ((has_type_iff (pl p) f).mp hhas)), if_pos hp]
      refine ⟨0, _, hcall, OrdMap.keys_modify _ _ _, fun q role' => ?_⟩
      rw [OrdMap.mem_modify]
      by_cases hq : q = p
      · subst hq
        simp [uses, hf, PL_NONE]
      · have hne : ¬ p = q := fun heq => hq heq.symm
        simp [uses, hf, hq, hne, PL_NONE]

theorem Given.trans {c : Conf α} {f : Field} {fs : List Field} {r r₁ r₂ : Registry α}
    (h : Given c [f] r r₁) (h' : Given c fs r₁ r₂) : Given c (f :: fs) r r₂ := by
  obtain ⟨hkeys, hmem⟩ := h
  obtain ⟨hkeys', hmem'⟩ := h'
  refine ⟨hkeys'.trans hkeys, fun p role' => ?_⟩
  have huses : uses c (f :: fs) p = uses c [f] p ||| uses c fs p := by simp [uses, PL_NONE]
  rw [hmem' p role', huses]
  constructor
  · rintro ⟨role₁, h₁, rfl⟩
    obtain ⟨role, h, rfl⟩ := (hmem p role₁).mp h₁
    exact ⟨role, h, UInt64.or_assoc ..⟩
  · rintro ⟨role, h, rfl⟩
    exact ⟨role ||| uses c [f] p, (hmem p _).mpr ⟨role, h, rfl⟩, (UInt64.or_assoc ..).symm⟩

/-- All calls return, and together they give each plugin its roles. -/
theorem given_fields {c : Conf α} {r : Registry α} (h : Fits pl c r) (fs : List Field) :
    ∃ r', runCalls pl (fs.map fun f => Call.add_role (c.get f) f.type) r = (true, r') ∧
      Given c fs r r' := by
  induction fs generalizing r with
  | nil =>
      refine ⟨r, rfl, rfl, fun p role' => ?_⟩
      simp [uses, PL_NONE]
  | cons f fs ih =>
      obtain ⟨ret, r₁, hcall, hgiven⟩ := given_field h f
      have hfits : Fits pl c r₁ := fun g p hg => by
        rw [hgiven.1]
        exact h g p hg
      obtain ⟨r₂, hrun, hrest⟩ := ih hfits
      refine ⟨r₂, ?_, hgiven.trans hrest⟩
      rw [List.map_cons, runCalls, hcall]
      exact hrun

/-- The roles for which the flags are set, as `uses` builds them. -/
def word (actor notify logger manager : Bool) : PluginType :=
  (if actor then PL_COM_ACTOR else PL_NONE) ||| ((if notify then PL_COM_EXTERN else PL_NONE) |||
    ((if logger then PL_LOGGER else PL_NONE) ||| ((if manager then PL_FAULT_MANAGER else PL_NONE) |||
      PL_NONE)))

theorem word_and : ∀ a b l m : Bool,
    (word a b l m &&& PL_COM_ACTOR = PL_COM_ACTOR ↔ a = true) ∧
    (word a b l m &&& PL_COM_EXTERN = PL_COM_EXTERN ↔ b = true) ∧
    (word a b l m &&& PL_LOGGER = PL_LOGGER ↔ l = true) ∧
    (word a b l m &&& PL_FAULT_MANAGER = PL_FAULT_MANAGER ↔ m = true) := by
  decide

/-- The roles of the fields do not overlap. -/
theorem uses_and_type (c : Conf α) (f : Field) (p : α) :
    uses c fields p &&& f.type = f.type ↔ c.get f = some p := by
  have hword : uses c fields p = word (c.get .com_actor = some p) (c.get .com_notify = some p)
      (c.get .logger = some p) (c.get .fault_manager = some p) := by
    simp only [uses, fields, word, List.foldr_cons, List.foldr_nil, decide_eq_true_eq]
    rfl
  obtain ⟨hactor, hnotify, hlogger, hmanager⟩ := word_and (c.get .com_actor = some p)
    (c.get .com_notify = some p) (c.get .logger = some p) (c.get .fault_manager = some p)
  rw [hword]
  cases f with
  | com_actor => exact hactor.trans decide_eq_true_iff
  | com_notify => exact hnotify.trans decide_eq_true_iff
  | logger => exact hlogger.trans decide_eq_true_iff
  | fault_manager => exact hmanager.trans decide_eq_true_iff

/-! ## What the file says -/

theorem fits_of_good {lines : List Text} {s : Loading α} (h : Good pl lines s) :
    Fits pl s.conf s.plugins := by
  intro f p hp
  have hfield := h.field f
  cases hlast : lastLine f.keys lines with
  | none =>
      rw [hlast] at hfield
      rw [show s.conf.get f = none from hfield] at hp
      cases hp
  | some line =>
      rw [hlast] at hfield
      obtain ⟨v, q, -, hq, hf, hhas⟩ := hfield
      obtain rfl : q = p := Option.some.inj (hf.symm.trans hp)
      exact ⟨(get_by_name_eq_some hq).1, hhas⟩

/-- The libraries register their plugins and leave the roles alone. -/
def OnlyRegisters (lib : Libraries α) : Prop :=
  ∀ n name args, ∀ c ∈ (lib n name args).2, ∃ p, c = .register_plugin p

/-- No plugin is used for anything yet. -/
def Unused (r : Registry α) : Prop := ∀ e ∈ r.entries, e.2 = PL_NONE

theorem unused_register_plugin {r : Registry α} (h : Unused r) (p : α) :
    Unused (register_plugin pl p r).2 := by
  unfold register_plugin
  split
  · exact h
  · next hnew =>
    push Not at hnew
    intro e he
    rcases (OrdMap.mem_emplace hnew.2).mp he with he | rfl
    · exact h e he
    · rfl

theorem unused_runCalls {cs : List (Call α)} (hcs : ∀ c ∈ cs, ∃ p, c = .register_plugin p)
    {r : Registry α} (h : Unused r) : Unused (runCalls pl cs r).2 := by
  induction cs generalizing r with
  | nil => exact h
  | cons c cs ih =>
      obtain ⟨p, rfl⟩ := hcs c List.mem_cons_self
      have hnext : Unused (call pl (.register_plugin p) r).2 := unused_register_plugin h p
      rw [runCalls]
      split
      · next r' hcall =>
        rw [hcall] at hnext
        exact hnext
      · next ret r' hcall =>
        rw [hcall] at hnext
        exact ih (fun c hc => hcs c (List.mem_cons_of_mem _ hc)) hnext

variable {lib : Libraries α}

theorem unused_load_line (hlib : OnlyRegisters lib) {line : Text} {s : Loading α}
    (h : Unused s.plugins) : Unused (load_line pl lib line s).2.plugins := by
  unfold load_line
  dsimp only
  split
  · exact h
  · split
    · exact h
    · split
      · exact h
      · split
        · exact unused_runCalls (hlib _ _ _) h
        · exact h

theorem unused_load_lines (hlib : OnlyRegisters lib) (lines : List Text) {s : Loading α}
    (h : Unused s.plugins) : Unused (load_lines pl lib lines s).2.plugins := by
  induction lines generalizing s with
  | nil => exact h
  | cons line lines ih =>
      have hline : Unused (load_line pl lib line s).2.plugins := unused_load_line hlib h
      rw [load_lines]
      split
      · next s' hs' =>
        rw [hs'] at hline
        exact ih hline
      · next s' hs' =>
        rw [hs'] at hline
        exact hline
      · next s' hs' =>
        rw [hs'] at hline
        exact hline

theorem unused_load_config (hlib : OnlyRegisters lib) {lines : List Text} {s : Loading α}
    (h : load_config pl lib (some lines) Conf.initial OrdMap.empty = (.ret 0, s)) :
    Unused s.plugins := by
  have hempty : Unused (OrdMap.empty : Registry α) := fun e he => absurd he List.not_mem_nil
  have hlines : Unused (load_lines pl lib lines ⟨Conf.initial, OrdMap.empty, 0, 0⟩).2.plugins :=
    unused_load_lines hlib lines hempty
  unfold load_config at h
  rw [if_neg (by simp [Conf.initial])] at h
  dsimp only at h
  split at h
  · next s₁ hs₁ =>
    obtain ⟨-, rfl⟩ := Prod.mk.inj h
    rw [hs₁] at hlines
    exact hlines
  · next hnot => exact absurd h (hnot s)

/-! ## Looking plugins up by their role -/

/-- If only `p` is used in all roles of `t`, and it is registered, it is the one found. -/
theorem get_by_type_eq {r : Registry α} {t : PluginType} {p : Option α}
    (h : ∀ e ∈ r.entries, e.2 &&& t = t ↔ p = some e.1) (hp : ∀ q, p = some q → q ∈ r.keys) :
    get_by_type t r = p := by
  unfold get_by_type
  cases hfind : r.entries.find? (fun e => decide (e.2 &&& t = t)) with
  | none =>
      cases p with
      | none => rfl
      | some q =>
          obtain ⟨role, hrole⟩ := OrdMap.mem_keys.mp (hp q rfl)
          have hno := List.find?_eq_none.mp hfind (q, role) hrole
          rw [decide_eq_true_eq] at hno
          exact absurd ((h (q, role) hrole).mpr rfl) hno
  | some e =>
      have htest := List.find?_some hfind
      rw [decide_eq_true_eq] at htest
      exact ((h e (List.mem_of_find?_eq_some hfind)).mp htest).symm

/-- After a load with libraries that only register, the calls of `main` return, and every
plugin is used for what the file names it for. -/
theorem exists_roles (hlib : OnlyRegisters lib) {lines : List Text} {s : Loading α}
    (h : load_config pl lib (some lines) Conf.initial OrdMap.empty = (.ret 0, s)) :
    ∃ r, runCalls pl (role_calls s.conf) s.plugins = (true, r) ∧ r.keys = s.plugins.keys ∧
      Inv pl r ∧ ∀ e ∈ r.entries, e.2 = uses s.conf fields e.1 := by
  have hgood := good_load_config h
  have hunused := unused_load_config hlib h
  obtain ⟨r, hrun, hkeys, hmem⟩ := given_fields (fits_of_good hgood) fields
  refine ⟨r, hrun, hkeys, ?_, fun e he => ?_⟩
  · obtain ⟨cs, hcs⟩ := runCalls_eq_run pl (role_calls s.conf) s.plugins
    rw [← show (runCalls pl (role_calls s.conf) s.plugins).2 = r from congrArg Prod.snd hrun, hcs]
    exact inv_run cs hgood.inv
  · obtain ⟨role, hrole, heq⟩ := (hmem e.1 e.2).mp he
    rw [heq, show role = PL_NONE from hunused _ hrole]
    exact UInt64.zero_or

/-- **Roles after the configuration.** For every file and every behaviour of the libraries
that only registers plugins: if `load_config` returns 0, none of the four calls of `add_role`
throws, no plugin comes or goes, each plugin is then used for exactly what the file names it
for and is capable of, and `get_by_type` finds for each field the plugin in it. -/
theorem roles_of_config (pl : α → Plugin) (lib : Libraries α) (hlib : OnlyRegisters lib)
    (lines : List Text) (s : Loading α)
    (h : load_config pl lib (some lines) Conf.initial OrdMap.empty = (.ret 0, s)) :
    ∃ r, runCalls pl (role_calls s.conf) s.plugins = (true, r) ∧ r.keys = s.plugins.keys ∧
      (∀ e ∈ r.entries, e.2 = uses s.conf fields e.1 ∧ e.2 &&& ~~~(pl e.1).pl_type = 0) ∧
      ∀ f : Field, get_by_type f.type r = s.conf.get f := by
  obtain ⟨r, hrun, hkeys, hinv, hrole⟩ := exists_roles hlib h
  refine ⟨r, hrun, hkeys, fun e he => ⟨hrole e he, hinv.roles e he⟩, fun f => ?_⟩
  refine get_by_type_eq (fun e he => ?_) (fun p hp => ?_)
  · rw [hrole e he]
    exact uses_and_type s.conf f e.1
  · rw [hkeys]
    exact (fits_of_good (good_load_config h) f p hp).1

/-- Two plugins, one of them for both directions of communication. -/
theorem roles_of_config_two :
    let pl : ℕ → Plugin := fun n =>
      if n = 0 then { name := "com".toList, pl_type := 3 } else { name := "r".toList, pl_type := 4 }
    let lib : Libraries ℕ := fun n _ _ => (0, [.register_plugin n])
    let lines := ["[libs]".toList, "com.so".toList, "r.so".toList, "[config]".toList,
      "com = com".toList, "manager = r".toList]
    ∃ s r, load_config pl lib (some lines) Conf.initial OrdMap.empty = (.ret 0, s) ∧
      runCalls pl (role_calls s.conf) s.plugins = (true, r) ∧
      ∀ f : Field, get_by_type f.type r = s.conf.get f := by
  intro pl lib lines
  have hlib : OnlyRegisters lib := fun n name args c hc => ⟨n, List.mem_singleton.mp hc⟩
  have hload : load_config pl lib (some lines) Conf.initial OrdMap.empty
      = (.ret 0, (load_config pl lib (some lines) Conf.initial OrdMap.empty).2) :=
    Prod.ext (by decide +kernel) rfl
  obtain ⟨r, hrun, -, -, htype⟩ := roles_of_config pl lib hlib lines _ hload
  exact ⟨_, r, hload, hrun, htype⟩

/-! ## The hooks -/

/-- What a plugin has in its `post_init` slot, if it is not NULL: what it returns, and the
roles it leaves. It registers no plugin. -/
abbrev Hook (α : Type) [LinearOrder α] := Registry α → PostEnd × Registry α

/-- One round of the loop: `continue` for a plugin without a hook. -/
def call_hook (hook : α → Option (Hook α)) (p : α) (r : Registry α) : PostEnd × Registry α :=
  match hook p with
  | none => (.ret 0, r)
  | some h => h r

/-- The loop over the hooks in `Server::init`. -/
def post_hooks (hook : α → Option (Hook α)) : List α → Registry α → PostEnd × Registry α
  | [], r => (.ret 0, r)
  | p :: ps, r =>
    match call_hook hook p r with
    | (.ret 0, r) => post_hooks hook ps r
    | (.ret _, r) => (.ret 1, r)
    | (.throws, r) => (.throws, r)
    | (.null_call, r) => (.null_call, r)

variable {hook : α → Option (Hook α)}

/-- The hook leaves the roles alone. -/
def Idle (hook : α → Option (Hook α)) (p : α) : Prop := ∀ r, (call_hook hook p r).2 = r

theorem post_hooks_cons {p : α} {ps : List α} {r r' : Registry α}
    (h : post_hooks hook (p :: ps) r = (.ret 0, r')) :
    ∃ r₁, call_hook hook p r = (.ret 0, r₁) ∧ post_hooks hook ps r₁ = (.ret 0, r') := by
  rw [post_hooks] at h
  split at h
  · next r₁ hr₁ => exact ⟨r₁, hr₁, h⟩
  · cases h
  · cases h
  · cases h

/-- Hooks that leave the roles alone. -/
theorem post_hooks_of_idle {ps : List α} (hidle : ∀ p ∈ ps, Idle hook p) {r r' : Registry α}
    (h : post_hooks hook ps r = (.ret 0, r')) : r' = r := by
  induction ps generalizing r with
  | nil => exact (Prod.mk.inj h).2.symm
  | cons p ps ih =>
      obtain ⟨r₁, hcall, hrest⟩ := post_hooks_cons h
      have hr₁ : r₁ = r := by
        have hsame := hidle p List.mem_cons_self r
        rw [hcall] at hsame
        exact hsame
      rw [ih (fun q hq => hidle q (List.mem_cons_of_mem _ hq)) hrest, hr₁]

/-- The hook of one plugin is run once, and the others leave the roles alone. -/
theorem post_hooks_of_one {p : α} {ps : List α} (hmem : p ∈ ps) (hnodup : ps.Nodup)
    (hidle : ∀ q ∈ ps, q ≠ p → Idle hook q) {r r' : Registry α}
    (h : post_hooks hook ps r = (.ret 0, r')) : call_hook hook p r = (.ret 0, r') := by
  induction ps generalizing r with
  | nil => exact absurd hmem List.not_mem_nil
  | cons q ps ih =>
      obtain ⟨hq, hps⟩ := List.nodup_cons.mp hnodup
      obtain ⟨r₁, hcall, hrest⟩ := post_hooks_cons h
      by_cases hqp : q = p
      · -- the others come after it
        subst hqp
        have hidle' : ∀ a ∈ ps, Idle hook a := fun a ha =>
          hidle a (List.mem_cons_of_mem _ ha) (fun heq => hq (heq ▸ ha))
        rw [post_hooks_of_idle hidle' hrest]
        exact hcall
      · have hr₁ : r₁ = r := by
          have hsame := hidle q List.mem_cons_self hqp r
          rw [hcall] at hsame
          exact hsame
        rw [hr₁] at hrest
        exact ih (List.mem_of_ne_of_mem (Ne.symm hqp) hmem) hps
          (fun a ha => hidle a (List.mem_cons_of_mem _ ha)) hrest

/-! ## Recording -/

section Recording

variable {μ : Type} {w : World α μ}

/-- `post_init` of `transcribe`. -/
def trans_hook (w : World α μ) (fault_name : Text) : Hook α := fun r =>
  ((post w fault_name r none).1, (post w fault_name r none).2.1)

/-- The role of a registered plugin. -/
theorem update_role_eq (f : PluginType → PluginType → PluginType) (role : PluginType) {p : α}
    {r : Registry α} (hp : p ∈ r.keys) :
    update_role pl f (some p) role r =
      if (pl p).pl_type &&& role = role then (.ret 0, r.modify p fun old => f old role)
      else (.ret (-1), r) := by
  unfold update_role
  dsimp only
  by_cases hsub : (pl p).pl_type &&& role = role
  · rw [if_neg (not_not.mpr hsub), if_pos hp, if_pos hsub]
  · rw [if_pos hsub, if_neg hsub]

/-- `p` has got the role of a fault manager, if it can have it, and `transcribe` keeps
`PL_OTHER` only. -/
def Recorded (w : World α μ) (p : α) (r r' : Registry α) : Prop :=
  ∀ e ∈ r'.entries,
    (e.1 = w.trans ∧ e.2 = PL_OTHER) ∨
    (e.1 ≠ w.trans ∧ ∃ role, (e.1, role) ∈ r.entries ∧
      e.2 = if e.1 = p ∧ (w.pl p).has PL_FAULT_MANAGER = true then role ||| PL_FAULT_MANAGER
        else role)

/-- The hook gives the role to the plugin it was told to record. -/
theorem entries_trans_hook {fault_name : Text} {r r' : Registry α}
    (h : trans_hook w fault_name r = (.ret 0, r')) :
    ∃ p, get_by_name w.pl fault_name r = some p ∧ r'.keys = r.keys ∧ Recorded w p r r' := by
  obtain ⟨hpost, hreg⟩ := Prod.mk.inj h
  cases hp : get_by_name w.pl fault_name r with
  | none =>
      rw [post, hp] at hpost
      have hone : PostEnd.ret 1 = .ret 0 := hpost
      exact absurd hone (by decide)
  | some p =>
      -- the registry between the two calls
      have hmem := (get_by_name_eq_some hp).1
      obtain ⟨ret, r₁, hadd, hkeys₁, hentries₁⟩ : ∃ ret r₁,
          add_role w.pl (some p) PL_FAULT_MANAGER r = (.ret ret, r₁) ∧ r₁.keys = r.keys ∧
            ∀ e ∈ r₁.entries, ∃ role, (e.1, role) ∈ r.entries ∧
              e.2 = if e.1 = p ∧ (w.pl p).has PL_FAULT_MANAGER = true
                then role ||| PL_FAULT_MANAGER else role := by
        have hhas : (w.pl p).has PL_FAULT_MANAGER = true ↔
            (w.pl p).pl_type &&& PL_FAULT_MANAGER = PL_FAULT_MANAGER :=
          has_type_iff (w.pl p) .fault_manager
        rw [add_role, update_role_eq _ _ hmem]
        by_cases hcap : (w.pl p).pl_type &&& PL_FAULT_MANAGER = PL_FAULT_MANAGER
        · rw [if_pos hcap]
          refine ⟨0, _, rfl, OrdMap.keys_modify _ _ _, fun e he => ?_⟩
          rcases OrdMap.mem_modify.mp he with ⟨hne, he⟩ | ⟨heq, role, hrole, hval⟩
          · exact ⟨e.2, he, by rw [if_neg (fun hc => hne hc.1)]⟩
          · refine ⟨role, by rw [heq]; exact hrole, ?_⟩
            rw [if_pos ⟨heq, hhas.mpr hcap⟩]
            exact hval
        · rw [if_neg hcap]
          refine ⟨-1, r, rfl, rfl, fun e he => ⟨e.2, he, ?_⟩⟩
          rw [if_neg (fun hc => hcap (hhas.mp hc.2))]
      by_cases htrans : w.trans ∈ r₁.keys
      · have hset : set_role w.pl (some w.trans) PL_OTHER r₁
            = (.ret 0, r₁.modify w.trans fun _ => PL_OTHER) := by
          rw [set_role, update_role_eq _ _ htrans, w.pl_trans, if_pos (by decide)]
        have hr' : r' = r₁.modify w.trans fun _ => PL_OTHER := by
          rw [← hreg, post, hp]
          dsimp only
          rw [hadd]
          dsimp only
          rw [hset]
          dsimp only
          split
          · rfl
          · rfl
        refine ⟨p, rfl, by rw [hr', OrdMap.keys_modify, hkeys₁], fun e he => ?_⟩
        rw [hr'] at he
        rcases OrdMap.mem_modify.mp he with ⟨hne, he⟩ | ⟨heq, role, -, hval⟩
        · exact Or.inr ⟨hne, hentries₁ e he⟩
        · exact Or.inl ⟨heq, hval⟩
      · -- `set_role` throws
        have hset : set_role w.pl (some w.trans) PL_OTHER r₁ = (.out_of_range, r₁) := by
          rw [set_role, update_role, w.pl_trans, if_neg (by decide), if_neg htrans]
        rw [post, hp] at hpost
        dsimp only at hpost
        rw [hadd] at hpost
        dsimp only at hpost
        rw [hset] at hpost
        exact PostEnd.noConfusion hpost

/-- The roles of two different fields do not overlap. -/
theorem or_and_type (role : PluginType) {f : Field} (hf : f ≠ .fault_manager) :
    (role ||| PL_FAULT_MANAGER) &&& f.type = role &&& f.type := by
  have hzero : PL_FAULT_MANAGER &&& f.type = 0 := by
    cases f with
    | fault_manager => exact absurd rfl hf
    | com_actor => decide
    | com_notify => decide
    | logger => decide
  have hdistrib : (role ||| PL_FAULT_MANAGER) &&& f.type
      = (role &&& f.type) ||| (PL_FAULT_MANAGER &&& f.type) :=
    UInt64.toBitVec_inj.mp BitVec.and_or_distrib_right
  rw [hdistrib, hzero, UInt64.or_zero]

theorem or_and_self (role : PluginType) :
    (role ||| PL_FAULT_MANAGER) &&& PL_FAULT_MANAGER = PL_FAULT_MANAGER := by
  have hdistrib : (role ||| PL_FAULT_MANAGER) &&& PL_FAULT_MANAGER
      = (role &&& PL_FAULT_MANAGER) ||| (PL_FAULT_MANAGER &&& PL_FAULT_MANAGER) :=
    UInt64.toBitVec_inj.mp BitVec.and_or_distrib_right
  rw [hdistrib]
  rcases and_flag (t := PL_FAULT_MANAGER) (i := 2) (by decide) role with h | h
  · rw [h]
    decide
  · rw [h]
    decide

/-- A name is looked up among the keys. -/
theorem get_by_name_eq_find (name : Text) (r : Registry α) :
    get_by_name pl name r = r.keys.find? (fun p => streq name (pl p).name) := by
  rw [OrdMap.keys, List.find?_map]
  rfl

/-- Who is used as fault manager then. -/
theorem Recorded.fault_manager {p : α} {r r' : Registry α} (h : Recorded w p r r') {c : Conf α}
    (hrole : ∀ e ∈ r.entries, e.2 = uses c fields e.1)
    (hmanager : c.get .fault_manager = some w.trans) {e : α × PluginType} (he : e ∈ r'.entries) :
    e.2 &&& PL_FAULT_MANAGER = PL_FAULT_MANAGER ↔
      p = e.1 ∧ p ≠ w.trans ∧ (w.pl p).has PL_FAULT_MANAGER = true := by
  rcases h e he with ⟨heq, hval⟩ | ⟨hne, role, hmem, hval⟩
  · -- `transcribe` itself
    rw [hval]
    refine iff_of_false (by decide) ?_
    rintro ⟨hpe, hpt, -⟩
    exact hpt (hpe.trans heq)
  · -- before the hook `transcribe` was the only one
    have hno : ¬ role &&& PL_FAULT_MANAGER = PL_FAULT_MANAGER := by
      rw [show role = uses c fields e.1 from hrole _ hmem]
      intro hand
      have hget := (uses_and_type c .fault_manager e.1).mp hand
      exact hne (Option.some.inj (hget.symm.trans hmanager))
    rw [hval]
    by_cases hcase : e.1 = p ∧ (w.pl p).has PL_FAULT_MANAGER = true
    · rw [if_pos hcase]
      exact iff_of_true (or_and_self role) ⟨hcase.1.symm, hcase.1 ▸ hne, hcase.2⟩
    · rw [if_neg hcase]
      refine iff_of_false hno ?_
      rintro ⟨hpe, -, hcap⟩
      exact hcase ⟨hpe.symm, hcap⟩

/-- Who is used in the other roles. -/
theorem Recorded.other {p : α} {r r' : Registry α} (h : Recorded w p r r') {c : Conf α}
    (hrole : ∀ e ∈ r.entries, e.2 = uses c fields e.1) {f : Field} (hf : f ≠ .fault_manager)
    (hfits : ∀ q, c.get f = some q → (w.pl q).has f.type = true) {e : α × PluginType}
    (he : e ∈ r'.entries) : e.2 &&& f.type = f.type ↔ c.get f = some e.1 := by
  rcases h e he with ⟨heq, hval⟩ | ⟨hne, role, hmem, hval⟩
  · -- `transcribe` cannot be in the field
    rw [hval, heq]
    refine iff_of_false ?_ fun hsome => ?_
    · cases f <;> first | exact absurd rfl hf | decide
    · have hhas := hfits w.trans hsome
      rw [w.pl_trans] at hhas
      cases f <;> first | exact absurd rfl hf | exact absurd hhas (by decide)
  · have hrole' : e.2 &&& f.type = role &&& f.type := by
      rw [hval]
      split
      · exact or_and_type role hf
      · rfl
    rw [hrole', show role = uses c fields e.1 from hrole _ hmem]
    exact uses_and_type c f e.1

/-- **Roles with recording.** For every file that loads with libraries that only register
plugins and makes `transcribe` the fault manager, and hooks of the other plugins that leave
the roles alone: when all hooks have returned 0, the plugin used as fault manager is the one
`transcribe` was told to record, if that is another one and can be a fault manager, and none
otherwise; in the other roles are the plugins the file names. -/
theorem roles_of_recording (w : World α μ) (lib : Libraries α) (hlib : OnlyRegisters lib)
    (lines : List Text) (s : Loading α)
    (hload : load_config w.pl lib (some lines) Conf.initial OrdMap.empty = (.ret 0, s))
    (hmanager : s.conf.get .fault_manager = some w.trans) (fault_name : Text)
    (hook : α → Option (Hook α)) (htrans : hook w.trans = some (trans_hook w fault_name))
    (hidle : ∀ p ∈ s.plugins.keys, p ≠ w.trans → Idle hook p) (r r' : Registry α)
    (hroles : runCalls w.pl (role_calls s.conf) s.plugins = (true, r))
    (hhooks : post_hooks hook r.keys r = (.ret 0, r')) :
    get_by_type PL_FAULT_MANAGER r' = (get_by_name w.pl fault_name s.plugins).filter
        (fun p => decide (p ≠ w.trans ∧ (w.pl p).has PL_FAULT_MANAGER = true)) ∧
      ∀ f : Field, f ≠ .fault_manager → get_by_type f.type r' = s.conf.get f := by
  have hfits := fits_of_good (good_load_config hload)
  obtain ⟨r₀, hrun, hkeys, -, hrole⟩ := exists_roles hlib hload
  obtain rfl : r₀ = r := congrArg Prod.snd (hrun.symm.trans hroles)
  have hmem : w.trans ∈ r₀.keys := by
    rw [hkeys]
    exact (hfits _ _ hmanager).1
  have hhook : call_hook hook w.trans r₀ = (.ret 0, r') :=
    post_hooks_of_one hmem r₀.keys_nodup (fun q hq => hidle q (hkeys ▸ hq)) hhooks
  rw [call_hook, htrans] at hhook
  obtain ⟨p, hp, hkeys', hentries⟩ := entries_trans_hook hhook
  have hp' : get_by_name w.pl fault_name s.plugins = some p := by
    rw [get_by_name_eq_find, ← hkeys, ← get_by_name_eq_find]
    exact hp
  -- what the recorded plugin has to be
  have hchosen : ∀ q, (some p).filter (fun p => decide (p ≠ w.trans ∧
      (w.pl p).has PL_FAULT_MANAGER = true)) = some q ↔
        p = q ∧ p ≠ w.trans ∧ (w.pl p).has PL_FAULT_MANAGER = true := by
    intro q
    rw [Option.filter_eq_some_iff, Option.some.injEq, decide_eq_true_eq]
    constructor
    · rintro ⟨rfl, h⟩
      exact ⟨rfl, h⟩
    · rintro ⟨rfl, h⟩
      exact ⟨rfl, h⟩
  constructor
  · rw [hp']
    refine get_by_type_eq (fun e he => ?_) (fun q hq => ?_)
    · rw [hchosen]
      exact hentries.fault_manager hrole hmanager he
    · obtain ⟨hpe, -⟩ := (hchosen q).mp hq
      rw [hkeys', ← hpe]
      exact (get_by_name_eq_some hp).1
  · intro f hf
    refine get_by_type_eq (fun e he => ?_) (fun q hq => ?_)
    · exact hentries.other hrole hf (fun q hq => (hfits f q hq).2) he
    · rw [hkeys', hkeys]
      exact (hfits f q hq).1

/-- `transcribe`, a fault manager `r` and a plugin for both directions of communication. -/
def recorder : World ℕ ℕ where
  pl := fun n =>
    if n = 0 then trans_plugin
    else if n = 1 then { name := "r".toList, pl_type := 4 }
    else { name := "com".toList, pl_type := 3 }
  fm := fun n => if n < 2 then some n else none
  trans := 0
  own := 0
  pl_trans := rfl
  fm_trans := rfl

def recorderLib : Libraries ℕ := fun n _ _ => (0, [.register_plugin n])

def recorderFile : List Text :=
  ["[libs]".toList, "transcribe.so".toList, "r.so".toList, "com.so".toList, "[config]".toList,
    "com = com".toList, "manager = transcribe".toList]

def recorderHook (p : ℕ) : Option (Hook ℕ) :=
  if p = 0 then some (trans_hook recorder "r".toList) else none

theorem roles_of_recording_r :
    ∃ s r r', load_config recorder.pl recorderLib (some recorderFile) Conf.initial OrdMap.empty
        = (.ret 0, s) ∧
      runCalls recorder.pl (role_calls s.conf) s.plugins = (true, r) ∧
      post_hooks recorderHook r.keys r = (.ret 0, r') ∧
      get_by_type PL_FAULT_MANAGER r' = (get_by_name recorder.pl "r".toList s.plugins).filter
        (fun p => decide (p ≠ recorder.trans ∧ (recorder.pl p).has PL_FAULT_MANAGER = true)) := by
  have hlib : OnlyRegisters recorderLib := fun n name args c hc => ⟨n, List.mem_singleton.mp hc⟩
  have hidle : ∀ p, p ≠ recorder.trans → Idle recorderHook p := by
    intro p hp r
    have hnone : recorderHook p = none := if_neg hp
    rw [call_hook, hnone]
  obtain ⟨s, hload, hmanager, r, hroles, r', hhooks⟩ : ∃ s,
      load_config recorder.pl recorderLib (some recorderFile) Conf.initial OrdMap.empty
        = (.ret 0, s) ∧ s.conf.get .fault_manager = some recorder.trans ∧
      ∃ r, runCalls recorder.pl (role_calls s.conf) s.plugins = (true, r) ∧
        ∃ r', post_hooks recorderHook r.keys r = (.ret 0, r') :=
    ⟨_, Prod.ext (by decide +kernel) rfl, by decide +kernel, _,
      Prod.ext (by decide +kernel) rfl, _, Prod.ext (by decide +kernel) rfl⟩
  exact ⟨s, r, r', hload, hroles, hhooks, (roles_of_recording recorder recorderLib hlib
    recorderFile s hload hmanager "r".toList recorderHook rfl (fun p _ => hidle p) r r' hroles
    hhooks).1⟩

end Recording

end LauSim.Boot
