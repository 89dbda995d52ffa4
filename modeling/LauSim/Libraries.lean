/-
The libraries the plugins come from (`plugin_manager::load_library` in
`srv/plugin_internal.cpp`, `srv/library.cpp`).

A library registers its plugins from inside its own `init`, through the interface
of the manager, and only then says whether `init` succeeded. When it did not, the
`library` object goes out of scope and the shared object is unloaded, but what has
been registered stays: the registry then holds pointers into memory that is gone.

What a file does is an input: whether it can be opened, whether it has an `init`,
which plugins that registers and what it returns. Every plugin belongs to a library
that is held exactly as long as no failing `init` registers anything (`owned_iff`).
-/
import LauSim.Lib.Runs
import LauSim.PluginManager

set_option autoImplicit false

namespace LauSim.PluginManager

open CText Runs

/-- A file for `load_library`: whether `library::open` succeeds, and its `init` if
there is such a symbol, as the plugins it registers, in order, and what it returns. -/
structure Library (α : Type) where
  opens : Bool
  init : Option (List α × Int)
  deriving DecidableEq, Repr

/-- The manager. Each library it holds stands for the plugins its `init` has registered. -/
structure Manager (α : Type) [LinearOrder α] where
  plugins : Registry α
  libraries : List (List α)

variable {α : Type} [LinearOrder α] (pl : α → Plugin)

/-- The state `get_instance` creates. -/
def Manager.fresh : Manager α := { plugins := OrdMap.empty, libraries := [] }

/-- What `init` does to the registry, and which registrations have succeeded. -/
def init : List α → Registry α → Registry α × List α
  | [], r => (r, [])
  | p :: ps, r =>
    let out := register_plugin pl p r
    let rest := init ps out.2
    (rest.1, if out.1 = .ret 0 then p :: rest.2 else rest.2)

/-- On every path but the last, `nlib` is destroyed and its shared object unloaded. -/
def load_library (lib : Library α) (m : Manager α) : Int × Manager α :=
  if !lib.opens then (-1, m)
  else
    match lib.init with
    | none => (-2, m)
    | some (ps, status) =>
      let out := init pl ps m.plugins
      if status ≠ 0 then (-3, { m with plugins := out.1 })
      else (0, { plugins := out.1, libraries := m.libraries ++ [out.2] })

/-- The manager after one more file. -/
def load (m : Manager α) (lib : Library α) : Manager α := (load_library pl lib m).2

/-! ## One `init` -/

/-- The test of `register_plugin`. -/
def Refused (r : Registry α) (p : α) : Prop :=
  (get_by_name pl (pl p).name r).isSome ∨ p ∈ r.keys

variable {pl}

theorem register_plugin_of_refused {r : Registry α} {p : α} (h : Refused pl r p) :
    register_plugin pl p r = (.ret (-1), r) :=
  if_pos h

theorem register_plugin_of_not_refused {r : Registry α} {p : α} (h : ¬ Refused pl r p) :
    register_plugin pl p r = (.ret 0, r.emplace p PL_NONE) :=
  if_neg h

/-- The registry has the old plugins and those whose registration has succeeded. -/
theorem mem_keys_init (ps : List α) (r : Registry α) (p : α) :
    p ∈ (init pl ps r).1.keys ↔ p ∈ r.keys ∨ p ∈ (init pl ps r).2 := by
  induction ps generalizing r with
  | nil => simp [init]
  | cons q ps ih =>
      by_cases hq : Refused pl r q
      · simp only [init, register_plugin_of_refused hq]
        rw [if_neg (by decide)]
        exact ih r
      · have hnew : q ∉ r.keys := fun h => hq (Or.inr h)
        simp only [init, register_plugin_of_not_refused hq, if_true, List.mem_cons]
        rw [ih, OrdMap.mem_keys_emplace hnew, or_assoc]

/-- `init` leaves the registry alone exactly if every registration is refused. -/
theorem init_eq_iff (ps : List α) (r : Registry α) :
    (init pl ps r).1 = r ↔ ∀ p ∈ ps, Refused pl r p := by
  induction ps with
  | nil => simp [init]
  | cons q ps ih =>
      rw [List.forall_mem_cons, ← ih]
      by_cases hq : Refused pl r q
      · simp only [init, register_plugin_of_refused hq, hq, true_and]
      · have hnew : q ∉ r.keys := fun h => hq (Or.inr h)
        -- the first one that is accepted stays in the registry
        have hmem : q ∈ (init pl (q :: ps) r).1.keys := by
          rw [mem_keys_init]
          right
          simp only [init, register_plugin_of_not_refused hq, if_true]
          exact List.mem_cons_self
        refine iff_of_false ?_ (fun h => hq h.1)
        intro heq
        rw [heq] at hmem
        exact hnew hmem

/-! ## Every plugin belongs to a library -/

/-- Every registered plugin was registered by the `init` of a library that is held. -/
def Owned (m : Manager α) : Prop := ∀ p ∈ m.plugins.keys, ∃ lib ∈ m.libraries, p ∈ lib

variable (pl)

/-- A call that fails leaves the registry as it was. -/
def Restores (m : Manager α) (lib : Library α) : Prop :=
  (load_library pl lib m).1 ≠ 0 → (load_library pl lib m).2.plugins = m.plugins

/-- An `init` that is going to fail registers nothing: whatever it tries is refused. -/
def FailsClean (m : Manager α) (lib : Library α) : Prop :=
  lib.opens = true → ∀ ps status, lib.init = some (ps, status) → status ≠ 0 →
    ∀ p ∈ ps, Refused pl m.plugins p

variable {pl}

/-- Everything a call can do. -/
theorem load_library_cases (pl : α → Plugin) (lib : Library α) (m : Manager α) :
    ((load_library pl lib m).1 ≠ 0 ∧ load pl m lib = m ∧ FailsClean pl m lib) ∨
    (∃ ps status, lib.opens = true ∧ lib.init = some (ps, status) ∧ status ≠ 0 ∧
      (load_library pl lib m).1 ≠ 0 ∧
      load pl m lib = { m with plugins := (init pl ps m.plugins).1 }) ∨
    (∃ ps, lib.init = some (ps, 0) ∧ (load_library pl lib m).1 = 0 ∧
      load pl m lib = { plugins := (init pl ps m.plugins).1,
                        libraries := m.libraries ++ [(init pl ps m.plugins).2] }) := by
  unfold load load_library
  by_cases hopen : lib.opens = true
  · simp only [hopen, Bool.not_true, Bool.false_eq_true, if_false]
    cases hinit : lib.init with
    | none =>
        refine Or.inl ⟨by simp, rfl, ?_⟩
        intro _ ps status hsome
        rw [hinit] at hsome
        exact absurd hsome (by simp)
    | some out =>
        obtain ⟨ps, status⟩ := out
        dsimp only
        by_cases hstatus : status = 0
        · subst hstatus
          rw [if_neg (by decide)]
          exact Or.inr (Or.inr ⟨ps, rfl, rfl, rfl⟩)
        · rw [if_pos hstatus]
          exact Or.inr (Or.inl ⟨ps, status, trivial, rfl, hstatus, by simp, rfl⟩)
  · have hclosed : lib.opens = false := by simpa using hopen
    have hnot : (!lib.opens) = true := by rw [hclosed]; rfl
    rw [if_pos hnot]
    refine Or.inl ⟨by simp, rfl, fun habs => absurd habs hopen⟩

theorem restores_iff (m : Manager α) (lib : Library α) :
    Restores pl m lib ↔ FailsClean pl m lib := by
  rcases load_library_cases pl lib m with
    ⟨-, hsame, hclean⟩ | ⟨ps, status, hopen, hinit, hstatus, hret, hload⟩ | ⟨ps, hinit, hret, -⟩
  · exact iff_of_true (fun _ => congrArg Manager.plugins hsame) hclean
  · have hplugins : (load_library pl lib m).2.plugins = (init pl ps m.plugins).1 :=
      congrArg Manager.plugins hload
    rw [Restores, hplugins, init_eq_iff]
    constructor
    · intro h _ ps' status' hinit' _
      rw [hinit, Option.some_inj, Prod.mk.injEq] at hinit'
      rw [← hinit'.1]
      exact h hret
    · intro h _
      exact h hopen ps status hinit hstatus
  · refine iff_of_true (fun h => absurd hret h) ?_
    intro _ ps' status hinit' hstatus
    rw [hinit, Option.some_inj, Prod.mk.injEq] at hinit'
    exact absurd hinit'.2.symm hstatus

theorem owned_load {m : Manager α} {lib : Library α} (h : Owned m) (hclean : FailsClean pl m lib) :
    Owned (load pl m lib) := by
  rcases load_library_cases pl lib m with
    ⟨-, hsame, -⟩ | ⟨ps, status, hopen, hinit, hstatus, -, hload⟩ | ⟨ps, -, -, hload⟩
  · rw [hsame]
    exact h
  · have hkeep := (init_eq_iff ps m.plugins).mpr (hclean hopen ps status hinit hstatus)
    rw [hload, hkeep]
    exact h
  · rw [hload]
    intro p hp
    rcases (mem_keys_init ps m.plugins p).mp hp with hold | hnew
    · obtain ⟨held, hheld, hmem⟩ := h p hold
      exact ⟨held, List.mem_append_left _ hheld, hmem⟩
    · exact ⟨_, List.mem_append_right _ (List.mem_singleton_self _), hnew⟩

/-- **Plugins and their libraries, exactly.** For every sequence of files: every
registered plugin belongs to a library that is held, after each call, and a call
that fails leaves the registry as it was, exactly if every plugin that a failing
`init` tries to register is refused. -/
theorem owned_iff (pl : α → Plugin) (libs : List (Library α)) :
    (Always (load pl) Owned Manager.fresh libs ∧
      EachStep (load pl) (Restores pl) Manager.fresh libs) ↔
    EachStep (load pl) (FailsClean pl) Manager.fresh libs := by
  have hsteps : EachStep (load pl) (Restores pl) Manager.fresh libs ↔
      EachStep (load pl) (FailsClean pl) Manager.fresh libs :=
    forall_congr' (fun _ => forall_congr' (fun _ => imp_congr_right (fun _ => restores_iff _ _)))
  rw [hsteps]
  constructor
  · exact And.right
  · intro h
    refine ⟨always_of_eachStep ?_ (fun m lib => owned_load) h, h⟩
    intro p hp
    exact absurd hp List.not_mem_nil

/-- A library registers a plugin, then its `init` fails. -/
theorem not_owned_failed_init :
    ¬ (Always (load (fun _ : ℕ => Plugin.mk "p".toList PL_LOGGER)) Owned Manager.fresh
          [{ opens := true, init := some ([0], 1) }] ∧
        EachStep (load (fun _ : ℕ => Plugin.mk "p".toList PL_LOGGER))
          (Restores (fun _ : ℕ => Plugin.mk "p".toList PL_LOGGER)) Manager.fresh
          [{ opens := true, init := some ([0], 1) }]) := by
  rintro ⟨howned, -⟩
  obtain ⟨lib, hlib, -⟩ := howned _ List.prefix_rfl 0 (List.mem_singleton_self _)
  exact absurd hlib List.not_mem_nil

end LauSim.PluginManager
