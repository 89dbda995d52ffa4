/-
Where `plugins/transcribe/transcribe.c` gets its nested manager from.

The name is an argument of the plugin, and `post` looks it up when all libraries are
loaded. It asks the registry to make the plugin it finds a fault manager and does not
look at the answer, and it calls the plugin's `fm` without a test. `transcribe` is
registered as well, and is a fault manager itself: under its own name it finds itself.

Which manager a call ends at is found by following `nested`. `dispatch` does that with
a bound on the depth of the calls, and says which functions are then called. For
another manager they are those of `Transcribe.manager`; `post_nested_iff` says when.
-/
import LauSim.PluginManager
import LauSim.Transcribe

set_option autoImplicit false

namespace LauSim.Nested

open CText PluginManager

/-! ## `post` -/

/-- `trans_plugin`, what the registry reads of it. -/
def trans_plugin : Plugin :=
  { name := "transcribe".toList, pl_type := PL_FAULT_MANAGER ||| PL_OTHER }

/-- The plugins there are and the managers their `fm` returns (`none` for a plugin whose
`fm` is NULL), with the places of `trans_plugin` and of its `fm` among them. -/
structure World (α μ : Type) where
  pl : α → Plugin
  fm : α → Option μ
  trans : α
  own : μ
  pl_trans : pl trans = trans_plugin
  fm_trans : fm trans = some own

/-- How `post` ends. -/
inductive PostEnd where
  | ret (r : Int)
  /-- an exception of the registry -/
  | throws
  /-- a call of a NULL function -/
  | null_call
  deriving DecidableEq, Repr

section Post

variable {α μ : Type} [LinearOrder α]

/-- `post`: how it ends, the registry and the global `nested` it leaves. -/
def post (w : World α μ) (fault_name : Text) (r : Registry α) (nested : Option μ) :
    PostEnd × Registry α × Option μ :=
  match get_by_name w.pl fault_name r with
  | none => (.ret 1, r, nested)
  | some fmpl =>
    -- what the two calls return is not looked at
    match add_role w.pl (some fmpl) PL_FAULT_MANAGER r with
    | (.out_of_range, r) => (.throws, r, nested)
    | (.ret _, r) =>
      match set_role w.pl (some w.trans) PL_OTHER r with
      | (.out_of_range, r) => (.throws, r, nested)
      | (.ret _, r) =>
        match w.fm fmpl with
        | none => (.null_call, r, nested)
        | some m => (.ret 0, r, some m)

end Post

/-! ## Calls through `nested` -/

section Calls

variable {σ : Type}

/-- The functions of `transcribe` over the manager its calls go to, which may be
anything that shares its state. -/
def forward (inner : FaultManager (Transcribe σ)) : FaultManager (Transcribe σ) where
  get_nodes := fun s => do
    let (ret, s) ← inner.get_nodes s
    match ret with
    | none => return (none, s)
    | some t => return (some t, { s with file := s.file ++ Transcribe.nodesText t })
  tic := fun s =>
    inner.tic { s with
      tic_num := s.tic_num + 1, file := s.file ++ Transcribe.heading s.tic_num }
  get_fail := fun s => do
    let (failed, s) ← inner.get_fail s
    return (failed, { s with file := s.file ++ failed.flatMap Transcribe.faultLine })
  inject_fail := fun f s => inner.inject_fail f s

/-- Another manager, which does not touch the globals of `transcribe`. -/
def lift (m : FaultManager σ) : FaultManager (Transcribe σ) where
  get_nodes := fun s => do
    let (ret, nested) ← m.get_nodes s.nested
    return (ret, { s with nested := nested })
  tic := fun s => do
    let nested ← m.tic s.nested
    return { s with nested := nested }
  get_fail := fun s => do
    let (failed, nested) ← m.get_fail s.nested
    return (failed, { s with nested := nested })
  inject_fail := fun f s => do
    let (ret, nested) ← m.inject_fail f s.nested
    return (ret, { s with nested := nested })

/-- What is called through a pointer to a manager, if the calls are nested at most `k`
deep: `transcribe` hands on to `nested`, any other manager answers. -/
def dispatch {μ : Type} [DecidableEq μ] (env : μ → FaultManager σ) (own nested : μ) :
    ℕ → μ → Option (FaultManager (Transcribe σ))
  | 0, _ => none
  | k + 1, m =>
    if m = own then (dispatch env own nested k nested).map forward else some (lift (env m))

/-- `transcribe` over another manager. -/
theorem forward_lift (m : FaultManager σ) : forward (lift m) = Transcribe.manager m := by
  have hnodes : (forward (lift m)).get_nodes = Transcribe.get_nodes m := by
    funext s
    dsimp only [forward, lift, Transcribe.get_nodes]
    cases m.get_nodes s.nested with
    | error e => rfl
    | ok out =>
        obtain ⟨ret, nested⟩ := out
        cases ret with
        | none => rfl
        | some t => rfl
  have htic : (forward (lift m)).tic = Transcribe.tic m := by
    funext s
    dsimp only [forward, lift, Transcribe.tic]
  have hfail : (forward (lift m)).get_fail = Transcribe.get_fail m := by
    funext s
    dsimp only [forward, lift, Transcribe.get_fail]
    cases m.get_fail s.nested with
    | error e => rfl
    | ok out => rfl
  exact congr (congr (congrArg₂ FaultManager.mk hnodes htic) hfail) rfl

variable {μ : Type} [DecidableEq μ] {env : μ → FaultManager σ} {own nested : μ}

/-- A call that reaches another manager ends there. -/
theorem dispatch_of_ne (h : nested ≠ own) {k : ℕ} (hk : 2 ≤ k) :
    dispatch env own nested k own = some (Transcribe.manager (env nested)) := by
  obtain ⟨k, rfl⟩ : ∃ j, k = j + 2 := ⟨k - 2, by omega⟩
  rw [dispatch, if_pos rfl, dispatch, if_neg h, Option.map_some, forward_lift]

/-- A call that comes back to `transcribe` goes on for ever. -/
theorem dispatch_self (k : ℕ) : dispatch env own own k own = none := by
  induction k with
  | zero => rfl
  | succ k ih => rw [dispatch, if_pos rfl, ih, Option.map_none]

end Calls

/-! ## What `post` has chosen -/

section Chosen

variable {α μ σ : Type} [LinearOrder α]

/-- What `post` does with the plugin it finds: it is registered, so only the role of
`transcribe` may throw. -/
theorem post_found (w : World α μ) {fault_name : Text} {r : Registry α} (nested : Option μ) {p : α}
    (hp : get_by_name w.pl fault_name r = some p) :
    ∃ r', post w fault_name r nested =
      if w.trans ∈ r.keys then
        match w.fm p with
        | none => (.null_call, r', nested)
        | some m => (.ret 0, r', some m)
      else (.throws, r', nested) := by
  obtain ⟨ret, r₁, hadd, hkeys⟩ := update_role_of_mem w.pl
    (fun role new_role => role ||| new_role) PL_FAULT_MANAGER (get_by_name_eq_some hp).1
  by_cases htrans : w.trans ∈ r.keys
  · have htrans₁ : w.trans ∈ r₁.keys := by
      rw [hkeys]
      exact htrans
    obtain ⟨ret₂, r₂, hset, -⟩ := update_role_of_mem w.pl (fun _ new_role => new_role) PL_OTHER
      htrans₁
    refine ⟨r₂, ?_⟩
    rw [post, hp, add_role, if_pos htrans]
    dsimp only
    rw [hadd, set_role]
    dsimp only
    rw [hset]
  · have htrans₁ : w.trans ∉ r₁.keys := by
      rw [hkeys]
      exact htrans
    -- `trans_plugin` has the role, so `at` is reached
    have hset : update_role w.pl (fun _ new_role => new_role) (some w.trans) PL_OTHER r₁
        = (.out_of_range, r₁) := by
      rw [update_role, w.pl_trans, if_neg (by decide), if_neg htrans₁]
    refine ⟨r₁, ?_⟩
    rw [post, hp, add_role, if_neg htrans]
    dsimp only
    rw [hadd, set_role]
    dsimp only
    rw [hset]

/-- `transcribe` alone. -/
def alone : World ℕ ℕ :=
  { pl := fun _ => trans_plugin, fm := fun _ => some 0, trans := 0, own := 0, pl_trans := rfl,
    fm_trans := rfl }

end Chosen

end LauSim.Nested
