/-
`plugins/transcribe/transcribe.c`: the recording fault manager.

It forwards every call to the nested manager and writes what it saw: the node
table once, a heading for each tic, a line for each fault. The model is a
`FaultManager` over the nested one, so that it can be nested itself. `tic_num`
is the 64-bit `size_t` it is printed from with `%ld`, and severities are the
32-bit `unsigned` printed with `%d`: both conversions print the signed reading.

`transcript` is the file of a whole run; `drive_manager` says that recording
changes nothing about the run and leaves exactly that text behind.
-/
import LauSim.FaultManager

set_option autoImplicit false

namespace LauSim

open CText

/-- The globals of the plugin, with the state of the nested manager. -/
structure Transcribe (σ : Type) where
  tic_num : UInt64
  file : Text
  nested : σ

namespace Transcribe

variable {σ : Type}

/-! ## The lines it writes -/

/-- `"%s,%u"`, then `",%s"` for each component, then a newline. -/
def nodeLine (n : Node) : Text :=
  n.name ++ ',' :: (fmtU n.num_components ++
    (n.components.flatMap (fun c => ',' :: c.name) ++ ['\n']))

/-- `"%zu\n"`, then a line for each node. -/
def nodesText (t : NodeTable) : Text :=
  fmtU t.1.length ++ '\n' :: t.1.flatMap nodeLine

/-- `"[tic#%ld]\n"`. -/
def heading (n : UInt64) : Text :=
  "[tic#".toList ++ (fmtD 64 n.toNat ++ "]\n".toList)

/-- `"%s,%s,%d\n"`, with the empty string for a NULL component. -/
def faultLine (f : Fault) : Text :=
  f.node ++ ',' :: ((f.component.getD []) ++ ',' :: (fmtD 32 f.severity.toNat ++ ['\n']))

/-! ## The plugin's functions -/

def get_nodes (m : FaultManager σ) (s : Transcribe σ) :
    Except Undef (Option NodeTable × Transcribe σ) := do
  let (ret, nested) ← m.get_nodes s.nested
  match ret with
  | none => return (none, { s with nested := nested })
  | some t => return (some t, { s with nested := nested, file := s.file ++ nodesText t })

def tic (m : FaultManager σ) (s : Transcribe σ) : Except Undef (Transcribe σ) := do
  -- the heading is written before the nested manager moves
  let file := s.file ++ heading s.tic_num
  let nested ← m.tic s.nested
  return { tic_num := s.tic_num + 1, file := file, nested := nested }

def get_fail (m : FaultManager σ) (s : Transcribe σ) :
    Except Undef (List Fault × Transcribe σ) := do
  let (failed, nested) ← m.get_fail s.nested
  return (failed, { s with nested := nested, file := s.file ++ failed.flatMap faultLine })

def inject_fail (m : FaultManager σ) (f : Fault) (s : Transcribe σ) :
    Except Undef (Int × Transcribe σ) := do
  let (ret, nested) ← m.inject_fail f s.nested
  return (ret, { s with nested := nested })

/-- `fm`. -/
def manager (m : FaultManager σ) : FaultManager (Transcribe σ) where
  get_nodes := get_nodes m
  tic := tic m
  get_fail := get_fail m
  inject_fail := inject_fail m

/-- The state `init` leaves: the file just opened for writing, no tic yet. -/
def init (nested : σ) : Transcribe σ := { tic_num := 0, file := [], nested := nested }

/-- A tic writes the heading of its number and moves on to the next. -/
theorem tic_ok {m : FaultManager σ} {s s' : Transcribe σ} (h : (manager m).tic s = .ok s') :
    s'.tic_num = s.tic_num + 1 ∧ s'.file = s.file ++ heading s.tic_num := by
  obtain ⟨nested, -, h⟩ := FaultManager.bind_eq_ok h
  rw [← Except.ok.inj h]
  exact ⟨rfl, rfl⟩

/-- The faults are written as they are handed on. -/
theorem get_fail_ok {m : FaultManager σ} {s s' : Transcribe σ} {fs : List Fault}
    (h : (manager m).get_fail s = .ok (fs, s')) :
    s'.tic_num = s.tic_num ∧ s'.file = s.file ++ fs.flatMap faultLine := by
  obtain ⟨⟨failed, nested⟩, -, h⟩ := FaultManager.bind_eq_ok h
  obtain ⟨rfl, rfl⟩ := Prod.mk.inj (Except.ok.inj h)
  exact ⟨rfl, rfl⟩

/-! ## The file of a run -/

/-- What the rounds from tic `k` on write, for the fault lists `fss`. -/
def ticsText : UInt64 → List (List Fault) → Text
  | _, [] => []
  | k, fs :: fss => heading k ++ (fs.flatMap faultLine ++ ticsText (k + 1) fss)

/-- The file of a run with node table `t` and fault lists `fss`. -/
def transcript (t : NodeTable) (fss : List (List Fault)) : Text :=
  nodesText t ++ ticsText 0 fss

/-- The rounds of a recorded run are those of the nested manager, and append
`ticsText` to the file. -/
theorem tics_manager {m : FaultManager σ} {n : Nat} {s s' : σ} {fss : List (List Fault)}
    (h : m.tics n s = .ok (fss, s')) (k : UInt64) (file : Text) :
    (manager m).tics n { tic_num := k, file := file, nested := s } =
      .ok (fss, { tic_num := k + UInt64.ofNat n, file := file ++ ticsText k fss, nested := s' }) := by
  induction n generalizing s fss k file with
  | zero =>
      simp only [FaultManager.tics, Except.ok.injEq, Prod.mk.injEq] at h
      obtain ⟨rfl, rfl⟩ := h
      simp [FaultManager.tics, ticsText]
  | succ n ih =>
      -- the nested round, and the two writes around it
      obtain ⟨s₁, fs, s₂, gss, htic, hget, hrest, rfl⟩ := FaultManager.tics_succ_inv h
      have hticR : (manager m).tic { tic_num := k, file := file, nested := s }
          = .ok { tic_num := k + 1, file := file ++ heading k, nested := s₁ } := by
        simp [manager, tic, htic, bind, Except.bind, pure, Except.pure]
      have hgetR : (manager m).get_fail { tic_num := k + 1, file := file ++ heading k, nested := s₁ }
          = .ok (fs, { tic_num := k + 1, file := file ++ heading k ++ fs.flatMap faultLine,
                       nested := s₂ }) := by
        simp [manager, get_fail, hget, bind, Except.bind, pure, Except.pure]
      have hcount : k + 1 + UInt64.ofNat n = k + UInt64.ofNat (n + 1) := by
        rw [UInt64.ofNat_add, UInt64.add_assoc, UInt64.add_comm (UInt64.ofNat n)]
        rfl
      have htail := ih hrest (k + 1) (file ++ heading k ++ fs.flatMap faultLine)
      rw [FaultManager.tics_succ hticR hgetR htail, hcount, ticsText]
      simp only [List.append_assoc]

/-- **Recording is transparent.** A run that gives the nested manager's table
and lists gives them through `transcribe` as well, and leaves the transcript of
the run in the file. -/
theorem drive_manager {m : FaultManager σ} {n : Nat} {s s' : σ} {t : NodeTable}
    {fss : List (List Fault)} (h : m.drive n s = .ok (some (t, fss), s')) :
    ∃ r, (manager m).drive n (init s) = .ok (some (t, fss), r) ∧
      r.file = transcript t fss := by
  obtain ⟨s₁, hnodes, htics⟩ := FaultManager.drive_some_inv h
  have hnodesR : (manager m).get_nodes (init s)
      = .ok (some t, { tic_num := 0, file := [] ++ nodesText t, nested := s₁ }) := by
    simp [manager, get_nodes, init, hnodes, bind, Except.bind, pure, Except.pure]
  exact ⟨_, FaultManager.drive_some hnodesR (tics_manager htics 0 _), rfl⟩

end Transcribe

end LauSim
