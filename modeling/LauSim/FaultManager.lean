/-
The data model of `include/lausim/node.h` and `include/lausim/fault_manager.h`,
and the way `srv/server.cpp` drives a fault manager.

A fault manager is a record of C functions over global state; here the state is
a parameter `σ` and every function is a state transformer. What C leaves
undefined (a NULL token handed to `strlen`, a local read before it is written)
is the error of `Except Undef`, so "returns" always means "returns without
undefined behaviour". `get_nodes` answers `none` for every non-zero return:
`Server::init` and `transcribe` test it against 0 only.
-/
import LauSim.Lib.CText

set_option autoImplicit false

namespace LauSim

open CText

/-- The two ways the plugins leave the C standard. -/
inductive Undef where
  /-- the NULL pointer `strtok` returned is used as a string -/
  | nullToken
  /-- `num` of `get_tic_num` is read before it is written -/
  | unassigned
  deriving DecidableEq, Repr

/-- `node_type_t`. -/
inductive NodeType where
  | uniform_node | network_switch | pdu
  deriving DecidableEq, Repr

/-- The `NODE_STATE_*` values of `node::state`. -/
inductive NodeState where
  | UNKNOWN | READY | ERROR | FINISHED
  deriving DecidableEq, Repr

/-- `component`. -/
structure Component where
  name : Text
  severity : UInt32
  deriving DecidableEq, Repr

/-- `node`. The array `components` has `num_components` entries, an `unsigned`. -/
structure Node where
  name : Text
  id : Int32
  type : NodeType
  state : NodeState
  components : List Component
  num_lt : components.length < 2 ^ 32
  deriving DecidableEq, Repr

/-- `node::num_components`. -/
def Node.num_components (n : Node) : Nat := n.components.length

/-- What `get_nodes` hands out: `*num_nodes`, a `size_t`, entries. -/
abbrev NodeTable := { ns : List Node // ns.length < 2 ^ 64 }

/-- The table of one node with at most one component. -/
def NodeTable.single (node : Text) (component : Option Text) : NodeTable :=
  ⟨[{ name := node, id := 0, type := .uniform_node, state := .UNKNOWN,
      components := component.toList.map (fun c => { name := c, severity := 0 }),
      num_lt := by cases component <;> simp }], by simp⟩

theorem NodeTable.single_unknown (node : Text) (component : Option Text) :
    ∀ n ∈ (NodeTable.single node component).1, n.state = .UNKNOWN := by
  simp [NodeTable.single]

/-- The same, as a table in which nobody has reported. -/
def NodeTable.fresh (node : Text) (component : Option Text) :
    { t : NodeTable // ∀ n ∈ t.1, n.state = .UNKNOWN } :=
  ⟨.single node component, NodeTable.single_unknown node component⟩

/-- `fault`. A missing component is NULL. -/
structure Fault where
  id : Int32
  name : Option Text
  component : Option Text
  node : Text
  severity : UInt32
  deriving DecidableEq, Repr

/-- What a fault means to the server: `Server::manage_fails` reads these three
fields and nothing else. -/
def Fault.triple (f : Fault) : Text × Option Text × UInt32 := (f.node, f.component, f.severity)

/-- What a node table means to the server: the names of the nodes and of their
components. -/
def NodeTable.names (t : NodeTable) : List (Text × List Text) :=
  t.1.map (fun n => (n.name, n.components.map Component.name))

/-- `fault_manager`, over its state. -/
structure FaultManager (σ : Type) where
  get_nodes : σ → Except Undef (Option NodeTable × σ)
  tic : σ → Except Undef σ
  get_fail : σ → Except Undef (List Fault × σ)
  inject_fail : Fault → σ → Except Undef (Int × σ)

namespace FaultManager

variable {σ : Type}

/-- `n` rounds of `tic` followed by one `get_fail`, as `Server::do_tic` makes
them, with the fault list of every round. -/
def tics (m : FaultManager σ) : Nat → σ → Except Undef (List (List Fault) × σ)
  | 0, s => .ok ([], s)
  | n + 1, s => do
    let s ← m.tic s
    let (fs, s) ← m.get_fail s
    let (fss, s) ← tics m n s
    return (fs :: fss, s)

/-- One run as the server makes it: `get_nodes` once (`Server::init` gives up
if it fails), then `n` rounds. -/
def drive (m : FaultManager σ) (n : Nat) (s : σ) :
    Except Undef (Option (NodeTable × List (List Fault)) × σ) := do
  let (t, s) ← m.get_nodes s
  match t with
  | none => return (none, s)
  | some t =>
    let (fss, s) ← m.tics n s
    return (some (t, fss), s)

/-! ## One round at a time -/

/-- A sequence of two calls that returns is made of two calls that return. -/
theorem bind_eq_ok {ε α β : Type} {x : Except ε α} {f : α → Except ε β} {b : β}
    (h : x >>= f = .ok b) : ∃ a, x = .ok a ∧ f a = .ok b := by
  cases x with
  | error e => simp [bind, Except.bind] at h
  | ok a => exact ⟨a, rfl, h⟩

/-- One that does not has failed in one of them. -/
theorem bind_eq_error {ε α β : Type} {x : Except ε α} {f : α → Except ε β} {e : ε}
    (h : x >>= f = .error e) : x = .error e ∨ ∃ a, x = .ok a ∧ f a = .error e := by
  cases x with
  | error e' => exact Or.inl (by simpa [bind, Except.bind] using h)
  | ok a => exact Or.inr ⟨a, rfl, h⟩

theorem tics_succ {m : FaultManager σ} {s s₁ s₂ s₃ : σ} {n : Nat} {fs : List Fault}
    {fss : List (List Fault)} (htic : m.tic s = .ok s₁) (hget : m.get_fail s₁ = .ok (fs, s₂))
    (hrest : m.tics n s₂ = .ok (fss, s₃)) : m.tics (n + 1) s = .ok (fs :: fss, s₃) := by
  simp only [tics, htic, hget, hrest, bind, Except.bind, pure, Except.pure]

/-- What rounds that succeed are made of. -/
theorem tics_succ_inv {m : FaultManager σ} {s s₃ : σ} {n : Nat} {out : List (List Fault)}
    (h : m.tics (n + 1) s = .ok (out, s₃)) :
    ∃ s₁ fs s₂ fss, m.tic s = .ok s₁ ∧ m.get_fail s₁ = .ok (fs, s₂) ∧
      m.tics n s₂ = .ok (fss, s₃) ∧ out = fs :: fss := by
  rw [tics] at h
  obtain ⟨s₁, htic, h⟩ := bind_eq_ok h
  obtain ⟨⟨fs, s₂⟩, hget, h⟩ := bind_eq_ok h
  obtain ⟨⟨fss, s₄⟩, hrest, h⟩ := bind_eq_ok h
  simp only [pure, Except.pure, Except.ok.injEq, Prod.mk.injEq] at h
  obtain ⟨rfl, rfl⟩ := h
  exact ⟨s₁, fs, s₂, fss, htic, hget, hrest, rfl⟩

theorem drive_some {m : FaultManager σ} {s s₁ s₂ : σ} {n : Nat} {t : NodeTable}
    {fss : List (List Fault)} (hnodes : m.get_nodes s = .ok (some t, s₁))
    (htics : m.tics n s₁ = .ok (fss, s₂)) : m.drive n s = .ok (some (t, fss), s₂) := by
  simp only [drive, hnodes, htics, bind, Except.bind, pure, Except.pure]

/-- What a run that gives a node table is made of. -/
theorem drive_some_inv {m : FaultManager σ} {s s₂ : σ} {n : Nat} {t : NodeTable}
    {fss : List (List Fault)} (h : m.drive n s = .ok (some (t, fss), s₂)) :
    ∃ s₁, m.get_nodes s = .ok (some t, s₁) ∧ m.tics n s₁ = .ok (fss, s₂) := by
  rw [drive] at h
  obtain ⟨⟨ret, s₁⟩, hnodes, h⟩ := bind_eq_ok h
  cases ret with
  | none => simp [pure, Except.pure] at h
  | some t' =>
      obtain ⟨⟨gss, s₃⟩, htics, h⟩ := bind_eq_ok h
      simp only [pure, Except.pure, Except.ok.injEq, Prod.mk.injEq, Option.some.injEq] at h
      obtain ⟨⟨rfl, rfl⟩, rfl⟩ := h
      exact ⟨s₁, hnodes, htics⟩

theorem tics_length {m : FaultManager σ} {n : Nat} {s s' : σ} {fss : List (List Fault)}
    (h : m.tics n s = .ok (fss, s')) : fss.length = n := by
  induction n generalizing s fss with
  | zero =>
      simp only [tics, Except.ok.injEq, Prod.mk.injEq] at h
      rw [← h.1]
      rfl
  | succ n ih =>
      obtain ⟨_, fs, s₂, gss, -, -, hrest, rfl⟩ := tics_succ_inv h
      rw [List.length_cons, ih hrest]

/-- Rounds after rounds. -/
theorem tics_add {m : FaultManager σ} {n n' : Nat} {s s₁ s₂ : σ} {fss gss : List (List Fault)}
    (h : m.tics n s = .ok (fss, s₁)) (h' : m.tics n' s₁ = .ok (gss, s₂)) :
    m.tics (n + n') s = .ok (fss ++ gss, s₂) := by
  induction n generalizing s fss with
  | zero =>
      simp only [tics, Except.ok.injEq, Prod.mk.injEq] at h
      obtain ⟨rfl, rfl⟩ := h
      rw [Nat.zero_add]
      exact h'
  | succ n ih =>
      obtain ⟨_, fs, s₃, fss', htic, hget, hrest, rfl⟩ := tics_succ_inv h
      rw [show n + 1 + n' = n + n' + 1 by omega, List.cons_append]
      exact tics_succ htic hget (ih hrest)

end FaultManager

end LauSim
