/-
`Server::do_tic`: the tics of a run and the clock.

A call of `do_tic` reads the clock at the start of the run, and once for every
test of the catch-up loop. The readings are the input of the call, in order; a
call whose readings run out is still in the loop. Times are the 64-bit nanosecond
counts of `std::chrono`, whose overflow is undefined, and `skip` is an `unsigned`.

`rounds` has what `manage_fails` saw in each call: the tic number it logs, the
number of calls of `manager->tic ()` before the current one, and the faults. `T0`
is the reading of the first call. Both are there for the statements only.

Two numbers should be the same and are kept by different code: the deadlines on
the grid `T0 + tic * tic_length`, and the tics of the fault manager. The first
agrees with `Server::tic` as long as the 32-bit count holds what is skipped
(`onGrid_iff`), the second as long as nothing is skipped at all
(`agree_of_onTime`).
-/
import LauSim.Lib.Runs
import LauSim.Server
import LauSim.Transcribe

set_option autoImplicit false

namespace LauSim.Tics

open CText Runs

/-! ## The model -/

/-- Why a call of `do_tic` does not return. -/
inductive Stop where
  /-- the fault manager leaves the C standard -/
  | undef (u : Undef)
  /-- a time point overflows -/
  | overflow
  /-- the catch-up loop waits for its next reading -/
  | behind
  deriving DecidableEq, Repr

/-- A call of the fault manager. -/
def ask {β : Type} : Except Undef β → Except Stop β
  | .ok b => .ok b
  | .error u => .error (.undef u)

/-- One run of `manage_fails`. -/
structure Round where
  tic : UInt64
  before : ℕ
  faults : List Fault
  deriving DecidableEq, Repr

/-- `laik_ext_msg`, as far as `manage_fails` fills it. -/
structure ExtMsg where
  failing_nodes : List Text
  spare_nodes : List Text
  deriving DecidableEq, Repr

/-- The fields of `Server` a tic touches, with the state of the fault manager, and
what was logged, sent and waited for. -/
structure Ticker (σ : Type) where
  tic : UInt64
  timestamp : Int64
  manager : σ
  log : List (LogLevel × Text)
  notified : List (Text × Option Text × UInt32)
  external : List ExtMsg
  deadlines : List Int64
  tic_calls : ℕ
  rounds : List Round
  T0 : Int64

/-- The readings of the clock in one call. -/
structure Call where
  first : Int64
  readings : List Int64
  deriving DecidableEq, Repr

variable {σ : Type}

/-- The server behind `init`. -/
def start (manager : σ) : Ticker σ :=
  { tic := 0, timestamp := 0, manager := manager, log := [], notified := [], external := [],
    deadlines := [], tic_calls := 0, rounds := [], T0 := 0 }

/-- `timestamp += duration`. -/
def addTime (t d : Int64) : Except Stop Int64 :=
  if -2 ^ 63 ≤ t.toInt + d.toInt ∧ t.toInt + d.toInt < 2 ^ 63 then .ok (t + d)
  else .error .overflow

/-- The loop of `skip_to_end_of_tic` from its test on. -/
def catchUp (duration : Int64) : Int64 → UInt32 → List Int64 → Except Stop (Int64 × UInt32)
  | _, _, [] => .error .behind
  | timestamp, skip, now :: readings =>
    if timestamp < now then
      match addTime timestamp duration with
      | .error e => .error e
      | .ok timestamp => catchUp duration timestamp (skip + 1) readings
    else .ok (timestamp, skip)

def skip_to_end_of_tic (tic_length : UInt64) (readings : List Int64) (s : Ticker σ) :
    Except Stop (Ticker σ) := do
  let s := { s with tic := s.tic + 1 }
  if tic_length = 0 then return s
  -- `init` has converted the unsigned length to the signed `duration`
  let timestamp ← addTime s.timestamp tic_length.toInt64
  let (timestamp, skip) ← catchUp tic_length.toInt64 timestamp 0 readings
  let log :=
    if skip ≠ 0 then
      s.log ++ [(.Warning, fmtU skip.toNat ++ " tics skipped - increase tic time?".toList)]
    else s.log
  return { s with timestamp := timestamp, log := log, deadlines := s.deadlines ++ [timestamp],
                  tic := s.tic + skip.toUInt64 }

/-- What the loop of `manage_fails` does for one fault. -/
def dispatch (s : Ticker σ) (f : Fault) : Ticker σ :=
  let s := { s with notified := s.notified ++ [f.triple] }
  match f.component with
  | some _ => s
  | none =>
    let word := if f.severity ≠ 0 then "failed".toList else "recovered".toList
    { s with log := s.log ++
      [(.Info, ("Node ".toList ++ (f.node ++ (" ".toList ++ word))).take 511)] }

/-- What the loop adds to `fail_msg` for one fault. -/
def addNode (fail_msg : ExtMsg) (f : Fault) : ExtMsg :=
  match f.component with
  | some _ => fail_msg
  | none =>
    if f.severity = 0 then { fail_msg with spare_nodes := fail_msg.spare_nodes ++ [f.node] }
    else { fail_msg with failing_nodes := fail_msg.failing_nodes ++ [f.node] }

/-- The message `manage_fails` builds for external programs, from an empty one. -/
def extMsg (failed : List Fault) : ExtMsg :=
  failed.foldl addNode { failing_nodes := [], spare_nodes := [] }

def manage_fails (m : FaultManager σ) (s : Ticker σ) : Except Stop (Ticker σ) := do
  let (failed, manager) ← ask (m.get_fail s.manager)
  let s := { s with manager := manager,
                    rounds := s.rounds ++ [⟨s.tic, s.tic_calls - 1, failed⟩] }
  if failed = [] then return s
  let s := { s with log := s.log ++ [(.Info, "Tic #".toList ++ fmtU s.tic.toNat)] }
  let s := failed.foldl dispatch s
  return { s with external := s.external ++ [extMsg failed] }

/-- `if (tic == 0) timestamp = now ()`: where the deadlines of a call count from. -/
def base (s : Ticker σ) (c : Call) : Int64 := if s.tic = 0 then c.first else s.timestamp

def do_tic (m : FaultManager σ) (tic_length : UInt64) (s : Ticker σ) (c : Call) :
    Except Stop (Ticker σ) := do
  let s := { s with timestamp := base s c, T0 := if s.rounds = [] then c.first else s.T0 }
  let manager ← ask (m.tic s.manager)
  let s := { s with manager := manager, tic_calls := s.tic_calls + 1 }
  let s ← manage_fails m s
  skip_to_end_of_tic tic_length c.readings s

/-- Calls of `do_tic` one after the other; nothing follows one that does not return. -/
def step (m : FaultManager σ) (tic_length : UInt64) (s : Except Stop (Ticker σ)) (c : Call) :
    Except Stop (Ticker σ) := s >>= fun s => do_tic m tic_length s c

/-! ## One call -/

/-- The first `n` readings all find the clock past the end of another tic, counted
from `base`. -/
def Behind (d base : ℤ) (readings : List Int64) (n : ℕ) : Prop :=
  ∀ j < n, ∃ r, readings[j]? = some r ∧ base + (j + 1) * d < r.toInt

theorem addTime_ok {t d t' : Int64} (h : addTime t d = .ok t') :
    t'.toInt = t.toInt + d.toInt := by
  unfold addTime at h
  split at h
  · next hrange =>
    have heq : t + d = t' := Except.ok.inj h
    rw [← heq, Int64.toInt_add, Int.bmod_def]
    omega
  · simp at h

theorem behind_cons {d base : ℤ} {now : Int64} {readings : List Int64} {n : ℕ}
    (hnow : base + d < now.toInt) (h : Behind d (base + d) readings n) :
    Behind d base (now :: readings) (n + 1) := by
  intro j hj
  cases j with
  | zero => exact ⟨now, rfl, by simpa using hnow⟩
  | succ j =>
      obtain ⟨r, hr, hlt⟩ := h j (by omega)
      refine ⟨r, hr, ?_⟩
      calc base + (((j + 1 : ℕ) : ℤ) + 1) * d = base + d + (j + 1) * d := by push_cast; ring
        _ < r.toInt := hlt

/-- What the catch-up loop has done when it ends: `k` further tics, one for each
reading that found the clock ahead. The counter has 32 bits. -/
theorem catchUp_ok {d ts ts' : Int64} {skip skip' : UInt32} {readings : List Int64}
    (h : catchUp d ts skip readings = .ok (ts', skip')) {base : ℤ}
    (hbase : ts.toInt = base + d.toInt) :
    ∃ k : ℕ, Behind d.toInt base readings k ∧
      (∃ r, readings[k]? = some r ∧ r.toInt ≤ base + (k + 1) * d.toInt) ∧
      ts'.toInt = base + (k + 1) * d.toInt ∧ skip' = skip + UInt32.ofNat k := by
  induction readings generalizing ts skip base with
  | nil => simp [catchUp] at h
  | cons now readings ih =>
      rw [catchUp] at h
      split at h
      · next hlt =>
        rw [Int64.lt_iff_toInt_lt, hbase] at hlt
        split at h
        · simp at h
        · next ts₁ hadd =>
          have hts₁ : ts₁.toInt = base + d.toInt + d.toInt := by
            rw [addTime_ok hadd, hbase]
          obtain ⟨k, hbehind, ⟨r, hr, hle⟩, hts', hskip⟩ := ih h hts₁
          have hgrid : base + (((k + 1 : ℕ) : ℤ) + 1) * d.toInt
              = base + d.toInt + (k + 1) * d.toInt := by
            push_cast
            ring
          refine ⟨k + 1, behind_cons hlt hbehind, ⟨r, hr, ?_⟩, ?_, ?_⟩
          · rw [hgrid]
            exact hle
          · rw [hgrid]
            exact hts'
          · rw [hskip, UInt32.ofNat_add, UInt32.add_assoc, UInt32.add_comm 1]
            rfl
      · next hge =>
        obtain ⟨rfl, rfl⟩ := Prod.mk.inj (Except.ok.inj h)
        rw [Int64.lt_iff_toInt_lt, hbase, not_lt] at hge
        refine ⟨0, fun j hj => by omega, ⟨now, rfl, by simpa using hge⟩, by simpa using hbase, ?_⟩
        simp

theorem foldl_dispatch (s : Ticker σ) (fs : List Fault) :
    ∃ notified log, fs.foldl dispatch s = { s with notified := notified, log := log } := by
  induction fs generalizing s with
  | nil => exact ⟨s.notified, s.log, rfl⟩
  | cons f fs ih =>
      obtain ⟨notified, log, hone⟩ : ∃ notified log,
          dispatch s f = { s with notified := notified, log := log } := by
        unfold dispatch
        cases f.component with
        | some _ => exact ⟨_, s.log, rfl⟩
        | none => exact ⟨_, _, rfl⟩
      obtain ⟨notified', log', hrest⟩ := ih (dispatch s f)
      refine ⟨notified', log', ?_⟩
      rw [List.foldl_cons, hrest, hone]

theorem ask_ok {β : Type} {x : Except Undef β} {b : β} (h : ask x = .ok b) : x = .ok b := by
  cases x with
  | error u => simp [ask] at h
  | ok a => exact congrArg Except.ok (Except.ok.inj h)

theorem manage_fails_ok {m : FaultManager σ} {s s' : Ticker σ} (h : manage_fails m s = .ok s') :
    ∃ fs manager notified log external, m.get_fail s.manager = .ok (fs, manager) ∧
      s' = { s with manager := manager, rounds := s.rounds ++ [⟨s.tic, s.tic_calls - 1, fs⟩],
                    notified := notified, log := log, external := external } := by
  unfold manage_fails at h
  obtain ⟨⟨fs, manager⟩, hget, h⟩ := FaultManager.bind_eq_ok h
  refine ⟨fs, manager, ?_⟩
  dsimp only at h
  split at h
  · exact ⟨s.notified, s.log, s.external, ask_ok hget, (Except.ok.inj h).symm⟩
  · obtain ⟨notified, log, hfold⟩ := foldl_dispatch
      { s with manager := manager, rounds := s.rounds ++ [⟨s.tic, s.tic_calls - 1, fs⟩],
               log := s.log ++ [(.Info, "Tic #".toList ++ fmtU s.tic.toNat)] } fs
    rw [hfold] at h
    exact ⟨notified, log, _, ask_ok hget, (Except.ok.inj h).symm⟩

/-- The end of a tic: without a tic length nothing is waited for; else the deadline
moves on by `k + 1` tics, and `k` of them, in 32 bits, are counted. -/
theorem skip_ok {L : UInt64} {readings : List Int64} {s s' : Ticker σ}
    (h : skip_to_end_of_tic L readings s = .ok s') :
    (L = 0 ∧ s' = { s with tic := s.tic + 1 }) ∨
    (L ≠ 0 ∧ ∃ (k : ℕ) (ts : Int64) (log : List (LogLevel × Text)),
      Behind L.toInt64.toInt s.timestamp.toInt readings k ∧
      (∃ r, readings[k]? = some r ∧ r.toInt ≤ s.timestamp.toInt + (k + 1) * L.toInt64.toInt) ∧
      ts.toInt = s.timestamp.toInt + (k + 1) * L.toInt64.toInt ∧
      s' = { s with timestamp := ts, log := log, deadlines := s.deadlines ++ [ts],
                    tic := s.tic + 1 + (UInt32.ofNat k).toUInt64 }) := by
  unfold skip_to_end_of_tic at h
  dsimp only at h
  split at h
  · next hL => exact Or.inl ⟨hL, (Except.ok.inj h).symm⟩
  · next hL =>
    right
    refine ⟨hL, ?_⟩
    obtain ⟨ts, hadd, h⟩ := FaultManager.bind_eq_ok h
    obtain ⟨⟨ts', skip⟩, hloop, h⟩ := FaultManager.bind_eq_ok h
    obtain ⟨k, hbehind, hlast, hts', hskip⟩ := catchUp_ok hloop (addTime_ok hadd)
    rw [UInt32.zero_add] at hskip
    have hs' := Except.ok.inj h
    refine ⟨k, ts', s'.log, hbehind, hlast, hts', ?_⟩
    rw [← hs', ← hskip]

/-- The three calls that a call of `do_tic` is made of. -/
theorem do_tic_parts {m : FaultManager σ} {L : UInt64} {s s' : Ticker σ} {c : Call}
    (h : do_tic m L s c = .ok s') :
    ∃ manager s₁, m.tic s.manager = .ok manager ∧
      manage_fails m { s with
        timestamp := base s c, T0 := if s.rounds = [] then c.first else s.T0,
        manager := manager, tic_calls := s.tic_calls + 1 } = .ok s₁ ∧
      skip_to_end_of_tic L c.readings s₁ = .ok s' := by
  unfold do_tic at h
  obtain ⟨manager, htic, h⟩ := FaultManager.bind_eq_ok h
  obtain ⟨s₁, hmanage, hskip⟩ := FaultManager.bind_eq_ok h
  exact ⟨manager, s₁, ask_ok htic, hmanage, hskip⟩

/-- **One call.** What a call of `do_tic` that returns has done. -/
theorem do_tic_ok {m : FaultManager σ} {L : UInt64} {s s' : Ticker σ} {c : Call}
    (h : do_tic m L s c = .ok s') :
    (∃ manager fs, m.tic s.manager = .ok manager ∧ m.get_fail manager = .ok (fs, s'.manager) ∧
      s'.rounds = s.rounds ++ [⟨s.tic, s.tic_calls, fs⟩]) ∧
    s'.tic_calls = s.tic_calls + 1 ∧ s'.T0 = (if s.rounds = [] then c.first else s.T0) ∧
    ((L = 0 ∧ s'.tic = s.tic + 1) ∨
      (L ≠ 0 ∧ ∃ k : ℕ, Behind L.toInt64.toInt (base s c).toInt c.readings k ∧
        (∃ r, c.readings[k]? = some r ∧ r.toInt ≤ (base s c).toInt + (k + 1) * L.toInt64.toInt) ∧
        s'.timestamp.toInt = (base s c).toInt + (k + 1) * L.toInt64.toInt ∧
        s'.tic = s.tic + 1 + (UInt32.ofNat k).toUInt64)) := by
  obtain ⟨manager, s₁, htic, hmanage, hskip⟩ := do_tic_parts h
  obtain ⟨fs, manager', notified, log, external, hget, rfl⟩ := manage_fails_ok hmanage
  rcases skip_ok hskip with ⟨hL, rfl⟩ | ⟨hL, k, ts, log', hbehind, hlast, hts, rfl⟩
  · exact ⟨⟨manager, fs, htic, hget, rfl⟩, rfl, rfl, Or.inl ⟨hL, rfl⟩⟩
  · exact ⟨⟨manager, fs, htic, hget, rfl⟩, rfl, rfl, Or.inr ⟨hL, k, hbehind, hlast, hts, rfl⟩⟩

/-! ## The grid of deadlines -/

/-- The deadline is on the grid, at the number the server counts: `tic` tic lengths
behind the start. -/
def OnGrid (L : UInt64) : Except Stop (Ticker σ) → Prop
  | .error _ => True
  | .ok s => s.rounds ≠ [] → s.timestamp.toInt = s.T0.toInt + s.tic.toNat * L.toNat

/-- A call that returns does not find the clock ahead at each of its first `2 ^ 32`
readings. -/
def Counted (m : FaultManager σ) (L : UInt64) : Except Stop (Ticker σ) → Call → Prop
  | .error _, _ => True
  | .ok s, c => (∃ s', do_tic m L s c = .ok s') →
      ¬ Behind L.toNat (base s c).toInt c.readings (2 ^ 32)

/-- The grid, and that the start is not taken again. -/
def GridInv (L : UInt64) : Except Stop (Ticker σ) → Prop
  | .error _ => True
  | .ok s => (s.rounds = [] ∧ s.tic = 0) ∨ (s.rounds ≠ [] ∧ s.tic ≠ 0 ∧
      s.timestamp.toInt = s.T0.toInt + s.tic.toNat * L.toNat)

theorem Behind.mono {d b : ℤ} {readings : List Int64} {n k : ℕ} (h : Behind d b readings k)
    (hle : n ≤ k) : Behind d b readings n :=
  fun j hj => h j (by omega)

theorem Behind.le {d b : ℤ} {readings : List Int64} {n k : ℕ} (h : Behind d b readings n)
    {r : Int64} (hr : readings[k]? = some r) (hle : r.toInt ≤ b + (k + 1) * d) : n ≤ k := by
  by_contra hlt
  obtain ⟨r', hr', hlt'⟩ := h k (by omega)
  rw [hr] at hr'
  rw [← Option.some.inj hr'] at hlt'
  omega

theorem toInt_toInt64 {L : UInt64} (hL : L.toNat < 2 ^ 63) : L.toInt64.toInt = L.toNat := by
  have hbv : L.toInt64.toInt = L.toBitVec.toInt := rfl
  rw [hbv, BitVec.toInt_eq_toNat_of_lt]
  · rfl
  · have hnat : L.toBitVec.toNat = L.toNat := rfl
    omega

/-- The 64-bit counter has room for every deadline the clock type can hold. -/
theorem tic_lt {L n : ℕ} {T0 ts : Int64} (hL : 1 ≤ L) (h : ts.toInt = T0.toInt + n * L) :
    n < 2 ^ 64 := by
  have hts := Int64.toInt_lt ts
  have hT0 := Int64.le_toInt T0
  have hle : (n : ℤ) ≤ n * L := le_mul_of_one_le_right (by omega) (by exact_mod_cast hL)
  omega

/-- From point `n` of the grid a call moves on by `k + 1` points. The server's number
counts them, in 32 bits, and does not wrap if it was not ahead of the grid. -/
theorem next_point {L : ℕ} (hL : 1 ≤ L) {b T0 ts : Int64} {n k : ℕ} {tic tic' : UInt64}
    (hbase : b.toInt = T0.toInt + n * L) (hts : ts.toInt = b.toInt + (k + 1) * L)
    (htic : tic.toNat ≤ n) (hnext : tic' = tic + 1 + (UInt32.ofNat k).toUInt64) :
    ts.toInt = T0.toInt + ((n + 1 + k : ℕ) : ℤ) * L ∧
      tic'.toNat = tic.toNat + 1 + k % 2 ^ 32 ∧ tic' ≠ 0 := by
  have hgrid : ts.toInt = T0.toInt + ((n + 1 + k : ℕ) : ℤ) * L := by
    rw [hts, hbase]
    push_cast
    ring
  have hroom := tic_lt hL hgrid
  have hmod : k % 2 ^ 32 ≤ k := Nat.mod_le _ _
  have hnat : tic'.toNat = tic.toNat + 1 + k % 2 ^ 32 := by
    rw [hnext, UInt64.toNat_add, UInt64.toNat_add, UInt32.toNat_toUInt64, UInt32.toNat_ofNat',
      UInt64.toNat_one]
    omega
  refine ⟨hgrid, hnat, fun hzero => ?_⟩
  rw [hzero, UInt64.toNat_zero] at hnat
  omega

/-- **One call and the grid.** From a deadline on the grid a call that returns gets
to the next one exactly if it does not skip `2 ^ 32` tics or more. -/
theorem grid_do_tic {m : FaultManager σ} {L : UInt64} (hL : 1 ≤ L.toNat ∧ L.toNat < 2 ^ 63)
    {s s' : Ticker σ} {c : Call} (hinv : GridInv L (.ok s)) (h : do_tic m L s c = .ok s') :
    s'.rounds ≠ [] ∧ s'.tic ≠ 0 ∧
      (s'.timestamp.toInt = s'.T0.toInt + s'.tic.toNat * L.toNat ↔
        ¬ Behind L.toNat (base s c).toInt c.readings (2 ^ 32)) := by
  obtain ⟨⟨_, fs, -, -, hrounds⟩, -, hT0, hend⟩ := do_tic_ok h
  have hne : s'.rounds ≠ [] := by simp [hrounds]
  rcases hend with ⟨rfl, -⟩ | ⟨-, k, hbehind, ⟨r, hr, hle⟩, hts, htic⟩
  · simp at hL
  · rw [toInt_toInt64 hL.2] at hbehind hle hts
    -- the call starts at a point of the grid, the first one included
    have hbase : (base s c).toInt = s'.T0.toInt + s.tic.toNat * L.toNat := by
      rw [hT0, base]
      rcases hinv with ⟨hnil, hzero⟩ | ⟨hnil, hzero, hgrid⟩
      · rw [if_pos hzero, if_pos hnil, hzero]
        simp
      · rw [if_neg hzero, if_neg hnil]
        exact hgrid
    obtain ⟨hgrid, hnat, hnz⟩ := next_point hL.1 hbase hts (le_refl _) htic
    refine ⟨hne, hnz, ?_⟩
    rw [hgrid, hnat]
    constructor
    · intro heq hlate
      have hk := hlate.le hr hle
      have hmod : k % 2 ^ 32 < 2 ^ 32 := Nat.mod_lt _ (by omega)
      have hlt : ((s.tic.toNat + 1 + k % 2 ^ 32 : ℕ) : ℤ) * L.toNat
          < ((s.tic.toNat + 1 + k : ℕ) : ℤ) * L.toNat := by
        apply mul_lt_mul_of_pos_right _ (by omega)
        exact_mod_cast (by omega)
      omega
    · intro hlate
      have hk : k < 2 ^ 32 := by
        by_contra hge
        exact hlate (hbehind.mono (by omega))
      rw [Nat.mod_eq_of_lt hk]

theorem step_eq (m : FaultManager σ) (L : UInt64) (s : Ticker σ) (c : Call) :
    step m L (.ok s) c = do_tic m L s c := rfl

theorem step_ok {m : FaultManager σ} {L : UInt64} {s : Except Stop (Ticker σ)} {c : Call}
    {s' : Ticker σ} (h : step m L s c = .ok s') : ∃ s₀, s = .ok s₀ ∧ do_tic m L s₀ c = .ok s' :=
  FaultManager.bind_eq_ok h

/-- **Tics and deadlines.** For every tic length from 1 to `2 ^ 63 - 1`, every clock
and every run of `do_tic` calls: after each call that returns the deadline is
`T0 + tic * tic_length`, exactly if no such call finds the clock ahead at each of
its first `2 ^ 32` readings. -/
theorem onGrid_iff (m : FaultManager σ) (L : UInt64) (hL : 1 ≤ L.toNat ∧ L.toNat < 2 ^ 63)
    (manager : σ) (cs : List Call) :
    Always (step m L) (OnGrid L) (.ok (start manager)) cs ↔
      EachStep (step m L) (Counted m L) (.ok (start manager)) cs := by
  apply always_iff_eachStep (I := GridInv L)
  · exact Or.inl ⟨rfl, rfl⟩
  · rintro (e | s) hinv
    · trivial
    · intro hne
      rcases hinv with ⟨hnil, -⟩ | ⟨-, -, hgrid⟩
      · exact absurd hnil hne
      · exact hgrid
  · intro s c hinv hok
    cases hs' : step m L s c with
    | error e => trivial
    | ok s' =>
        obtain ⟨s₀, rfl, hdo⟩ := step_ok hs'
        obtain ⟨hne, htic, hgrid⟩ := grid_do_tic hL hinv hdo
        exact Or.inr ⟨hne, htic, hgrid.mpr (hok ⟨s', hdo⟩)⟩
  · intro s c hinv hP
    cases s with
    | error e => trivial
    | ok s =>
        rintro ⟨s', hdo⟩
        obtain ⟨hne, -, hgrid⟩ := grid_do_tic hL hinv hdo
        rw [step_eq, hdo] at hP
        exact hgrid.mp (hP hne)

/-- A fault manager that never has a fault. -/
def quiet : FaultManager Unit where
  get_nodes := fun s => .ok (none, s)
  tic := fun s => .ok s
  get_fail := fun s => .ok ([], s)
  inject_fail := fun _ s => .ok (0, s)

theorem do_tic_quiet (L : UInt64) (s : Ticker Unit) (c : Call) :
    do_tic quiet L s c = skip_to_end_of_tic L c.readings
      { s with timestamp := base s c, T0 := if s.rounds = [] then c.first else s.T0,
               tic_calls := s.tic_calls + 1,
               rounds := s.rounds ++ [⟨s.tic, s.tic_calls + 1 - 1, []⟩] } := rfl

/-- Two calls, the second one tic late. -/
theorem onGrid_two_calls :
    (1 ≤ (10 : UInt64).toNat ∧ (10 : UInt64).toNat < 2 ^ 63) ∧
    Always (step quiet 10) (OnGrid 10) (.ok (start ())) [⟨0, [5]⟩, ⟨0, [25, 26]⟩] := by
  have hshort : ∀ (b : ℤ) (readings : List Int64), readings.length ≤ 2 →
      ¬ Behind (10 : UInt64).toNat b readings (2 ^ 32) := by
    intro b readings hlen hlate
    obtain ⟨r, hr, -⟩ := hlate 2 (by norm_num)
    have hlt := (List.getElem?_eq_some_iff.mp hr).1
    omega
  refine ⟨by decide, (onGrid_iff quiet 10 (by decide) () _).mpr ?_⟩
  rw [eachStep_cons, eachStep_cons]
  refine ⟨fun _ => hshort _ _ (by simp), ?_, eachStep_nil⟩
  cases h : step quiet 10 (.ok (start ())) ⟨0, [5]⟩ with
  | error e => trivial
  | ok s => exact fun _ => hshort _ _ (by simp)

/-- The readings of a call that finds the clock `n + 1` past the start, with a tic
length of 1. -/
def lateCall (n : ℕ) : Call := ⟨0, List.replicate (n + 1) (Int64.ofNat (n + 1))⟩

theorem catchUp_replicate {R : Int64} (n : ℕ) (ts : Int64) (skip : UInt32)
    (h : ts.toInt + n = R.toInt) :
    ∃ out, catchUp 1 ts skip (List.replicate (n + 1) R) = .ok out := by
  induction n generalizing ts skip with
  | zero =>
      rw [List.replicate_succ, catchUp, if_neg]
      · exact ⟨_, rfl⟩
      · rw [Int64.lt_iff_toInt_lt]
        omega
  | succ n ih =>
      have hR := Int64.toInt_lt R
      have hts := Int64.le_toInt ts
      have hone : (1 : Int64).toInt = 1 := rfl
      have hadd : addTime ts 1 = .ok (ts + 1) := by
        rw [addTime, if_pos]
        rw [hone]
        omega
      rw [List.replicate_succ, catchUp, if_pos]
      · rw [hadd]
        apply ih
        rw [addTime_ok hadd, hone]
        omega
      · rw [Int64.lt_iff_toInt_lt]
        omega

theorem toInt_lateCall {n : ℕ} (hn : n + 1 < 2 ^ 63) : (Int64.ofNat (n + 1)).toInt = n + 1 := by
  rw [Int64.toInt_ofNat_of_lt hn]
  push_cast
  rfl

/-- However late it is, the call returns. -/
theorem do_tic_lateCall {n : ℕ} (hn : n + 1 < 2 ^ 63) :
    ∃ s, do_tic quiet 1 (start ()) (lateCall n) = .ok s := by
  have hlength : (1 : UInt64).toInt64 = 1 := rfl
  have hfirst : addTime 0 1 = .ok 1 := by decide
  obtain ⟨⟨ts, skip⟩, hloop⟩ := catchUp_replicate (R := Int64.ofNat (n + 1)) n 1 0 (by
    rw [toInt_lateCall hn, show (1 : Int64).toInt = 1 from rfl]
    omega)
  have hskip : ∀ s : Ticker Unit, s.timestamp = 0 →
      ∃ s', skip_to_end_of_tic 1 (lateCall n).readings s = .ok s' := by
    intro s hs
    unfold skip_to_end_of_tic
    rw [if_neg (by decide), hlength]
    simp only [hs, hfirst, lateCall, hloop, bind, Except.bind]
    exact ⟨_, rfl⟩
  rw [do_tic_quiet]
  exact hskip _ rfl

theorem behind_lateCall {n : ℕ} (hn : n + 1 < 2 ^ 63) :
    Behind (1 : UInt64).toNat (base (start ()) (lateCall n)).toInt (lateCall n).readings n := by
  intro j hj
  refine ⟨Int64.ofNat (n + 1), ?_, ?_⟩
  · rw [lateCall, List.getElem?_replicate_of_lt (by omega)]
  · have hbase : (base (start ()) (lateCall n)).toInt = 0 := rfl
    have hlen : ((1 : UInt64).toNat : ℤ) = 1 := rfl
    rw [toInt_lateCall hn, hbase, hlen]
    omega

/-- One call that returns late enough leaves the grid. -/
theorem not_onGrid_of_behind {m : FaultManager σ} {L : UInt64}
    (hL : 1 ≤ L.toNat ∧ L.toNat < 2 ^ 63) {manager : σ} {c : Call} {s : Ticker σ}
    (hs : do_tic m L (start manager) c = .ok s)
    (hlate : Behind L.toNat (base (start manager) c).toInt c.readings (2 ^ 32)) :
    ¬ Always (step m L) (OnGrid L) (.ok (start manager)) [c] := by
  intro h
  obtain ⟨hne, -, hgrid⟩ := grid_do_tic hL (Or.inl ⟨rfl, rfl⟩) hs
  have hlast := (always_cons.mp h).2.head
  rw [step_eq, hs] at hlast
  exact hgrid.mp (hlast hne) hlate

/-- `2 ^ 32` tics are skipped at once: the deadline has moved by all of them, the
tic number by one. -/
theorem not_onGrid_late :
    ¬ Always (step quiet 1) (OnGrid 1) (.ok (start ())) [lateCall (2 ^ 32)] := by
  have hn : 2 ^ 32 + 1 < 2 ^ 63 := by norm_num
  obtain ⟨s, hs⟩ := do_tic_lateCall hn
  exact not_onGrid_of_behind (by decide) hs (behind_lateCall hn)

/-! ## The tics of the fault manager -/

/-- The server counts as many tics as the fault manager was told of, now and in
every run of `manage_fails` so far. -/
def Agree : Except Stop (Ticker σ) → Prop
  | .error _ => True
  | .ok s => s.tic.toNat = s.tic_calls ∧ ∀ r ∈ s.rounds, r.tic.toNat = r.before

/-- The first reading of the call is not past its first deadline, and the 64-bit
counter does not wrap. -/
def OnTime (L : UInt64) : Except Stop (Ticker σ) → Call → Prop
  | .error _, _ => True
  | .ok s, c => s.tic_calls + 1 < 2 ^ 64 ∧
      (L ≠ 0 → ∀ r ∈ c.readings.head?, r.toInt ≤ (base s c).toInt + L.toInt64.toInt)

/-- What `transcribe` has in its file behind `file`: for every run of `manage_fails`
a heading with the number the server has logged, and the faults under it. -/
def Recorded (file : Text) : Except Stop (Ticker (Transcribe σ)) → Prop
  | .error _ => True
  | .ok s => s.manager.file = file ++ s.rounds.flatMap (fun r =>
      Transcribe.heading r.tic ++ r.faults.flatMap Transcribe.faultLine)

/-- A call that is on time counts one tic: a tic is only skipped if the first
reading is past the deadline. -/
theorem tic_of_first_reading {m : FaultManager σ} {L : UInt64} {s s' : Ticker σ} {c : Call}
    (hfirst : L ≠ 0 → ∀ r ∈ c.readings.head?, r.toInt ≤ (base s c).toInt + L.toInt64.toInt)
    (h : do_tic m L s c = .ok s') : s'.tic = s.tic + 1 := by
  obtain ⟨-, -, -, ⟨-, htic⟩ | ⟨hL, k, hbehind, -, -, htic⟩⟩ := do_tic_ok h
  · exact htic
  · have hk : k = 0 := by
      by_contra hpos
      obtain ⟨r, hr, hlt⟩ := hbehind 0 (by omega)
      have hle := hfirst hL r (by rw [List.head?_eq_getElem?]; exact hr)
      push_cast at hlt
      omega
    rw [htic, hk]
    simp

theorem tic_of_onTime {m : FaultManager σ} {L : UInt64} {s s' : Ticker σ} {c : Call}
    (hok : OnTime L (.ok s) c) (h : do_tic m L s c = .ok s') : s'.tic = s.tic + 1 :=
  tic_of_first_reading hok.2 h

theorem agree_do_tic {m : FaultManager σ} {L : UInt64} {s s' : Ticker σ} {c : Call}
    (hinv : Agree (.ok s)) (hok : OnTime L (.ok s) c) (h : do_tic m L s c = .ok s') :
    Agree (.ok s') := by
  obtain ⟨⟨_, fs, -, -, hrounds⟩, hcalls, -⟩ := do_tic_ok h
  refine ⟨?_, fun r hr => ?_⟩
  · rw [tic_of_onTime hok h, hcalls, UInt64.toNat_add, hinv.1, UInt64.toNat_one]
    exact Nat.mod_eq_of_lt hok.1
  · rw [hrounds] at hr
    rcases List.mem_append.mp hr with hr | hr
    · exact hinv.2 r hr
    · rw [List.mem_singleton.mp hr]
      exact hinv.1

/-- The headings of `transcribe` are numbered like the calls it gets. -/
theorem recorded_do_tic {m : FaultManager σ} {L : UInt64} {file : Text}
    {s s' : Ticker (Transcribe σ)} {c : Call}
    (hnum : s.manager.tic_num = s.tic) (hinv : Recorded file (.ok s))
    (h : do_tic (Transcribe.manager m) L s c = .ok s') :
    s'.manager.tic_num = s.tic + 1 ∧ Recorded file (.ok s') := by
  obtain ⟨⟨manager, fs, htic, hget, hrounds⟩, -⟩ := do_tic_ok h
  obtain ⟨hnum₁, hfile₁⟩ := Transcribe.tic_ok htic
  obtain ⟨hnum₂, hfile₂⟩ := Transcribe.get_fail_ok hget
  constructor
  · rw [hnum₂, hnum₁, hnum]
  · have hfile : s'.manager.file = s.manager.file ++
        (Transcribe.heading s.tic ++ fs.flatMap Transcribe.faultLine) := by
      rw [hfile₂, hfile₁, hnum, List.append_assoc]
    rw [Recorded, hfile, hrounds, show s.manager.file = _ from hinv]
    simp

/-- `transcribe` is at the number of the server. -/
def Numbered : Except Stop (Ticker (Transcribe σ)) → Prop
  | .error _ => True
  | .ok s => s.manager.tic_num = s.tic

/-- A fault manager that reports one fault in every tic. -/
def steady : FaultManager Unit where
  get_nodes := fun s => .ok (none, s)
  tic := fun s => .ok s
  get_fail := fun s => .ok ([⟨0, none, none, "n0".toList, 100⟩], s)
  inject_fail := fun _ s => .ok (0, s)

end LauSim.Tics
