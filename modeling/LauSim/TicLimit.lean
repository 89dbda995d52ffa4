/-
The limit on the tics of a run: option `-n` (`srv/options.cpp`) and the tic loop
of `srv/main.cpp`.

The argument is read as an `unsigned long` and stored in an `unsigned`; the loop
compares that with a counter of its own, while the limit is documented for the
counter of the server, which moves by more than one when tics are skipped. So the
limit is respected as long as it fits 32 bits and no call but the last one allowed
is late (`limit_of_inTime`). Without the first, a limit of `2 ^ 32` is no limit at
all, 0 being the value for that; without the second, a call is started behind the
limit.

One input is one iteration: what `termreq` is at the test, and the clock of the
call. `starts` has the server's tic number at the start of each call.
-/
import LauSim.ServerMain
import LauSim.Tics

set_option autoImplicit false

namespace LauSim.TicLimit

open CText Runs Tics

variable {σ : Type}

/-! ## The loop -/

/-- `max_tics = strtoul (optarg, NULL, 0)`. -/
def max_tics (optarg : Text) : UInt32 := (strtoull optarg).1.toUInt32

/-- `!termreq && (max_tics == 0 || max_tics > tic_num++)`, and `tic_num` behind it. -/
def test (termreq : Bool) (max_tics : UInt32) (tic_num : UInt64) : Bool × UInt64 :=
  if termreq then (false, tic_num)
  else if max_tics = 0 then (true, tic_num)
  else (decide (tic_num < max_tics.toUInt64), tic_num + 1)

/-- Where the loop is: at its test, behind it, or inside a call that does not return. -/
inductive Phase where
  | running | left | stuck
  deriving DecidableEq, Repr

structure Loop (σ : Type) where
  phase : Phase
  tic_num : UInt64
  server : Ticker σ
  starts : List UInt64

/-- One iteration: `termreq` at the test, and the readings of the call. -/
structure Iter where
  termreq : Bool
  call : Call
  deriving DecidableEq, Repr

def start (manager : σ) : Loop σ :=
  { phase := .running, tic_num := 0, server := Tics.start manager, starts := [] }

/-- The body of the loop. -/
def body (m : FaultManager σ) (L : UInt64) (c : Call) (s : Loop σ) : Loop σ :=
  let s := { s with starts := s.starts ++ [s.server.tic] }
  match do_tic m L s.server c with
  | .ok server => { s with server := server }
  | .error _ => { s with phase := .stuck }

def step (m : FaultManager σ) (L : UInt64) (max : UInt32) (s : Loop σ) (i : Iter) : Loop σ :=
  match s.phase with
  | .left => s
  | .stuck => s
  | .running =>
    let out := test i.termreq max s.tic_num
    let s := { s with tic_num := out.2 }
    if out.1 then body m L i.call s else { s with phase := .left }

/-- The test is the one the main thread makes. -/
theorem mainStep_ticTest (opts : ServerMain.Options) {s : ServerMain.Main} (hpc : s.pc = .ticTest) :
    let out := test s.termreq opts.max_tics s.tic_num
    (ServerMain.mainStep opts s).tic_num = out.2 ∧
      (ServerMain.mainStep opts s).pc = if out.1 then .doTic else .cleanup := by
  unfold ServerMain.mainStep test
  rw [hpc]
  dsimp only
  by_cases hterm : s.termreq = true
  · rw [if_pos hterm, if_pos hterm]
    exact ⟨rfl, rfl⟩
  · rw [if_neg hterm, if_neg hterm]
    by_cases hmax : opts.max_tics = 0
    · rw [if_pos hmax, if_pos hmax]
      exact ⟨rfl, rfl⟩
    · rw [if_neg hmax, if_neg hmax]
      by_cases hlt : s.tic_num < opts.max_tics.toUInt64
      · rw [if_pos hlt]
        simp [hlt, ServerMain.Main.goto]
      · rw [if_neg hlt]
        simp [hlt, ServerMain.Main.goto]

/-! ## One iteration -/

/-- The first reading of the call is not past its deadline. -/
def InTime (L : UInt64) (s : Ticker σ) (c : Call) : Prop :=
  L ≠ 0 → ∀ r ∈ c.readings.head?, r.toInt ≤ (base s c).toInt + L.toInt64.toInt

/-- A call that is not the last one a limit of `N` allows is in time. -/
def KeepsTime (L : UInt64) (N : ℕ) (s : Loop σ) (i : Iter) : Prop :=
  s.phase = .running → i.termreq = false → s.starts.length + 1 < N → InTime L s.server i.call

/-- At most `N` calls, all of them started with a tic number below `N`. -/
structure Limited (N : ℕ) (s : Loop σ) : Prop where
  calls : s.starts.length ≤ N
  starts : ∀ t ∈ s.starts, t.toNat < N

theorem step_of_not_running (m : FaultManager σ) (L : UInt64) (max : UInt32) {s : Loop σ} (i : Iter)
    (h : s.phase ≠ .running) : step m L max s i = s := by
  unfold step
  cases hphase : s.phase with
  | left => rfl
  | stuck => rfl
  | running => exact absurd hphase h

/-- Everything an iteration can do with a limit that is not 0. -/
theorem step_cases (m : FaultManager σ) (L : UInt64) {max : UInt32} (hmax : max ≠ 0) (s : Loop σ)
    (i : Iter) :
    (s.phase ≠ .running ∧ step m L max s i = s) ∨
    (s.phase = .running ∧ (i.termreq = true ∨ ¬ s.tic_num < max.toUInt64) ∧
      (step m L max s i).phase = .left ∧ (step m L max s i).starts = s.starts) ∨
    (s.phase = .running ∧ i.termreq = false ∧ s.tic_num < max.toUInt64 ∧
      (step m L max s i).starts = s.starts ++ [s.server.tic] ∧
      ((step m L max s i).phase = .stuck ∨
        ((step m L max s i).phase = .running ∧ (step m L max s i).tic_num = s.tic_num + 1 ∧
          do_tic m L s.server i.call = .ok (step m L max s i).server))) := by
  unfold step
  cases hphase : s.phase with
  | left => exact Or.inl ⟨by simp, rfl⟩
  | stuck => exact Or.inl ⟨by simp, rfl⟩
  | running =>
      right
      dsimp only
      by_cases hterm : i.termreq = true
      · left
        simp [test, hterm]
      · have hterm : i.termreq = false := by simpa using hterm
        by_cases hlt : s.tic_num < max.toUInt64
        · right
          have htest : test i.termreq max s.tic_num = (true, s.tic_num + 1) := by
            simp [test, hterm, hmax, hlt]
          refine ⟨rfl, hterm, hlt, ?_⟩
          rw [htest, if_pos rfl]
          unfold body
          dsimp only
          cases hdo : do_tic m L s.server i.call with
          | ok server => exact ⟨rfl, Or.inr ⟨rfl, rfl, rfl⟩⟩
          | error e => exact ⟨rfl, Or.inl rfl⟩
        · left
          have htest : test i.termreq max s.tic_num = (false, s.tic_num + 1) := by
            simp [test, hterm, hmax, hlt]
          rw [htest, if_neg (by simp)]
          exact ⟨rfl, Or.inr hlt, rfl, rfl⟩

/-- The loop's own counter counts the calls, whatever the clock does. -/
structure Counted (N : ℕ) (s : Loop σ) : Prop where
  calls : s.starts.length ≤ N
  tic_num : s.phase = .running → s.tic_num.toNat = s.starts.length

theorem max_tics_toNat {optarg : Text} (hfits : (strtoull optarg).1.toNat < 2 ^ 32) :
    (max_tics optarg).toNat = (strtoull optarg).1.toNat := by
  rw [max_tics, UInt64.toNat_toUInt32]
  exact Nat.mod_eq_of_lt hfits

section Limit

variable {m : FaultManager σ} {L : UInt64} {max : UInt32} {N : ℕ} (hmax : max.toNat = N)
  (hpos : 1 ≤ N)

include hmax hpos

theorem max_ne_zero : max ≠ 0 := by
  rintro rfl
  rw [UInt32.toNat_zero] at hmax
  omega

omit hpos in
/-- The test of a running loop passes exactly if there is a call left. -/
theorem tic_num_lt_iff {s : Loop σ} (h : Counted N s) (hrun : s.phase = .running) :
    s.tic_num < max.toUInt64 ↔ s.starts.length < N := by
  rw [UInt64.lt_iff_toNat_lt, UInt32.toNat_toUInt64, hmax, h.tic_num hrun]

theorem counted_step {s : Loop σ} (h : Counted N s) (i : Iter) : Counted N (step m L max s i) := by
  have hlt32 := UInt32.toNat_lt max
  rcases step_cases m L (max_ne_zero hmax hpos) s i with
    ⟨-, hsame⟩ | ⟨-, -, hleft, hstarts⟩ | ⟨hrun, -, htest, hstarts, hphase⟩
  · rw [hsame]
    exact h
  · refine ⟨by rw [hstarts]; exact h.calls, fun hrun => ?_⟩
    rw [hleft] at hrun
    exact absurd hrun (by decide)
  · have hroom := (tic_num_lt_iff hmax h hrun).mp htest
    refine ⟨?_, fun hrun' => ?_⟩
    · rw [hstarts, List.length_append, List.length_singleton]
      omega
    · rcases hphase with hstuck | ⟨-, hnum, -⟩
      · rw [hstuck] at hrun'
        exact absurd hrun' (by decide)
      · have hcount := h.tic_num hrun
        rw [hnum, hstarts, List.length_append, List.length_singleton, UInt64.toNat_add,
          UInt64.toNat_one]
        omega

/-- The loop after `n` iterations without a signal. -/
def After (N n : ℕ) (s : Loop σ) : Prop :=
  Counted N s ∧ s.starts.length = min n N ∧ (s.phase = .left ↔ N < n)

/-- One more iteration without a signal, from a state that is not stuck. -/
theorem after_step {n : ℕ} {s : Loop σ} {i : Iter} (h : After N n s) (hterm : i.termreq = false)
    (hbefore : s.phase ≠ .stuck) (hok : (step m L max s i).phase ≠ .stuck) :
    After N (n + 1) (step m L max s i) := by
  obtain ⟨hcounted, hlen, hleft⟩ := h
  refine ⟨counted_step hmax hpos hcounted i, ?_⟩
  rcases step_cases m L (max_ne_zero hmax hpos) s i with
    ⟨hnot, hsame⟩ | ⟨hrun, hend, hleft', hstarts⟩ | ⟨hrun, -, htest, hstarts, hphase⟩
  · have hl : s.phase = .left := by
      cases hp : s.phase with
      | running => exact absurd hp hnot
      | left => rfl
      | stuck => exact absurd hp hbefore
    have hlong := hleft.mp hl
    rw [hsame, hlen]
    exact ⟨by omega, iff_of_true hl (by omega)⟩
  · -- the test has failed because all calls are made
    have hfull : ¬ s.starts.length < N := by
      rw [← tic_num_lt_iff hmax hcounted hrun]
      rcases hend with hterm' | hend
      · rw [hterm] at hterm'
        exact absurd hterm' (by decide)
      · exact hend
    have hshort : ¬ N < n := by
      rw [← hleft, hrun]
      decide
    rw [hlen] at hfull
    rw [hstarts, hlen]
    exact ⟨by omega, iff_of_true hleft' (by omega)⟩
  · have hroom := (tic_num_lt_iff hmax hcounted hrun).mp htest
    have hrun' : (step m L max s i).phase = .running := by
      rcases hphase with hstuck | ⟨hr, -⟩
      · exact absurd hstuck hok
      · exact hr
    rw [hlen] at hroom
    rw [hstarts, List.length_append, List.length_singleton, hlen]
    exact ⟨by omega, iff_of_false (by rw [hrun']; decide) (by omega)⟩

/-- Without a signal and a call that does not return, the loop makes `N` calls and is left. -/
theorem after_run (manager : σ) (inputs : List Iter) (hquiet : ∀ i ∈ inputs, i.termreq = false)
    (hok : (inputs.foldl (step m L max) (start manager)).phase ≠ .stuck) :
    After N inputs.length (inputs.foldl (step m L max) (start manager)) := by
  -- from the end: whatever the last iteration does, the loop was not stuck before it
  induction inputs using List.reverseRecOn with
  | nil => exact ⟨⟨by simp [start], fun _ => rfl⟩, by simp [start], by simp [start]⟩
  | append_singleton inputs i ih =>
      rw [List.foldl_append, List.foldl_cons, List.foldl_nil] at hok ⊢
      have hbefore : (inputs.foldl (step m L max) (start manager)).phase ≠ .stuck := by
        intro hstuck
        rw [step_of_not_running m L max i (by rw [hstuck]; decide)] at hok
        exact hok hstuck
      have hafter := ih (fun j hj => hquiet j (by simp [hj])) hbefore
      rw [List.length_append, List.length_singleton]
      exact after_step hmax hpos hafter (hquiet i (by simp)) hbefore hok

/-- The calls so far, and that the server's counter is theirs while one is allowed. -/
structure Inv (N : ℕ) (s : Loop σ) : Prop where
  counted : Counted N s
  starts : ∀ t ∈ s.starts, t.toNat < N
  tic : s.phase = .running → s.starts.length < N → s.server.tic.toNat = s.starts.length

theorem inv_step {s : Loop σ} {i : Iter} (h : Inv N s) (htime : KeepsTime L N s i) :
    Inv N (step m L max s i) := by
  have hlt32 := UInt32.toNat_lt max
  have hcounted : Counted N (step m L max s i) := counted_step hmax hpos h.counted i
  rcases step_cases m L (max_ne_zero hmax hpos) s i with
    ⟨-, hsame⟩ | ⟨-, -, hleft, hstarts⟩ | ⟨hrun, hterm, htest, hstarts, hphase⟩
  · rw [hsame]
    exact h
  · refine ⟨hcounted, by rw [hstarts]; exact h.starts, fun hrun' => ?_⟩
    rw [hleft] at hrun'
    exact absurd hrun' (by decide)
  · have hroom := (tic_num_lt_iff hmax h.counted hrun).mp htest
    have htic := h.tic hrun hroom
    refine ⟨hcounted, fun t ht => ?_, fun hrun' hroom' => ?_⟩
    · rw [hstarts] at ht
      rcases List.mem_append.mp ht with hold | hnew
      · exact h.starts t hold
      · rw [List.mem_singleton.mp hnew, htic]
        exact hroom
    · rcases hphase with hstuck | ⟨-, -, hdo⟩
      · rw [hstuck] at hrun'
        exact absurd hrun' (by decide)
      · -- the call is in time, so the server counts one tic
        rw [hstarts, List.length_append, List.length_singleton] at hroom' ⊢
        rw [tic_of_first_reading (htime hrun hterm hroom') hdo, UInt64.toNat_add, htic,
          UInt64.toNat_one]
        omega

end Limit

/-- **The limit.** Let the argument of `-n` be read as a number `N` with
`1 ≤ N < 2 ^ 32`. For every fault manager, tic length and clock, and every run in
which the calls before the last one allowed are in time: at most `N` calls are made,
and none is started when the server's counter is `N` or more. Without a termination
request, and if all calls return, one call is made in each of the first `N`
iterations, and the next test leaves the loop. -/
theorem limit_of_inTime (m : FaultManager σ) (L : UInt64) (manager : σ) (optarg : Text)
    (hpos : 1 ≤ (strtoull optarg).1.toNat) (hfits : (strtoull optarg).1.toNat < 2 ^ 32)
    (inputs : List Iter)
    (htime : EachStep (step m L (max_tics optarg)) (KeepsTime L (strtoull optarg).1.toNat)
      (start manager) inputs) :
    Always (step m L (max_tics optarg)) (Limited (strtoull optarg).1.toNat)
        (start manager) inputs ∧
      ((∀ i ∈ inputs, i.termreq = false) →
        (inputs.foldl (step m L (max_tics optarg)) (start manager)).phase ≠ .stuck →
        (inputs.foldl (step m L (max_tics optarg)) (start manager)).starts.length
            = min inputs.length (strtoull optarg).1.toNat ∧
          ((inputs.foldl (step m L (max_tics optarg)) (start manager)).phase = .left ↔
            (strtoull optarg).1.toNat < inputs.length)) := by
  have hmax := max_tics_toNat hfits
  constructor
  · have hstart : Inv (strtoull optarg).1.toNat (start manager) := by
      refine ⟨⟨by simp [start], fun _ => rfl⟩, by simp [start], fun _ _ => rfl⟩
    have hall := always_of_eachStep hstart (fun s i => inv_step hmax hpos) htime
    exact hall.imp (fun s h => ⟨h.counted.calls, h.starts⟩)
  · intro hquiet hok
    exact (after_run hmax hpos manager inputs hquiet hok).2

/-- A limit of 2, with one iteration more than it allows. -/
theorem limit_two :
    Always (step quiet 10 (max_tics "2".toList)) (Limited (strtoull "2".toList).1.toNat) (start ())
        [⟨false, ⟨0, [5]⟩⟩, ⟨false, ⟨0, [15]⟩⟩, ⟨false, ⟨0, []⟩⟩] ∧
      ([⟨false, ⟨0, [5]⟩⟩, ⟨false, ⟨0, [15]⟩⟩, ⟨false, ⟨0, []⟩⟩].foldl
        (step quiet 10 (max_tics "2".toList)) (start ())).starts.length = 2 := by
  have hlimit := limit_of_inTime quiet 10 () "2".toList (by decide) (by decide)
    [⟨false, ⟨0, [5]⟩⟩, ⟨false, ⟨0, [15]⟩⟩, ⟨false, ⟨0, []⟩⟩] (by
      rw [eachStep_cons, eachStep_cons, eachStep_cons]
      refine ⟨?_, ?_, ?_, eachStep_nil⟩
      · intro _ _ _ _ r hr
        rw [← Option.mem_some_iff.mp hr]
        decide
      · intro _ _ hroom
        exact absurd hroom (by decide)
      · intro _ _ hroom
        exact absurd hroom (by decide))
  exact ⟨hlimit.1, (hlimit.2 (by decide) (by decide)).1⟩

/-- With a limit of 2 and a first call that skips a tic, the second call is started at
tic 2. A limit of `2 ^ 32 + 1` is stored as 1: the loop is left after one call. -/
theorem not_limited_skipped :
    (strtoull "2".toList).1.toNat = 2 ∧
    ¬ Always (step quiet 10 (max_tics "2".toList)) (Limited 2) (start ())
        [⟨false, ⟨0, [15, 15]⟩⟩, ⟨false, ⟨0, [25]⟩⟩] ∧
    (strtoull "4294967297".toList).1.toNat = 2 ^ 32 + 1 ∧
    (([⟨false, ⟨0, [5]⟩⟩, ⟨false, ⟨0, [15]⟩⟩].foldl
      (step quiet 10 (max_tics "4294967297".toList)) (start ())).phase = .left ∧
     ([⟨false, ⟨0, [5]⟩⟩, ⟨false, ⟨0, [15]⟩⟩].foldl
      (step quiet 10 (max_tics "4294967297".toList)) (start ())).starts.length = 1) := by
  refine ⟨by decide, ?_, by decide, by decide, by decide⟩
  intro h
  have hstart := (h _ List.prefix_rfl).starts 2 (by decide)
  exact absurd hstart (by decide)

end LauSim.TicLimit
