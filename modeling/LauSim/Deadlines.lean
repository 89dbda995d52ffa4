/-
The deadlines of the tics, and whether there is one: `Server::skip_to_end_of_tic`
against a clock that moves while the loop runs.

Every deadline is on the grid of the tic length, at least one length behind the
one before, not before the last reading of its call, and the first of the grid to
be so if anything was skipped (`deadlines_spec`). This takes a run in which the
loop ends. Whether it does is decided far from here: `set_config` reads the length
with `std::stoul`, which takes a minus sign, and `init` converts the unsigned
length to a signed duration. From `2 ^ 63` on the duration is negative, and the
timestamp runs away from the clock (`ends_iff`).
-/
import LauSim.Config
import LauSim.Tics

set_option autoImplicit false

namespace LauSim.Tics

open CText Runs

variable {σ : Type}

/-! ## The readings of a call -/

/-- The readings the loop takes: up to the first that is not past the timestamp. -/
def taken (duration : Int64) : Int64 → List Int64 → List Int64
  | _, [] => []
  | timestamp, now :: readings =>
    now :: if timestamp < now then taken duration (timestamp + duration) readings else []

/-- The last reading of a call whose deadlines count from `b`. -/
def lastReading (tic_length : UInt64) (b : Int64) (readings : List Int64) : Option Int64 :=
  (taken tic_length.toInt64 (b + tic_length.toInt64) readings).getLast?

theorem mem_of_mem_taken {d r : Int64} {readings : List Int64} {ts : Int64}
    (h : r ∈ taken d ts readings) : r ∈ readings := by
  induction readings generalizing ts with
  | nil => exact h
  | cons now readings ih =>
      rw [taken] at h
      rcases List.mem_cons.mp h with rfl | h
      · exact List.mem_cons_self
      · split at h
        · exact List.mem_cons_of_mem _ (ih h)
        · exact absurd h List.not_mem_nil

theorem addTime_eq {t d t' : Int64} (h : addTime t d = .ok t') : t' = t + d := by
  unfold addTime at h
  split at h
  · exact (Except.ok.inj h).symm
  · simp at h

/-- The loop ends with a reading that is not past the timestamp; and if it has moved
the timestamp, one length before was too early. -/
theorem catchUp_last {d ts ts' : Int64} {skip skip' : UInt32} {readings : List Int64}
    (h : catchUp d ts skip readings = .ok (ts', skip')) (hclock : readings.Pairwise (· ≤ ·)) :
    ∃ r, (taken d ts readings).getLast? = some r ∧ r.toInt ≤ ts'.toInt ∧
      (ts' ≠ ts → ts'.toInt - d.toInt < r.toInt) := by
  induction readings generalizing ts skip with
  | nil => simp [catchUp] at h
  | cons now readings ih =>
      obtain ⟨hnow, hclock⟩ := List.pairwise_cons.mp hclock
      rw [catchUp] at h
      rw [taken]
      split at h
      · next hlt =>
        rw [if_pos hlt]
        split at h
        · simp at h
        · next ts₁ hadd =>
          rw [← addTime_eq hadd]
          obtain ⟨r, hr, hle, hmin⟩ := ih h hclock
          refine ⟨r, by rw [List.getLast?_cons, hr, Option.getD_some], hle, fun _ => ?_⟩
          by_cases hts : ts' = ts₁
          · -- the reading before was past the timestamp, and the clock does not go back
            have hr_mem := mem_of_mem_taken (List.mem_of_getLast? hr)
            have hle_r := Int64.le_iff_toInt_le.mp (hnow r hr_mem)
            rw [Int64.lt_iff_toInt_lt] at hlt
            rw [hts, addTime_ok hadd]
            omega
          · exact hmin hts
      · next hge =>
        rw [if_neg hge]
        obtain ⟨rfl, rfl⟩ := Prod.mk.inj (Except.ok.inj h)
        rw [Int64.lt_iff_toInt_lt, not_lt] at hge
        exact ⟨now, rfl, hge, fun hne => absurd rfl hne⟩

/-- The deadline of a call: the readings that made it, and that it is the one waited for. -/
theorem skip_last {L : UInt64} (hL : L ≠ 0) {readings : List Int64} {s s' : Ticker σ}
    (h : skip_to_end_of_tic L readings s = .ok s') (hclock : readings.Pairwise (· ≤ ·)) :
    s'.deadlines = s.deadlines ++ [s'.timestamp] ∧
    ∃ r, lastReading L s.timestamp readings = some r ∧ r.toInt ≤ s'.timestamp.toInt ∧
      (s.timestamp.toInt + L.toInt64.toInt ≠ s'.timestamp.toInt →
        s'.timestamp.toInt - L.toInt64.toInt < r.toInt) := by
  unfold skip_to_end_of_tic at h
  dsimp only at h
  rw [if_neg hL] at h
  obtain ⟨ts, hadd, h⟩ := FaultManager.bind_eq_ok h
  obtain ⟨⟨ts', skip⟩, hloop, h⟩ := FaultManager.bind_eq_ok h
  obtain ⟨r, hr, hle, hmin⟩ := catchUp_last hloop hclock
  rw [← Except.ok.inj h]
  refine ⟨rfl, r, ?_, hle, fun hne => hmin ?_⟩
  · rw [lastReading, ← addTime_eq hadd]
    exact hr
  · rintro rfl
    exact hne (addTime_ok hadd).symm

/-! ## The deadlines of a run -/

/-- What `D` is for a call whose deadlines count from `b`: a whole tic later, not
before the last reading, and, if it is more than one tic, not one tic too late. -/
structure Deadline (L : UInt64) (b : Int64) (c : Call) (D : Int64) : Prop where
  later : b.toInt + L.toNat ≤ D.toInt
  last : ∃ r, lastReading L b c.readings = some r ∧ r.toInt ≤ D.toInt ∧
    (b.toInt + L.toNat < D.toInt → D.toInt - L.toNat < r.toInt)

/-- The deadlines of some calls, the first of which counts from `T0` and every other
from the deadline before. -/
structure Deadlines (L : UInt64) (T0 : Int64) (cs : List Call) (ds : List Int64) : Prop where
  length : ds.length = cs.length
  grid : ∀ D ∈ ds, ∃ n : ℕ, 1 ≤ n ∧ D.toInt = T0.toInt + n * L.toNat
  each : ∀ (i : ℕ) (b : Int64) (c : Call) (D : Int64), (T0 :: ds)[i]? = some b →
    cs[i]? = some c → ds[i]? = some D → Deadline L b c D

theorem deadlines_nil (L : UInt64) (T0 : Int64) : Deadlines L T0 [] [] :=
  ⟨rfl, by simp, by simp⟩

/-- One more call, from the last deadline so far. -/
theorem Deadlines.concat {L : UInt64} {T0 b D : Int64} {cs : List Call} {ds : List Int64} {c : Call}
    (h : Deadlines L T0 cs ds) (hb : (T0 :: ds).getLast? = some b)
    (hgrid : ∃ n : ℕ, 1 ≤ n ∧ D.toInt = T0.toInt + n * L.toNat) (hD : Deadline L b c D) :
    Deadlines L T0 (cs ++ [c]) (ds ++ [D]) := by
  refine ⟨by simp [h.length], ?_, ?_⟩
  · intro D' hD'
    rcases List.mem_append.mp hD' with hold | hnew
    · exact h.grid D' hold
    · rw [List.mem_singleton.mp hnew]
      exact hgrid
  · intro i b' c' D' hb' hc' hD'
    rcases Nat.lt_or_ge i ds.length with hlt | hge
    · rw [List.getElem?_append_left (by rw [← h.length]; exact hlt)] at hc'
      rw [List.getElem?_append_left hlt] at hD'
      rw [← List.cons_append, List.getElem?_append_left (by simp; omega)] at hb'
      exact h.each i b' c' D' hb' hc' hD'
    · have hi : i = ds.length := by
        have hbound := (List.getElem?_eq_some_iff.mp hD').1
        rw [List.length_append, List.length_singleton] at hbound
        omega
      subst hi
      rw [List.getElem?_concat_length] at hD'
      rw [h.length, List.getElem?_concat_length] at hc'
      rw [← List.cons_append, List.getElem?_append_left (by simp)] at hb'
      rw [List.getLast?_eq_getElem?, List.length_cons, Nat.add_sub_cancel, hb'] at hb
      rw [← Option.some.inj hD', ← Option.some.inj hc', Option.some.inj hb]
      exact hD

/-- **One call.** A call that counts from a point of the grid, with a tic number that
is not ahead of it, has a deadline on the grid, and a tic number that is not ahead
of that and not 0: the start is never taken again, whatever the 32-bit count has lost. -/
theorem deadline_do_tic {m : FaultManager σ} {L : UInt64}
    (hL : 1 ≤ L.toNat ∧ L.toNat < 2 ^ 63) {s s' : Ticker σ} {c : Call} {T0 : Int64} {n : ℕ}
    (hbase : (base s c).toInt = T0.toInt + n * L.toNat) (htic : s.tic.toNat ≤ n)
    (hclock : c.readings.Pairwise (· ≤ ·)) (h : do_tic m L s c = .ok s') :
    (∃ n' : ℕ, 1 ≤ n' ∧ s'.timestamp.toInt = T0.toInt + n' * L.toNat ∧
      s'.tic.toNat ≤ n' ∧ s'.tic ≠ 0) ∧
    Deadline L (base s c) c s'.timestamp ∧ s'.deadlines = s.deadlines ++ [s'.timestamp] := by
  have hL0 : L ≠ 0 := by
    rintro rfl
    simp at hL
  obtain ⟨-, -, -, ⟨hzero, -⟩ | ⟨-, k, -, -, hts, hnext⟩⟩ := do_tic_ok h
  · exact absurd hzero hL0
  have hlast : s'.deadlines = s.deadlines ++ [s'.timestamp] ∧
      ∃ r, lastReading L (base s c) c.readings = some r ∧ r.toInt ≤ s'.timestamp.toInt ∧
        ((base s c).toInt + L.toInt64.toInt ≠ s'.timestamp.toInt →
          s'.timestamp.toInt - L.toInt64.toInt < r.toInt) := by
    obtain ⟨manager, s₁, -, hmanage, hskip⟩ := do_tic_parts h
    obtain ⟨fs, manager', notified, log, external, -, rfl⟩ := manage_fails_ok hmanage
    exact skip_last hL0 hskip hclock
  rw [toInt_toInt64 hL.2] at hts hlast
  obtain ⟨hgrid, hnat, hnz⟩ := next_point hL.1 hbase hts htic hnext
  have hmod : k % 2 ^ 32 ≤ k := Nat.mod_le _ _
  refine ⟨⟨n + 1 + k, by omega, hgrid, by omega, hnz⟩, ⟨?_, ?_⟩, hlast.1⟩
  · have hpos : (0 : ℤ) ≤ k * L.toNat := by positivity
    rw [hts, add_mul, one_mul]
    omega
  · obtain ⟨r, hr, hle, hmin⟩ := hlast.2
    exact ⟨r, hr, hle, fun hlt => hmin (ne_of_lt hlt)⟩

/-- The calls `cs` from the first one on, which starts at `T0`. -/
theorem deadlines_run {m : FaultManager σ} {L : UInt64} (hL : 1 ≤ L.toNat ∧ L.toNat < 2 ^ 63)
    (manager : σ) (c₀ : Call) (cs : List Call)
    (hclock : ∀ c ∈ c₀ :: cs, c.readings.Pairwise (· ≤ ·)) {s : Ticker σ}
    (h : (c₀ :: cs).foldl (step m L) (.ok (start manager)) = .ok s) :
    Deadlines L c₀.first (c₀ :: cs) s.deadlines ∧ s.deadlines.getLast? = some s.timestamp ∧
      ∃ n : ℕ, s.timestamp.toInt = c₀.first.toInt + n * L.toNat ∧ s.tic.toNat ≤ n ∧ s.tic ≠ 0 := by
  -- from the end: the state before the last call has the deadline the last call counts from
  induction cs using List.reverseRecOn generalizing s with
  | nil =>
      have hfirst : (base (start manager) c₀).toInt = c₀.first.toInt + (0 : ℕ) * L.toNat := by
        simp [base, start]
      obtain ⟨⟨n, hn, hts, hle, hne⟩, hD, hds⟩ := deadline_do_tic hL hfirst (le_refl 0)
        (hclock c₀ List.mem_cons_self) h
      rw [show (start manager).deadlines = [] from rfl, List.nil_append] at hds
      rw [hds]
      exact ⟨(deadlines_nil L c₀.first).concat rfl ⟨n, hn, hts⟩ hD, rfl, n, hts, hle, hne⟩
  | append_singleton cs c ih =>
      rw [← List.cons_append, List.foldl_append, List.foldl_cons, List.foldl_nil] at h
      obtain ⟨s₀, hs₀, hdo⟩ := step_ok h
      obtain ⟨hall, hlast, n, hts, hle, hne⟩ :=
        ih (fun c' hc' => hclock c' (by simp at hc' ⊢; tauto)) hs₀
      have hbase : base s₀ c = s₀.timestamp := if_neg hne
      obtain ⟨⟨n', hn', hts', hle', hne'⟩, hD, hds⟩ := deadline_do_tic hL
        (by rw [hbase]; exact hts) hle (hclock c (by simp)) hdo
      rw [hds, ← List.cons_append]
      have hprev : (c₀.first :: s₀.deadlines).getLast? = some (base s₀ c) := by
        rw [hbase, List.getLast?_cons, hlast, Option.getD_some]
      exact ⟨hall.concat hprev ⟨n', hn', hts'⟩ hD, by simp, n', hts', hle', hne'⟩

/-- **The deadlines.** For every tic length from 1 to `2 ^ 63 - 1`, every clock that does
not go back while a call reads it, and every run of `do_tic` calls that return:
there is one deadline for each call; each is on the grid, `T0` plus a positive
multiple of the length; each is at least one length behind the one before, and not
before the last reading of its call; and if more than one length was added, one
length less was before that reading. -/
theorem deadlines_spec (m : FaultManager σ) (L : UInt64) (hL : 1 ≤ L.toNat ∧ L.toNat < 2 ^ 63)
    (manager : σ) (c₀ : Call) (cs : List Call)
    (hclock : ∀ c ∈ c₀ :: cs, c.readings.Pairwise (· ≤ ·)) (s : Ticker σ)
    (h : (c₀ :: cs).foldl (step m L) (.ok (start manager)) = .ok s) :
    Deadlines L c₀.first (c₀ :: cs) s.deadlines :=
  (deadlines_run hL manager c₀ cs hclock h).1

/-- Two calls, the second one tic late. -/
theorem deadlines_two_calls :
    ∃ s : Ticker Unit,
      [⟨100, [105]⟩, ⟨0, [125, 127]⟩].foldl (step quiet 10) (.ok (start ())) = .ok s ∧
      s.deadlines = [110, 130] ∧
      Deadlines 10 100 [⟨100, [105]⟩, ⟨0, [125, 127]⟩] s.deadlines :=
  ⟨_, rfl, rfl, deadlines_spec quiet 10 (by decide) () ⟨100, [105]⟩ [⟨0, [125, 127]⟩]
    (by decide) _ rfl⟩

/-! ## Whether the loop ends -/

/-- The loop ends, with a timestamp that is not before the last reading, for a clock
that shows `clock i` at the `i`-th test. -/
def Ends (L : UInt64) (clock : ℕ → Int64) (s : Ticker σ) : Prop :=
  ∃ (n : ℕ) (s' : Ticker σ) (r : Int64),
    skip_to_end_of_tic L ((List.range n).map clock) s = .ok s' ∧
    lastReading L s.timestamp ((List.range n).map clock) = some r ∧ r ≤ s'.timestamp

/-- From `b`, a positive number of tics gets to `bound` before time overflows. A length
from `2 ^ 63` on is a step back: then `bound` must not be past the first step. -/
def Reaches (L : UInt64) (b bound : Int64) : Prop :=
  if L.toNat < 2 ^ 63 then
    ∃ n : ℕ, 1 ≤ n ∧ bound.toInt ≤ b.toInt + n * L.toNat ∧ b.toInt + n * L.toNat < 2 ^ 63
  else
    -2 ^ 63 ≤ b.toInt + (L.toNat - 2 ^ 64) ∧ bound.toInt ≤ b.toInt + (L.toNat - 2 ^ 64)

theorem toInt_toInt64_of_le {L : UInt64} (hL : 2 ^ 63 ≤ L.toNat) :
    L.toInt64.toInt = L.toNat - 2 ^ 64 := by
  have hlt := UInt64.toNat_lt L
  have hbv : L.toInt64.toInt = L.toBitVec.toInt := rfl
  have hnat : L.toBitVec.toNat = L.toNat := rfl
  rw [hbv, BitVec.toInt_eq_toNat_bmod, Int.bmod_def, hnat]
  omega

/-- The next `n` steps of length `d` from `ts` on are representable. -/
def InRange (d ts : Int64) (n : ℕ) : Prop :=
  ∀ j : ℕ, 1 ≤ j → j ≤ n →
    -2 ^ 63 ≤ ts.toInt + j * d.toInt ∧ ts.toInt + j * d.toInt < 2 ^ 63

/-- One step, and the steps that are left. -/
theorem InRange.succ {d ts : Int64} {n : ℕ} (h : InRange d ts (n + 1)) :
    addTime ts d = .ok (ts + d) ∧ InRange d (ts + d) n := by
  have hone := h 1 (le_refl 1) (by omega)
  rw [Nat.cast_one, one_mul] at hone
  have hadd : addTime ts d = .ok (ts + d) := if_pos hone
  refine ⟨hadd, fun j hj hjn => ?_⟩
  have hnext := h (j + 1) (by omega) (by omega)
  rw [addTime_ok hadd]
  push_cast at hnext
  constructor <;> linarith [hnext.1, hnext.2]

/-- A bounded clock is caught up with if `n` tics get to the bound. -/
theorem catchUp_ends (d : Int64) {bound : Int64} (n : ℕ) (ts : Int64) (skip : UInt32)
    {clock : ℕ → Int64} (hbound : ∀ i, clock i ≤ bound) (hn : bound.toInt ≤ ts.toInt + n * d.toInt)
    (hrange : InRange d ts n) :
    ∃ out, catchUp d ts skip ((List.range (n + 1)).map clock) = .ok out := by
  induction n generalizing ts skip clock with
  | zero =>
      have hnow := Int64.le_iff_toInt_le.mp (hbound 0)
      rw [List.range_one, List.map_singleton, catchUp, if_neg]
      · exact ⟨_, rfl⟩
      · rw [Int64.lt_iff_toInt_lt]
        push_cast at hn
        omega
  | succ n ih =>
      rw [List.range_succ_eq_map, List.map_cons, List.map_map, catchUp]
      by_cases hlt : ts < clock 0
      · obtain ⟨hadd, hrest⟩ := hrange.succ
        rw [if_pos hlt, hadd]
        apply ih (ts + d) (skip + 1) (fun i => hbound (i + 1)) _ hrest
        rw [addTime_ok hadd]
        push_cast at hn
        linarith
      · rw [if_neg hlt]
        exact ⟨_, rfl⟩

theorem skip_ends {L : UInt64} (hL : L ≠ 0) {bound : Int64} {clock : ℕ → Int64} {s : Ticker σ}
    (hclock : ∀ i j, i ≤ j → clock i ≤ clock j) (hbound : ∀ i, clock i ≤ bound) (n : ℕ)
    (hn : bound.toInt ≤ s.timestamp.toInt + (n + 1 : ℕ) * L.toInt64.toInt)
    (hrange : InRange L.toInt64 s.timestamp (n + 1)) : Ends L clock s := by
  obtain ⟨hadd, hrest⟩ := hrange.succ
  have hreach : bound.toInt ≤ (s.timestamp + L.toInt64).toInt + n * L.toInt64.toInt := by
    rw [addTime_ok hadd]
    push_cast at hn
    linarith
  obtain ⟨⟨ts', skip⟩, hloop⟩ :=
    catchUp_ends L.toInt64 n (s.timestamp + L.toInt64) 0 hbound hreach hrest
  have hok : ∃ s', skip_to_end_of_tic L ((List.range (n + 1)).map clock) s = .ok s' := by
    unfold skip_to_end_of_tic
    rw [if_neg hL]
    simp only [hadd, hloop, bind, Except.bind]
    exact ⟨_, rfl⟩
  obtain ⟨s', hs'⟩ := hok
  have hsorted : ((List.range (n + 1)).map clock).Pairwise (· ≤ ·) := by
    rw [List.pairwise_map]
    exact List.pairwise_lt_range.imp (fun hij => hclock _ _ hij.le)
  obtain ⟨-, r, hr, hle, -⟩ := skip_last hL hs' hsorted
  exact ⟨n + 1, s', r, hs', hr, Int64.le_iff_toInt_le.mpr hle⟩

/-- A clock that stands at the bound shows that the bound has to be reached. -/
theorem reaches_of_ends {L : UInt64} (hL : L ≠ 0) {bound : Int64} {s : Ticker σ}
    (h : Ends L (fun _ => bound) s) : Reaches L s.timestamp bound := by
  obtain ⟨n, s', -, hskip, -, -⟩ := h
  rcases skip_ok hskip with ⟨hzero, -⟩ | ⟨-, k, ts, -, hbehind, ⟨r, hr, hle⟩, hts, -⟩
  · exact absurd hzero hL
  have hconst : ∀ (j : ℕ) (x : Int64), ((List.range n).map (fun _ => bound))[j]? = some x →
      x = bound := by
    intro j x hx
    have hmem := List.mem_of_getElem? hx
    rw [List.mem_map] at hmem
    obtain ⟨_, -, heq⟩ := hmem
    exact heq.symm
  rw [hconst k r hr] at hle
  have hmax := Int64.toInt_lt ts
  have hmin := Int64.le_toInt ts
  unfold Reaches
  split
  · next hlt =>
    rw [toInt_toInt64 hlt] at hle hts
    refine ⟨k + 1, by omega, ?_, ?_⟩
    · push_cast
      exact hle
    · push_cast
      omega
  · next hge =>
    have hd := toInt_toInt64_of_le (show 2 ^ 63 ≤ L.toNat by omega)
    have hlt := UInt64.toNat_lt L
    -- a step back cannot make up for a reading that was past the timestamp before
    have hk : k = 0 := by
      by_contra hne
      obtain ⟨r₀, hr₀, hpast⟩ := hbehind 0 (by omega)
      rw [hconst 0 r₀ hr₀] at hpast
      have hback : (k : ℤ) * L.toInt64.toInt ≤ 0 :=
        mul_nonpos_of_nonneg_of_nonpos (by omega) (by rw [hd]; omega)
      push_cast at hpast
      rw [add_mul, one_mul] at hle
      omega
    rw [hk, hd] at hle hts
    push_cast at hle hts
    constructor
    · omega
    · omega

theorem ends_of_reaches {L : UInt64} (hL : L ≠ 0) {bound : Int64} {clock : ℕ → Int64}
    {s : Ticker σ} (hclock : ∀ i j, i ≤ j → clock i ≤ clock j) (hbound : ∀ i, clock i ≤ bound)
    (h : Reaches L s.timestamp bound) : Ends L clock s := by
  have hmin := Int64.le_toInt s.timestamp
  unfold Reaches at h
  split at h
  · next hlt =>
    obtain ⟨n, hn, hreach, hmax⟩ := h
    have hd := toInt_toInt64 hlt
    apply skip_ends hL hclock hbound (n - 1)
    · rw [hd, Nat.sub_add_cancel hn]
      exact hreach
    · intro j _ hj
      have hle : (j : ℤ) * L.toNat ≤ n * L.toNat :=
        mul_le_mul_of_nonneg_right (by omega) (by omega)
      have hpos : (0 : ℤ) ≤ j * L.toNat := by positivity
      rw [hd]
      constructor
      · omega
      · omega
  · next hge =>
    obtain ⟨hlow, hreach⟩ := h
    have hd := toInt_toInt64_of_le (show 2 ^ 63 ≤ L.toNat by omega)
    have hlt := UInt64.toNat_lt L
    have hmax := Int64.toInt_lt s.timestamp
    apply skip_ends hL hclock hbound 0
    · rw [hd]
      push_cast
      omega
    · intro j hj1 hj
      have hone : j = 1 := by omega
      rw [hone, hd]
      push_cast
      omega

open Config PluginManager in
/-- What `set_config` has stored when it accepts a tic length. -/
theorem stoul_of_set_config {α : Type} [LinearOrder α] {pl : α → Plugin} {value : Text}
    {more : List Text} {r : Registry α} {c c' : Conf α}
    (h : set_config pl .tic ("=".toList :: value :: more) r c = (.ret 0, c')) :
    stoul value = some c'.tic_length := by
  obtain ⟨v, hv, ⟨-, hn, -⟩ | ⟨hne, -⟩⟩ := set_config_eq_zero h
  · rw [← Option.some.inj hv] at hn
    exact hn
  · exact absurd rfl hne

open Config PluginManager in
/-- **The catch-up loop.** Let `set_config` accept a value for the tic length that is
not 0. From any timestamp, the loop ends for every clock that does not go back and
stays within `bound`, with a timestamp that is not before the last reading, exactly
if the value is below `2 ^ 63` and some number of tics gets to `bound` before time
overflows, or the value is above and the loop is not entered. -/
theorem ends_iff {α : Type} [LinearOrder α] (pl : α → Plugin) (value : Text) (more : List Text)
    (r : Registry α) (c c' : Conf α)
    (hset : set_config pl .tic ("=".toList :: value :: more) r c = (.ret 0, c'))
    (hne : c'.tic_length ≠ 0) (s : Ticker σ) (bound : Int64) :
    (∀ clock : ℕ → Int64, (∀ i j, i ≤ j → clock i ≤ clock j) → (∀ i, clock i ≤ bound) →
      Ends c'.tic_length clock s) ↔
    ∃ L, stoul value = some L ∧ Reaches L s.timestamp bound := by
  have hvalue := stoul_of_set_config hset
  constructor
  · intro h
    refine ⟨c'.tic_length, hvalue, reaches_of_ends hne (h _ ?_ ?_)⟩
    · exact fun _ _ _ => Int64.le_refl bound
    · exact fun _ => Int64.le_refl bound
  · rintro ⟨L, hL, hreach⟩ clock hclock hbound
    rw [hvalue, Option.some_inj] at hL
    rw [hL] at hne ⊢
    exact ends_of_reaches hne hclock hbound hreach

open Config PluginManager in
/-- A length of 10, and a clock that stays within 25. -/
theorem ends_ten :
    stoul "10".toList = some 10 ∧
    ∀ clock : ℕ → Int64, (∀ i j, i ≤ j → clock i ≤ clock j) → (∀ i, clock i ≤ 25) →
      Ends 10 clock (start ()) := by
  refine ⟨rfl, ?_⟩
  have hset : set_config (fun _ : ℕ => Plugin.mk "p".toList PL_NONE) .tic
      ["=".toList, "10".toList] OrdMap.empty Conf.initial
        = (.ret 0, { Conf.initial with tic_length := 10 }) := rfl
  refine (ends_iff _ _ _ _ _ _ hset (by decide) (start ()) 25).mpr ⟨10, rfl, ?_⟩
  rw [Reaches, if_pos (by decide)]
  exact ⟨3, by decide, by decide, by decide⟩

open Config PluginManager in
/-- `tic = -1` is accepted, and with it the loop never catches up, even with a clock
that stands still. -/
theorem not_ends_minus_one :
    ∃ c' : Conf ℕ, set_config (fun _ : ℕ => Plugin.mk "p".toList PL_NONE) .tic
        ["=".toList, "-1".toList] OrdMap.empty Conf.initial = (.ret 0, c') ∧
      c'.tic_length ≠ 0 ∧ ¬ Ends c'.tic_length (fun _ => 0) (start ()) := by
  refine ⟨{ Conf.initial with tic_length := -1 }, rfl, by decide, ?_⟩
  intro h
  have hreach := reaches_of_ends (by decide) h
  rw [Reaches, if_neg (by decide)] at hreach
  exact absurd hreach.2 (by decide)

end LauSim.Tics
