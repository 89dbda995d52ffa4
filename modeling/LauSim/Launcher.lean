/-
The launcher (`client/launcher/launcher.c`) and the processes it starts, with the method
`preload`.

`main` forks the application, waits for the FIFO, forks the client, waits for its end, and sends
SIGTERM to both. Here the launcher, its two children, signals, and strangers that get and give
up process ids move in any order. A process that has ended keeps its id until it is waited for;
then the kernel may give the id to somebody else.

`waitpid` of the loop takes the status of a client that has ended by itself. When the client
failed, `main` then sends a signal to the id it has just given back. `teardown`: this is the one
way in which a signal of the launcher misses, as long as `fork` does not fail; and the launcher
does not end before its client has, unless a second signal interrupts the wait.

The options, and what the children do before they are the application and the client, are left
out.
-/
import LauSim.Lib.Runs
import Mathlib.Logic.Function.Basic

set_option autoImplicit false

namespace LauSim.Launcher

open Runs

/-- Who has a process id. -/
inductive Owner where
  | nobody
  | app
  | client
  | other
  deriving DecidableEq, Repr

/-- Where `main` stands. -/
inductive Pc where
  | forkApp
  /-- `while (stat (FIFO_FILE, ...) != 0)` -/
  | waitFifo
  | forkClient
  /-- the loop around `waitpid (pid2, ...)` -/
  | waitClient
  /-- behind it, before the tests of `stat_val` and `req_stop` -/
  | test
  | killClient
  /-- the second `waitpid (pid2, ...)` -/
  | reap
  | killApp
  | done
  deriving DecidableEq, Repr

/-- Whom a `kill` hits. -/
inductive Hit where
  | process (owner : Owner)
  /-- the id is -1 -/
  | everyone
  deriving DecidableEq, Repr

/-- `main` and what the kernel knows. An id is none where `fork` returned -1. -/
structure State where
  pc : Pc
  req_stop : Bool
  pid : Option ℕ
  pid2 : Option ℕ
  /-- `stat_val`, once it is written: whether the process exited with 0 -/
  stat_val : Option Bool
  owner : ℕ → Owner
  /-- how the processes have ended -/
  appEnd : Option Bool
  clientEnd : Option Bool
  /-- the client has been waited for -/
  reaped : Bool
  /-- it had been when it was killed -/
  late : Bool
  /-- a signal has ended the second wait -/
  interrupted : Bool
  kills : List Hit

inductive Input where
  /-- `fork` returns -1 or an id -/
  | fork (ret : Option ℕ)
  | stat (found : Bool)
  /-- the launcher goes on; in `waitpid` as far as the kernel lets it -/
  | go
  /-- SIGTERM or SIGINT, and whether it comes inside of `waitpid` -/
  | signal (inside : Bool)
  | app_ends (ok : Bool)
  | client_ends (ok : Bool)
  /-- a stranger gets an id, or gives it up -/
  | get (p : ℕ)
  | give (p : ℕ)
  deriving DecidableEq, Repr

def start : State where
  pc := .forkApp
  req_stop := false
  pid := none
  pid2 := none
  stat_val := none
  owner := fun _ => .nobody
  appEnd := none
  clientEnd := none
  reaped := false
  late := false
  interrupted := false
  kills := []

/-- What `waitpid (pid2, ...)` does. -/
inductive Wait where
  | returns (ok : Bool) (p : ℕ)
  /-- no such child -/
  | fails
  | blocks
  deriving DecidableEq, Repr

/-- With -1 it takes any child, which can only be the application. -/
def State.waitpid (s : State) : Wait :=
  match s.pid2, s.pid with
  | some p, _ =>
    if s.reaped then .fails
    else
      match s.clientEnd with
      | some ok => .returns ok p
      | none => .blocks
  | none, some p =>
    if s.reaped then .fails
    else
      match s.appEnd with
      | some ok => .returns ok p
      | none => .blocks
  | none, none => .fails

/-- The status is taken, and the id is free. -/
def State.takes (s : State) (ok : Bool) (p : ℕ) : State :=
  { s with
    stat_val := some ok
    owner := Function.update s.owner p .nobody
    reaped := true }

def State.kill (s : State) : Option ℕ → State
  | some p => { s with kills := s.kills ++ [.process (s.owner p)] }
  | none => { s with kills := s.kills ++ [.everyone] }

/-- The launcher goes on. -/
def State.go (s : State) : State :=
  match s.pc with
  | .waitClient =>
    match s.waitpid with
    | .returns ok p => { s.takes ok p with pc := .test }
    | .fails => if s.req_stop then { s with pc := .test } else s
    | .blocks => s
  | .test =>
    -- `stat_val` is read before it is written only if `req_stop` is set
    let stop := s.req_stop || s.stat_val == some false
    { s with req_stop := stop, pc := if stop then .killClient else .killApp }
  | .killClient => { s.kill s.pid2 with late := s.reaped, pc := .reap }
  | .reap =>
    match s.waitpid with
    | .returns ok p => { s.takes ok p with pc := .killApp }
    | .fails => { s with pc := .killApp }
    | .blocks => s
  | .killApp => { s.kill s.pid with pc := .done }
  | _ => s

/-- A signal sets `req_stop`; inside of a `waitpid` that blocks, this returns -1 then. -/
def State.signal (s : State) (inside : Bool) : State :=
  if inside = true ∧ s.waitpid = .blocks ∧ s.pc = .waitClient then
    { s with req_stop := true, pc := .test }
  else if inside = true ∧ s.waitpid = .blocks ∧ s.pc = .reap then
    { s with req_stop := true, pc := .killApp, interrupted := true }
  else { s with req_stop := true }

/-- `fork`; the kernel gives out ids that nobody has. -/
def State.fork (s : State) (ret : Option ℕ) : State :=
  if ∃ p ∈ ret, s.owner p ≠ .nobody then s
  else
    match s.pc with
    | .forkApp =>
      { s with pid := ret, pc := .waitFifo,
               owner := ret.elim s.owner fun p => Function.update s.owner p .app }
    | .forkClient =>
      { s with pid2 := ret, pc := .waitClient,
               owner := ret.elim s.owner fun p => Function.update s.owner p .client }
    | _ => s

def step (s : State) : Input → State
  | .fork ret => s.fork ret
  | .stat found => if s.pc = .waitFifo ∧ found = true then { s with pc := .forkClient } else s
  | .go => s.go
  | .signal inside => s.signal inside
  | .app_ends ok => if s.pid ≠ none ∧ s.appEnd = none then { s with appEnd := some ok } else s
  | .client_ends ok =>
    if s.pid2 ≠ none ∧ s.clientEnd = none then { s with clientEnd := some ok } else s
  | .get p =>
    if s.owner p = .nobody then { s with owner := Function.update s.owner p .other } else s
  | .give p =>
    if s.owner p = .other then { s with owner := Function.update s.owner p .nobody } else s

/-! ## One step -/

/-- The client has not been started. -/
def Pc.early : Pc → Bool
  | .forkApp => true
  | .waitFifo => true
  | .forkClient => true
  | _ => false

/-- The client is not to be waited for again. -/
def Pc.finishing : Pc → Bool
  | .killApp => true
  | .done => true
  | _ => false

/-- Nothing has been killed. -/
def Pc.beforeKill : Pc → Bool
  | .reap => false
  | .killApp => false
  | .done => false
  | _ => true

def OwnHit (k : Hit) : Prop := k = .process .app ∨ k = .process .client

structure Inv (s : State) : Prop where
  app : ∀ p, s.pid = some p → s.owner p = .app
  client : s.reaped = false → ∀ p, s.pid2 = some p → s.owner p = .client
  gone : s.reaped = true → ∀ p, s.pid2 = some p → s.owner p = .nobody ∨ s.owner p = .other
  started : s.pc ≠ .forkApp → s.pid ≠ none
  started2 : s.pc.early = false → s.pid2 ≠ none
  early : s.pc.early = true → s.pid2 = none ∧ s.reaped = false
  unhurt : s.pc.beforeKill = true → s.late = false
  hits : (∀ k ∈ s.kills, OwnHit k) ↔ s.late = false
  tested : s.pc = .test → s.reaped = true ∨ s.req_stop = true
  waited : s.pc.finishing = true → s.reaped = true ∨ s.interrupted = true
  asked : s.pc = .killClient → s.req_stop = true
  quiet : s.req_stop = false → ∀ k ∈ s.kills, k = .process .app

theorem inv_start : Inv start where
  app := fun _ h => by cases h
  client := fun _ _ h => by cases h
  gone := fun h => by cases h
  started := fun h => absurd rfl h
  started2 := fun h => by cases h
  early := fun _ => ⟨rfl, rfl⟩
  unhurt := fun _ => rfl
  hits := iff_of_true (fun _ h => by cases h) rfl
  tested := fun h => by cases h
  waited := fun h => by cases h
  asked := fun h => by cases h
  quiet := fun _ _ h => by cases h

/-- The id of the application is not the one of a client that is there. -/
theorem Inv.ne {s : State} (h : Inv s) (hreaped : s.reaped = false) {p q : ℕ}
    (hp : s.pid = some p) (hq : s.pid2 = some q) : p ≠ q := by
  rintro rfl
  have happ := h.app p hp
  rw [h.client hreaped p hq] at happ
  cases happ

/-- A stranger comes or goes: nothing changes for the children. -/
theorem Inv.stranger {s : State} (h : Inv s) {p : ℕ} {o : Owner}
    (hold : s.owner p = .nobody ∨ s.owner p = .other) (hnew : o = .nobody ∨ o = .other) :
    Inv { s with owner := Function.update s.owner p o } := by
  have hne : ∀ q, s.owner q = .app ∨ s.owner q = .client → q ≠ p := by
    rintro q hq rfl
    rcases hold with hold | hold
    all_goals rw [hold] at hq; simp at hq
  refine ⟨fun q hq => ?_, fun hr q hq => ?_, fun hr q hq => ?_, h.started, h.started2, h.early,
    h.unhurt, h.hits, h.tested, h.waited, h.asked, h.quiet⟩
  · have happ := h.app q hq
    dsimp only
    rw [Function.update_of_ne (hne q (Or.inl happ))]
    exact happ
  · have hclient := h.client hr q hq
    dsimp only
    rw [Function.update_of_ne (hne q (Or.inr hclient))]
    exact hclient
  · dsimp only
    by_cases hqp : q = p
    · rw [hqp, Function.update_self]
      exact hnew
    · rw [Function.update_of_ne hqp]
      exact h.gone hr q hq

/-- The status of the client is taken. -/
theorem Inv.takes {s : State} (h : Inv s) (hreaped : s.reaped = false) {p : ℕ}
    (hp : s.pid2 = some p) (ok : Bool) {pc : Pc} (hpc : pc = .test ∨ pc = .killApp)
    (hunhurt : pc.beforeKill = true → s.late = false) :
    Inv { s.takes ok p with pc := pc } := by
  have hnone : pc ≠ .forkApp ∧ pc.early = false := by
    rcases hpc with rfl | rfl
    · exact ⟨by decide, rfl⟩
    · exact ⟨by decide, rfl⟩
  refine ⟨fun q hq => ?_, fun hr => ?_, fun _ q hq => ?_, fun _ => ?_, fun _ => ?_, fun he => ?_,
    hunhurt, h.hits, fun _ => Or.inl rfl, fun _ => Or.inl rfl, fun hk => ?_, h.quiet⟩
  · have hqp : q ≠ p := h.ne hreaped hq hp
    change Function.update s.owner p .nobody q = .app
    rw [Function.update_of_ne hqp]
    exact h.app q hq
  · cases hr
  · obtain rfl : p = q := Option.some.inj (hp.symm.trans hq)
    exact Or.inl (Function.update_self _ _ _)
  · intro hpid
    have hearly : s.pc ≠ .forkApp := by
      intro hfork
      have hpid2 := (h.early (by rw [hfork]; rfl)).1
      rw [hp] at hpid2
      cases hpid2
    exact h.started hearly hpid
  · change s.pid2 ≠ none
    rw [hp]
    simp
  · rw [hnone.2] at he
    cases he
  · rcases hpc with rfl | rfl
    · cases hk
    · cases hk

/-- What `waitpid` can do once the client has been started. -/
theorem waitpid_cases {s : State} {p : ℕ} (hp : s.pid2 = some p) :
    (s.reaped = true ∧ s.waitpid = .fails) ∨
      (s.reaped = false ∧ ∃ ok, s.clientEnd = some ok ∧ s.waitpid = .returns ok p) ∨
      (s.reaped = false ∧ s.waitpid = .blocks) := by
  rw [State.waitpid, hp]
  cases s.reaped with
  | true => exact Or.inl ⟨rfl, rfl⟩
  | false =>
      cases s.clientEnd with
      | some ok => exact Or.inr (Or.inl ⟨rfl, ok, rfl, rfl⟩)
      | none => exact Or.inr (Or.inr ⟨rfl, rfl⟩)

/-- `main` goes on, once the client has been started. -/
theorem Inv.goto {s : State} (h : Inv s) {pc : Pc} {stop : Bool} (hold : s.pc.early = false)
    (hnew : pc.early = false) (hunhurt : pc.beforeKill = true → s.late = false)
    (htested : pc = .test → s.reaped = true ∨ stop = true)
    (hwaited : pc.finishing = true → s.reaped = true ∨ s.interrupted = true)
    (hasked : pc = .killClient → stop = true) (hstop : stop = false → s.req_stop = false) :
    Inv { s with req_stop := stop, pc := pc } := by
  have hstarted : s.pc ≠ .forkApp := by
    intro hfork
    rw [hfork] at hold
    cases hold
  refine ⟨h.app, h.client, h.gone, fun _ => h.started hstarted, fun _ => h.started2 hold,
    fun he => ?_, hunhurt, h.hits, htested, hwaited, hasked, fun hs => h.quiet (hstop hs)⟩
  dsimp only at he
  rw [hnew] at he
  cases he

/-- The signal to the client. -/
theorem Inv.killClient {s : State} (h : Inv s) (hpc : s.pc = .killClient) {p : ℕ}
    (hp : s.pid2 = some p) : Inv { s.kill (some p) with late := s.reaped, pc := .reap } := by
  have hlate : s.late = false := h.unhurt (by rw [hpc]; rfl)
  have hreq : s.req_stop = true := h.asked hpc
  refine ⟨h.app, h.client, h.gone, fun _ => h.started (by rw [hpc]; decide),
    fun _ => h.started2 (by rw [hpc]; rfl), fun he => ?_, fun hb => ?_, ?_, fun ht => ?_,
    fun hf => ?_, fun hk => ?_, fun hs => ?_⟩
  · cases he
  · cases hb
  · change (∀ k ∈ s.kills ++ [Hit.process (s.owner p)], OwnHit k) ↔ s.reaped = false
    rw [List.forall_mem_append]
    cases hreaped : s.reaped with
    | false =>
        refine iff_of_true ⟨h.hits.mpr hlate, ?_⟩ rfl
        rw [List.forall_mem_singleton, h.client hreaped p hp]
        exact Or.inr rfl
    | true =>
        -- the id is somebody else's or nobody's by now
        refine iff_of_false ?_ (by simp)
        rintro ⟨-, hown⟩
        rw [List.forall_mem_singleton] at hown
        rcases h.gone hreaped p hp with howner | howner
        · rw [howner] at hown
          exact absurd hown (by simp [OwnHit])
        · rw [howner] at hown
          exact absurd hown (by simp [OwnHit])
  · cases ht
  · cases hf
  · cases hk
  · rw [show s.req_stop = false from hs] at hreq
    cases hreq

/-- The signal to the application. -/
theorem Inv.killApp {s : State} (h : Inv s) (hpc : s.pc = .killApp) {p : ℕ}
    (hp : s.pid = some p) : Inv { s.kill (some p) with pc := .done } := by
  refine ⟨h.app, h.client, h.gone, fun _ => h.started (by rw [hpc]; decide),
    fun _ => h.started2 (by rw [hpc]; rfl), fun he => ?_, fun hb => ?_, ?_, fun ht => ?_,
    fun _ => h.waited (by rw [hpc]; rfl), fun hk => ?_, fun hs => ?_⟩
  · cases he
  · cases hb
  · change (∀ k ∈ s.kills ++ [Hit.process (s.owner p)], OwnHit k) ↔ s.late = false
    rw [List.forall_mem_append, h.app p hp]
    have happ : ∀ k ∈ [Hit.process Owner.app], OwnHit k :=
      List.forall_mem_singleton.mpr (Or.inl rfl)
    rw [and_iff_left happ]
    exact h.hits
  · cases ht
  · cases hk
  · change ∀ k ∈ s.kills ++ [Hit.process (s.owner p)], k = .process .app
    rw [List.forall_mem_append, h.app p hp]
    exact ⟨h.quiet hs, List.forall_mem_singleton.mpr rfl⟩

theorem Inv.go {s : State} (h : Inv s) : Inv s.go := by
  have hclient : s.pc.early = false → ∃ p, s.pid2 = some p := fun he =>
    Option.ne_none_iff_exists'.mp (h.started2 he)
  cases hpc : s.pc with
  | forkApp =>
      rw [State.go, hpc]
      exact h
  | waitFifo =>
      rw [State.go, hpc]
      exact h
  | forkClient =>
      rw [State.go, hpc]
      exact h
  | waitClient =>
      have hlate : s.late = false := h.unhurt (by rw [hpc]; rfl)
      obtain ⟨p, hp⟩ := hclient (by rw [hpc]; rfl)
      rcases waitpid_cases hp with ⟨hreaped, hwait⟩ | ⟨hreaped, ok, -, hwait⟩ | ⟨-, hwait⟩
      · simp only [State.go, hpc, hwait]
        split
        · exact h.goto (by rw [hpc]; rfl) rfl (fun _ => hlate) (fun _ => Or.inl hreaped)
            (fun hf => by cases hf) (fun hk => by cases hk) id
        · exact h
      · simp only [State.go, hpc, hwait]
        exact h.takes hreaped hp ok (Or.inl rfl) (fun _ => hlate)
      · simp only [State.go, hpc, hwait]
        exact h
  | test =>
      have hlate : s.late = false := h.unhurt (by rw [hpc]; rfl)
      simp only [State.go, hpc]
      split
      · next hstop =>
        exact h.goto (by rw [hpc]; rfl) rfl (fun _ => hlate) (fun ht => by cases ht)
          (fun hf => by cases hf) (fun _ => hstop) (fun hs => (Bool.or_eq_false_iff.mp hs).1)
      · next hstop =>
        refine h.goto (by rw [hpc]; rfl) rfl (fun _ => hlate) (fun ht => by cases ht)
          (fun _ => Or.inl ((h.tested hpc).resolve_right fun hreq => hstop ?_))
          (fun hk => by cases hk) (fun hs => (Bool.or_eq_false_iff.mp hs).1)
        rw [hreq]
        rfl
  | killClient =>
      obtain ⟨p, hp⟩ := hclient (by rw [hpc]; rfl)
      simp only [State.go, hpc, hp]
      exact h.killClient hpc hp
  | reap =>
      obtain ⟨p, hp⟩ := hclient (by rw [hpc]; rfl)
      rcases waitpid_cases hp with ⟨hreaped, hwait⟩ | ⟨hreaped, ok, -, hwait⟩ | ⟨-, hwait⟩
      · simp only [State.go, hpc, hwait]
        exact h.goto (by rw [hpc]; rfl) rfl (fun hb => by cases hb) (fun ht => by cases ht)
          (fun _ => Or.inl hreaped) (fun hk => by cases hk) id
      · simp only [State.go, hpc, hwait]
        exact h.takes hreaped hp ok (Or.inr rfl) (fun hb => by cases hb)
      · simp only [State.go, hpc, hwait]
        exact h
  | killApp =>
      obtain ⟨p, hp⟩ := Option.ne_none_iff_exists'.mp (h.started (by rw [hpc]; decide))
      simp only [State.go, hpc, hp]
      exact h.killApp hpc hp
  | done =>
      rw [State.go, hpc]
      exact h

theorem Inv.signal {s : State} (h : Inv s) (inside : Bool) : Inv (s.signal inside) := by
  unfold State.signal
  split
  · next hcase =>
    obtain ⟨-, -, hpc⟩ := hcase
    exact h.goto (by rw [hpc]; rfl) rfl (fun _ => h.unhurt (by rw [hpc]; rfl))
      (fun _ => Or.inr rfl) (fun hf => by cases hf) (fun _ => rfl) (fun hs => by cases hs)
  · split
    · next hcase =>
      obtain ⟨-, -, hpc⟩ := hcase
      refine ⟨h.app, h.client, h.gone, fun _ => h.started (by rw [hpc]; decide),
        fun _ => h.started2 (by rw [hpc]; rfl), fun he => ?_, fun hb => ?_, h.hits,
        fun ht => ?_, fun _ => Or.inr rfl, fun _ => rfl, fun hs => ?_⟩
      · cases he
      · cases hb
      · cases ht
      · cases hs
    · exact ⟨h.app, h.client, h.gone, h.started, h.started2, h.early, h.unhurt, h.hits,
        fun _ => Or.inr rfl, h.waited, fun _ => rfl, fun hs => by cases hs⟩

theorem Inv.fork {s : State} (h : Inv s) (p : ℕ) : Inv (s.fork (some p)) := by
  unfold State.fork
  split
  · exact h
  · next hfree =>
    have hnobody : s.owner p = .nobody := by simpa using hfree
    cases hpc : s.pc with
    | forkApp =>
        obtain ⟨hpid2, hreaped⟩ := h.early (by rw [hpc]; rfl)
        refine ⟨fun q hq => ?_, fun _ q hq => ?_, fun hr => ?_, fun _ => ?_, fun he => ?_,
          fun _ => ⟨hpid2, hreaped⟩, fun _ => h.unhurt (by rw [hpc]; rfl), h.hits, fun ht => ?_,
          fun hf => ?_, fun hk => (by cases hk), h.quiet⟩
        · obtain rfl : p = q := Option.some.inj hq
          exact Function.update_self _ _ _
        · rw [show s.pid2 = some q from hq] at hpid2
          cases hpid2
        · rw [show s.reaped = true from hr] at hreaped
          cases hreaped
        · simp
        · cases he
        · cases ht
        · cases hf
    | forkClient =>
        obtain ⟨-, hreaped⟩ := h.early (by rw [hpc]; rfl)
        refine ⟨fun q hq => ?_, fun _ q hq => ?_, fun hr => ?_,
          fun _ => h.started (by rw [hpc]; decide), fun _ => ?_, fun he => ?_,
          fun _ => h.unhurt (by rw [hpc]; rfl), h.hits, fun ht => ?_, fun hf => ?_,
          fun hk => (by cases hk), h.quiet⟩
        · have happ := h.app q hq
          have hne : q ≠ p := by
            rintro rfl
            rw [hnobody] at happ
            cases happ
          change Function.update s.owner p .client q = .app
          rw [Function.update_of_ne hne]
          exact happ
        · obtain rfl : p = q := Option.some.inj hq
          exact Function.update_self _ _ _
        · rw [show s.reaped = true from hr] at hreaped
          cases hreaped
        · simp
        · cases he
        · cases ht
        · cases hf
    | waitFifo => exact h
    | waitClient => exact h
    | test => exact h
    | killClient => exact h
    | reap => exact h
    | killApp => exact h
    | done => exact h

theorem inv_step {s : State} {i : Input} (h : Inv s) (hi : i ≠ .fork none) :
    Inv (step s i) := by
  cases i with
  | fork ret =>
      cases ret with
      | none => exact absurd rfl hi
      | some p => exact h.fork p
  | stat found =>
      simp only [step]
      split
      · next hcase =>
        obtain ⟨hpc, -⟩ := hcase
        refine ⟨h.app, h.client, h.gone, fun _ => h.started (by rw [hpc]; decide), fun he => ?_,
          fun _ => h.early (by rw [hpc]; rfl), fun _ => h.unhurt (by rw [hpc]; rfl), h.hits,
          fun ht => ?_, fun hf => ?_, fun hk => (by cases hk), h.quiet⟩
        · cases he
        · cases ht
        · cases hf
      · exact h
  | go => exact h.go
  | signal inside => exact h.signal inside
  | app_ends ok =>
      simp only [step]
      split
      · exact ⟨h.app, h.client, h.gone, h.started, h.started2, h.early, h.unhurt, h.hits, h.tested,
          h.waited, h.asked, h.quiet⟩
      · exact h
  | client_ends ok =>
      simp only [step]
      split
      · exact ⟨h.app, h.client, h.gone, h.started, h.started2, h.early, h.unhurt, h.hits, h.tested,
          h.waited, h.asked, h.quiet⟩
      · exact h
  | get p =>
      simp only [step]
      split
      · next hp => exact h.stranger (Or.inl hp) (Or.inr rfl)
      · exact h
  | give p =>
      simp only [step]
      split
      · next hp => exact h.stranger (Or.inr hp) (Or.inl rfl)
      · exact h

/-! ## A run without signals -/

/-- Nobody has asked the launcher to stop, and its client has not failed. -/
structure Undisturbed (s : State) : Prop where
  req_stop : s.req_stop = false
  stat_val : s.stat_val ≠ some false
  clientEnd : s.clientEnd ≠ some false

theorem Undisturbed.go {s : State} (hs : Undisturbed s) (h : Inv s) : Undisturbed s.go := by
  -- what a `waitpid` writes is how the client has ended
  have htakes : ∀ ok, s.clientEnd = some ok → some ok ≠ some false := fun ok hok =>
    hok ▸ hs.clientEnd
  have hclient : s.pc.early = false → ∃ p, s.pid2 = some p := fun he =>
    Option.ne_none_iff_exists'.mp (h.started2 he)
  cases hpc : s.pc with
  | waitClient =>
      obtain ⟨p, hp⟩ := hclient (by rw [hpc]; rfl)
      rcases waitpid_cases hp with ⟨-, hwait⟩ | ⟨-, ok, hok, hwait⟩ | ⟨-, hwait⟩
      · simp only [State.go, hpc, hwait, hs.req_stop]
        exact hs
      · simp only [State.go, hpc, hwait]
        exact ⟨hs.req_stop, htakes ok hok, hs.clientEnd⟩
      · simp only [State.go, hpc, hwait]
        exact hs
  | test =>
      have hstop : (s.req_stop || s.stat_val == some false) = false :=
        Bool.or_eq_false_iff.mpr ⟨hs.req_stop, beq_eq_false_iff_ne.mpr hs.stat_val⟩
      simp only [State.go, hpc, hstop]
      exact ⟨rfl, hs.stat_val, hs.clientEnd⟩
  | killClient =>
      obtain ⟨p, hp⟩ := hclient (by rw [hpc]; rfl)
      simp only [State.go, hpc, hp]
      exact ⟨hs.req_stop, hs.stat_val, hs.clientEnd⟩
  | reap =>
      obtain ⟨p, hp⟩ := hclient (by rw [hpc]; rfl)
      rcases waitpid_cases hp with ⟨-, hwait⟩ | ⟨-, ok, hok, hwait⟩ | ⟨-, hwait⟩
      · simp only [State.go, hpc, hwait]
        exact ⟨hs.req_stop, hs.stat_val, hs.clientEnd⟩
      · simp only [State.go, hpc, hwait]
        exact ⟨hs.req_stop, htakes ok hok, hs.clientEnd⟩
      · simp only [State.go, hpc, hwait]
        exact hs
  | killApp =>
      obtain ⟨p, hp⟩ := Option.ne_none_iff_exists'.mp (h.started (by rw [hpc]; decide))
      simp only [State.go, hpc, hp]
      exact ⟨hs.req_stop, hs.stat_val, hs.clientEnd⟩
  | forkApp => rw [State.go, hpc]; exact hs
  | waitFifo => rw [State.go, hpc]; exact hs
  | forkClient => rw [State.go, hpc]; exact hs
  | done => rw [State.go, hpc]; exact hs

theorem undisturbed_fork {s : State} (hs : Undisturbed s) (ret : Option ℕ) :
    Undisturbed (s.fork ret) := by
  unfold State.fork
  split
  · exact hs
  · split
    · exact ⟨hs.req_stop, hs.stat_val, hs.clientEnd⟩
    · exact ⟨hs.req_stop, hs.stat_val, hs.clientEnd⟩
    · exact hs

theorem undisturbed_step {s : State} {i : Input} (hs : Undisturbed s) (h : Inv s)
    (hsignal : ∀ inside, i ≠ .signal inside) (hfail : i ≠ .client_ends false) :
    Undisturbed (step s i) := by
  cases i with
  | fork ret => exact undisturbed_fork hs ret
  | stat found =>
      simp only [step]
      split
      · exact ⟨hs.req_stop, hs.stat_val, hs.clientEnd⟩
      · exact hs
  | go => exact hs.go h
  | signal inside => exact absurd rfl (hsignal inside)
  | app_ends ok =>
      simp only [step]
      split
      · exact ⟨hs.req_stop, hs.stat_val, hs.clientEnd⟩
      · exact hs
  | client_ends ok =>
      have hok : some ok ≠ some false := fun heq => hfail (by rw [Option.some.inj heq])
      simp only [step]
      split
      · exact ⟨hs.req_stop, hs.stat_val, hok⟩
      · exact hs
  | get p =>
      simp only [step]
      split
      · exact ⟨hs.req_stop, hs.stat_val, hs.clientEnd⟩
      · exact hs
  | give p =>
      simp only [step]
      split
      · exact ⟨hs.req_stop, hs.stat_val, hs.clientEnd⟩
      · exact hs

theorem undisturbed_start : Undisturbed start := ⟨rfl, by decide, by decide⟩

end LauSim.Launcher
