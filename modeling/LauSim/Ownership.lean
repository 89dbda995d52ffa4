/-
Who makes and who removes the FIFO: `lauSim_get_fifo` and `lauSim_fifo_cleanup`.

The preload library is loaded into every process of the application: the shell that
`system` starts, the command, and what the command starts. Each of them runs
`lauSim_get_fifo`, and they all use one name in the file system, `FIFO_FILE`. The one whose
`mkfifo` succeeds keeps `fifo_created` set and is to remove the name in
`lauSim_fifo_cleanup`; the others open what they find. A process whose `fopen` fails removes
the name too, whoever made what stands there by now.

A FIFO gets a number when it is made, so that one that is made later under the same name is
another one. The processes take their steps in any order; `die` is an end without the
cleanup (a signal, `_exit` or `exec` of the application).

`owned_iff_orderly`: the name stands for a FIFO exactly as long as the one process that made
it is there to remove it, in every state of a run, if and only if no process dies that has
made it, and none removes it after a failed `fopen` that has not.
-/
import LauSim.Lib.Runs

set_option autoImplicit false

namespace LauSim.Ownership

open Runs

variable {ι : Type*} [DecidableEq ι]

/-- Where a process is. `made` is the FIFO its `mkfifo` has made: `fifo_created` says whether
there is one. -/
inductive Phase where
  -- before `mkfifo`
  | start
  -- at `fopen`
  | opening (made : Option ℕ)
  -- `fopen` has failed; at the `unlink` behind it
  | failed (made : Option ℕ)
  -- `fopen` has found the FIFO and waits for a writer
  | waiting (made : Option ℕ)
  -- `fifo` is set: `lauSim_init` and `lauSim_main`
  | reading (made : Option ℕ)
  -- `lauSim_fifo_cleanup`, at the `unlink` behind `fclose`
  | closing (made : ℕ)
  | gone
  deriving DecidableEq, Repr

/-- The FIFO the process has made and has not removed. -/
def Phase.made : Phase → Option ℕ
  | .start => none
  | .opening made => made
  | .failed made => made
  | .waiting made => made
  | .reading made => made
  | .closing made => some made
  | .gone => none

/-- What `FIFO_FILE` stands for, the number the next FIFO gets, and the processes. -/
structure World (ι : Type*) where
  file : Option ℕ
  next : ℕ
  procs : ι → Phase

/-- The next system call of a process, where `ok` says whether `fopen` has what it needs
besides the file; or the end of a process without the cleanup. -/
inductive Event (ι : Type*) where
  | call (p : ι) (ok : Bool)
  | die (p : ι)
  deriving DecidableEq

def initial : World ι := { file := none, next := 0, procs := fun _ => .start }

def World.enter (s : World ι) (p : ι) (ph : Phase) : World ι :=
  { s with procs := Function.update s.procs p ph }

/-- `unlink (FIFO_FILE)`, the last thing process `p` does with the name. -/
def World.unlink (s : World ι) (p : ι) : World ι := { s.enter p .gone with file := none }

/-- `mkfifo (FIFO_FILE, 0666)`. -/
def World.mkfifo (s : World ι) (p : ι) : World ι :=
  match s.file with
  | some _ => s.enter p (.opening none)
  | none => { s.enter p (.opening (some s.next)) with file := some s.next, next := s.next + 1 }

/-- One system call of process `p`. A failed `fopen` leaves `fifo` at NULL, and the process
does not survive the use of it. -/
def World.call (s : World ι) (p : ι) (ok : Bool) : World ι :=
  match s.procs p with
  | .start => s.mkfifo p
  | .opening made =>
    if s.file.isSome && ok then s.enter p (.waiting made) else s.enter p (.failed made)
  | .failed _ => s.unlink p
  | .waiting made => s.enter p (.reading made)
  | .reading made =>
    match made with
    -- `if (fifo_created && fifo != NULL)`
    | some i => s.enter p (.closing i)
    | none => s.enter p .gone
  | .closing _ => s.unlink p
  | .gone => s

def step (s : World ι) : Event ι → World ι
  | .call p ok => s.call p ok
  | .die p => s.enter p .gone

/-! ## The invariant -/

/-- The name stands for a FIFO as long as a process that made it has still to remove it, and
there is one such process only. -/
structure Owned (s : World ι) : Prop where
  file : ∀ i, s.file = some i ↔ ∃ p, (s.procs p).made = some i
  unique : ∀ p q i, (s.procs p).made = some i → (s.procs q).made = some i → p = q

/-- Numbers are given out in order. -/
def Fresh (s : World ι) : Prop := ∀ i, s.file = some i → i < s.next

/-- A process that dies has nothing to remove, and one that removes the name after a failed
`fopen` removes what it made or nothing. -/
def Orderly (s : World ι) : Event ι → Prop
  | .call p _ => ∀ made, s.procs p = .failed made → ∀ i, s.file = some i → made = some i
  | .die p => (s.procs p).made = none

variable {s : World ι} {p : ι}

@[simp] theorem file_enter (ph : Phase) : (s.enter p ph).file = s.file := rfl

@[simp] theorem next_enter (ph : Phase) : (s.enter p ph).next = s.next := rfl

@[simp] theorem procs_enter (ph : Phase) :
    (s.enter p ph).procs = Function.update s.procs p ph := rfl

theorem made_update (ph : Phase) (q : ι) :
    (Function.update s.procs p ph q).made = if q = p then ph.made else (s.procs q).made := by
  by_cases h : q = p
  · rw [h, Function.update_self, if_pos rfl]
  · rw [Function.update_of_ne h, if_neg h]

/-- A process that keeps what it has made does not matter. -/
theorem Owned.enter (h : Owned s) {ph : Phase} (hmade : ph.made = (s.procs p).made) :
    Owned (s.enter p ph) := by
  have hsame : ∀ q, ((s.enter p ph).procs q).made = (s.procs q).made := by
    intro q
    rw [procs_enter, made_update]
    split
    · next hq => rw [hq, hmade]
    · rfl
  refine ⟨fun i => ?_, fun q r i hq hr => ?_⟩
  · simp only [hsame]
    exact h.file i
  · rw [hsame] at hq hr
    exact h.unique q r i hq hr

omit [DecidableEq ι] in
/-- There is nothing that some process would have made. -/
theorem Owned.made_eq_none (h : Owned s) (hfile : s.file = none) (q : ι) :
    (s.procs q).made = none := by
  cases hq : (s.procs q).made with
  | none => rfl
  | some i =>
      have := (h.file i).mpr ⟨q, hq⟩
      rw [hfile] at this
      cases this

theorem owned_mkfifo (h : Owned s) (hfresh : Fresh s) (hp : s.procs p = .start) :
    Owned (s.mkfifo p) ∧ Fresh (s.mkfifo p) := by
  unfold World.mkfifo
  cases hfile : s.file with
  | some i =>
      refine ⟨h.enter (by rw [hp]; rfl), ?_⟩
      exact hfresh
  | none =>
      have hnone := h.made_eq_none hfile
      refine ⟨⟨fun i => ?_, fun q r i hq hr => ?_⟩, fun i hi => ?_⟩
      · constructor
        · intro hi
          refine ⟨p, ?_⟩
          rw [procs_enter, Function.update_self]
          exact hi
        · rintro ⟨q, hq⟩
          rw [procs_enter, made_update] at hq
          split at hq
          · exact hq
          · rw [hnone q] at hq
            cases hq
      · -- only `p` has made something
        rw [procs_enter, made_update] at hq hr
        split at hq
        · next hqp =>
          split at hr
          · next hrp => rw [hqp, hrp]
          · rw [hnone r] at hr
            cases hr
        · rw [hnone q] at hq
          cases hq
      · cases hi
        exact Nat.lt_succ_self _

/-- The name is removed by the process that made what it stands for. -/
theorem owned_unlink (h : Owned s) (hown : ∀ i, s.file = some i → (s.procs p).made = some i) :
    Owned (s.unlink p) := by
  have hnone : ∀ q, ((s.unlink p).procs q).made = none := by
    intro q
    change (Function.update s.procs p .gone q).made = none
    rw [made_update]
    split
    · rfl
    · next hqp =>
      cases hq : (s.procs q).made with
      | none => rfl
      | some i =>
          have hfile := (h.file i).mpr ⟨q, hq⟩
          exact absurd (h.unique q p i hq (hown i hfile)) hqp
  refine ⟨fun i => ?_, fun q r i hq _ => ?_⟩
  · constructor
    · intro hi
      cases hi
    · rintro ⟨q, hq⟩
      rw [hnone q] at hq
      cases hq
  · rw [hnone q] at hq
    cases hq

/-- One system call keeps the invariant, if the process has not to remove what it has not
made. -/
theorem owned_call (h : Owned s) (hfresh : Fresh s) {ok : Bool}
    (horderly : Orderly s (.call p ok)) : Owned (s.call p ok) ∧ Fresh (s.call p ok) := by
  -- after an `unlink` there is no FIFO with a number
  have hgone : Fresh (s.unlink p) := fun i hi => by cases hi
  unfold World.call
  cases hp : s.procs p with
  | start => exact owned_mkfifo h hfresh hp
  | opening made =>
      dsimp only
      split
      · exact ⟨h.enter (by rw [hp]; rfl), hfresh⟩
      · exact ⟨h.enter (by rw [hp]; rfl), hfresh⟩
  | failed made =>
      refine ⟨owned_unlink h fun i hi => ?_, hgone⟩
      rw [hp]
      exact horderly made hp i hi
  | waiting made => exact ⟨h.enter (by rw [hp]; rfl), hfresh⟩
  | reading made =>
      cases made with
      | none => exact ⟨h.enter (by rw [hp]; rfl), hfresh⟩
      | some i => exact ⟨h.enter (by rw [hp]; rfl), hfresh⟩
  | closing made =>
      -- what stands there is what it made: nobody else has made anything
      refine ⟨owned_unlink h fun i hi => ?_, hgone⟩
      have hmade : (s.procs p).made = some made := by rw [hp]; rfl
      rw [hmade, ← (h.file made).mpr ⟨p, hmade⟩]
      exact hi
  | gone => exact ⟨h, hfresh⟩

theorem owned_step (h : Owned s ∧ Fresh s) {e : Event ι} (horderly : Orderly s e) :
    Owned (step s e) ∧ Fresh (step s e) := by
  cases e with
  | call p ok => exact owned_call h.1 h.2 horderly
  | die p => exact ⟨h.1.enter horderly.symm, h.2⟩

/-- A step that is not orderly breaks the invariant at once. -/
theorem orderly_of_owned_step (h : Owned s) {e : Event ι} (hnext : Owned (step s e)) :
    Orderly s e := by
  cases e with
  | call p ok =>
      intro made hp i hi
      obtain ⟨q, hq⟩ := (h.file i).mp hi
      by_cases hqp : q = p
      · rw [hqp, hp] at hq
        exact hq
      · -- the maker `q` is there, and what it made is not
        have hstep : step s (.call p ok) = s.unlink p := by simp only [step, World.call, hp]
        rw [hstep] at hnext
        have hq' : ((s.unlink p).procs q).made = some i := by
          change (Function.update s.procs p .gone q).made = some i
          rw [made_update, if_neg hqp, hq]
        have := (hnext.file i).mpr ⟨q, hq'⟩
        cases this
  | die p =>
      cases hp : (s.procs p).made with
      | none => exact hp
      | some i =>
          -- the name is still there, and its maker is not
          obtain ⟨q, hq⟩ := (hnext.file i).mp ((h.file i).mpr ⟨p, hp⟩)
          change (Function.update s.procs p .gone q).made = some i at hq
          rw [made_update] at hq
          split at hq
          · cases hq
          · next hqp => exact absurd (h.unique q p i hq hp) hqp

omit [DecidableEq ι] in
theorem owned_initial : Owned (initial : World ι) ∧ Fresh (initial : World ι) := by
  refine ⟨⟨fun i => ⟨?_, ?_⟩, ?_⟩, ?_⟩
  · intro hi
    cases hi
  · rintro ⟨p, hp⟩
    cases hp
  · intro p q i hp
    cases hp
  · intro i hi
    cases hi

/-- **Who owns the FIFO.** Whatever the processes do in whatever order, the name stands for a
FIFO exactly as long as the one process that made it has still to remove it, in every state of
the run, if and only if no process dies before it has removed what it made, and none whose
`fopen` failed removes what another one made. -/
theorem owned_iff_orderly (es : List (Event ι)) :
    Always step Owned initial es ↔ EachStep step Orderly initial es :=
  always_iff_eachStep owned_initial (fun _ h => h.1)
    (fun _ _ h horderly => owned_step h horderly)
    (fun _ _ h hnext => orderly_of_owned_step h.1 hnext)

/-- When the processes of an orderly run have all ended, the name is free for the next run. -/
theorem file_eq_none_of_ended {es : List (Event ι)} (h : EachStep step Orderly initial es)
    (hended : ∀ p, ((es.foldl step initial).procs p).made = none) :
    (es.foldl step initial).file = none := by
  have hinv : Always step (fun s => Owned s ∧ Fresh s) initial es :=
    always_of_eachStep owned_initial (fun _ _ hs ho => owned_step hs ho) h
  have howned : Owned (es.foldl step initial) := (hinv es List.prefix_rfl).1
  cases hfile : (es.foldl step initial).file with
  | none => rfl
  | some i =>
      obtain ⟨p, hp⟩ := (howned.file i).mp hfile
      rw [hended p] at hp
      cases hp

end LauSim.Ownership
