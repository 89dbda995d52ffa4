/-
Runs of a deterministic machine driven by a list of inputs.

The machine is a step function `f : σ → α → σ`; everything an environment may
choose (a message, a signal, the result of a system call, whose turn it is) is
part of the input `a : α`, and an input that is not enabled leaves the state as
it is. A run is then a list of inputs, and the states reached are those of its
prefixes.

Two rules are all the safety arguments need. `always_of_eachStep`: an invariant
that holds at the start and is kept by every step that meets a condition holds
in every state of a run whose steps all meet it. `always_iff_eachStep`: if
moreover a step that misses the condition breaks the property at once, the
condition is exact.
-/
import Mathlib

set_option autoImplicit false

namespace Runs

variable {σ α : Type*} (f : σ → α → σ)

/-- `P` holds in every state the run `as` from `s` reaches. -/
def Always (P : σ → Prop) (s : σ) (as : List α) : Prop :=
  ∀ pre, pre <+: as → P (pre.foldl f s)

/-- Every step of the run `as` from `s` meets `ok`, a condition on the state
before the step and the input. -/
def EachStep (ok : σ → α → Prop) (s : σ) (as : List α) : Prop :=
  ∀ pre a, pre ++ [a] <+: as → ok (pre.foldl f s) a

variable {f} {P I : σ → Prop} {ok : σ → α → Prop} {s : σ} {a : α} {as : List α}

theorem always_nil : Always f P s [] ↔ P s := by
  constructor
  · intro h
    exact h [] List.nil_prefix
  · intro h pre hpre
    rw [List.prefix_nil.mp hpre]
    exact h

theorem always_cons : Always f P s (a :: as) ↔ P s ∧ Always f P (f s a) as := by
  constructor
  · intro h
    refine ⟨h [] List.nil_prefix, fun pre hpre => ?_⟩
    exact h (a :: pre) (List.cons_prefix_cons.mpr ⟨rfl, hpre⟩)
  · rintro ⟨hs, h⟩ pre hpre
    cases pre with
    | nil => exact hs
    | cons b pre =>
        obtain ⟨rfl, htail⟩ := List.cons_prefix_cons.mp hpre
        exact h pre htail

theorem Always.head (h : Always f P s as) : P s := h [] List.nil_prefix

theorem eachStep_nil : EachStep f ok s [] := by
  intro pre a h
  exact absurd (List.prefix_nil.mp h) (by simp)

theorem eachStep_cons : EachStep f ok s (a :: as) ↔ ok s a ∧ EachStep f ok (f s a) as := by
  constructor
  · intro h
    refine ⟨h [] a (by simp), fun pre b hpre => ?_⟩
    exact h (a :: pre) b (List.cons_prefix_cons.mpr ⟨rfl, hpre⟩)
  · rintro ⟨hs, h⟩ pre b hpre
    cases pre with
    | nil =>
        obtain ⟨rfl, -⟩ := List.cons_prefix_cons.mp hpre
        exact hs
    | cons c pre =>
        obtain ⟨rfl, htail⟩ := List.cons_prefix_cons.mp hpre
        exact h pre b htail

/-- A condition that can be tested step by step. -/
instance decidableEachStep [∀ s a, Decidable (ok s a)] :
    (s : σ) → (as : List α) → Decidable (EachStep f ok s as)
  | _, [] => isTrue eachStep_nil
  | s, a :: as =>
    have := decidableEachStep (f s a) as
    decidable_of_iff (ok s a ∧ EachStep f ok (f s a) as) eachStep_cons.symm

/-- A condition on the inputs alone is one on the inputs of the run. -/
theorem eachStep_input_iff {q : α → Prop} :
    EachStep f (fun _ a => q a) s as ↔ ∀ a ∈ as, q a := by
  induction as generalizing s with
  | nil => exact iff_of_true eachStep_nil (by simp)
  | cons a as ih => rw [eachStep_cons, ih, List.forall_mem_cons]

/-- **Invariant rule.** -/
theorem always_of_eachStep (h0 : I s) (hstep : ∀ s a, I s → ok s a → I (f s a))
    (h : EachStep f ok s as) : Always f I s as := by
  induction as generalizing s with
  | nil => exact always_nil.mpr h0
  | cons a as ih =>
      obtain ⟨ha, has⟩ := eachStep_cons.mp h
      exact always_cons.mpr ⟨h0, ih (hstep s a h0 ha) has⟩

/-- The rule for an invariant that every step keeps. -/
theorem always_of_step (h0 : I s) (hstep : ∀ s a, I s → I (f s a)) (as : List α) :
    Always f I s as := by
  induction as generalizing s with
  | nil => exact always_nil.mpr h0
  | cons a as ih => exact always_cons.mpr ⟨h0, ih (hstep s a h0)⟩

theorem Always.imp {Q : σ → Prop} (hPQ : ∀ s, P s → Q s) (h : Always f P s as) :
    Always f Q s as :=
  fun pre hpre => hPQ _ (h pre hpre)

/-- **Rank rule.** If no step makes the rank `r` grow and the steps in `q` make it smaller as
long as it is not 0, then it is 0 after as many steps in `q` as it was at the beginning. -/
theorem rank_foldl {r : σ → ℕ} {q : α → Bool} (hI : ∀ s a, I s → I (f s a))
    (hrank : ∀ s a, I s → r (f s a) ≤ r s - (if q a then 1 else 0)) (h : I s)
    (as : List α) : r (as.foldl f s) ≤ r s - as.countP q := by
  induction as generalizing s with
  | nil => exact le_rfl
  | cons a as ih =>
      have hone := hrank s a h
      have hrest := ih (hI s a h)
      rw [List.foldl_cons, List.countP_cons]
      omega

/-- **Exact condition.** The property holds in every state of the run exactly
when every step meets the condition, provided the condition keeps an invariant
that gives the property, and one step that misses it from there loses it. -/
theorem always_iff_eachStep (h0 : I s) (hI : ∀ s, I s → P s)
    (hstep : ∀ s a, I s → ok s a → I (f s a))
    (hbad : ∀ s a, I s → P (f s a) → ok s a) :
    Always f P s as ↔ EachStep f ok s as := by
  constructor
  · intro h
    induction as generalizing s with
    | nil => exact eachStep_nil
    | cons a as ih =>
        have hnext := (always_cons.mp h).2
        have hok : ok s a := hbad s a h0 hnext.head
        exact eachStep_cons.mpr ⟨hok, ih (hstep s a h0 hok) hnext⟩
  · intro h
    exact (always_of_eachStep h0 hstep h).imp hI

end Runs
