/-
Two computations side by side.

`Agrees R x y` compares two computations that may fail: either both return, with
results in the relation `R`, or both fail with the same error. The rules follow the
computations: one for a sequence of two, and one for a loop over a list of inputs,
in which the relation may change from round to round.
-/
import Mathlib.Data.Nat.Notation

set_option autoImplicit false

namespace SideBySide

universe u

variable {ε κ : Type*} {α β γ δ : Type u}

/-- Both return, with related results, or both fail in the same way. -/
def Agrees (R : α → β → Prop) : Except ε α → Except ε β → Prop
  | .ok a, .ok b => R a b
  | .error e, .error e' => e = e'
  | _, _ => False

variable {R : α → β → Prop} {x : Except ε α} {y : Except ε β}

theorem agrees_of_eq {z z' : Except ε α} (h : z = z') : Agrees (· = ·) z z' := by
  subst h
  cases z with
  | error e => exact rfl
  | ok a => exact rfl

/-- What one returns, the other returns up to the relation. -/
theorem Agrees.exists_ok (h : Agrees R x y) {a : α} (hx : x = .ok a) : ∃ b, y = .ok b ∧ R a b := by
  subst hx
  cases y with
  | error e => exact h.elim
  | ok b => exact ⟨b, rfl, h⟩

theorem Agrees.imp {S : α → β → Prop} (h : Agrees R x y) (hRS : ∀ a b, R a b → S a b) :
    Agrees S x y := by
  cases x with
  | error e =>
      cases y with
      | error e' => exact h
      | ok b => exact h.elim
  | ok a =>
      cases y with
      | error e' => exact h.elim
      | ok b => exact hRS a b h

/-- **Sequence rule.** -/
theorem Agrees.bind {S : γ → δ → Prop} {f : α → Except ε γ} {g : β → Except ε δ}
    (h : Agrees R x y) (hfg : ∀ a b, R a b → Agrees S (f a) (g b)) :
    Agrees S (x >>= f) (y >>= g) := by
  cases x with
  | error e =>
      cases y with
      | error e' => exact h
      | ok b => exact h.elim
  | ok a =>
      cases y with
      | error e' => exact h.elim
      | ok b => exact hfg a b h

/-- **Loop rule.** The relation is indexed with the number of rounds that are left. -/
theorem agrees_foldl {R : ℕ → α → β → Prop} {f : α → κ → Except ε α} {g : β → κ → Except ε β}
    (hstep : ∀ n a b k, R (n + 1) a b → Agrees (R n) (f a k) (g b k)) (ks : List κ)
    {x : Except ε α} {y : Except ε β} (h : Agrees (R ks.length) x y) :
    Agrees (R 0) (ks.foldl (fun s k => s >>= fun s => f s k) x)
      (ks.foldl (fun s k => s >>= fun s => g s k) y) := by
  induction ks generalizing x y with
  | nil => exact h
  | cons k ks ih => exact ih (h.bind (fun a b hab => hstep _ a b k hab))

end SideBySide
