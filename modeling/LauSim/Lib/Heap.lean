/-
Memory from `malloc`, as far as it matters who has to free what.

A block is a number, given out in order. The heap knows which blocks are live, and keeps every
block that was freed or used while it was not. `Owns h bs` says that the live blocks are those
of the list `bs`, each once, and that nothing has gone wrong so far: a program that keeps such
a list of everything it is to free has neither a double free nor a use of freed memory, and has
freed everything when the list is empty. The rules say how the list changes.
-/
import Mathlib

set_option autoImplicit false

structure Heap where
  next : ℕ
  live : List ℕ
  /-- the blocks that were freed or used and were not live -/
  bad : List ℕ
  deriving DecidableEq, Repr

namespace Heap

/-- `malloc` and `calloc`, where there is memory. -/
def malloc (h : Heap) : ℕ × Heap :=
  (h.next, { h with next := h.next + 1, live := h.next :: h.live })

/-- `free`; nothing happens for NULL. -/
def free (h : Heap) : Option ℕ → Heap
  | none => h
  | some b =>
    if b ∈ h.live then { h with live := h.live.erase b } else { h with bad := h.bad ++ [b] }

/-- A read or a write through a pointer to the block. -/
def use (h : Heap) (b : ℕ) : Heap :=
  if b ∈ h.live then h else { h with bad := h.bad ++ [b] }

/-- `realloc`, where there is memory; the block may move. -/
def realloc (h : Heap) (p : Option ℕ) : ℕ × Heap := (h.free p).malloc

/-- `n` calls of `malloc`. -/
def mallocs : ℕ → Heap → List ℕ × Heap
  | 0, h => ([], h)
  | n + 1, h =>
    let out := mallocs n h.malloc.2
    (h.malloc.1 :: out.1, out.2)

def freeAll (h : Heap) (bs : List ℕ) : Heap := bs.foldl (fun h b => h.free (some b)) h

def useAll (h : Heap) (bs : List ℕ) : Heap := bs.foldl use h

/-- The live blocks are `bs`, and nothing has gone wrong. -/
structure Owns (h : Heap) (bs : List ℕ) : Prop where
  live : h.live.Perm bs
  nodup : h.live.Nodup
  fresh : ∀ b ∈ h.live, b < h.next
  bad : h.bad = []

variable {h : Heap} {bs cs : List ℕ}

theorem Owns.perm (ho : Owns h bs) (hp : bs.Perm cs) : Owns h cs :=
  ⟨ho.live.trans hp, ho.nodup, ho.fresh, ho.bad⟩

theorem Owns.nodup_list (ho : Owns h bs) : bs.Nodup := ho.live.nodup_iff.mp ho.nodup

theorem Owns.lt_next (ho : Owns h bs) {b : ℕ} (hb : b ∈ bs) : b < h.next :=
  ho.fresh b (ho.live.mem_iff.mpr hb)

theorem Owns.malloc (ho : Owns h bs) : Owns h.malloc.2 (h.malloc.1 :: bs) where
  live := ho.live.cons h.next
  nodup := List.nodup_cons.mpr ⟨fun hmem => absurd (ho.fresh _ hmem) (lt_irrefl _), ho.nodup⟩
  fresh := by
    intro b hb
    rcases List.mem_cons.mp hb with rfl | hb
    · exact Nat.lt_succ_self _
    · exact Nat.lt_succ_of_lt (ho.fresh b hb)
  bad := ho.bad

theorem Owns.free {b : ℕ} (ho : Owns h (b :: bs)) : Owns (h.free (some b)) bs := by
  have hmem : b ∈ h.live := ho.live.mem_iff.mpr List.mem_cons_self
  have hfree : h.free (some b) = { h with live := h.live.erase b } := if_pos hmem
  rw [hfree]
  refine ⟨?_, ho.nodup.erase b, fun c hc => ho.fresh c (List.mem_of_mem_erase hc), ho.bad⟩
  have herase := ho.live.erase b
  rwa [List.erase_cons_head] at herase

theorem Owns.use {b : ℕ} (ho : Owns h bs) (hb : b ∈ bs) : h.use b = h :=
  if_pos (ho.live.mem_iff.mpr hb)

theorem Owns.freeOption {p : Option ℕ} (ho : Owns h (p.toList ++ bs)) : Owns (h.free p) bs := by
  cases p with
  | none => exact ho
  | some b => exact Owns.free ho

theorem Owns.realloc {p : Option ℕ} (ho : Owns h (p.toList ++ bs)) :
    Owns (h.realloc p).2 ((h.realloc p).1 :: bs) :=
  ho.freeOption.malloc

theorem length_mallocs (n : ℕ) (h : Heap) : (mallocs n h).1.length = n := by
  induction n generalizing h with
  | zero => rfl
  | succ n ih => exact congrArg (· + 1) (ih h.malloc.2)

theorem Owns.mallocs (n : ℕ) {h : Heap} {bs : List ℕ} (ho : Owns h bs) :
    Owns (mallocs n h).2 ((mallocs n h).1 ++ bs) := by
  induction n generalizing h bs with
  | zero => exact ho
  | succ n ih =>
      -- the first block is put in front when the others have been added
      have hrest := ih ho.malloc
      exact hrest.perm List.perm_middle

theorem Owns.freeAll {xs : List ℕ} {h : Heap} (ho : Owns h (xs ++ bs)) :
    Owns (h.freeAll xs) bs := by
  induction xs generalizing h with
  | nil => exact ho
  | cons x xs ih => exact ih (Owns.free ho)

theorem Owns.useAll {xs : List ℕ} (ho : Owns h bs) (hxs : ∀ x ∈ xs, x ∈ bs) :
    h.useAll xs = h := by
  induction xs with
  | nil => rfl
  | cons x xs ih =>
      rw [Heap.useAll, List.foldl_cons, ho.use (hxs x List.mem_cons_self)]
      exact ih fun y hy => hxs y (List.mem_cons_of_mem _ hy)

/-- `h'` comes later than `h`: a block of `h` that is not live stays so, since its number is not
given out again. -/
structure Later (h h' : Heap) : Prop where
  next : h.next ≤ h'.next
  live : ∀ b, b < h.next → b ∈ h'.live → b ∈ h.live

theorem Later.refl (h : Heap) : Later h h := ⟨le_rfl, fun _ _ hb => hb⟩

theorem Later.trans {h₁ h₂ h₃ : Heap} (h₁₂ : Later h₁ h₂) (h₂₃ : Later h₂ h₃) : Later h₁ h₃ :=
  ⟨h₁₂.next.trans h₂₃.next, fun b hb hlive =>
    h₁₂.live b hb (h₂₃.live b (lt_of_lt_of_le hb h₁₂.next) hlive)⟩

theorem later_malloc (h : Heap) : Later h h.malloc.2 := by
  refine ⟨Nat.le_succ _, fun b hb hlive => ?_⟩
  rcases List.mem_cons.mp hlive with rfl | hlive
  · exact absurd hb (lt_irrefl _)
  · exact hlive

theorem later_free (h : Heap) (p : Option ℕ) : Later h (h.free p) := by
  cases p with
  | none => exact Later.refl h
  | some b =>
      rw [Heap.free]
      split
      · exact ⟨le_rfl, fun c _ hc => List.mem_of_mem_erase hc⟩
      · exact ⟨le_rfl, fun c _ hc => hc⟩

theorem later_use (h : Heap) (b : ℕ) : Later h (h.use b) := by
  rw [Heap.use]
  split
  · exact Later.refl h
  · exact ⟨le_rfl, fun c _ hc => hc⟩

theorem later_mallocs (n : ℕ) (h : Heap) : Later h (mallocs n h).2 := by
  induction n generalizing h with
  | zero => exact Later.refl h
  | succ n ih => exact (later_malloc h).trans (ih h.malloc.2)

theorem later_foldl {β : Type*} {f : Heap → β → Heap} (hf : ∀ h x, Later h (f h x)) (xs : List β)
    (h : Heap) : Later h (xs.foldl f h) := by
  induction xs generalizing h with
  | nil => exact Later.refl h
  | cons x xs ih => exact (hf h x).trans (ih (f h x))

end Heap
