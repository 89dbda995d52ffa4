/-
Marked streams and the look-ahead player.

A stream is a list of entries with time marks in between, in any order, with
gaps and repetitions, and with items that mean nothing. What such a stream
*says* is `slot`: the entry at position `i` is due at the running maximum of
the marks before it, and the slot of time `k` is the entries due at `k`, in
stream order.

What a sequential reader *does* is `Player`: it holds one mark it has already
read and the rest of the stream, is called once for each time `k = 0, 1, ...`,
waits until the mark is due and then reads on until it has read a mark that
lies in the future, or the stream ends. `run_getElem` is the agreement of the
two: the player's `k`-th answer is the slot of `k`.
-/
import Mathlib

set_option autoImplicit false

namespace Schedule

/-- An item of a marked stream. -/
inductive Item (τ : Type*) where
  | mark (n : ℕ)
  | entry (t : τ)
  | skip

variable {τ : Type*}

/-! ## What a stream says -/

/-- A mark raises the time reached so far. -/
def Item.bump (m : ℕ) : Item τ → ℕ
  | mark n => max m n
  | entry _ => m
  | skip => m

/-- The entry an item carries. -/
def Item.entry? : Item τ → Option τ
  | mark _ => none
  | entry t => some t
  | skip => none

/-- When the item at position `i` is due: the running maximum of the marks
before it, from `m` on. -/
def due (m : ℕ) (is : List (Item τ)) (i : ℕ) : ℕ := (is.take i).foldl Item.bump m

/-- The entries due at time `k`, in stream order. -/
def slot (m : ℕ) (is : List (Item τ)) (k : ℕ) : List τ :=
  (List.range is.length).filterMap
    (fun i => if due m is i = k then (is[i]?).bind Item.entry? else none)

@[simp] theorem slot_nil (m k : ℕ) : slot m ([] : List (Item τ)) k = [] := rfl

/-- The slots of a stream from its second item on: the first item may be due
now, and raises the time for the others. -/
theorem slot_cons (m : ℕ) (i : Item τ) (is : List (Item τ)) (k : ℕ) :
    slot m (i :: is) k =
      (if m = k then i.entry?.toList else []) ++ slot (i.bump m) is k := by
  unfold slot
  rw [List.length_cons, List.range_succ_eq_map, List.filterMap_cons, List.filterMap_map]
  have htail : ((fun j => if due m (i :: is) j = k then ((i :: is)[j]?).bind Item.entry? else none)
        ∘ Nat.succ)
      = fun j => if due (i.bump m) is j = k then (is[j]?).bind Item.entry? else none := by
    funext j
    have hdue : due m (i :: is) (j + 1) = due (i.bump m) is j := by
      simp only [due, List.take_succ_cons, List.foldl_cons]
    simp only [Function.comp, Nat.succ_eq_add_one, hdue, List.getElem?_cons_succ]
  rw [htail]
  -- position 0 is due at `m`, whatever the item is
  by_cases hk : m = k
  · cases i <;> simp [due, hk, Item.entry?]
  · simp [due, hk]

/-- Nothing is due before the time reached so far. -/
theorem slot_of_lt {m k : ℕ} (h : k < m) (is : List (Item τ)) : slot m is k = [] := by
  induction is generalizing m with
  | nil => rfl
  | cons i is ih =>
      have hbump : k < i.bump m := by
        cases i with
        | mark n => exact lt_of_lt_of_le h (le_max_left m n)
        | entry t => exact h
        | skip => exact h
      rw [slot_cons, if_neg (by omega), ih hbump]
      rfl

/-- What is due is an entry of the stream. -/
theorem mem_of_mem_slot {m k : ℕ} {is : List (Item τ)} {t : τ} (h : t ∈ slot m is k) :
    Item.entry t ∈ is := by
  obtain ⟨i, -, hi⟩ := List.mem_filterMap.mp h
  split at hi
  · obtain ⟨item, hitem, hentry⟩ := Option.bind_eq_some_iff.mp hi
    have hmem := List.mem_of_getElem? hitem
    cases item with
    | mark n => simp [Item.entry?] at hentry
    | entry u =>
        rw [← Option.some.inj hentry]
        exact hmem
    | skip => simp [Item.entry?] at hentry
  · simp at hi

/-! ## What a sequential reader does -/

/-- Read on at time `k` until a mark in the future has been read: the entries
passed on the way, that mark, and the stream behind it (`none` at its end). -/
def lookahead (k : ℕ) : List (Item τ) → List τ × Option (ℕ × List (Item τ))
  | [] => ([], none)
  | .mark n :: is => if k < n then ([], some (n, is)) else lookahead k is
  | .entry t :: is => (t :: (lookahead k is).1, (lookahead k is).2)
  | .skip :: is => lookahead k is

theorem lookahead_entries (k : ℕ) (ts : List τ) (is : List (Item τ)) :
    lookahead k (ts.map Item.entry ++ is)
      = (ts ++ (lookahead k is).1, (lookahead k is).2) := by
  induction ts with
  | nil => rfl
  | cons t ts ih =>
      rw [List.map_cons, List.cons_append, lookahead, ih]
      rfl

/-- A player: the mark it waits for and the stream behind it, or `none` once
the stream has ended. -/
abbrev Player (τ : Type*) := Option (ℕ × List (Item τ))

/-- The call at time `k`. -/
def Player.tic (k : ℕ) : Player τ → List τ × Player τ
  | none => ([], none)
  | some (n, is) => if k < n then ([], some (n, is)) else lookahead k is

/-- `c` calls from time `k` on. -/
def Player.run : ℕ → ℕ → Player τ → List (List τ) × Player τ
  | 0, _, p => ([], p)
  | c + 1, k, p => ((p.tic k).1 :: (run c (k + 1) (p.tic k).2).1, (run c (k + 1) (p.tic k).2).2)

/-- What is due in the rest of a stream. -/
def Player.slot (k : ℕ) : Player τ → List τ
  | none => []
  | some (n, is) => Schedule.slot n is k

/-- The mark a player waits for is not in the past. -/
def Player.Ahead (k : ℕ) (p : Player τ) : Prop := ∀ q ∈ p, k ≤ q.1

/-! ## They agree -/

/-- Reading at time `k` passes exactly the entries due at `k`, and leaves those
due later. The time reached stays `k` until the read ends: marks up to `k` do
not raise it. -/
theorem lookahead_spec (k : ℕ) (is : List (Item τ)) :
    (lookahead k is).1 = slot k is k ∧
      (∀ j, k < j → Player.slot j (lookahead k is).2 = slot k is j) ∧
      Player.Ahead (k + 1) (lookahead k is).2 := by
  induction is with
  | nil => exact ⟨rfl, fun _ _ => rfl, fun q hq => absurd hq (by simp [lookahead])⟩
  | cons i is ih =>
      obtain ⟨hnow, hlater, hahead⟩ := ih
      cases i with
      | mark n =>
          simp only [lookahead, slot_cons, Item.bump, Item.entry?, Option.toList_none, ite_self,
            List.nil_append]
          by_cases hn : k < n
          · -- a mark in the future: nothing more is due at `k`
            rw [if_pos hn, max_eq_right (le_of_lt hn)]
            refine ⟨(slot_of_lt hn is).symm, fun j _ => rfl, fun q hq => ?_⟩
            rw [Option.mem_some_iff] at hq
            rw [← hq]
            exact hn
          · -- a mark that has passed does not change the time
            rw [if_neg hn, max_eq_left (by omega)]
            exact ⟨hnow, hlater, hahead⟩
      | entry t =>
          simp only [lookahead, slot_cons, Item.bump, Item.entry?, if_true]
          refine ⟨by rw [hnow]; rfl, fun j hj => ?_, hahead⟩
          rw [if_neg (by omega), hlater j hj]
          rfl
      | skip =>
          simp only [lookahead, slot_cons, Item.bump, Item.entry?, Option.toList_none, ite_self,
            List.nil_append]
          exact ⟨hnow, hlater, hahead⟩

/-- One call answers with the slot of its time and keeps the later ones. -/
theorem Player.tic_spec {k : ℕ} {p : Player τ} (h : p.Ahead k) :
    (p.tic k).1 = p.slot k ∧ (∀ j, k < j → (p.tic k).2.slot j = p.slot j) ∧
      (p.tic k).2.Ahead (k + 1) := by
  cases p with
  | none => exact ⟨rfl, fun _ _ => rfl, fun q hq => absurd hq (by simp [tic])⟩
  | some q =>
      obtain ⟨n, is⟩ := q
      have hkn : k ≤ n := h (n, is) rfl
      by_cases hlt : k < n
      · rw [show tic k (some (n, is)) = ([], some (n, is)) from if_pos hlt]
        refine ⟨(slot_of_lt hlt is).symm, fun _ _ => rfl, fun q hq => ?_⟩
        rw [Option.mem_some_iff] at hq
        rw [← hq]
        exact hlt
      · -- the mark waited for is due now
        have heq : n = k := by omega
        subst heq
        simp only [tic, if_neg hlt, slot]
        exact lookahead_spec n is

/-- **The player plays the schedule.** Call number `j` of a run that starts at
time `k` answers with the slot of time `k + j`. -/
theorem Player.run_getElem {c k : ℕ} {p : Player τ} (h : p.Ahead k) {j : ℕ} (hj : j < c) :
    (p.run c k).1[j]? = some (p.slot (k + j)) := by
  induction c generalizing k p j with
  | zero => omega
  | succ c ih =>
      obtain ⟨hnow, hlater, hahead⟩ := tic_spec h
      cases j with
      | zero => simp only [run, List.getElem?_cons_zero, hnow, Nat.add_zero]
      | succ j =>
          rw [run, List.getElem?_cons_succ, ih hahead (by omega), hlater _ (by omega)]
          congr 2
          omega

/-- After a run the mark waited for is not in the past. -/
theorem Player.ahead_run {c k : ℕ} {p : Player τ} (h : p.Ahead k) :
    (p.run c k).2.Ahead (k + c) := by
  induction c generalizing k p with
  | zero => exact h
  | succ c ih =>
      have hnext := ih (tic_spec h).2.2
      rw [show k + (c + 1) = k + 1 + c by omega]
      exact hnext

end Schedule
