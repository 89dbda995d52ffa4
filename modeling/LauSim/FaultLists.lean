/-
The memory of a fault list, as the plugins replay and random keep it: `faults` and `num_fault`.

Both plugins build the list of a tic from memory of their own, hand the array out in
`get_fail`, and free it at the beginning of the next `tic` and in `cleanup`. Server and
`transcribe` read the array, the faults and their strings in between. In replay the strings
belong to the fault; in random the name is lent by the node and is not freed with it.

`Holds` is what such a list owes to the rest of the memory: with it nothing goes wrong in
`free_faults`, in the building of a list, or in the reads of a caller.
-/
import LauSim.Lib.Heap

set_option autoImplicit false

namespace LauSim.FaultLists

/-- A fault: its own block, those of the strings that are freed with it, and those it points
to that belong to somebody else. -/
structure Entry where
  self : ℕ
  strings : List ℕ
  lent : List ℕ
  deriving DecidableEq, Repr

/-- What is freed with a fault. -/
def Entry.blocks (e : Entry) : List ℕ := e.strings ++ [e.self]

/-- The heap, the array `faults` and its first `num_fault` entries. -/
structure FaultList where
  heap : Heap
  faults : Option ℕ
  entries : List Entry
  deriving DecidableEq, Repr

namespace FaultList

/-- There is no list before the first tic. -/
def start (h : Heap) : FaultList := { heap := h, faults := none, entries := [] }

/-- The body of the loop of `free_faults`. -/
def free_entry (faults : Option ℕ) (h : Heap) (e : Entry) : Heap :=
  (((h.useAll faults.toList).use e.self).freeAll e.strings).free (some e.self)

def free_faults (m : FaultList) : Heap :=
  (m.entries.foldl (free_entry m.faults) m.heap).free m.faults

/-- The beginning of `tic`: the old list is freed, and there is none. -/
def clear (m : FaultList) : FaultList := start m.free_faults

/-- One more fault with `k` strings of its own. -/
def add (k : ℕ) (lent : List ℕ) (m : FaultList) : FaultList :=
  let arr := m.heap.realloc m.faults
  let self := arr.2.malloc
  let strs := self.2.mallocs k
  { heap := (strs.2.use arr.1).use self.1
    faults := some arr.1
    entries := m.entries ++ [{ self := self.1, strings := strs.1, lent := lent }] }

/-- What a caller of `get_fail` reads: the array, and each fault with its strings. -/
def read (m : FaultList) : FaultList :=
  { m with
    heap := m.entries.foldl (fun h e =>
      ((h.useAll m.faults.toList).use e.self).useAll (e.strings ++ e.lent)) m.heap }

/-! ## What the list owns -/

def blocks (m : FaultList) : List ℕ := m.entries.flatMap Entry.blocks ++ m.faults.toList

/-- The list and `frame` are all that is live, and what is lent is in `frame`. -/
structure Holds (m : FaultList) (frame : List ℕ) : Prop where
  owns : m.heap.Owns (m.blocks ++ frame)
  lent : ∀ e ∈ m.entries, ∀ b ∈ e.lent, b ∈ frame

variable {m : FaultList} {frame : List ℕ}

theorem holds_start {h : Heap} (howns : h.Owns frame) : Holds (start h) frame :=
  ⟨howns, fun _ he => absurd he List.not_mem_nil⟩

/-- `free_faults` gives everything back. -/
theorem Holds.free_faults (h : Holds m frame) : m.free_faults.Owns frame := by
  obtain ⟨heap, faults, entries⟩ := m
  have hloop : ∀ (es : List Entry) (hp : Heap),
      hp.Owns (es.flatMap Entry.blocks ++ (faults.toList ++ frame)) →
        (es.foldl (free_entry faults) hp).Owns (faults.toList ++ frame) := by
    intro es
    induction es with
    | nil => exact fun hp ho => ho
    | cons e es ih =>
        intro hp ho
        apply ih
        have harr : hp.useAll faults.toList = hp :=
          ho.useAll fun x hx => List.mem_append_right _ (List.mem_append_left _ hx)
        have hself : hp.use e.self = hp := ho.use (by simp [Entry.blocks])
        rw [free_entry, harr, hself]
        apply Heap.Owns.free
        apply Heap.Owns.freeAll
        refine ho.perm (List.Perm.of_eq ?_)
        simp [Entry.blocks]
  have hall : (entries.foldl (free_entry faults) heap).Owns (faults.toList ++ frame) := by
    apply hloop
    rw [← List.append_assoc]
    exact h.owns
  exact hall.freeOption

theorem Holds.clear (h : Holds m frame) : Holds m.clear frame := holds_start h.free_faults

/-- One more fault. -/
theorem Holds.add (h : Holds m frame) (k : ℕ) {lent : List ℕ} (hlent : ∀ b ∈ lent, b ∈ frame) :
    Holds (m.add k lent) frame := by
  obtain ⟨heap, faults, entries⟩ := m
  -- the array is put in front, and the new blocks come before it
  have hfront : heap.Owns (faults.toList ++ (entries.flatMap Entry.blocks ++ frame)) := by
    refine Heap.Owns.perm h.owns ?_
    rw [blocks, List.append_assoc]
    exact List.perm_append_comm_assoc _ _ _
  have hnew := (hfront.realloc.malloc).mallocs k
  have harr := hnew.use (b := (heap.realloc faults).1) (by simp)
  have hself := hnew.use (b := (heap.realloc faults).2.malloc.1) (by simp)
  constructor
  · rw [FaultList.add]
    dsimp only
    rw [harr, hself]
    refine hnew.perm ?_
    rw [List.perm_iff_count]
    intro b
    simp only [blocks, Entry.blocks, List.flatMap_append, List.flatMap_cons, List.flatMap_nil,
      Option.toList_some, List.count_append, List.count_cons, List.count_nil]
    omega
  · intro e he
    rcases List.mem_append.mp he with he | he
    · exact h.lent e he
    · rw [List.mem_singleton.mp he]
      exact hlent

/-- The reads meet the list and what is lent. -/
theorem Holds.read (h : Holds m frame) : m.read = m := by
  obtain ⟨heap, faults, entries⟩ := m
  have hloop : ∀ es : List Entry, (∀ e ∈ es, e ∈ entries) →
      es.foldl (fun h e => ((h.useAll faults.toList).use e.self).useAll (e.strings ++ e.lent)) heap
        = heap := by
    intro es
    induction es with
    | nil => exact fun _ => rfl
    | cons e es ih =>
        intro hes
        have he : ∀ b ∈ e.blocks, b ∈ blocks ⟨heap, faults, entries⟩ ++ frame := by
          intro b hb
          have hmem := List.mem_flatMap.mpr ⟨e, hes e List.mem_cons_self, hb⟩
          exact List.mem_append_left _ (List.mem_append_left _ hmem)
        have harr : heap.useAll faults.toList = heap := by
          refine Heap.Owns.useAll h.owns fun x hx => ?_
          exact List.mem_append_left _ (List.mem_append_right _ hx)
        have hself : heap.use e.self = heap :=
          Heap.Owns.use h.owns (he _ (by simp [Entry.blocks]))
        have hstrings : heap.useAll (e.strings ++ e.lent) = heap := by
          refine Heap.Owns.useAll h.owns fun x hx => ?_
          rcases List.mem_append.mp hx with hx | hx
          · exact he x (List.mem_append_left _ hx)
          · exact List.mem_append_right _ (h.lent e (hes e List.mem_cons_self) x hx)
        rw [List.foldl_cons, harr, hself, hstrings]
        exact ih fun e' he' => hes e' (List.mem_cons_of_mem _ he')
  rw [FaultList.read]
  dsimp only
  rw [hloop entries fun e he => he]

/-! ## The list of a tic and the next tic -/

theorem later_free_faults (m : FaultList) : m.heap.Later m.free_faults := by
  have hentry : ∀ (h : Heap) (e : Entry), h.Later (free_entry m.faults h e) := by
    intro h e
    have huse := Heap.later_foldl Heap.later_use m.faults.toList h
    have hself := Heap.later_use (h.useAll m.faults.toList) e.self
    have hstrings := Heap.later_foldl (fun h b => Heap.later_free h (some b)) e.strings
      ((h.useAll m.faults.toList).use e.self)
    exact ((huse.trans hself).trans hstrings).trans (Heap.later_free _ _)
  exact (Heap.later_foldl hentry m.entries m.heap).trans (Heap.later_free _ _)

theorem later_add (k : ℕ) (lent : List ℕ) (m : FaultList) : m.heap.Later (m.add k lent).heap := by
  have harr := (Heap.later_free m.heap m.faults).trans (Heap.later_malloc _)
  have hself := Heap.later_malloc (m.heap.realloc m.faults).2
  have hstrings := Heap.later_mallocs k (m.heap.realloc m.faults).2.malloc.2
  exact (((harr.trans hself).trans hstrings).trans (Heap.later_use _ _)).trans (Heap.later_use _ _)

/-- A block of the old list is not live after the list has been freed, whatever follows. -/
theorem Holds.not_mem_live (h : Holds m frame) {b : ℕ} (hb : b ∈ m.blocks) {h' : Heap}
    (hlater : m.free_faults.Later h') : b ∉ h'.live := by
  intro hlive
  have hlt : b < m.heap.next := Heap.Owns.lt_next h.owns (List.mem_append_left _ hb)
  have hold := hlater.live b (lt_of_lt_of_le hlt (later_free_faults m).next) hlive
  have hframe : b ∈ frame := h.free_faults.live.mem_iff.mp hold
  exact (List.nodup_append.mp (Heap.Owns.nodup_list h.owns)).2.2 b hb b hframe rfl

end FaultList

end LauSim.FaultLists
