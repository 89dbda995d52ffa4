/-
A map that is iterated in the order of its keys, as `std::map` is.

The entries are a list sorted strictly by key, and the order is part of the type,
so a map holds a key at most once. The operations are those of the standard map
that leave an entry where it is: `emplace` adds a key that is not there, `modify`
changes the value of one that is. Everything a caller needs to know of them is
which entries the result has.
-/
import Mathlib

set_option autoImplicit false

/-- Entries sorted by key. -/
structure OrdMap (κ β : Type) [LinearOrder κ] where
  entries : List (κ × β)
  sorted : entries.Pairwise (fun a b => a.1 < b.1)

namespace OrdMap

variable {κ β : Type} [LinearOrder κ]

def empty : OrdMap κ β := ⟨[], List.Pairwise.nil⟩

/-- The keys, in the order they are visited. -/
def keys (m : OrdMap κ β) : List κ := m.entries.map Prod.fst

instance (m : OrdMap κ β) (k : κ) : Decidable (k ∈ m.keys) :=
  decidable_of_iff (∃ a ∈ m.keys, a = k) exists_eq_right

theorem keys_sorted (m : OrdMap κ β) : m.keys.Pairwise (· < ·) :=
  List.pairwise_map.mpr m.sorted

/-- A key is visited once. -/
theorem keys_nodup (m : OrdMap κ β) : m.keys.Nodup :=
  m.keys_sorted.imp (fun h => h.ne)

/-- While a loop visits the keys: those above one that is still to come are still
to come. -/
theorem mem_of_suffix {m : OrdMap κ β} {rest : List κ} (h : rest <:+ m.keys) {a b : κ}
    (ha : a ∈ rest) (hb : b ∈ m.keys) (hab : a < b) : b ∈ rest := by
  obtain ⟨visited, heq⟩ := h
  have hsorted := m.keys_sorted
  rw [← heq] at hb hsorted
  rcases List.mem_append.mp hb with hb | hb
  · have hba : b < a := (List.pairwise_append.mp hsorted).2.2 b hb a ha
    exact absurd hba hab.asymm
  · exact hb

/-- When the loop has come to a key, it has visited those below it and not the key. -/
theorem mem_visited {m : OrdMap κ β} {visited rest : List κ} {a : κ}
    (h : m.keys = visited ++ a :: rest) {b : κ} (hb : b ∈ m.keys) :
    b ∈ visited ↔ b < a := by
  have hsorted := m.keys_sorted
  rw [h] at hsorted
  obtain ⟨-, htail, hcross⟩ := List.pairwise_append.mp hsorted
  constructor
  · intro hv
    exact hcross b hv a List.mem_cons_self
  · intro hlt
    rw [h] at hb
    rcases List.mem_append.mp hb with hb | hb
    · exact hb
    · rcases List.mem_cons.mp hb with rfl | hb
      · exact absurd hlt (lt_irrefl b)
      · exact absurd hlt ((List.pairwise_cons.mp htail).1 b hb).asymm

theorem mem_keys {m : OrdMap κ β} {k : κ} : k ∈ m.keys ↔ ∃ v, (k, v) ∈ m.entries := by
  simp [keys]

theorem mem_keys_of_mem {m : OrdMap κ β} {e : κ × β} (h : e ∈ m.entries) : e.1 ∈ m.keys :=
  mem_keys.mpr ⟨e.2, h⟩

/-- `emplace`: a key that is there keeps its value. -/
def emplace (k : κ) (v : β) (m : OrdMap κ β) : OrdMap κ β where
  entries :=
    if k ∈ m.keys then m.entries
    else m.entries.filter (fun e => e.1 < k) ++ (k, v) :: m.entries.filter (fun e => k < e.1)
  sorted := by
    split
    · exact m.sorted
    · rw [List.pairwise_append]
      refine ⟨m.sorted.filter _, ?_, ?_⟩
      · rw [List.pairwise_cons]
        refine ⟨fun e he => ?_, m.sorted.filter _⟩
        simpa using (List.mem_filter.mp he).2
      · intro a ha b hb
        have hak : a.1 < k := by simpa using (List.mem_filter.mp ha).2
        rcases List.mem_cons.mp hb with rfl | hb
        · exact hak
        · have hkb : k < b.1 := by simpa using (List.mem_filter.mp hb).2
          exact hak.trans hkb

/-- The value at a key, changed in place. -/
def modify (k : κ) (f : β → β) (m : OrdMap κ β) : OrdMap κ β where
  entries := m.entries.map (fun e => if e.1 = k then (e.1, f e.2) else e)
  sorted := by
    rw [List.pairwise_map]
    apply m.sorted.imp
    intro a b hab
    have hfst : ∀ e : κ × β, (if e.1 = k then (e.1, f e.2) else e).1 = e.1 := by
      intro e
      split <;> rfl
    rw [hfst, hfst]
    exact hab

theorem mem_emplace {k : κ} {v : β} {m : OrdMap κ β} (hk : k ∉ m.keys) {e : κ × β} :
    e ∈ (m.emplace k v).entries ↔ e ∈ m.entries ∨ e = (k, v) := by
  simp only [emplace, if_neg hk, List.mem_append, List.mem_filter, List.mem_cons,
    decide_eq_true_eq]
  constructor
  · rintro (⟨h, -⟩ | rfl | ⟨h, -⟩)
    · exact Or.inl h
    · exact Or.inr rfl
    · exact Or.inl h
  · rintro (h | rfl)
    · rcases lt_trichotomy e.1 k with hlt | heq | hgt
      · exact Or.inl ⟨h, hlt⟩
      · exact absurd (heq ▸ mem_keys_of_mem h) hk
      · exact Or.inr (Or.inr ⟨h, hgt⟩)
    · exact Or.inr (Or.inl rfl)

theorem mem_keys_emplace {k k' : κ} {v : β} {m : OrdMap κ β} (hk : k ∉ m.keys) :
    k' ∈ (m.emplace k v).keys ↔ k' ∈ m.keys ∨ k' = k := by
  rw [mem_keys, mem_keys]
  simp only [mem_emplace hk, Prod.mk.injEq]
  constructor
  · rintro ⟨w, h | ⟨rfl, -⟩⟩
    · exact Or.inl ⟨w, h⟩
    · exact Or.inr rfl
  · rintro (⟨w, h⟩ | rfl)
    · exact ⟨w, Or.inl h⟩
    · exact ⟨v, Or.inr ⟨rfl, rfl⟩⟩

theorem mem_modify {k : κ} {f : β → β} {m : OrdMap κ β} {e : κ × β} :
    e ∈ (m.modify k f).entries ↔
      (e.1 ≠ k ∧ e ∈ m.entries) ∨ (e.1 = k ∧ ∃ v, (k, v) ∈ m.entries ∧ e.2 = f v) := by
  rw [modify, List.mem_map]
  constructor
  · rintro ⟨d, hd, rfl⟩
    by_cases hdk : d.1 = k
    · rw [if_pos hdk]
      exact Or.inr ⟨hdk, d.2, by rw [← hdk]; exact hd, rfl⟩
    · rw [if_neg hdk]
      exact Or.inl ⟨hdk, hd⟩
  · rintro (⟨hne, he⟩ | ⟨heq, v, hv, hval⟩)
    · exact ⟨e, he, if_neg hne⟩
    · refine ⟨(k, v), hv, ?_⟩
      rw [if_pos rfl]
      exact Prod.ext heq.symm hval.symm

@[simp] theorem keys_modify (k : κ) (f : β → β) (m : OrdMap κ β) :
    (m.modify k f).keys = m.keys := by
  unfold keys modify
  rw [List.map_map]
  apply List.map_congr_left
  intro e _
  dsimp only [Function.comp_apply]
  split <;> rfl

end OrdMap
