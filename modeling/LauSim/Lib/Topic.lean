/-
MQTT topics and topic filters.

A topic is split into levels at the slashes; empty levels count. A filter is
compared level by level: `+` stands for any one level, and `#` as the last level
for the parent level and everything below it.
-/
import LauSim.Lib.CText

set_option autoImplicit false

namespace Topic

open CText

/-- The levels of a topic or of a filter. -/
def levels (topic : Text) : List Text := topic.splitOn '/'

def matchLevels : List Text → List Text → Bool
  | [], ts => ts.isEmpty
  | f :: fs, ts =>
    -- the parent level itself is matched too
    if f = ['#'] ∧ fs = [] then true
    else
      match ts with
      | [] => false
      | t :: ts => (decide (f = ['+']) || decide (f = t)) && matchLevels fs ts

/-- The filter matches the topic. -/
def matchesTopic (filter topic : Text) : Bool := matchLevels (levels filter) (levels topic)

theorem levels_of_not_mem {l : Text} (h : '/' ∉ l) : levels l = [l] :=
  List.splitOn_eq_singleton h

theorem levels_cons {l rest : Text} (h : '/' ∉ l) : levels (l ++ '/' :: rest) = l :: levels rest :=
  List.splitOn_append_cons_self_of_not_mem h rest

/-- `#` matches whatever is left. -/
theorem matchLevels_hash (ts : List Text) : matchLevels [['#']] ts = true := by
  rw [matchLevels.eq_def]
  simp

/-- A level without wildcards matches itself and nothing else. -/
theorem matchLevels_cons {f t : Text} (fs ts : List Text) (hplus : '+' ∉ f) (hhash : '#' ∉ f) :
    matchLevels (f :: fs) (t :: ts) = (decide (f = t) && matchLevels fs ts) := by
  have hf : f ≠ ['#'] := by
    rintro rfl
    simp at hhash
  have hf' : f ≠ ['+'] := by
    rintro rfl
    simp at hplus
  rw [matchLevels.eq_def]
  simp [hf, hf']

@[simp] theorem matchLevels_nil_cons (t : Text) (ts : List Text) :
    matchLevels [] (t :: ts) = false := rfl

end Topic
