/-
The table of plugins `main` logs before it starts (`srv/main.cpp`, `all_plugins` in
`srv/plugin_internal.cpp`).

Each line is a name, padded to a common width, and two characters for each of six plugin types:
whether the plugin has the type and whether it is used for it. `table_reads`: the lines can be
read back from their ends, and say of every plugin, in the order of the map, exactly what it has
and what it is used for, and its name up to blanks at the end. The loop that looks for the width
compares with `loaded[0]` in every round, so the width is the length of the first name: the
columns stand below each other exactly if no name is longer.

Names are shorter than 2^31, so that the cast to `int` does not change their length.
-/
import LauSim.Boot
import Mathlib.Data.List.DropRight

set_option autoImplicit false

namespace LauSim.PluginTable

open CText PluginManager

variable {α : Type} [LinearOrder α] (pl : α → Plugin)

def PL_TOPOLOGY : PluginType := 16

/-- The types in the order of the columns. -/
def types : List PluginType :=
  [PL_COM_ACTOR, PL_COM_EXTERN, PL_FAULT_MANAGER, PL_LOGGER, PL_TOPOLOGY, PL_OTHER]

/-- `plugin_manager::all_plugins`. -/
def all_plugins (r : Registry α) : List (α × PluginType) := r.entries

/-- `pl->name`, as `strlen` and `%s` see it. -/
def cname (p : α) : Text := cstr (pl p).name

/-- `maxNameLen` behind its loop, if there is a `loaded[0]`. -/
def maxNameLen : List (α × PluginType) → Option ℕ
  | [] => none
  | e :: es =>
    some (es.foldl (fun max _ =>
      -- `loaded[0]`, not `loaded[i]`
      if max < (cname pl e.1).length then (cname pl e.1).length else max) (cname pl e.1).length)

/-- `%-*s`. -/
def padded (width : ℕ) (s : Text) : Text := s ++ List.replicate (width - s.length) ' '

/-- What `snprintf` leaves in a buffer of this size. -/
def snprintf (size : ℕ) (text : Text) : Text := text.take (size - 1)

/-- The columns of a type. -/
def columns (p : Plugin) (role t : PluginType) : Text :=
  [' ', if p.has t then 'A' else '-', if role &&& t ≠ 0 then 'U' else '-']

def header (width : ℕ) : Text :=
  snprintf 511 (padded width "Name".toList ++ " CA CE MA LO TO OT".toList)

def row (width : ℕ) (e : α × PluginType) : Text :=
  snprintf 511 (padded width (cname pl e.1) ++ types.flatMap (columns (pl e.1) e.2))

/-- The lines `main` logs. -/
def table (r : Registry α) : Option (List Text) :=
  (maxNameLen pl (all_plugins r)).map fun width =>
    header width :: (all_plugins r).map (row pl width)

/-! ## Reading a line -/

def read_columns : Text → List (Bool × Bool)
  | _ :: a :: u :: rest => (a == 'A', u == 'U') :: read_columns rest
  | _ => []

/-- The last eighteen characters, and the name in front of them. -/
def read_row (line : Text) : Text × List (Bool × Bool) :=
  ((line.take (line.length - 18)).rdropWhile (· == ' '),
    read_columns (line.drop (line.length - 18)))

variable {pl}

theorem read_columns_append (p : Plugin) (role t : PluginType) (rest : Text) :
    read_columns (columns p role t ++ rest)
      = (p.has t, decide (role &&& t ≠ 0)) :: read_columns rest := by
  have ha : ((if p.has t then 'A' else '-') == 'A') = p.has t := by
    cases p.has t
    · rfl
    · rfl
  have hu : ((if role &&& t ≠ 0 then 'U' else '-') == 'U') = decide (role &&& t ≠ 0) := by
    split
    · next h => exact (decide_eq_true h).symm
    · next h => exact (decide_eq_false h).symm
  rw [columns, List.cons_append, List.cons_append, List.cons_append, read_columns, ha, hu,
    List.nil_append]

theorem read_columns_types (p : Plugin) (role : PluginType) (ts : List PluginType) :
    read_columns (ts.flatMap (columns p role))
      = ts.map fun t => (p.has t, decide (role &&& t ≠ 0)) := by
  induction ts with
  | nil => rfl
  | cons t ts ih => rw [List.flatMap_cons, read_columns_append, ih, List.map_cons]

theorem length_columns (p : Plugin) (role : PluginType) :
    (types.flatMap (columns p role)).length = 18 := rfl

theorem length_padded (width : ℕ) (s : Text) : (padded width s).length = max width s.length := by
  rw [padded, List.length_append, List.length_replicate]
  omega

/-- The blanks behind a name go with those of the padding. -/
theorem rdropWhile_padded (width : ℕ) (s : Text) :
    (padded width s).rdropWhile (· == ' ') = s.rdropWhile (· == ' ') := by
  rw [padded]
  induction width - s.length with
  | zero => rw [List.replicate_zero, List.append_nil]
  | succ n ih =>
      rw [List.replicate_succ', ← List.append_assoc, List.rdropWhile_concat_pos _ _ _ (by simp), ih]

omit [LinearOrder α] in
/-- A line that fits the buffer. -/
theorem row_eq {width : ℕ} {e : α × PluginType} (hwidth : width ≤ 492)
    (hname : (cname pl e.1).length ≤ 492) :
    row pl width e = padded width (cname pl e.1) ++ types.flatMap (columns (pl e.1) e.2) := by
  rw [row, snprintf, List.take_of_length_le]
  rw [List.length_append, length_padded, length_columns]
  omega

omit [LinearOrder α] in
theorem length_row {width : ℕ} {e : α × PluginType} (hwidth : width ≤ 492)
    (hname : (cname pl e.1).length ≤ 492) :
    (row pl width e).length = max width (cname pl e.1).length + 18 := by
  rw [row_eq hwidth hname, List.length_append, length_padded, length_columns]

theorem length_header {width : ℕ} (hwidth : width ≤ 492) :
    (header width).length = max width 4 + 18 := by
  have hname : "Name".toList.length = 4 := rfl
  have hcolumns : " CA CE MA LO TO OT".toList.length = 18 := rfl
  rw [header, snprintf, List.length_take, List.length_append, length_padded, hname, hcolumns]
  omega

omit [LinearOrder α] in
theorem read_row_row {width : ℕ} {e : α × PluginType} (hwidth : width ≤ 492)
    (hname : (cname pl e.1).length ≤ 492) :
    read_row (row pl width e) = ((cname pl e.1).rdropWhile (· == ' '),
      types.map fun t => ((pl e.1).has t, decide (e.2 &&& t ≠ 0))) := by
  have hlen : (row pl width e).length - 18 = (padded width (cname pl e.1)).length := by
    rw [length_row hwidth hname, length_padded]
    omega
  rw [read_row, hlen, row_eq hwidth hname, List.take_left, List.drop_left, rdropWhile_padded,
    read_columns_types]

omit [LinearOrder α] in
/-- Every round compares with the first name. -/
theorem maxNameLen_cons (e : α × PluginType) (es : List (α × PluginType)) :
    maxNameLen pl (e :: es) = some (cname pl e.1).length := by
  rw [maxNameLen]
  congr 1
  induction es with
  | nil => rfl
  | cons e' es ih =>
      rw [List.foldl_cons, if_neg (lt_irrefl _)]
      exact ih

/-- **The table tells the truth.** For every registry with a plugin, whose names fit: the line
of each plugin, read from its end, says for the six types what the plugin has and what it is
used for, and before these stands its name. Blanks at the end of a name are lost in the padding:
plugins "x" and "x " have the same line. And the lines are of one length exactly if no name,
and not the heading, is longer than the first name. -/
theorem table_reads (r : Registry α) {first : α × PluginType} {others : List (α × PluginType)}
    (hentries : r.entries = first :: others)
    (hfit : ∀ e ∈ r.entries, (cname pl e.1).length ≤ 492) :
    ∃ top rows, table pl r = some (top :: rows) ∧
      rows.map read_row = r.entries.map (fun e => ((cname pl e.1).rdropWhile (· == ' '),
        types.map fun t => ((pl e.1).has t, decide (e.2 &&& t ≠ 0)))) ∧
      ((∀ line ∈ rows, line.length = top.length) ↔
        4 ≤ (cname pl first.1).length ∧
          ∀ e ∈ r.entries, (cname pl e.1).length ≤ (cname pl first.1).length) := by
  have hfirst : first ∈ r.entries := by
    rw [hentries]
    exact List.mem_cons_self
  have hwidth := hfit first hfirst
  refine ⟨header (cname pl first.1).length, r.entries.map (row pl (cname pl first.1).length),
    ?_, ?_, ?_⟩
  · rw [table, all_plugins, hentries, maxNameLen_cons]
    rfl
  · rw [List.map_map]
    apply List.map_congr_left
    intro e he
    exact read_row_row hwidth (hfit e he)
  · rw [List.forall_mem_map, length_header hwidth]
    have hlen : ∀ e ∈ r.entries, ((row pl (cname pl first.1).length e).length
        = max (cname pl first.1).length 4 + 18 ↔
        max (cname pl first.1).length (cname pl e.1).length = max (cname pl first.1).length 4) := by
      intro e he
      rw [length_row hwidth (hfit e he)]
      omega
    constructor
    · intro h
      -- the first line tells about the heading, the others about the rest
      have htop := (hlen first hfirst).mp (h first hfirst)
      have hfour : 4 ≤ (cname pl first.1).length := by omega
      refine ⟨hfour, fun e he => ?_⟩
      have := (hlen e he).mp (h e he)
      omega
    · rintro ⟨hfour, hall⟩ e he
      apply (hlen e he).mpr
      have := hall e he
      omega

/-- The communication plugin and a recorder with a longer name: both lines can be read, but
they do not stand below each other. -/
theorem table_reads_two :
    let pl : ℕ → Plugin := fun p =>
      if p = 0 then { name := "mqtt".toList, pl_type := PL_COM_ACTOR ||| PL_COM_EXTERN }
      else { name := "transcribe".toList, pl_type := PL_FAULT_MANAGER ||| PL_OTHER }
    let r : Registry ℕ := (OrdMap.empty.emplace 0 PL_COM_ACTOR).emplace 1 PL_OTHER
    ∃ top rows, table pl r = some (top :: rows) ∧
      rows.map read_row = [
        ("mqtt".toList, [(true, true), (true, false), (false, false), (false, false),
          (false, false), (false, false)]),
        ("transcribe".toList, [(false, false), (false, false), (true, false), (false, false),
          (false, false), (true, true)])] ∧
      ¬ ∀ line ∈ rows, line.length = top.length := by
  intro pl r
  obtain ⟨top, rows, htable, hread, haligned⟩ :=
    @table_reads ℕ _ pl r (0, PL_COM_ACTOR) [(1, PL_OTHER)] (by decide +kernel) (by decide +kernel)
  refine ⟨top, rows, htable, hread.trans (by decide +kernel), fun h => ?_⟩
  have hlonger := (haligned.mp h).2 (1, PL_OTHER) (by decide +kernel)
  exact absurd hlonger (by decide +kernel)

end LauSim.PluginTable
