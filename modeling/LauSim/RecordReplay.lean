/-
Record, then replay.

The transcript of a run (`Transcribe.transcript`) is read back by
`plugins/replay/replay.c` as the run it came from. Three layers meet here:

* the lines: what `transcribe` writes with `fprintf` is what `replay` reads with
  `strtok`, `strchr` and `strtoull` (`read_node_nodeLine`, `classify_heading`,
  `classify_faultLine`);
* the stream: behind the node table, the lines are the entries of each tic with
  the heading of the next one behind them (`lines_ticsText`);
* the run: `ReplaySchedule` turns the calls into the look-ahead player's, and
  the player answers one recorded list for each call (`tics_recorded`).

The one place where the two sides part is the end of the 64-bit tic counter.
The heading of tic `2 ^ 64 - 1` makes replay wait for a tic number its own
counter never exceeds, so from that call on it reports nothing (`Silent`).
-/
import LauSim.Transcribe
import LauSim.ReplaySchedule

set_option autoImplicit false

namespace LauSim.RecordReplay

open CText Schedule Transcribe Replay

/-! ## Names that survive -/

/-- A name without comma, newline and NUL. -/
def Plain (s : Text) : Prop := ∀ c ∈ s, c ≠ ',' ∧ c ≠ '\n' ∧ c ≠ nul

/-- Node and component names of a table entry are plain and not empty. -/
def PlainNode (n : Node) : Prop :=
  (n.name ≠ [] ∧ Plain n.name) ∧ ∀ c ∈ n.components, c.name ≠ [] ∧ Plain c.name

/-- The names of a fault are plain; NULL is written as the empty component name. -/
def PlainNames (f : Fault) : Prop := Plain f.node ∧ Plain (f.component.getD [])

/-- The names of a fault are plain and do not contain `tic#`; its component is
NULL or not empty. -/
def PlainFault (f : Fault) : Prop :=
  (Plain f.node ∧ ¬ "tic#".toList <:+: f.node) ∧
    ∀ c, f.component = some c → c ≠ [] ∧ Plain c ∧ ¬ "tic#".toList <:+: c

theorem plain_nil : Plain [] := by
  intro c hc
  exact absurd hc List.not_mem_nil

theorem plain_fmtU (n : ℕ) : Plain (fmtU n) := by
  intro c hc
  have hlt := digitValue_lt_of_mem_fmtU hc
  refine ⟨?_, ?_, ?_⟩ <;> rintro rfl <;> exact absurd hlt (by decide)

theorem plain_fmtD (w n : ℕ) : Plain (fmtD w n) := by
  intro c hc
  refine ⟨?_, ?_, ?_⟩ <;> rintro rfl <;> exact not_mem_fmtD (by decide) (by decide) w n hc

/-! ## The node table -/

/-- A node line is its tokens, each but the first behind a comma. -/
theorem nodeLine_eq (n : Node) :
    nodeLine n = n.name ++ ((fmtU n.num_components :: n.components.map Component.name).flatMap
      (fun t => ',' :: t) ++ ['\n']) := by
  simp [nodeLine, List.flatMap_map]

theorem plain_tokens {n : Node} (h : PlainNode n) :
    ∀ t ∈ n.name :: fmtU n.num_components :: n.components.map Component.name,
      t ≠ [] ∧ Plain t := by
  intro t ht
  rcases List.mem_cons.mp ht with rfl | ht
  · exact h.1
  · rcases List.mem_cons.mp ht with rfl | ht
    · exact ⟨fmtU_ne_nil _, plain_fmtU _⟩
    · obtain ⟨c, hc, rfl⟩ := List.mem_map.mp ht
      exact h.2 c hc

/-- A line of plain tokens contains a newline at its end only, and no NUL. -/
theorem not_mem_tokens {x : Text} {xs : List Text} (h : ∀ t ∈ x :: xs, t ≠ [] ∧ Plain t) :
    '\n' ∉ x ++ xs.flatMap (fun t => ',' :: t) ∧
      nul ∉ x ++ (xs.flatMap (fun t => ',' :: t) ++ ['\n']) := by
  have hbytes : ∀ c ∈ x ++ xs.flatMap (fun t => ',' :: t), c ≠ '\n' ∧ c ≠ nul := by
    intro c hc
    rcases List.mem_append.mp hc with hc | hc
    · exact ((h x List.mem_cons_self).2 c hc).2
    · obtain ⟨t, ht, hc⟩ := List.mem_flatMap.mp hc
      rcases List.mem_cons.mp hc with rfl | hc
      · exact ⟨by decide, by decide⟩
      · exact ((h t (List.mem_cons_of_mem _ ht)).2 c hc).2
  refine ⟨fun hm => (hbytes _ hm).1 rfl, fun hm => ?_⟩
  rw [← List.append_assoc] at hm
  rcases List.mem_append.mp hm with hm | hm
  · exact (hbytes _ hm).2 rfl
  · exact absurd (List.mem_singleton.mp hm) (by decide)

theorem isLine_nodeLine {n : Node} (h : PlainNode n) : IsLine (nodeLine n) := by
  refine ⟨_, (not_mem_tokens (plain_tokens h)).1, ?_⟩
  rw [nodeLine_eq, List.append_assoc]

theorem cstr_nodeLine {n : Node} (h : PlainNode n) : cstr (nodeLine n) = nodeLine n := by
  rw [nodeLine_eq]
  exact cstr_of_not_mem (not_mem_tokens (plain_tokens h)).2

theorem strtoks_nodeLine {n : Node} (h : PlainNode n) :
    strtoks ",\n".toList (nodeLine n)
      = n.name :: fmtU n.num_components :: n.components.map Component.name := by
  rw [nodeLine_eq]
  apply strtoks_intercalate (by decide) (by decide)
  intro t ht
  obtain ⟨hne, hplain⟩ := plain_tokens h t ht
  refine ⟨hne, fun c hc hm => ?_⟩
  obtain ⟨hcomma, hnl, -⟩ := hplain c hc
  have hm : c ∈ [',', '\n'] := hm
  simp [hcomma, hnl] at hm

/-- As many tokens as asked for are read as components of these names. -/
theorem read_components_map (names : List Text) :
    read_components names.length names
      = some (names.map (fun x => { name := x, severity := 0 })) := by
  rw [read_components_eq, if_pos (Nat.le_refl _), List.take_length]

/-- **A node line is read back**, with its names. -/
theorem read_node_nodeLine {n : Node} (h : PlainNode n) (i : ℕ) :
    ∃ n', read_node i (cstr (nodeLine n)) = .ok (some n') ∧ n'.name = n.name ∧
      n'.components.map Component.name = n.components.map Component.name := by
  -- the count is below `2 ^ 32`, so cutting it to `unsigned` keeps it
  have hcount : (strtoull (fmtU n.num_components)).1.toUInt32.toNat
      = (n.components.map Component.name).length := by
    have hlt : n.num_components < 2 ^ 32 := n.num_lt
    have hread := strtoull_fmtU (show n.num_components < 2 ^ 64 by omega) stops_nil
    rw [List.append_nil] at hread
    rw [hread, List.length_map]
    simp only [UInt64.toNat_toUInt32, UInt64.toNat_ofNat', Node.num_components] at hlt ⊢
    omega
  have hcomps := read_components_map (n.components.map Component.name)
  rw [← hcount] at hcomps
  rw [cstr_nodeLine h]
  unfold read_node
  rw [strtoks_nodeLine h]
  dsimp only
  split
  · next hnone => rw [hcomps] at hnone; simp at hnone
  · next cs hsome =>
    rw [hcomps, Option.some.injEq] at hsome
    refine ⟨_, rfl, rfl, ?_⟩
    show cs.map Component.name = n.components.map Component.name
    rw [← hsome]
    simp [Function.comp_def]

/-- The node loop reads the node lines back, name by name. -/
theorem read_nodes_nodeLines {ns : List Node} (h : ∀ n ∈ ns, PlainNode n) (i : ℕ)
    (ls : List Text) :
    ∃ ns', read_nodes ns.length i (ns.map nodeLine ++ ls) = .ok (some ns', ls) ∧
      ns'.map (fun n => (n.name, n.components.map Component.name))
        = ns.map (fun n => (n.name, n.components.map Component.name)) := by
  induction ns generalizing i with
  | nil => exact ⟨[], rfl, rfl⟩
  | cons n ns ih =>
      obtain ⟨n', hnode, hname, hcomps⟩ := read_node_nodeLine (h n List.mem_cons_self) i
      obtain ⟨ns', hrest, hmap⟩ := ih (fun x hx => h x (List.mem_cons_of_mem _ hx)) (i + 1)
      refine ⟨n' :: ns', ?_, ?_⟩
      · rw [List.length_cons, List.map_cons, List.cons_append, read_nodes, hnode]
        simp only [bind, Except.bind, hrest, pure, Except.pure]
      · rw [List.map_cons, List.map_cons, hmap, hname, hcomps]

/-! ## Headings -/

theorem heading_eq (k : UInt64) :
    heading k = "[tic".toList ++ '#' :: ((fmtD 64 k.toNat ++ [']']) ++ ['\n']) := by
  rw [List.append_assoc]
  rfl

/-- A heading is a plain text and a newline. -/
theorem plain_heading (k : UInt64) : ∃ x, Plain x ∧ heading k = x ++ ['\n'] := by
  refine ⟨"[tic#".toList ++ (fmtD 64 k.toNat ++ [']']), fun c hc => ?_, ?_⟩
  · rcases List.mem_append.mp hc with hc | hc
    · have hc : c ∈ ['[', 't', 'i', 'c', '#'] := hc
      fin_cases hc <;> decide
    · rcases List.mem_append.mp hc with hc | hc
      · exact plain_fmtD _ _ c hc
      · rw [List.mem_singleton.mp hc]
        decide
  · rw [List.append_assoc, List.append_assoc]
    rfl

theorem isLine_heading (k : UInt64) : IsLine (heading k) := by
  obtain ⟨x, hplain, heq⟩ := plain_heading k
  exact ⟨x, fun hm => (hplain _ hm).2.1 rfl, heq⟩

theorem cstr_heading (k : UInt64) : cstr (heading k) = heading k := by
  obtain ⟨x, hplain, heq⟩ := plain_heading k
  apply cstr_of_not_mem
  rw [heq]
  intro hm
  rcases List.mem_append.mp hm with hm | hm
  · exact (hplain _ hm).2.2 rfl
  · exact absurd hm (by decide)

theorem isHeading_heading (k : UInt64) : isHeading (heading k) = true := by
  rw [isHeading, strstr_iff]
  exact ⟨['['], fmtD 64 k.toNat ++ "]\n".toList, rfl⟩

theorem strstr_tic_heading (k : UInt64) : strstr (heading k) "tic".toList = true := by
  rw [strstr_iff]
  exact ⟨['['], '#' :: (fmtD 64 k.toNat ++ "]\n".toList), rfl⟩

/-- **A heading is read back**: its second token is the number and a bracket. -/
theorem get_tic_num_heading (k : UInt64) : get_tic_num (heading k) = some k := by
  have hnum : ∀ c ∈ fmtD 64 k.toNat ++ [']'], c ∉ " #\t\n".toList := by
    intro c hc
    rcases List.mem_append.mp hc with hc | hc
    · rcases mem_fmtD hc with rfl | hlt
      · decide
      · intro hm
        have hm : c ∈ [' ', '#', '\t', '\n'] := hm
        simp only [List.mem_cons, List.not_mem_nil, or_false] at hm
        rcases hm with rfl | rfl | rfl | rfl <;> exact absurd hlt (by decide)
    · rw [List.mem_singleton.mp hc]
      decide
  have htag : ∀ c ∈ "[tic".toList, c ∉ " #\t\n".toList := by simp
  have htoks : strtoks " #\t\n".toList (heading k)
      = ["[tic".toList, fmtD 64 k.toNat ++ [']']] := by
    rw [heading_eq, strtoks_append (by decide) htag (by decide),
      strtoks_append (by simp) hnum (by decide)]
    rfl
  have hread : strtoull (fmtD 64 k.toNat ++ [']']) = (k, [']']) :=
    strtoull_fmtD64 k (stops_cons (by decide) [])
  have hne : ¬ [']'] = fmtD 64 k.toNat ++ [']'] :=
    fun heq => fmtD_ne_nil 64 k.toNat (List.self_eq_append_left.mp heq)
  rw [get_tic_num, htoks, List.tail_cons, get_tic_num.loop, hread]
  exact if_neg hne

theorem classify_heading (k : UInt64) : classify (heading k) = .mark k.toNat := by
  rw [classify, cstr_heading, if_pos (isHeading_heading k), get_tic_num_heading]
  rfl

theorem readable_heading (k : UInt64) : Readable (heading k) := by
  intro _
  rw [cstr_heading, get_tic_num_heading]
  rfl

/-! ## Fault lines -/

theorem plain_component {f : Fault} (h : PlainFault f) :
    Plain (f.component.getD []) ∧ ¬ "tic#".toList <:+: f.component.getD [] := by
  cases hc : f.component with
  | none => exact ⟨plain_nil, by decide⟩
  | some c =>
      obtain ⟨-, hplain, htic⟩ := h.2 c hc
      exact ⟨hplain, htic⟩

theorem PlainFault.names {f : Fault} (h : PlainFault f) : PlainNames f :=
  ⟨h.1.1, (plain_component h).1⟩

theorem isLine_faultLine {f : Fault} (h : PlainNames f) : IsLine (faultLine f) := by
  have hnode : '\n' ∉ f.node := fun hm => (h.1 _ hm).2.1 rfl
  have hcomp : '\n' ∉ f.component.getD [] := fun hm => (h.2 _ hm).2.1 rfl
  have hsev : '\n' ∉ fmtD 32 f.severity.toNat := fun hm => (plain_fmtD _ _ _ hm).2.1 rfl
  refine ⟨f.node ++ ',' :: (f.component.getD [] ++ ',' :: fmtD 32 f.severity.toNat), ?_, ?_⟩
  · simp [hnode, hcomp, hsev]
  · simp [faultLine]

theorem cstr_faultLine {f : Fault} (h : PlainNames f) : cstr (faultLine f) = faultLine f := by
  have hnode : nul ∉ f.node := fun hm => (h.1 _ hm).2.2 rfl
  have hcomp : nul ∉ f.component.getD [] := fun hm => (h.2 _ hm).2.2 rfl
  have hsev : nul ∉ fmtD 32 f.severity.toNat := fun hm => (plain_fmtD _ _ _ hm).2.2 rfl
  apply cstr_of_not_mem
  simp only [nul] at hnode hcomp hsev ⊢
  simp [faultLine, hnode, hcomp, hsev]

/-- A fault line is a heading only by one of its names: `tic#` has no comma in it, so
it has to lie inside one field, and the severity field has no letters. -/
theorem isHeading_faultLine_iff (f : Fault) :
    isHeading (faultLine f) = true ↔
      "tic#".toList <:+: f.node ∨ "tic#".toList <:+: f.component.getD [] := by
  rw [isHeading, strstr_iff, faultLine]
  have hcomma : ',' ∉ "tic#".toList := by decide
  constructor
  · intro hhead
    rcases infix_append_sep hcomma hhead with hnode | hrest
    · exact Or.inl hnode
    · rcases infix_append_sep hcomma hrest with hcomp | hsev
      · exact Or.inr hcomp
      · -- a number has no `t`
        have hmem : 't' ∈ fmtD 32 f.severity.toNat ++ ['\n'] := hsev.subset (by decide)
        rcases List.mem_append.mp hmem with hm | hm
        · rcases mem_fmtD hm with hm | hm <;> exact absurd hm (by decide)
        · exact absurd (List.mem_singleton.mp hm) (by decide)
  · rintro (hnode | hcomp)
    · exact hnode.trans (List.prefix_append _ _).isInfix
    · apply hcomp.trans
      apply (List.prefix_append _ _).isInfix.trans
      exact (List.suffix_cons ',' _).isInfix.trans (List.suffix_append _ _).isInfix

theorem not_isHeading_faultLine {f : Fault} (h : PlainFault f) :
    isHeading (faultLine f) = false := by
  rw [← Bool.not_eq_true, isHeading_faultLine_iff, not_or]
  exact ⟨h.1.2, (plain_component h).2⟩

/-- **A fault line is read back**, every severity included: the ones from
`2 ^ 31` on are printed negative and cut back to 32 bits. -/
theorem parse_fault_names {f : Fault} (h : PlainNames f) :
    parse_fault (faultLine f) = some (f.node,
      if f.component.getD [] = [] then none else some (f.component.getD []), f.severity) := by
  have hnode : ',' ∉ f.node := fun hm => (h.1 _ hm).1 rfl
  have hcomp : ',' ∉ f.component.getD [] := fun hm => (h.2 _ hm).1 rfl
  have hstop : Stops ['\n'] := stops_cons (by decide) []
  obtain ⟨hval, hrest⟩ := strtoull_fmtD32 f.severity hstop
  have hne : ¬ (strtoull (fmtD 32 f.severity.toNat ++ ['\n'])).2
      = fmtD 32 f.severity.toNat ++ ['\n'] := by
    rw [hrest]
    exact fun heq => fmtD_ne_nil 32 f.severity.toNat (List.self_eq_append_left.mp heq)
  rw [parse_fault, faultLine, strchr_append hnode]
  dsimp only
  rw [strchr_append hcomp]
  dsimp only
  rw [if_neg hne, hval]

theorem parse_fault_faultLine {f : Fault} (h : PlainFault f) :
    parse_fault (faultLine f) = some f.triple := by
  -- NULL is written as the empty field, and an empty field is read as NULL
  have hcomp : (if f.component.getD [] = [] then none else some (f.component.getD []))
      = f.component := by
    cases hc : f.component with
    | none => rfl
    | some c => simp [(h.2 c hc).1]
  rw [parse_fault_names h.names, hcomp]
  rfl

theorem classify_faultLine {f : Fault} (h : PlainFault f) :
    classify (faultLine f) = .entry f.triple := by
  rw [classify, cstr_faultLine h.names, not_isHeading_faultLine h, parse_fault_faultLine h]
  rfl

theorem readable_faultLine {f : Fault} (h : PlainFault f) : Readable (faultLine f) := by
  intro hhead
  rw [cstr_faultLine h.names, not_isHeading_faultLine h] at hhead
  simp at hhead

/-! ## The stream behind the node table -/

/-- Every fault of every list survives. -/
def PlainFaults (fss : List (List Fault)) : Prop := ∀ fs ∈ fss, ∀ f ∈ fs, PlainFault f

theorem PlainFaults.head {fs : List Fault} {fss : List (List Fault)}
    (h : PlainFaults (fs :: fss)) : ∀ f ∈ fs, PlainFault f :=
  h fs List.mem_cons_self

theorem PlainFaults.tail {fs : List Fault} {fss : List (List Fault)}
    (h : PlainFaults (fs :: fss)) : PlainFaults fss :=
  fun gs hgs => h gs (List.mem_cons_of_mem _ hgs)

theorem PlainFaults.names {fss : List (List Fault)} (h : PlainFaults fss) :
    ∀ fs ∈ fss, ∀ f ∈ fs, PlainNames f :=
  fun fs hfs f hf => (h fs hfs f hf).names

theorem lines_ticsText {fs : List Fault} (h : ∀ f ∈ fs, PlainNames f) (fss : List (List Fault))
    (k : UInt64) :
    lines (ticsText k (fs :: fss))
      = heading k :: (fs.map faultLine ++ lines (ticsText (k + 1) fss)) := by
  rw [ticsText, lines_append_isLine (isLine_heading k),
    lines_flatMap (fun f hf => isLine_faultLine (h f hf))]

theorem readable_ticsText {fss : List (List Fault)} (h : PlainFaults fss) (k : UInt64) :
    ∀ l ∈ lines (ticsText k fss), Readable l := by
  induction fss generalizing k with
  | nil =>
      intro l hl
      exact absurd hl List.not_mem_nil
  | cons fs fss ih =>
      intro l hl
      rw [lines_ticsText (h.names fs List.mem_cons_self)] at hl
      rcases List.mem_cons.mp hl with rfl | hl
      · exact readable_heading k
      · rcases List.mem_append.mp hl with hl | hl
        · obtain ⟨f, hf, rfl⟩ := List.mem_map.mp hl
          exact readable_faultLine (h.head f hf)
        · exact ih h.tail (k + 1) l hl

theorem classify_faultLines {fs : List Fault} (h : ∀ f ∈ fs, PlainFault f) :
    (fs.map faultLine).map classify = (fs.map Fault.triple).map Item.entry := by
  rw [List.map_map, List.map_map]
  apply List.map_congr_left
  intro f hf
  exact classify_faultLine (h f hf)

/-! ## The end of the counter -/

/-- Replay has nothing more to say: the file has ended, or it waits for a tic
number that is the largest of all. -/
def Silent (s : Replay) : Prop := s.done = true ∨ s.nxt_tic.toNat = 2 ^ 64 - 1

/-- A silent replay reports no fault and stays silent. At the largest number the
counter wraps to 0 before the loop tests it, so the loop is not entered. -/
theorem tic_of_silent {s : Replay} (h : Silent s) :
    ∃ s', Replay.tic s = .ok s' ∧ s'.faults = [] ∧ Silent s' := by
  unfold Replay.tic
  by_cases hdone : s.done = true
  · exact ⟨{ s with faults := [] }, if_pos hdone, rfl, Or.inl hdone⟩
  · have hnxt : s.nxt_tic.toNat = 2 ^ 64 - 1 := h.resolve_left hdone
    simp only [if_neg hdone]
    by_cases hlt : s.tic_num < s.nxt_tic
    · exact ⟨{ s with faults := [], tic_num := s.tic_num + 1 }, if_pos hlt, rfl, Or.inr hnxt⟩
    · have hwrap : (s.tic_num + 1).toNat = 0 := by
        rw [UInt64.lt_iff_toNat_lt] at hlt
        have hmax := UInt64.toNat_lt s.tic_num
        rw [UInt64.toNat_add, UInt64.toNat_one]
        omega
      have hloop : ¬ s.nxt_tic < s.tic_num + 1 := by
        rw [UInt64.lt_iff_toNat_lt, hwrap]
        omega
      refine ⟨{ s with faults := [], tic_num := s.tic_num + 1 }, ?_, rfl, Or.inr hnxt⟩
      rw [if_neg hlt]
      exact tic_loop_of_not_lt (s := { s with faults := [], tic_num := s.tic_num + 1 }) hloop s.file

theorem tics_of_silent (n : ℕ) {s : Replay} (h : Silent s) :
    ∃ s', manager.tics n s = .ok (List.replicate n [], s') := by
  induction n generalizing s with
  | zero => exact ⟨s, rfl⟩
  | succ n ih =>
      obtain ⟨s₁, htic, hfaults, hsilent⟩ := tic_of_silent h
      obtain ⟨s', htics⟩ := ih hsilent
      have hget : manager.get_fail s₁ = .ok ([], s₁) := by
        rw [← hfaults]
        rfl
      exact ⟨s', FaultManager.tics_succ htic hget htics⟩

theorem silent_of_player_none {s : Replay} (h : s.player = none) : Silent s := by
  left
  by_contra hdone
  rw [player, if_neg hdone] at h
  simp at h

/-! ## The run -/

/-- The list replay reports in the `j`-th call from tic `k` on: the recorded
one, as long as the counter lasts. -/
def played (k : ℕ) (fss : List (List Fault)) (j : ℕ) : List Triple :=
  if k + j < 2 ^ 64 - 1 then (fss.getD j []).map Fault.triple else []

/-- Silent calls are what is played where nothing is recorded any more. -/
theorem played_of_silent {n k : ℕ} {fss : List (List Fault)}
    (h : ∀ j, played k fss j = []) {j : ℕ} (hj : j < n) :
    ((List.replicate n ([] : List Fault))[j]?).map (List.map Fault.triple)
      = some (played k fss j) := by
  rw [h j, List.getElem?_replicate_of_lt hj]
  rfl

/-- Replay as a player of the lists `fss` from tic `k` on: behind the heading of
tic `k`, or at the end of the file. -/
def recorded (k : ℕ) : List (List Fault) → Player Triple
  | [] => none
  | fs :: fss =>
    some (k, (fs.map faultLine ++ lines (ticsText (UInt64.ofNat (k + 1)) fss)).map classify)

/-- **One recorded list.** A call passes the fault lines of its tic and reads the
next heading, which lies ahead, or finds the end of the file. -/
theorem tic_recorded {k : ℕ} (hk : k < 2 ^ 64 - 1) {fs : List Fault} {fss : List (List Fault)}
    (hplain : PlainFaults (fs :: fss)) :
    (recorded k (fs :: fss)).tic k = (fs.map Fault.triple, recorded (k + 1) fss) := by
  rw [recorded, Player.tic, if_neg (by omega), List.map_append, classify_faultLines hplain.head,
    lookahead_entries]
  cases fss with
  | nil => simp [ticsText, lookahead, recorded]
  | cons fs' fss =>
      have hnum : (UInt64.ofNat (k + 1)).toNat = k + 1 := by
        rw [UInt64.toNat_ofNat', Nat.mod_eq_of_lt (by omega)]
      have hnext : UInt64.ofNat (k + 1) + 1 = UInt64.ofNat (k + 1 + 1) := by
        rw [UInt64.ofNat_add (k + 1) 1]
        rfl
      rw [lines_ticsText (hplain.tail.names fs' List.mem_cons_self), hnext, List.map_cons,
        classify_heading, hnum, lookahead, if_pos (Nat.lt_succ_self k), List.append_nil, recorded]

/-- Nothing more is played once the last list is, or when the heading just read
carries the largest number of all. -/
theorem silent_of_recorded {k : ℕ} {fss : List (List Fault)} {s : Replay}
    (hplayer : s.player = recorded k fss) (hend : fss = [] ∨ k = 2 ^ 64 - 1) : Silent s := by
  cases fss with
  | nil => exact silent_of_player_none hplayer
  | cons fs fss =>
      have hk : k = 2 ^ 64 - 1 := hend.resolve_left (by simp)
      unfold player at hplayer
      split at hplayer
      · simp [recorded] at hplayer
      · right
        rw [recorded, Option.some.injEq, Prod.mk.injEq] at hplayer
        rw [hplayer.1, hk]

/-- **One recorded list for each call.** The induction is on the calls. -/
theorem tics_recorded {n k : ℕ} (hk : k ≤ 2 ^ 64 - 1) {fss : List (List Fault)}
    (hplain : PlainFaults fss) {s : Replay} (hbefore : Before k s)
    (hplayer : s.player = recorded k fss) :
    ∃ gss s', manager.tics n s = .ok (gss, s') ∧
      ∀ j < n, (gss[j]?).map (List.map Fault.triple) = some (played k fss j) := by
  induction n generalizing k fss s with
  | zero => exact ⟨[], s, rfl, fun j hj => by omega⟩
  | succ n ih =>
      by_cases hend : fss = [] ∨ k = 2 ^ 64 - 1
      · obtain ⟨s', htics⟩ := tics_of_silent (n + 1) (silent_of_recorded hplayer hend)
        refine ⟨_, s', htics, fun j hj => played_of_silent (fun i => ?_) hj⟩
        rcases hend with rfl | hmax
        · simp [played]
        · rw [played, if_neg (by omega)]
      · rw [not_or] at hend
        obtain ⟨fs, fss, rfl⟩ := List.exists_cons_of_ne_nil hend.1
        obtain ⟨s₁, htic, hfaults, hplayer₁, hbefore₁⟩ := tic_spec (by omega) hbefore
        rw [hplayer, tic_recorded (by omega) hplain] at hfaults hplayer₁
        obtain ⟨gss, s', htics, hgss⟩ := ih (by omega) hplain.tail hbefore₁ hplayer₁
        refine ⟨_, s', FaultManager.tics_succ htic rfl htics, fun j hj => ?_⟩
        cases j with
        | zero =>
            rw [List.getElem?_cons_zero, Option.map_some, hfaults, played, if_pos (by omega)]
            rfl
        | succ j =>
            rw [List.getElem?_cons_succ, hgss j (by omega)]
            simp only [played, List.getD_cons_succ]
            rw [show k + 1 + j = k + (j + 1) by omega]

/-! ## The whole file -/

theorem lines_transcript {t : NodeTable} (h : ∀ n ∈ t.1, PlainNode n) (fss : List (List Fault)) :
    lines (transcript t fss)
      = (fmtU t.1.length ++ ['\n']) :: (t.1.map nodeLine ++ lines (ticsText 0 fss)) := by
  have hcount : '\n' ∉ fmtU t.1.length := fun hm => (plain_fmtU _ _ hm).2.1 rfl
  rw [transcript, nodesText, List.append_assoc, List.cons_append, lines_append_newline hcount,
    lines_flatMap (fun n hn => isLine_nodeLine (h n hn))]

theorem strtoull_countLine (t : NodeTable) :
    cstr (fmtU t.1.length ++ ['\n']) = fmtU t.1.length ++ ['\n'] ∧
      strtoull (fmtU t.1.length ++ ['\n']) = (UInt64.ofNat t.1.length, ['\n']) := by
  refine ⟨cstr_of_not_mem ?_, strtoull_fmtU t.2 (stops_cons (by decide) [])⟩
  have hnum : nul ∉ fmtU t.1.length := fun hm => (plain_fmtU _ _ hm).2.2 rfl
  simp only [nul] at hnum ⊢
  simp [hnum]

/-- The line behind the node table of a transcript: the heading of tic 0, which
`get_nodes` consumes, or the end of the file. -/
theorem first_heading_ticsText {fss : List (List Fault)}
    (h : ∀ fs ∈ fss, ∀ f ∈ fs, PlainNames f) (s : Replay) (hnxt : s.nxt_tic = 0)
    (hfile : s.file = lines (ticsText 0 fss)) :
    first_heading s = .ok { s with file := (lines (ticsText 0 fss)).tail } := by
  unfold first_heading
  cases fss with
  | nil =>
      have hnil : s.file = [] := hfile
      have heta : { s with file := [] } = s := by rw [← hnil]
      rw [hnil]
      exact congrArg Except.ok heta.symm
  | cons fs fss =>
      rw [hfile, lines_ticsText (h fs List.mem_cons_self)]
      simp only [cstr_heading, if_pos (strstr_tic_heading 0), tic_num_of, get_tic_num_heading,
        bind, Except.bind, pure, Except.pure, List.tail_cons, hnxt]

/-- **`get_nodes` on a transcript** returns 0 with the recorded names, and
stands behind the heading of tic 0. -/
theorem get_nodes_transcript {t : NodeTable} (ht : ∀ n ∈ t.1, PlainNode n)
    {fss : List (List Fault)} (hplain : ∀ fs ∈ fss, ∀ f ∈ fs, PlainNames f) :
    ∃ t', NodeTable.names t' = NodeTable.names t ∧
      Replay.manager.get_nodes (Replay.init (transcript t fss))
        = .ok (some t', { Replay.init [] with file := (lines (ticsText 0 fss)).tail }) := by
  obtain ⟨hcstr, hcount⟩ := strtoull_countLine t
  obtain ⟨ns, hns, hnames⟩ := read_nodes_nodeLines ht 0 (lines (ticsText 0 fss))
  have hhead := first_heading_ticsText hplain
    { Replay.init (transcript t fss) with file := lines (ticsText 0 fss) } rfl rfl
  have hnum : (UInt64.ofNat t.1.length).toNat = t.1.length := by
    rw [UInt64.toNat_ofNat', Nat.mod_eq_of_lt t.2]
  have hne : (strtoull (cstr (fmtU t.1.length ++ ['\n']))).2
      ≠ cstr (fmtU t.1.length ++ ['\n']) := by
    rw [hcstr, hcount]
    exact fun heq => fmtU_ne_nil t.1.length (List.self_eq_append_left.mp heq)
  obtain ⟨hlt, hget⟩ := get_nodes_of_read (s := Replay.init (transcript t fss))
    (lines_transcript ht fss) hne (by rw [hcstr, hcount, hnum]; exact hns) hhead
  exact ⟨⟨ns, hlt⟩, hnames, hget⟩

/-- A run of replay on a transcript: the recorded names, and in every call what
is played of the recorded lists. -/
theorem drive_transcript {t : NodeTable} (ht : ∀ n ∈ t.1, PlainNode n)
    {fss : List (List Fault)} (hplain : PlainFaults fss) (n : ℕ) :
    ∃ t' gss q, Replay.manager.drive n (Replay.init (transcript t fss)) = .ok (some (t', gss), q) ∧
      NodeTable.names t' = NodeTable.names t ∧
      ∀ k < n, (gss[k]?).map (List.map Fault.triple) = some (played 0 fss k) := by
  obtain ⟨t', hnames, hnodes⟩ := get_nodes_transcript ht hplain.names
  have hreadable := readable_ticsText hplain 0
  have hbefore : Before 0 { Replay.init [] with file := (lines (ticsText 0 fss)).tail } :=
    ⟨fun _ => rfl, fun l hl => hreadable l (List.mem_of_mem_tail hl)⟩
  cases fss with
  | nil =>
      cases n with
      | zero => exact ⟨t', [], _, FaultManager.drive_some hnodes rfl, hnames, fun k hk => by omega⟩
      | succ n =>
          -- nothing was recorded: the first call finds the end of the file
          obtain ⟨s₁, htic, hfaults, hplayer, -⟩ := tic_spec (by omega) hbefore
          obtain ⟨q, htics⟩ := tics_of_silent n (silent_of_player_none (s := s₁) hplayer)
          refine ⟨t', _, q, FaultManager.drive_some hnodes
            (FaultManager.tics_succ htic rfl htics), hnames, fun k hk => ?_⟩
          cases k with
          | zero =>
              rw [List.getElem?_cons_zero, Option.map_some, hfaults]
              rfl
          | succ k =>
              rw [List.getElem?_cons_succ, List.getElem?_replicate_of_lt (by omega)]
              simp [played]
  | cons fs fss =>
      have hplayer : Replay.player { Replay.init [] with
            file := (lines (ticsText 0 (fs :: fss))).tail }
          = recorded 0 (fs :: fss) := by
        rw [lines_ticsText (hplain.names fs List.mem_cons_self)]
        rfl
      obtain ⟨gss, q, htics, hgss⟩ := tics_recorded (n := n) (by omega) hplain hbefore hplayer
      exact ⟨t', gss, q, FaultManager.drive_some hnodes htics, hnames, hgss⟩

/-- **Record, then replay.** Let any nested manager be driven for `n` tics, with
plain names. Recording changes nothing about the run, and replay, driven for
`n + m` tics on the file, returns the recorded node and component names, the
recorded list in every call below `2 ^ 64 - 1`, and no fault after the `n`-th
tic. -/
theorem replay_of_transcribe {σ : Type} (nested : FaultManager σ) (s s' : σ) (n m : ℕ)
    (t : NodeTable) (fss : List (List Fault))
    (hrun : nested.drive n s = .ok (some (t, fss), s'))
    (ht : ∀ node ∈ t.1, PlainNode node) (hfaults : PlainFaults fss) :
    ∃ r t' gss q, (Transcribe.manager nested).drive n (Transcribe.init s)
          = .ok (some (t, fss), r) ∧
      Replay.manager.drive (n + m) (Replay.init r.file) = .ok (some (t', gss), q) ∧
      NodeTable.names t' = NodeTable.names t ∧
      (∀ k < n, k < 2 ^ 64 - 1 →
        (gss[k]?).map (List.map Fault.triple) = (fss[k]?).map (List.map Fault.triple)) ∧
      ∀ k, n ≤ k → k < n + m → gss[k]? = some [] := by
  obtain ⟨r, hrec, hfile⟩ := Transcribe.drive_manager hrun
  obtain ⟨t', gss, q, hreplay, hnames, hgss⟩ := drive_transcript ht hfaults (n + m)
  obtain ⟨_, -, htics⟩ := FaultManager.drive_some_inv hrun
  have hlen : fss.length = n := FaultManager.tics_length htics
  refine ⟨r, t', gss, q, hrec, by rw [hfile]; exact hreplay, hnames, fun k hk hcount => ?_,
    fun k hk hkm => ?_⟩
  · rw [hgss k (by omega), played, if_pos (by omega), List.getD_eq_getElem?_getD,
      List.getElem?_eq_getElem (by omega)]
    rfl
  · have hnone := hgss k hkm
    have hempty : played 0 fss k = [] := by
      unfold played
      rw [List.getD_eq_getElem?_getD, List.getElem?_eq_none (by omega)]
      simp
    rw [hempty, Option.map_eq_some_iff] at hnone
    obtain ⟨gs, hgs, hnil⟩ := hnone
    rw [hgs, List.map_eq_nil_iff.mp hnil]

/-- The manager that follows a script: its node table, and one list for each
`get_fail`. -/
def scripted (t : NodeTable) : FaultManager (List (List Fault)) where
  get_nodes s := .ok (some t, s)
  tic s := .ok s
  get_fail s := .ok (s.headD [], s.tail)
  inject_fail _ s := .ok (1, s)

theorem tics_scripted (t : NodeTable) (fss : List (List Fault)) :
    (scripted t).tics fss.length fss = .ok (fss, []) := by
  induction fss with
  | nil => rfl
  | cons fs fss ih =>
      have hget : (scripted t).get_fail (fs :: fss) = .ok (fs, fss) := rfl
      exact FaultManager.tics_succ rfl hget ih

theorem drive_scripted (t : NodeTable) (fss : List (List Fault)) :
    (scripted t).drive fss.length fss = .ok (some (t, fss), []) :=
  FaultManager.drive_some rfl (tics_scripted t fss)

/-- One node with one component. -/
def oneNode : NodeTable := .single "n0".toList (some "net".toList)

/-- A fault of that node with the severity printed as `-1`. -/
def oneFault : Fault :=
  { id := 1, name := none, component := none, node := "n0".toList, severity := 4294967295 }

theorem plain_n0 : Plain "n0".toList := by simp [Plain, nul]

theorem plain_net : Plain "net".toList := by simp [Plain, nul]

theorem plain_oneNode : ∀ n ∈ oneNode.1, PlainNode n := by
  intro n hn
  rw [List.mem_singleton.mp hn]
  refine ⟨⟨by simp, plain_n0⟩, ?_⟩
  intro c hc
  rw [List.mem_singleton.mp hc]
  exact ⟨by simp, plain_net⟩

theorem plain_oneFault : PlainFault oneFault := by
  refine ⟨⟨plain_n0, ?_⟩, fun c hc => by simp [oneFault] at hc⟩
  show ¬ "tic#".toList <:+: "n0".toList
  decide

theorem replay_of_transcribe_scripted :
    ∃ r t' gss q, (Transcribe.manager (scripted oneNode)).drive 2
          (Transcribe.init [[oneFault], [oneFault, oneFault]])
          = .ok (some (oneNode, [[oneFault], [oneFault, oneFault]]), r) ∧
      Replay.manager.drive (2 + 1) (Replay.init r.file) = .ok (some (t', gss), q) ∧
      NodeTable.names t' = NodeTable.names oneNode ∧
      (∀ k < 2, k < 2 ^ 64 - 1 → (gss[k]?).map (List.map Fault.triple)
        = ([[oneFault], [oneFault, oneFault]][k]?).map (List.map Fault.triple)) ∧
      ∀ k, 2 ≤ k → k < 2 + 1 → gss[k]? = some [] :=
  replay_of_transcribe (scripted oneNode) _ _ 2 1 _ _
    (drive_scripted oneNode [[oneFault], [oneFault, oneFault]]) plain_oneNode (by
      intro fs hfs f hf
      have heq : f = oneFault := by
        simp only [List.mem_cons, List.not_mem_nil, or_false] at hfs
        rcases hfs with rfl | rfl <;> simpa using hf
      rw [heq]
      exact plain_oneFault)

/-- A run whose only fault comes in tic `n`. -/
def late (n : ℕ) : List (List Fault) := List.replicate n [] ++ [[oneFault]]

theorem late_length (n : ℕ) : (late n).length = n + 1 := by
  simp only [late, List.length_append, List.length_replicate, List.length_singleton]

theorem late_getElem (n : ℕ) : (late n)[n]? = some [oneFault] := by
  rw [late, List.getElem?_append_right (by rw [List.length_replicate]), List.length_replicate,
    Nat.sub_self]
  rfl

theorem plain_late (n : ℕ) : PlainFaults (late n) := by
  intro fs hfs f hf
  rcases List.mem_append.mp hfs with h | h
  · rw [(List.mem_replicate.mp h).2] at hf
    exact absurd hf List.not_mem_nil
  · rw [List.mem_singleton.mp h, List.mem_singleton] at hf
    rw [hf]
    exact plain_oneFault

/-- A fault recorded in tic `2 ^ 64 - 1` or later is not played back. -/
theorem drive_late {n : ℕ} (hn : 2 ^ 64 - 1 ≤ n) :
    ∃ r t' gss q, (Transcribe.manager (scripted oneNode)).drive (n + 1) (Transcribe.init (late n))
          = .ok (some (oneNode, late n), r) ∧
      Replay.manager.drive (n + 1) (Replay.init r.file) = .ok (some (t', gss), q) ∧
      ((late n)[n]?).map (List.map Fault.triple) = some [oneFault.triple] ∧
      (gss[n]?).map (List.map Fault.triple) = some [] := by
  have hrun : (scripted oneNode).drive (n + 1) (late n) = .ok (some (oneNode, late n), []) := by
    rw [← late_length n]
    exact drive_scripted oneNode (late n)
  obtain ⟨r, hrec, hfile⟩ := Transcribe.drive_manager hrun
  obtain ⟨t', gss, q, hreplay, -, hgss⟩ := drive_transcript plain_oneNode (plain_late n) (n + 1)
  refine ⟨r, t', gss, q, hrec, by rw [hfile]; exact hreplay, ?_, ?_⟩
  · rw [late_getElem]
    rfl
  · rw [hgss n (by omega), played, if_neg (by omega)]

/-- The largest tic number. -/
def lastTic : ℕ := 2 ^ 64 - 1

/-- The fault of tic `2 ^ 64 - 1` is recorded and not played back: replay's
counter wraps in that call. -/
theorem replay_of_transcribe_wraps :
    ∃ r t' gss q, (Transcribe.manager (scripted oneNode)).drive (lastTic + 1)
          (Transcribe.init (late lastTic)) = .ok (some (oneNode, late lastTic), r) ∧
      Replay.manager.drive (lastTic + 1) (Replay.init r.file) = .ok (some (t', gss), q) ∧
      ((late lastTic)[lastTic]?).map (List.map Fault.triple) = some [oneFault.triple] ∧
      (gss[lastTic]?).map (List.map Fault.triple) = some [] :=
  drive_late (Nat.le_refl lastTic)

end LauSim.RecordReplay
