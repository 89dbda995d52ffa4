/-
What the node table says about the reports that came in.

A backchannel message is a report if it decodes to a STATUS message with a
status; everything else leaves the table alone (`on_message_nodes`). A report
moves the first node of its name and no other (`getElem?_set_node_state`), so
over a whole history the state of a node is that of the last report for its
name, if no node before it has the same name, and what it was at the start if
one has (`getElem?_run`). `all_nodes_ready` reads this off for all nodes at once.

Names are compared as `strcmp` does, up to the first NUL.
-/
import LauSim.Backchannel

set_option autoImplicit false

namespace LauSim.Readiness

open CText Server Backchannel

variable (parse : Text → Option Backchannel)

/-- The report in a message, with the name it is for. -/
def report (msg : Text) : Option (Text × NodeStatus) :=
  match parse msg with
  | none => none
  | some back =>
    if back.type = .STATUS then back.newStatus.map (fun st => (back.nodeName, st)) else none

/-- The status a message reports for the node `name`. -/
def statusFor (name msg : Text) : Option NodeStatus :=
  match report parse msg with
  | none => none
  | some (who, st) => if streq who name then some st else none

/-- The last status reported for the node `name`. -/
def lastStatus (name : Text) (msgs : List Text) : Option NodeStatus :=
  (msgs.filterMap (statusFor parse name)).getLast?

/-- Messages handed to `on_message`, one after the other. -/
def run (msgs : List Text) (s : Server) : Server :=
  msgs.foldl (fun s msg => s.on_message parse msg) s

/-- The names of a table, in its order. -/
def names (ns : List Node) : List Text := ns.map Node.name

/-- No name before index `i` is `name`. -/
def First (nms : List Text) (i : ℕ) (name : Text) : Prop :=
  ∀ m ∈ nms.take i, streq name m = false

instance (nms : List Text) (i : ℕ) (name : Text) : Decidable (First nms i name) :=
  inferInstanceAs (Decidable (∀ m ∈ nms.take i, streq name m = false))

/-- The state a last report stands for; without a report nothing has changed. -/
def stateAfter (st : NodeState) (last : Option NodeStatus) : NodeState :=
  (last.map (fun st => (status_of st).1)).getD st

/-! ## One message -/

/-- What a message does to the table. -/
theorem on_message_nodes (msg : Text) (s : Server) :
    (s.on_message parse msg).nodes =
      match report parse msg with
      | none => s.nodes
      | some (who, st) => (set_node_state who (status_of st).1 s.nodes).2 := by
  unfold on_message report
  cases parse msg with
  | none => rfl
  | some back =>
      dsimp only
      cases htype : back.type with
      | LOG => cases back.logErrMsg <;> rfl
      | ERROR => cases back.logErrMsg <;> rfl
      | STATUS => cases back.newStatus <;> rfl
      | OTHER => cases s.other_cb <;> rfl

/-- A message has a status for a node exactly if it is a report under its name. -/
theorem statusFor_eq_some {parse : Text → Option Backchannel} {name msg : Text} {st : NodeStatus} :
    statusFor parse name msg = some st ↔
      ∃ who, report parse msg = some (who, st) ∧ streq who name = true := by
  unfold statusFor
  cases report parse msg with
  | none => simp
  | some r =>
      obtain ⟨who, st'⟩ := r
      by_cases hwho : streq who name = true
      · simp [hwho]
      · simp [hwho]

theorem first_zero (nms : List Text) (name : Text) : First nms 0 name := by
  simp [First]

theorem first_succ {m : Text} {nms : List Text} {i : ℕ} {name : Text} :
    First (m :: nms) (i + 1) name ↔ streq name m = false ∧ First nms i name := by
  simp [First]

/-- Two spellings of one C string are first at the same place. -/
theorem first_congr {nms : List Text} {i : ℕ} {name name' : Text} (h : streq name name' = true) :
    First nms i name ↔ First nms i name' := by
  have hc : cstr name = cstr name' := by simpa [streq] using h
  simp only [First, streq, hc]

@[simp] theorem names_set_node_state (name : Text) (st : NodeState) (ns : List Node) :
    names (set_node_state name st ns).2 = names ns := by
  induction ns with
  | nil => rfl
  | cons m ns ih =>
      unfold set_node_state
      by_cases hm : streq name m.name = true
      · rw [if_pos hm]
        rfl
      · rw [if_neg hm]
        exact congrArg (m.name :: ·) ih

/-- A report moves the first node of its name, and no other. -/
theorem getElem?_set_node_state (name : Text) (st : NodeState) (ns : List Node) (i : ℕ) :
    (set_node_state name st ns).2[i]? = ns[i]?.map (fun n =>
      if streq name n.name = true ∧ First (names ns) i name then { n with state := st } else n) := by
  induction ns generalizing i with
  | nil => simp [set_node_state]
  | cons m ns ih =>
      unfold set_node_state
      by_cases hm : streq name m.name = true
      · rw [if_pos hm]
        cases i with
        | zero => simp [hm, first_zero]
        | succ i =>
            -- the search has stopped: the nodes behind keep their state
            have hnot : ¬ First (names (m :: ns)) (i + 1) name := by
              intro h
              rw [(first_succ.mp h).1] at hm
              simp at hm
            simp [hnot]
      · rw [if_neg hm]
        have hm : streq name m.name = false := by simpa using hm
        have hsucc : ∀ i, First (names (m :: ns)) (i + 1) name ↔ First (names ns) i name := by
          intro i
          rw [names, List.map_cons, first_succ, names]
          exact and_iff_right hm
        cases i with
        | zero => simp [hm]
        | succ i => simp only [List.getElem?_cons_succ, ih i, hsucc]

/-- `set_node_state` returns 0 exactly if the table has the name. -/
theorem set_node_state_ret (name : Text) (st : NodeState) (ns : List Node) :
    (set_node_state name st ns).1 = 0 ↔ ∃ n ∈ ns, streq name n.name = true := by
  induction ns with
  | nil => simp [set_node_state]
  | cons m ns ih =>
      unfold set_node_state
      by_cases hm : streq name m.name = true
      · simp [hm]
      · rw [if_neg hm]
        simp [hm, ih]

/-! ## Whole histories -/

theorem run_append (msgs : List Text) (msg : Text) (s : Server) :
    run parse (msgs ++ [msg]) s = (run parse msgs s).on_message parse msg := by
  simp only [run, List.foldl_append, List.foldl_cons, List.foldl_nil]

theorem lastStatus_append (name : Text) (msgs : List Text) (msg : Text) :
    lastStatus parse name (msgs ++ [msg])
      = (statusFor parse name msg).or (lastStatus parse name msgs) := by
  unfold lastStatus
  rw [List.filterMap_append, List.getLast?_append]
  cases h : statusFor parse name msg with
  | none => simp [h]
  | some st => simp [h]

theorem names_on_message (msg : Text) (s : Server) :
    names (s.on_message parse msg).nodes = names s.nodes := by
  rw [on_message_nodes]
  split
  · rfl
  · exact names_set_node_state _ _ _

theorem names_run (msgs : List Text) (s : Server) :
    names (run parse msgs s).nodes = names s.nodes := by
  induction msgs using List.reverseRecOn with
  | nil => rfl
  | append_singleton msgs msg ih => rw [run_append, names_on_message, ih]

/-- The table after a history: a node stands where the last report for its name
put it, unless a node of the same name stands before it. -/
theorem getElem?_run (msgs : List Text) (s : Server) (i : ℕ) :
    (run parse msgs s).nodes[i]? = s.nodes[i]?.map (fun n =>
      if First (names s.nodes) i n.name then
        { n with state := stateAfter n.state (lastStatus parse n.name msgs) }
      else n) := by
  induction msgs using List.reverseRecOn with
  | nil => simp [run, lastStatus, stateAfter]
  | append_singleton msgs msg ih =>
      rw [run_append, on_message_nodes]
      simp only [lastStatus_append, statusFor]
      cases report parse msg with
      | none => simpa using ih
      | some r =>
          obtain ⟨who, st⟩ := r
          dsimp only
          rw [getElem?_set_node_state, ih, names_run, Option.map_map]
          congr 1
          funext n
          by_cases hwho : streq who n.name = true
          · by_cases hfirst : First (names s.nodes) i n.name
            · simp [hfirst, hwho, first_congr hwho, stateAfter]
            · simp [hfirst, first_congr hwho]
          · by_cases hfirst : First (names s.nodes) i n.name
            · simp [hfirst, hwho]
            · simp [hfirst, hwho]

/-! ## All nodes at once -/

/-- A message that is not a report, or a report for a name the table has not. -/
def Ignored (ns : List Node) (msg : Text) : Prop :=
  parse msg = none ∨ ∃ back, parse msg = some back ∧
    (back.type = .LOG ∨ back.type = .ERROR ∨ back.type = .OTHER ∨ back.newStatus = none ∨
      ∀ n ∈ ns, streq back.nodeName n.name = false)

theorem set_node_state_of_unknown {name : Text} {st : NodeState} {ns : List Node}
    (h : ∀ n ∈ ns, streq name n.name = false) : (set_node_state name st ns).2 = ns := by
  apply List.ext_getElem?
  intro i
  rw [getElem?_set_node_state]
  cases hi : ns[i]? with
  | none => rfl
  | some n => simp [h n (List.mem_of_getElem? hi)]

theorem on_message_nodes_of_ignored {msg : Text} {s : Server} (h : Ignored parse s.nodes msg) :
    (s.on_message parse msg).nodes = s.nodes := by
  rw [on_message_nodes]
  unfold report
  rcases h with h | ⟨back, h, hback⟩
  · rw [h]
  · rw [h]
    dsimp only
    rcases hback with htype | htype | htype | hnone | hunknown
    · simp [htype]
    · simp [htype]
    · simp [htype]
    · simp [hnone]
    · by_cases htype : back.type = .STATUS
      · rw [if_pos htype]
        cases back.newStatus with
        | none => rfl
        | some st => exact set_node_state_of_unknown hunknown
      · rw [if_neg htype]

/-- What is unknown to a table is unknown to it whatever the states are. -/
theorem ignored_congr {ns ns' : List Node} {msg : Text} (h : names ns = names ns')
    (hi : Ignored parse ns msg) : Ignored parse ns' msg := by
  have hall : ∀ name, (∀ n ∈ ns, streq name n.name = false) ↔
      ∀ n ∈ ns', streq name n.name = false := by
    intro name
    have hmap : ∀ l : List Node, (∀ n ∈ l, streq name n.name = false) ↔
        ∀ m ∈ names l, streq name m = false := by
      intro l
      simp [names]
    rw [hmap, hmap, h]
  simpa only [Ignored, hall] using hi

/-- Every node is the first of its name exactly if the names are distinct. -/
theorem nodup_iff_first (ns : List Node) :
    (ns.map (fun n => cstr n.name)).Nodup ↔
      ∀ i n, ns[i]? = some n → First (names ns) i n.name := by
  rw [List.Nodup, List.pairwise_map, List.pairwise_iff_getElem]
  constructor
  · intro h i n hi m hm
    obtain ⟨j, hj, rfl⟩ := List.getElem_of_mem hm
    obtain ⟨hlt, rfl⟩ := List.getElem?_eq_some_iff.mp hi
    have hji : j < i := by
      rw [List.length_take] at hj
      omega
    have hne := h j i (by omega) hlt hji
    simpa [streq, names, eq_comm] using hne
  · intro h i j hi hj hij heq
    have hfirst := h j ns[j] (List.getElem?_eq_getElem hj) ns[i].name
      (List.mem_take_iff_getElem.mpr ⟨i, by simp [names]; omega, by simp [names]⟩)
    simp [streq, heq] at hfirst

theorem stateAfter_eq_ready {last : Option NodeStatus} :
    stateAfter .UNKNOWN last = .READY ↔ last = some .STREADY := by
  cases last with
  | none => simp [stateAfter]
  | some st => cases st <;> simp [stateAfter, status_of]

theorem all_nodes_ready_iff_getElem? (s : Server) :
    s.all_nodes_ready = true ↔
      ∀ i < s.nodes.length, s.nodes[i]?.map Node.state = some .READY := by
  rw [all_nodes_ready, List.all_eq_true]
  constructor
  · intro h i hi
    rw [List.getElem?_eq_getElem hi]
    simpa using h _ (List.getElem_mem hi)
  · intro h n hn
    obtain ⟨i, hi, rfl⟩ := List.getElem_of_mem hn
    simpa [List.getElem?_eq_getElem hi] using h i hi

theorem length_run (msgs : List Text) (s : Server) :
    (run parse msgs s).nodes.length = s.nodes.length := by
  simpa [names] using congrArg List.length (names_run parse msgs s)

/-- When one node is ready. -/
theorem ready_run_iff {t : NodeTable} (hunknown : ∀ n ∈ t.1, n.state = .UNKNOWN) (msgs : List Text)
    {i : ℕ} {n : Node} (hi : t.1[i]? = some n) :
    (run parse msgs (init t)).nodes[i]?.map Node.state = some .READY ↔
      First (names t.1) i n.name ∧ lastStatus parse n.name msgs = some .STREADY := by
  have hstate := hunknown n (List.mem_of_getElem? hi)
  rw [getElem?_run, show (init t).nodes = t.1 from rfl, hi]
  by_cases hfirst : First (names t.1) i n.name
  · simp [hfirst, hstate, stateAfter_eq_ready]
  · simp [hfirst, hstate]

/-- **Readiness and the last reports.** For every node table whose nodes are all
unknown and every history of messages: the nodes are all ready exactly if their
names are distinct and the last report for each is that it is ready. Whatever
came before, a message that is no report for a node of the table changes none. -/
theorem all_nodes_ready_iff (t : NodeTable) (hunknown : ∀ n ∈ t.1, n.state = .UNKNOWN)
    (msgs : List Text) :
    ((run parse msgs (init t)).all_nodes_ready = true ↔
      (t.1.map (fun n => cstr n.name)).Nodup ∧
        ∀ n ∈ t.1, lastStatus parse n.name msgs = some .STREADY) ∧
    ∀ msg, Ignored parse t.1 msg →
      ((run parse msgs (init t)).on_message parse msg).nodes = (run parse msgs (init t)).nodes := by
  constructor
  · rw [nodup_iff_first, all_nodes_ready_iff_getElem?, length_run]
    constructor
    · intro h
      have hboth : ∀ i n, t.1[i]? = some n →
          First (names t.1) i n.name ∧ lastStatus parse n.name msgs = some .STREADY := by
        intro i n hi
        rw [← ready_run_iff parse hunknown msgs hi]
        exact h i (List.getElem?_eq_some_iff.mp hi).1
      refine ⟨fun i n hi => (hboth i n hi).1, fun n hn => ?_⟩
      obtain ⟨i, hi⟩ := List.getElem?_of_mem hn
      exact (hboth i n hi).2
    · rintro ⟨hfirst, hlast⟩ i hi
      have hi : t.1[i]? = some t.1[i] := List.getElem?_eq_getElem hi
      rw [ready_run_iff parse hunknown msgs hi]
      exact ⟨hfirst i _ hi, hlast _ (List.mem_of_getElem? hi)⟩
  · intro msg hmsg
    apply on_message_nodes_of_ignored
    exact ignored_congr parse (names_run parse msgs (init t)).symm hmsg

/-- A client tells its status. -/
theorem report_packStatus (name : Text) (st : NodeStatus) :
    report ParseFromString (packStatus name st) = some (name, st) := by
  rw [report, packStatus, ParseFromString_pack]
  rfl

/-- Two tables of one node as one table. -/
def both (name name' : Text) : NodeTable :=
  ⟨(NodeTable.single name none).1 ++ (NodeTable.single name' none).1, by
    simp [NodeTable.single]⟩

/-- Two nodes report; the first one has an error before it is ready. -/
theorem all_nodes_ready_later_report :
    (run ParseFromString [packStatus "n0".toList .STERROR, packStatus "n1".toList .STREADY,
      packStatus "n0".toList .STREADY] (init (both "n0".toList "n1".toList))).all_nodes_ready
        = true :=
  (all_nodes_ready_iff ParseFromString (both "n0".toList "n1".toList) (by decide) _).1.mpr
    (by decide)

/-- The search stops at the first node of a name: of two nodes of one name, as `replay`
reads them from a file with two equal lines, the second never gets ready, although the
last report for its name says so. -/
theorem not_all_nodes_ready_twins :
    (∀ n ∈ (both "n0".toList "n0".toList).1, n.state = .UNKNOWN) ∧
    (∀ n ∈ (both "n0".toList "n0".toList).1,
      lastStatus ParseFromString n.name [packStatus "n0".toList .STREADY] = some .STREADY) ∧
    (run ParseFromString [packStatus "n0".toList .STREADY]
      (init (both "n0".toList "n0".toList))).all_nodes_ready = false := by
  refine ⟨by decide, by decide, by decide⟩

end LauSim.Readiness
