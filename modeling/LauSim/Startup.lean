/-
`Server::init` against the network thread.

The main thread runs the `post_init` hooks in the order of the plugin map, checks
the configuration, installs the callback and lets the fault manager fill the node
table. The hook of the mosquitto plugin starts the network loop, so from then on
a backchannel message can be delivered between any two of these steps. An input
says who moves next.

`get_nodes` writes `num_nodes` first and the array after it; `random` hands out
an array that is complete, `replay` one whose entries it completes one by one.
`server.nodes` holds the complete entries. A search that runs past them while
`num_nodes` says there are more reads a NULL pointer (the array itself, an entry,
or the name in it); the process is then gone.

A report is lost in two windows: while the callback is not installed, and while
its node is not in the table. `noReadyLost_of_timely` says that nothing else can
happen to it, save that an earlier node of the same name takes it.
-/
import LauSim.Lib.Runs
import LauSim.Readiness

set_option autoImplicit false

namespace LauSim.Startup

open CText Runs Readiness Server Backchannel

/-- What a plugin has in its `post_init` slot. -/
inductive Hook where
  /-- `nullptr` -/
  | none
  /-- a hook that does not touch the backchannel, with what it returns -/
  | other (ret : Int)
  /-- `post_init` of the mosquitto plugin -/
  | mosquitto
  deriving DecidableEq, Repr

/-- The fault manager, as `get_nodes` shows it: the table it hands out, whether
the array is complete when it does, and after how many entries it gives up. -/
structure Manager where
  table : NodeTable
  unknown : ∀ n ∈ table.1, n.state = .UNKNOWN
  prefilled : Bool
  gives_up : Option ℕ

/-- What `init` finds: the hooks in the order of the plugin map, whether
`com_actor`, `com_notify` and `fault_manager` are all set, the fault manager. -/
structure Setup where
  hooks : List Hook
  configured : Bool
  manager : Manager

/-- Where `init` stands. -/
inductive Pc where
  /-- the loop over the hooks, with those still to come -/
  | hooks (rest : List Hook)
  /-- the check of the configuration -/
  | config
  /-- the call of `set_callback` -/
  | callback
  /-- `get_nodes`, before `*num_nodes` is written -/
  | number
  /-- `get_nodes`, before `*lau_nodes` is written -/
  | array
  /-- `get_nodes`, completing the entries -/
  | fill
  | returned (ret : Int)
  deriving DecidableEq, Repr

/-- Who moves next. -/
inductive Input where
  | main
  | deliver (msg : Text)
  deriving DecidableEq, Repr

/-- The server process. `delivered` is what reached `ComMosquitto::on_message`. -/
structure State where
  pc : Pc
  loop : Bool
  callback : Bool
  num_nodes : ℕ
  server : Server
  crashed : Bool
  delivered : List Text
  deriving DecidableEq, Repr

/-- `num_nodes` and `nodes` are zero, the plugins are loaded. -/
def start (c : Setup) : State :=
  { pc := .hooks c.hooks, loop := false, callback := false, num_nodes := 0,
    server := { nodes := [], other_cb := false, log := [], forwarded := [] },
    crashed := false, delivered := [] }

/-- The table as the server sees it. -/
def State.setNodes (s : State) (ns : List Node) : State :=
  { s with server := { s.server with nodes := ns } }

/-- One step of `init`. -/
def mainStep (c : Setup) (s : State) : State :=
  match s.pc with
  | .hooks [] => { s with pc := .config }
  | .hooks (.none :: rest) => { s with pc := .hooks rest }
  | .hooks (.other ret :: rest) =>
    if ret ≠ 0 then { s with pc := .returned 1 } else { s with pc := .hooks rest }
  -- `loop_start`; the hook returns 0
  | .hooks (.mosquitto :: rest) => { s with pc := .hooks rest, loop := true }
  | .config => if c.configured then { s with pc := .callback } else { s with pc := .returned 1 }
  -- the mosquitto plugin has `COM_ASYNC`
  | .callback => { s with pc := .number, callback := true }
  | .number => { s with pc := .array, num_nodes := c.manager.table.1.length }
  | .array =>
    { s.setNodes (if c.manager.prefilled then c.manager.table.1 else []) with pc := .fill }
  | .fill =>
    if c.manager.gives_up = some s.server.nodes.length then { s with pc := .returned 1 }
    else
      match c.manager.table.1[s.server.nodes.length]? with
      | some n => s.setNodes (s.server.nodes ++ [n])
      | none => { s with pc := .returned 0 }
  | .returned _ => s

variable (parse : Text → Option Backchannel)

/-- The search of `set_node_state` reads past the complete entries `ns`. -/
def overruns (msg : Text) (num_nodes : ℕ) (ns : List Node) : Bool :=
  match report parse msg with
  | none => false
  | some (who, st) =>
    decide ((set_node_state who (status_of st).1 ns).1 ≠ 0) && decide (ns.length < num_nodes)

/-- `ComMosquitto::on_message`. -/
def deliver (msg : Text) (s : State) : State :=
  let s := { s with delivered := s.delivered ++ [msg] }
  if msg = [] ∨ s.callback = false then s
  else if overruns parse msg s.num_nodes s.server.nodes then { s with crashed := true }
  else { s with server := s.server.on_message parse msg }

/-- One step of the process. Nothing is delivered before the loop runs. -/
def step (c : Setup) (s : State) (i : Input) : State :=
  if s.crashed then s
  else
    match i with
    | .main => mainStep c s
    | .deliver msg => if s.loop then deliver parse msg s else s

/-! ## No report is lost -/

/-- The node at `i` of the table is ready if the last report for it says so. -/
def Heard (c : Setup) (s : State) : Prop :=
  ∀ (i : ℕ) (n : Node), c.manager.table.1[i]? = some n →
    lastStatus parse n.name s.delivered = some .STREADY →
    s.server.nodes[i]?.map Node.state = some .READY

/-- Once `init` has returned 0, no ready report is lost. -/
def NoReadyLost (c : Setup) (s : State) : Prop := s.pc = .returned 0 → Heard parse c s

/-- A ready report for a node arrives when the entry of the node is complete, and
no node of the same name stands before it. -/
def Timely (c : Setup) (s : State) : Input → Prop
  | .main => True
  | .deliver msg => s.loop = true → ∀ (i : ℕ) (n : Node), c.manager.table.1[i]? = some n →
      statusFor parse n.name msg = some .STREADY →
      i < s.server.nodes.length ∧ First (names c.manager.table.1) i n.name

/-- There is no complete entry before the callback is installed. -/
def PcOk (s : State) : Prop :=
  match s.pc with
  | .hooks _ | .config | .callback => s.server.nodes = []
  | .number | .array => s.server.nodes = [] ∧ s.callback = true
  | .fill => s.callback = true
  | .returned _ => s.server.nodes = [] ∨ s.callback = true

/-- The complete entries are those of the table, and the reports for them were heard. -/
structure Inv (c : Setup) (s : State) : Prop where
  names : names s.server.nodes = (names c.manager.table.1).take s.server.nodes.length
  heard : Heard parse c s
  pc : PcOk s

variable {parse} {c : Setup} {s : State}

theorem Inv.name_eq (h : Inv parse c s) {i : ℕ} {m n : Node} (hm : s.server.nodes[i]? = some m)
    (hn : c.manager.table.1[i]? = some n) : m.name = n.name := by
  have hlt := (List.getElem?_eq_some_iff.mp hm).1
  have hnames := congrArg (fun l => l[i]?) h.names
  rw [Readiness.names, Readiness.names, List.getElem?_take_of_lt hlt, List.getElem?_map,
    List.getElem?_map, hm, hn] at hnames
  exact Option.some.inj hnames

theorem Inv.first_iff (h : Inv parse c s) {i : ℕ} (hi : i < s.server.nodes.length) (name : Text) :
    First (Readiness.names s.server.nodes) i name ↔
      First (Readiness.names c.manager.table.1) i name := by
  rw [First, First, h.names, List.take_take, Nat.min_eq_left hi.le]

theorem Inv.callback_of_lt (h : Inv parse c s) {i : ℕ} (hi : i < s.server.nodes.length) :
    s.callback = true := by
  have hne : s.server.nodes ≠ [] := List.ne_nil_of_length_pos (by omega)
  have hpc := h.pc
  unfold PcOk at hpc
  split at hpc
  · exact absurd hpc hne
  · exact absurd hpc hne
  · exact absurd hpc hne
  · exact hpc.2
  · exact hpc.2
  · exact hpc
  · exact hpc.resolve_left hne

theorem inv_start (c : Setup) : Inv parse c (start c) := by
  refine ⟨rfl, fun i n _ hlast => ?_, rfl⟩
  simp [start, lastStatus] at hlast

theorem Inv.names_append (h : Inv parse c s) {n : Node}
    (hn : c.manager.table.1[s.server.nodes.length]? = some n) :
    Readiness.names (s.server.nodes ++ [n])
      = (Readiness.names c.manager.table.1).take (s.server.nodes ++ [n]).length := by
  have hget : (Readiness.names c.manager.table.1)[s.server.nodes.length]? = some n.name := by
    rw [Readiness.names, List.getElem?_map, hn]
    rfl
  rw [List.length_append, List.length_singleton, List.take_add_one, ← h.names, hget,
    Readiness.names, List.map_append]
  rfl

/-- Another complete entry changes nothing for the nodes reported ready: theirs
were complete. -/
theorem Heard.append (h : Heard parse c s) (ns : List Node) :
    Heard parse c (s.setNodes (s.server.nodes ++ ns)) := by
  intro i n hn hlast
  have hready := h i n hn hlast
  have hlt : i < s.server.nodes.length := by
    by_contra hge
    rw [List.getElem?_eq_none (by omega)] at hready
    simp at hready
  simpa [State.setNodes, List.getElem?_append_left hlt] using hready

/-- A step of `init` keeps what was heard: the entries it completes are of nodes
nobody has reported ready. -/
theorem inv_mainStep (h : Inv parse c s) : Inv parse c (mainStep c s) := by
  have hpc := h.pc
  unfold PcOk at hpc
  unfold mainStep
  split
  · next heq =>
    rw [heq] at hpc
    exact ⟨h.names, h.heard, hpc⟩
  · next heq =>
    rw [heq] at hpc
    exact ⟨h.names, h.heard, hpc⟩
  · next heq =>
    rw [heq] at hpc
    split
    · exact ⟨h.names, h.heard, Or.inl hpc⟩
    · exact ⟨h.names, h.heard, hpc⟩
  · next heq =>
    rw [heq] at hpc
    exact ⟨h.names, h.heard, hpc⟩
  · next heq =>
    rw [heq] at hpc
    split
    · exact ⟨h.names, h.heard, hpc⟩
    · exact ⟨h.names, h.heard, Or.inl hpc⟩
  · next heq =>
    rw [heq] at hpc
    exact ⟨h.names, h.heard, hpc, rfl⟩
  · next heq =>
    rw [heq] at hpc
    exact ⟨h.names, h.heard, hpc⟩
  · next heq =>
    rw [heq] at hpc
    refine ⟨?_, ?_, hpc.2⟩
    · by_cases hpre : c.manager.prefilled = true
      · simp [State.setNodes, hpre, Readiness.names]
      · simp [State.setNodes, hpre, Readiness.names]
    · have happ := h.heard.append (if c.manager.prefilled then c.manager.table.1 else [])
      rw [hpc.1, List.nil_append] at happ
      exact happ
  · next heq =>
    rw [heq] at hpc
    split
    · exact ⟨h.names, h.heard, Or.inr hpc⟩
    · split
      · next n hn =>
        refine ⟨h.names_append hn, h.heard.append [n], ?_⟩
        simpa [PcOk, State.setNodes, heq] using hpc
      · exact ⟨h.names, h.heard, Or.inr hpc⟩
  · exact h

/-! ## Deliveries -/

theorem pcOk_congr {s' : State} (h : PcOk s) (hpc : s'.pc = s.pc) (hcb : s'.callback = s.callback)
    (hns : Readiness.names s'.server.nodes = Readiness.names s.server.nodes) : PcOk s' := by
  have hnil : s'.server.nodes = [] ↔ s.server.nodes = [] := by
    rw [← List.map_eq_nil_iff (f := Node.name), ← List.map_eq_nil_iff (f := Node.name)]
    exact iff_of_eq (congrArg (· = []) hns)
  simpa only [PcOk, hpc, hcb, hnil] using h

/-- A message leaves the entries of the nodes it is not for. -/
theorem on_message_getElem?_of_not_for {msg : Text} {srv : Server} {i : ℕ} {m : Node}
    (hm : srv.nodes[i]? = some m) (hnot : statusFor parse m.name msg = none) :
    (srv.on_message parse msg).nodes[i]? = some m := by
  rw [on_message_nodes]
  split
  · exact hm
  · next who st heq =>
    have hwho : streq who m.name ≠ true := by
      intro hwho
      rw [statusFor_eq_some.mpr ⟨who, heq, hwho⟩] at hnot
      simp at hnot
    rw [getElem?_set_node_state, hm]
    simp [hwho]

/-- A ready report moves the first node of its name. -/
theorem on_message_getElem?_of_first {msg : Text} {srv : Server} {i : ℕ} {m : Node}
    (hm : srv.nodes[i]? = some m) (hfor : statusFor parse m.name msg = some .STREADY)
    (hfirst : First (Readiness.names srv.nodes) i m.name) :
    (srv.on_message parse msg).nodes[i]?.map Node.state = some .READY := by
  obtain ⟨who, hreport, hwho⟩ := statusFor_eq_some.mp hfor
  rw [on_message_nodes, hreport]
  dsimp only
  rw [getElem?_set_node_state, hm]
  simp [hwho, first_congr hwho, hfirst, status_of]

/-- The search for a node whose entry is complete stops there. -/
theorem overruns_eq_false {msg : Text} {k i : ℕ} {ns : List Node} {m : Node} {st : NodeStatus}
    (hm : ns[i]? = some m) (hfor : statusFor parse m.name msg = some st) :
    overruns parse msg k ns = false := by
  obtain ⟨who, hreport, hwho⟩ := statusFor_eq_some.mp hfor
  have hret := (set_node_state_ret who (status_of st).1 ns).mpr
    ⟨m, List.mem_of_getElem? hm, hwho⟩
  simp [overruns, hreport, hret]

theorem names_deliver (msg : Text) :
    Readiness.names (deliver parse msg s).server.nodes = Readiness.names s.server.nodes := by
  unfold deliver
  dsimp only
  split
  · rfl
  · split
    · rfl
    · exact names_on_message parse msg s.server

theorem heard_deliver (hempty : parse [] = none) (h : Inv parse c s) (hloop : s.loop = true)
    {msg : Text} (htimely : Timely parse c s (.deliver msg)) :
    Heard parse c (deliver parse msg s) := by
  intro i n hn hlast
  have hdelivered : (deliver parse msg s).delivered = s.delivered ++ [msg] := by
    unfold deliver
    dsimp only
    split
    · rfl
    · split <;> rfl
  rw [hdelivered, lastStatus_append] at hlast
  cases hfor : statusFor parse n.name msg with
  | none =>
      rw [hfor, Option.none_or] at hlast
      have hready := h.heard i n hn hlast
      obtain ⟨m, hm, hstate⟩ := Option.map_eq_some_iff.mp hready
      rw [← h.name_eq hm hn] at hfor
      unfold deliver
      dsimp only
      split
      · exact hready
      · split
        · exact hready
        · rw [on_message_getElem?_of_not_for hm hfor, Option.map_some, hstate]
  | some st =>
      rw [hfor, Option.some_or] at hlast
      obtain ⟨hlt, hfirst⟩ := htimely hloop i n hn (hfor.trans hlast)
      have hm := List.getElem?_eq_getElem hlt
      have hname := h.name_eq hm hn
      rw [← hname] at hfor hfirst
      -- the report passes both tests of the callback, and the search finds the node
      have hmsg : msg ≠ [] := by
        rintro rfl
        simp [statusFor, report, hempty] at hfor
      have hpass : ¬ (msg = [] ∨ s.callback = false) := by
        rintro (hnil | hcb)
        · exact hmsg hnil
        · rw [h.callback_of_lt hlt] at hcb
          simp at hcb
      simp only [deliver]
      rw [if_neg hpass, overruns_eq_false hm hfor, if_neg (by simp)]
      exact on_message_getElem?_of_first hm (hfor.trans hlast) ((h.first_iff hlt _).mpr hfirst)

theorem inv_deliver (hempty : parse [] = none) (h : Inv parse c s) (hloop : s.loop = true)
    {msg : Text} (htimely : Timely parse c s (.deliver msg)) :
    Inv parse c (deliver parse msg s) := by
  have hns : Readiness.names (deliver parse msg s).server.nodes = Readiness.names s.server.nodes :=
    names_deliver msg
  have hlen : (deliver parse msg s).server.nodes.length = s.server.nodes.length := by
    simpa [Readiness.names] using congrArg List.length hns
  have hsame : (deliver parse msg s).pc = s.pc ∧ (deliver parse msg s).callback = s.callback := by
    unfold deliver
    dsimp only
    split
    · exact ⟨rfl, rfl⟩
    · split
      · exact ⟨rfl, rfl⟩
      · exact ⟨rfl, rfl⟩
  refine ⟨?_, heard_deliver hempty h hloop htimely, pcOk_congr h.pc hsame.1 hsame.2 hns⟩
  rw [hns, hlen]
  exact h.names

/-- **One step.** -/
theorem inv_step (hempty : parse [] = none) (s : State) (i : Input) (h : Inv parse c s)
    (htimely : Timely parse c s i) : Inv parse c (step parse c s i) := by
  unfold step
  split
  · exact h
  · cases i with
    | main => exact inv_mainStep h
    | deliver msg =>
        dsimp only
        split
        · next hloop => exact inv_deliver hempty h hloop htimely
        · exact h

/-- **Ready reports during startup.** For every setup (any hooks, any node table,
any way of filling it) and every interleaving of `init` with deliveries: if each
ready report for a node arrives when the entry of the node is complete, and no
node of its name stands before it, then in every state reached no ready report
is lost. An empty message does not decode: two fields are required. -/
theorem noReadyLost_of_timely (hempty : parse [] = none) (c : Setup) (is : List Input)
    (h : EachStep (step parse c) (Timely parse c) (start c) is) :
    Always (step parse c) (NoReadyLost parse c) (start c) is := by
  have hinv : Always (step parse c) (Inv parse c) (start c) is :=
    always_of_eachStep (inv_start c) (inv_step hempty) h
  exact hinv.imp (fun s hs _ => hs.heard)

/-- One node, a manager that fills the array after handing it out, and the
mosquitto plugin. -/
def oneNode : Setup :=
  { hooks := [.mosquitto], configured := true,
    manager := { table := .single "n0".toList none, unknown := NodeTable.single_unknown _ _,
                 prefilled := false, gives_up := none } }

/-- The report that comes once the table is complete. -/
theorem noReadyLost_late_report :
    Always (step ParseFromString oneNode) (NoReadyLost ParseFromString oneNode) (start oneNode)
      (List.replicate 8 .main ++ [.deliver (packStatus "n0".toList .STREADY)]) := by
  apply noReadyLost_of_timely rfl
  simp only [List.replicate, List.cons_append, List.nil_append, eachStep_cons]
  refine ⟨trivial, trivial, trivial, trivial, trivial, trivial, trivial, trivial,
    fun _ i n hn _ => ?_, eachStep_nil⟩
  have hi : i = 0 := by
    have hlt := (List.getElem?_eq_some_iff.mp hn).1
    simp only [oneNode, NodeTable.single, List.length_singleton] at hlt
    omega
  subst hi
  exact ⟨by decide, first_zero _ _⟩

/-- The report that comes between the hooks and `set_callback`: the server drops
it and waits for it ever after. -/
theorem not_noReadyLost_early_report :
    ¬ NoReadyLost ParseFromString oneNode
      ((Input.main :: .deliver (packStatus "n0".toList .STREADY) :: List.replicate 7 .main).foldl
        (step ParseFromString oneNode) (start oneNode)) := by
  intro h
  have hready := h (by decide) 0 _ rfl (by decide)
  revert hready
  decide

end LauSim.Startup
