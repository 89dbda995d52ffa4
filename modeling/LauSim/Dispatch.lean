/-
Who is told of a fault: the two channels `Server::manage_fails` feeds from one
list.

The actors hear of every fault, one call of `notify_fail` each. External programs
get one message for each tic that has faults, with the nodes that have failed and
the nodes that are spare again; faults of a component are not for them. The
message is one object that grows through the loop. Serialisation and its inverse
are parameters, protobuf being outside of the repository; what its wire format makes
of the messages is at the end of the file.

The lists of a run are those the fault manager hands out on its own
(`FaultManager.tics`): the server calls it the same way whatever the clock does.
-/
import LauSim.Lib.Protobuf
import LauSim.Tics

set_option autoImplicit false

namespace LauSim.Tics

open CText Runs Protobuf

variable {σ : Type}

/-! ## One list -/

/-- A fault of a whole node. -/
def NodeFails (f : Fault) : Prop := f.component = none ∧ f.severity ≠ 0

/-- A node that is back. -/
def NodeSpare (f : Fault) : Prop := f.component = none ∧ f.severity = 0

instance (f : Fault) : Decidable (NodeFails f) :=
  inferInstanceAs (Decidable (f.component = none ∧ f.severity ≠ 0))

instance (f : Fault) : Decidable (NodeSpare f) :=
  inferInstanceAs (Decidable (f.component = none ∧ f.severity = 0))

/-- What a message for the faults `fs` says. -/
def classified (fs : List Fault) : ExtMsg :=
  { failing_nodes := (fs.filter (fun f => decide (NodeFails f))).map Fault.node,
    spare_nodes := (fs.filter (fun f => decide (NodeSpare f))).map Fault.node }

/-- The three cases of the loop, behind whatever the message has already. -/
theorem addNode_eq (msg : ExtMsg) (f : Fault) :
    addNode msg f =
      { failing_nodes := msg.failing_nodes ++ (classified [f]).failing_nodes,
        spare_nodes := msg.spare_nodes ++ (classified [f]).spare_nodes } := by
  unfold addNode classified
  cases hcomponent : f.component with
  | some component =>
      have hfails : ¬ NodeFails f := by simp [NodeFails, hcomponent]
      have hspare : ¬ NodeSpare f := by simp [NodeSpare, hcomponent]
      simp [hfails, hspare]
  | none =>
      dsimp only
      by_cases hsev : f.severity = 0
      · have hfails : ¬ NodeFails f := by simp [NodeFails, hsev]
        have hspare : NodeSpare f := ⟨hcomponent, hsev⟩
        rw [if_pos hsev]
        simp [hfails, hspare]
      · have hfails : NodeFails f := ⟨hcomponent, hsev⟩
        have hspare : ¬ NodeSpare f := by simp [NodeSpare, hsev]
        rw [if_neg hsev]
        simp [hfails, hspare]

theorem classified_cons (f : Fault) (fs : List Fault) :
    classified (f :: fs) =
      { failing_nodes := (classified [f]).failing_nodes ++ (classified fs).failing_nodes,
        spare_nodes := (classified [f]).spare_nodes ++ (classified fs).spare_nodes } := by
  have happend : f :: fs = [f] ++ fs := rfl
  rw [happend]
  simp only [classified, List.filter_append, List.map_append]

theorem foldl_addNode (fs : List Fault) (msg : ExtMsg) :
    fs.foldl addNode msg =
      { failing_nodes := msg.failing_nodes ++ (classified fs).failing_nodes,
        spare_nodes := msg.spare_nodes ++ (classified fs).spare_nodes } := by
  induction fs generalizing msg with
  | nil => simp [classified]
  | cons f fs ih =>
      rw [List.foldl_cons, ih, addNode_eq, classified_cons f fs]
      simp only [List.append_assoc]

/-- The message of the loop. -/
theorem extMsg_eq (fs : List Fault) : extMsg fs = classified fs := by
  rw [extMsg, foldl_addNode]
  rfl

theorem foldl_dispatch_notified (fs : List Fault) (s : Ticker σ) :
    (fs.foldl dispatch s).notified = s.notified ++ fs.map Fault.triple ∧
      (fs.foldl dispatch s).external = s.external := by
  induction fs generalizing s with
  | nil => simp
  | cons f fs ih =>
      have hone : (dispatch s f).notified = s.notified ++ [f.triple] ∧
          (dispatch s f).external = s.external := by
        unfold dispatch
        cases f.component with
        | some _ => exact ⟨rfl, rfl⟩
        | none => exact ⟨rfl, rfl⟩
      obtain ⟨hnotified, hexternal⟩ := ih (dispatch s f)
      rw [List.foldl_cons, hnotified, hexternal, hone.1, hone.2]
      simp

/-! ## One tic -/

/-- The messages to external programs in a tic with the faults `fs`. -/
def messages (fs : List Fault) : List ExtMsg := if fs = [] then [] else [classified fs]

/-- What a run of `manage_fails` sends. -/
theorem manage_fails_sent {m : FaultManager σ} {s s' : Ticker σ} (h : manage_fails m s = .ok s') :
    ∃ fs, m.get_fail s.manager = .ok (fs, s'.manager) ∧
      s'.notified = s.notified ++ fs.map Fault.triple ∧
      s'.external = s.external ++ messages fs := by
  obtain ⟨fs, manager, _, _, _, hget, hs'⟩ := manage_fails_ok h
  refine ⟨fs, by rw [hget, hs'], ?_⟩
  unfold manage_fails at h
  rw [hget] at h
  obtain ⟨out, hout, h⟩ := FaultManager.bind_eq_ok h
  rw [← Except.ok.inj hout] at h
  dsimp only at h
  unfold messages
  split at h
  · next hnil =>
    rw [← Except.ok.inj h, hnil]
    simp
  · next hne =>
    rw [← Except.ok.inj h, if_neg hne, ← extMsg_eq]
    obtain ⟨hnotified, hexternal⟩ := foldl_dispatch_notified fs
      { s with manager := manager, rounds := s.rounds ++ [⟨s.tic, s.tic_calls - 1, fs⟩],
               log := s.log ++ [(.Info, "Tic #".toList ++ fmtU s.tic.toNat)] }
    exact ⟨hnotified, by rw [hexternal]⟩

/-- What a call of `do_tic` sends: the end of the tic sends nothing. -/
theorem do_tic_sent {m : FaultManager σ} {L : UInt64} {s s' : Ticker σ} {c : Call}
    (h : do_tic m L s c = .ok s') :
    ∃ manager fs, m.tic s.manager = .ok manager ∧ m.get_fail manager = .ok (fs, s'.manager) ∧
      s'.notified = s.notified ++ fs.map Fault.triple ∧
      s'.external = s.external ++ messages fs := by
  obtain ⟨manager, s₁, htic, hmanage, hskip⟩ := do_tic_parts h
  obtain ⟨fs, hget, hnotified, hexternal⟩ := manage_fails_sent hmanage
  have hsame : s'.manager = s₁.manager ∧ s'.notified = s₁.notified ∧ s'.external = s₁.external := by
    rcases skip_ok hskip with ⟨-, rfl⟩ | ⟨-, k, ts, log, -, -, -, rfl⟩
    · exact ⟨rfl, rfl, rfl⟩
    · exact ⟨rfl, rfl, rfl⟩
  refine ⟨manager, fs, htic, ?_, ?_, ?_⟩
  · rw [hsame.1]
    exact hget
  · rw [hsame.2.1]
    exact hnotified
  · rw [hsame.2.2]
    exact hexternal

/-! ## A run -/

theorem foldl_step_error (m : FaultManager σ) (L : UInt64) (e : Stop) (cs : List Call) :
    cs.foldl (step m L) (.error e) = .error e := by
  induction cs with
  | nil => rfl
  | cons c cs ih => exact ih

/-- The calls `cs` from `s₀`. -/
theorem run_sent {m : FaultManager σ} {L : UInt64} (cs : List Call) {s₀ s : Ticker σ}
    (h : cs.foldl (step m L) (.ok s₀) = .ok s) :
    ∃ fss, m.tics cs.length s₀.manager = .ok (fss, s.manager) ∧
      s.notified = s₀.notified ++ fss.flatten.map Fault.triple ∧
      s.external = s₀.external ++ fss.flatMap messages := by
  induction cs generalizing s₀ with
  | nil =>
      rw [← Except.ok.inj h]
      exact ⟨[], rfl, by simp, by simp⟩
  | cons c cs ih =>
      rw [List.foldl_cons, step_eq] at h
      cases hdo : do_tic m L s₀ c with
      | error e =>
          rw [hdo, foldl_step_error] at h
          simp at h
      | ok s₁ =>
          rw [hdo] at h
          obtain ⟨manager, fs, htic, hget, hnotified, hexternal⟩ := do_tic_sent hdo
          obtain ⟨fss, htics, hnotified', hexternal'⟩ := ih h
          refine ⟨fs :: fss, FaultManager.tics_succ htic hget htics, ?_, ?_⟩
          · rw [hnotified', hnotified, List.flatten_cons, List.map_append, List.append_assoc]
          · rw [hexternal', hexternal, List.flatMap_cons, List.append_assoc]

theorem flatMap_messages (fss : List (List Fault)) :
    fss.flatMap messages = (fss.filter (fun fs => decide (fs ≠ []))).map classified := by
  induction fss with
  | nil => rfl
  | cons fs fss ih =>
      rw [List.flatMap_cons, ih]
      by_cases hfs : fs = []
      · rw [messages, if_pos hfs, List.filter_cons_of_neg (by simpa using hfs), List.nil_append]
      · rw [messages, if_neg hfs, List.filter_cons_of_pos (by simpa using hfs), List.map_cons]
        rfl

/-- **Every fault is dispatched once.** For every fault manager, every clock and every
run of `do_tic` calls: the calls of `notify_fail` are the faults of the lists that
`get_fail` returned, tic by tic and in order; and there is one message to external
programs for each tic whose list is not empty, which decodes to the nodes of the
faults without a component, failed or spare by their severity, in order and as often
as they occur. `decode` has to read back what was sent. -/
theorem dispatched_once (m : FaultManager σ) (L : UInt64) (manager : σ) (cs : List Call)
    (s : Ticker σ) (h : cs.foldl (step m L) (.ok (start manager)) = .ok s)
    (serialize : ExtMsg → Text) (decode : Text → Option ExtMsg)
    (hproto : ∀ msg ∈ s.external, decode (serialize msg) = some msg) :
    ∃ fss, m.tics cs.length manager = .ok (fss, s.manager) ∧
      s.notified = fss.flatten.map Fault.triple ∧
      (s.external.map serialize).map decode
        = (fss.filter (fun fs => decide (fs ≠ []))).map (fun fs => some
            { failing_nodes :=
                (fs.filter (fun f => decide (f.component = none ∧ f.severity ≠ 0))).map Fault.node,
              spare_nodes :=
                (fs.filter (fun f => decide (f.component = none ∧ f.severity = 0))).map
                  Fault.node }) := by
  obtain ⟨fss, htics, hnotified, hexternal⟩ := run_sent cs h
  refine ⟨fss, htics, hnotified, ?_⟩
  have hdecoded : (s.external.map serialize).map decode = s.external.map some := by
    rw [List.map_map]
    exact List.map_congr_left hproto
  have hsent : s.external = (fss.filter (fun fs => decide (fs ≠ []))).map classified := by
    rw [hexternal, flatMap_messages]
    rfl
  rw [hdecoded, hsent, List.map_map]
  rfl

/-! ## The bytes -/

/-- `SerializeToString`, with the numbers of `proto/laik_ext.proto`. -/
def ExtMsg.SerializeToString (msg : ExtMsg) : Text :=
  write (msg.failing_nodes.map (fun n => ⟨2, .bytes n⟩) ++
    msg.spare_nodes.map (fun n => ⟨4, .bytes n⟩))

def ExtMsg.ParseFromString (bytes : Text) : Option ExtMsg :=
  (read bytes).map fun fs => { failing_nodes := strings 2 fs, spare_nodes := strings 4 fs }

theorem strings_map_bytes (id id' : ℕ) (xs : List Text) :
    strings id (xs.map fun x => ⟨id', .bytes x⟩) = if id' = id then xs else [] := by
  rw [strings, List.filterMap_map]
  split
  · next hid => simp [hid]
  · next hid => simp [hid]

theorem ExtMsg.ParseFromString_SerializeToString (msg : ExtMsg) :
    ParseFromString msg.SerializeToString = some msg := by
  rw [ParseFromString, SerializeToString, read_write, Option.map_some, strings_append,
    strings_append, strings_map_bytes, strings_map_bytes, strings_map_bytes, strings_map_bytes,
    if_pos rfl, if_neg (by decide), if_neg (by decide), if_pos rfl, List.append_nil,
    List.nil_append]

/-- Two tics with one failed node each, over the wire. -/
theorem dispatched_steady :
    ∃ s, [⟨0, [5]⟩, ⟨0, [15]⟩].foldl (step steady 10) (.ok (start ())) = .ok s ∧
      ∃ fss, steady.tics 2 () = .ok (fss, s.manager) ∧
        s.notified = fss.flatten.map Fault.triple ∧
        (s.external.map ExtMsg.SerializeToString).map ExtMsg.ParseFromString
          = (fss.filter (fun fs => decide (fs ≠ []))).map (fun fs => some
              { failing_nodes :=
                  (fs.filter (fun f => decide (f.component = none ∧ f.severity ≠ 0))).map Fault.node,
                spare_nodes :=
                  (fs.filter (fun f => decide (f.component = none ∧ f.severity = 0))).map
                    Fault.node }) :=
  ⟨_, rfl, dispatched_once steady 10 () [⟨0, [5]⟩, ⟨0, [15]⟩] _ rfl
    ExtMsg.SerializeToString ExtMsg.ParseFromString
    (fun msg _ => msg.ParseFromString_SerializeToString)⟩

end LauSim.Tics
