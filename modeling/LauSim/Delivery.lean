/-
From the client's fault list to the injector: the commands of `Client`, read
back by the loop of `Backend`.

The client prints with `%s %d`, the backend splits with `strtok` and reads the
number with `strtoul`. For the components both sides know, and severities that
`%d` prints without a sign, every line comes out as the call it stands for.
What carries the argument through the list is that such a line does not look at
the `cmd` of the line before it (`line_ordinary`).
-/
import LauSim.Client
import LauSim.Commands

set_option autoImplicit false

namespace LauSim.Delivery

open Backend CText

variable {β : Type} {inj : Injector β} {s : Loop β} {f : ClientFault}

/-! ## What should happen to a fault -/

/-- A fault of the node, or of a component both sides know, with a severity
that is not negative as an `int`. -/
def Ordinary (f : ClientFault) : Prop :=
  (f.component = none ∨ f.component = some "net".toList ∨ f.component = some "memory".toList ∨
    f.component = some "power".toList) ∧ f.severity.toNat < 2 ^ 31

instance : DecidablePred Ordinary := fun f => inferInstanceAs (Decidable
  ((f.component = none ∨ f.component = some "net".toList ∨ f.component = some "memory".toList ∨
    f.component = some "power".toList) ∧ f.severity.toNat < 2 ^ 31))

/-- The subsystem a fault is for. -/
def target (f : ClientFault) : UInt32 :=
  if f.component = some "net".toList then SUBSYS_NET
  else if f.component = some "memory".toList then SUBSYS_MEM
  else SUBSYS_PWR

/-- The call a fault should become. -/
def call (f : ClientFault) : UInt32 × UInt64 := (target f, f.severity.toUInt64)

/-- The faults up to the first power fault, and that one. -/
def throughPower : List ClientFault → List ClientFault
  | [] => []
  | f :: fs => if target f = SUBSYS_PWR then [f] else f :: throughPower fs

/-- The network after some faults: as the last network fault left it. -/
def netAfter (fs : List ClientFault) : UInt64 :=
  match (fs.filter (fun f => target f = SUBSYS_NET)).getLast? with
  | none => 0
  | some f => if f.severity = 0 then 0 else 1

theorem netAfter_append_net (h : target f = SUBSYS_NET) (fs : List ClientFault) :
    netAfter (fs ++ [f]) = if f.severity = 0 then 0 else 1 := by
  simp [netAfter, h]

theorem netAfter_append_other (h : target f ≠ SUBSYS_NET) (fs : List ClientFault) :
    netAfter (fs ++ [f]) = netAfter fs := by
  simp [netAfter, h]

theorem netAfter_le_one (fs : List ClientFault) : netAfter fs ≤ 1 := by
  unfold netAfter
  split
  · decide
  · split <;> decide

/-- What a client in the state `c` writes for the lists `flts`. -/
def written (c : Client) (flts : List (List ClientFault)) : Text :=
  Client.text ((c.loop flts).writes.drop c.writes.length)

/-- The backend, started in the state `b`, makes of the bytes `bytes` what it
should for the faults `fs`: the calls up to the first power fault, where the
process ends, and before it the network state of the last network fault after
every line. -/
structure Delivered (inj : Injector β) (b : β) (bytes : Text) (fs : List ClientFault) : Prop where
  calls : ∀ cmd0, (lauSim_main inj (Loop.start cmd0 b) (lines bytes)).calls =
    (throughPower fs).map call
  status : ∀ cmd0, (lauSim_main inj (Loop.start cmd0 b) (lines bytes)).status =
    if ∃ f ∈ fs, target f = SUBSYS_PWR then .exited else .running
  net : ∀ cmd0 n, (∀ f ∈ fs.take n, target f ≠ SUBSYS_PWR) →
    inj.net_state (lauSim_main inj (Loop.start cmd0 b) ((lines bytes).take n)).injector =
      netAfter (fs.take n)

/-! ## One command, read back -/

/-- The first word of a command. -/
def commandName (f : ClientFault) : Text := f.component.getD "power".toList

theorem command_eq (f : ClientFault) :
    Client.command f =
      commandName f ++ ([fmtD 32 f.severity.toNat].flatMap (fun t => ' ' :: t) ++ ['\n']) := by
  unfold Client.command commandName
  cases f.component with
  | none => simp
  | some c => simp

/-- The names are words, and have no NUL. -/
theorem commandName_plain (h : Ordinary f) :
    commandName f ≠ [] ∧ (∀ c ∈ commandName f, c ∉ " \n".toList) ∧ nul ∉ commandName f := by
  obtain ⟨hc | hc | hc | hc, -⟩ := h <;> simp [commandName, hc, nul]

theorem fmtD_plain (n : ℕ) : (∀ c ∈ fmtD 32 n, c ∉ " \n".toList) ∧ nul ∉ fmtD 32 n := by
  refine ⟨fun c hc hd => ?_, not_mem_fmtD (by decide) (by decide) 32 n⟩
  rcases (by simpa using hd : c = ' ' ∨ c = '\n') with rfl | rfl
  · exact not_mem_fmtD (by decide) (by decide) 32 n hc
  · exact not_mem_fmtD (by decide) (by decide) 32 n hc

theorem words_command (h : Ordinary f) :
    words (Client.command f) = [commandName f, fmtD 32 f.severity.toNat] := by
  obtain ⟨hne, hname, hnul⟩ := commandName_plain h
  obtain ⟨hdigits, hnul'⟩ := fmtD_plain f.severity.toNat
  have hcstr : nul ∉ Client.command f := by
    rw [command_eq]
    simp only [List.flatMap_cons, List.flatMap_nil, List.append_nil, List.mem_append,
      List.mem_cons, List.not_mem_nil, or_false, not_or]
    exact ⟨hnul, ⟨by decide, hnul'⟩, by decide⟩
  rw [words, cstr_of_not_mem hcstr, command_eq]
  apply strtoks_intercalate (by simp) (by simp)
  intro t ht
  rcases List.mem_cons.mp ht with rfl | ht
  · exact ⟨hne, hname⟩
  · obtain rfl := List.mem_singleton.mp ht
    exact ⟨fmtD_ne_nil _ _, hdigits⟩

/-- `strtoul` reads the severity back. -/
theorem strtoull_severity (h : Ordinary f) :
    (strtoull (fmtD 32 f.severity.toNat)).1 = f.severity.toUInt64 := by
  have hlt : f.severity.toNat < 2 ^ 31 := h.2
  have hread := strtoull_fmtU (n := f.severity.toNat) (by omega) stops_nil
  rw [List.append_nil] at hread
  rw [fmtD, if_pos hlt, hread]
  apply UInt64.toNat_inj.mp
  simp

/-- **A command is understood as the fault it was written for.** -/
theorem command_command (h : Ordinary f) :
    command (Client.command f) = .set (some (target f)) f.severity.toUInt64 := by
  rw [command, words_command h]
  dsimp only
  rw [strtoull_severity h]
  obtain ⟨hc | hc | hc | hc, -⟩ := h <;> rw [commandName, target, hc] <;> rfl

/-! ## The whole list -/

theorem line_ordinary (hrun : s.status = .running) (h : Ordinary f) :
    s.line inj (Client.command f) =
      s.set_state inj (target f).toUInt64 f.severity.toUInt64 := by
  rw [line_eq inj hrun, command_command h, Loop.obey, Option.elim_some]

theorem lauSim_main_of_stopped (h : s.status ≠ .running) (ls : List Text) :
    lauSim_main inj s ls = s := by
  induction ls with
  | nil => rfl
  | cons line ls ih => rw [lauSim_main, List.foldl_cons, line_of_stopped h, ← lauSim_main, ih]

theorem lauSim_main_commands (hinj : Switches inj) (hrun : s.status = .running)
    {fs : List ClientFault} (h : ∀ f ∈ fs, Ordinary f) :
    (lauSim_main inj s (fs.map Client.command)).calls = s.calls ++ (throughPower fs).map call ∧
    (lauSim_main inj s (fs.map Client.command)).status =
      if ∃ f ∈ fs, target f = SUBSYS_PWR then .exited else .running := by
  induction fs generalizing s with
  | nil => simp [lauSim_main, throughPower, hrun]
  | cons f fs ih =>
      have h32 : (target f).toUInt64.toUInt32 = target f := by simp
      rw [List.map_cons, lauSim_main, List.foldl_cons, ← lauSim_main,
        line_ordinary hrun (h f List.mem_cons_self), throughPower]
      by_cases hpower : target f = SUBSYS_PWR
      · -- the process ends here, and the lines behind it are not read
        have hexited := set_state_exited (s := s) hinj (h32.trans hpower) f.severity.toUInt64
        rw [if_pos hpower, lauSim_main_of_stopped (by rw [hexited]; decide), hexited,
          set_state_calls, h32, if_pos ⟨f, List.mem_cons_self, hpower⟩]
        exact ⟨rfl, rfl⟩
      · have hne : (target f).toUInt64.toUInt32 ≠ SUBSYS_PWR := by rwa [h32]
        have hrunning := set_state_running (s := s) hinj hne f.severity.toUInt64
        obtain ⟨hcalls, hstatus⟩ := ih (hrunning.trans hrun)
          (fun g hg => h g (List.mem_cons_of_mem _ hg))
        rw [if_neg hpower, hcalls, hstatus, set_state_calls, h32]
        refine ⟨by simp [call], ?_⟩
        simp [hpower]

/-- The network state follows the last network fault. The induction is on the
list from the right, so that the last fault is the one that counts. -/
theorem lauSim_main_net (hinj : Switches inj) (hrun : s.status = .running)
    (hnet : inj.net_state s.injector = 0) {fs : List ClientFault} (h : ∀ f ∈ fs, Ordinary f)
    (hpower : ∀ f ∈ fs, target f ≠ SUBSYS_PWR) :
    inj.net_state (lauSim_main inj s (fs.map Client.command)).injector = netAfter fs := by
  induction fs using List.reverseRecOn with
  | nil => exact hnet
  | append_singleton fs f ih =>
      have h' : ∀ g ∈ fs, Ordinary g := fun g hg => h g (List.mem_append_left _ hg)
      have hpower' : ∀ g ∈ fs, target g ≠ SUBSYS_PWR :=
        fun g hg => hpower g (List.mem_append_left _ hg)
      have hf : f ∈ fs ++ [f] := by simp
      have hrun' : (lauSim_main inj s (fs.map Client.command)).status = .running := by
        rw [(lauSim_main_commands hinj hrun h').2, if_neg]
        rintro ⟨g, hg, hp⟩
        exact hpower' g hg hp
      have hih := ih h' hpower'
      have hstep : lauSim_main inj s ((fs ++ [f]).map Client.command) =
          (lauSim_main inj s (fs.map Client.command)).line inj (Client.command f) := by
        simp [lauSim_main]
      have h32 : (target f).toUInt64.toUInt32 = target f := by simp
      rw [hstep, line_ordinary hrun' (h f hf), Loop.set_state, h32]
      by_cases htarget : target f = SUBSYS_NET
      · -- the state before is 0 or 1, so it ends up as this severity says
        obtain ⟨b', hb', hstate⟩ := hinj.net f.severity.toUInt64
          (lauSim_main inj s (fs.map Client.command)).injector
        rw [htarget, hb', netAfter_append_net htarget]
        rw [hih] at hstate
        simpa [← UInt32.toUInt64_inj] using hstate (netAfter_le_one fs)
      · -- neither the network nor power: memory
        have hmem : target f = SUBSYS_MEM := by
          have hp := hpower f hf
          unfold target at htarget hp ⊢
          split_ifs at htarget hp ⊢ with hc hc'
          · exact absurd rfl htarget
          · rfl
          · exact absurd rfl hp
        rw [hmem, hinj.mem, netAfter_append_other htarget]
        exact hih

/-- The lines of what is written are the commands of the faults. -/
theorem lines_written {c : Client} (hc : c.synced = true) {flts : List (List ClientFault)}
    (h : ∀ f ∈ flts.flatten, Ordinary f) :
    lines (written c flts) = flts.flatten.map Client.command := by
  have hwritten : written c flts = flts.flatten.flatMap Client.command := by
    rw [written, Client.loop_eq, Client.get_faults_of_synced hc, List.drop_left, Client.text,
      List.flatMap_map]
  have hline : ∀ f ∈ flts.flatten, IsLine (Client.command f) := by
    intro f hf
    rw [Client.isLine_command_iff]
    obtain ⟨hcomp | hcomp | hcomp | hcomp, -⟩ := h f hf <;> simp [hcomp]
  have hlines := lines_flatMap hline
  simpa [hwritten] using hlines []

theorem delivered (hinj : Switches inj) {b : β} (hnet : inj.net_state b = 0) {c : Client}
    (hc : c.synced = true) {flts : List (List ClientFault)}
    (h : ∀ f ∈ flts.flatten, Ordinary f) : Delivered inj b (written c flts) flts.flatten := by
  constructor
  · intro cmd0
    rw [lines_written hc h, (lauSim_main_commands hinj rfl h).1]
    rfl
  · intro cmd0
    rw [lines_written hc h, (lauSim_main_commands hinj rfl h).2]
  · intro cmd0 n hpower
    rw [lines_written hc h, ← List.map_take]
    exact lauSim_main_net hinj rfl hnet (fun f hf => h f (List.mem_of_mem_take hf)) hpower

/-- **Fault commands reach the injector unchanged**, in both backends, for
every list of ordinary faults after the start signal, however `get_faults`
groups them. -/
theorem faults_delivered {c : Client} (hc : c.synced = true) {flts : List (List ClientFault)}
    (h : ∀ f ∈ flts.flatten, Ordinary f) :
    (∀ b : Preload, b.net_state = 0 →
      Delivered Preload.injector b (written c flts) flts.flatten) ∧
    Delivered Privileged.injector Privileged.initial (written c flts) flts.flatten :=
  ⟨fun _ hb => delivered Preload.switches hb hc h, delivered Privileged.switches rfl hc h⟩

theorem faults_delivered_net_power :
    Delivered Preload.injector Preload.initial
      (written { synced := true, writes := [] }
        [[{ component := some "net".toList, severity := 100 }],
          [{ component := none, severity := 1 }]])
      [{ component := some "net".toList, severity := 100 }, { component := none, severity := 1 }] :=
  (@faults_delivered { synced := true, writes := [] } rfl
    [[{ component := some "net".toList, severity := 100 }], [{ component := none, severity := 1 }]]
    (by decide)).1 Preload.initial rfl

end LauSim.Delivery
