/-
What a line does to the backend: the command loop over both injectors.

Two facts of the loop decide everything here. `cmd` outlives the line that set
it, so a line with an unknown command word repeats the last command (and the
first such line uses whatever the uninitialised variable holds). And
`SUBSYS_PWR` ends the process before anything looks at the severity.

The two injectors are written separately; all the loop needs of them is
`Switches`, which both meet.
-/
import LauSim.Lib.Runs
import LauSim.Privileged
import LauSim.Preload

set_option autoImplicit false

namespace LauSim

open Backend CText Runs

variable {β : Type} {inj : Injector β} {s : Loop β}

namespace Backend

/-! ## What the loop needs of an injector -/

/-- `SUBSYS_PWR` ends the process, `SUBSYS_NET` switches the network, and no
other subsystem has an effect. -/
structure Switches (inj : Injector β) : Prop where
  pwr : ∀ severity b, inj.lauSim_set_state SUBSYS_PWR severity b = .exited
  mem : ∀ severity b, inj.lauSim_set_state SUBSYS_MEM severity b = .running 0 b
  net : ∀ severity b, ∃ b', inj.lauSim_set_state SUBSYS_NET severity b = .running 0 b' ∧
    (inj.net_state b ≤ 1 → inj.net_state b' = if severity = 0 then 0 else 1)
  other : ∀ sys severity b, sys ≠ SUBSYS_NET → sys ≠ SUBSYS_PWR → sys ≠ SUBSYS_MEM →
    inj.lauSim_set_state sys severity b = .running 1 b

end Backend

/-- A state that is 0 or 1 and changes only on an edge ends up as the severity
says. -/
theorem edge_state {state severity : UInt64} (h : state ≤ 1) :
    (if state = 0 ∧ severity ≠ 0 then (1 : UInt64)
      else if state ≠ 0 ∧ severity = 0 then 0 else state) = if severity = 0 then 0 else 1 := by
  have h01 : state = 0 ∨ state = 1 := by
    rw [UInt64.le_iff_toNat_le] at h
    have h1 : (1 : UInt64).toNat = 1 := rfl
    rcases Nat.le_one_iff_eq_zero_or_eq_one.mp (h1 ▸ h) with h | h
    · exact .inl (UInt64.toNat_inj.mp h)
    · exact .inr (UInt64.toNat_inj.mp h)
  -- from either state, the two edges and the two cases without one
  rcases h01 with rfl | rfl
  · by_cases hs : severity = 0 <;> simp [hs]
  · by_cases hs : severity = 0 <;> simp [hs]

theorem Privileged.switches : Switches Privileged.injector where
  pwr _ _ := rfl
  mem _ _ := rfl
  net severity b := by
    refine ⟨switch_net severity b, rfl, fun h => ?_⟩
    rw [← edge_state h]
    unfold Privileged.injector switch_net
    dsimp only
    split_ifs <;> rfl
  other sys severity b hnet hpwr hmem := by
    unfold Privileged.injector Privileged.lauSim_set_state
    dsimp only
    rw [if_neg hnet, if_neg hpwr, if_neg hmem]

theorem Preload.switches : Switches Preload.injector where
  pwr _ _ := rfl
  mem _ _ := rfl
  net severity b := by
    refine ⟨lauSim_switch_net severity b, rfl, fun h => ?_⟩
    rw [← edge_state h]
    unfold Preload.injector lauSim_switch_net
    dsimp only
    split_ifs <;> rfl
  other sys severity b hnet hpwr hmem := by
    unfold Preload.injector Preload.lauSim_set_state
    dsimp only
    rw [if_neg hnet, if_neg hpwr, if_neg hmem]

namespace Backend

/-! ## What a line asks for -/

/-- A line as the loop understands it. No subsystem is an unknown command
word. -/
inductive Command where
  | skip
  | exit
  | set (sys : Option UInt32) (severity : UInt64)
  deriving DecidableEq, Repr

def subsystem (cmd_str : Text) : Option UInt32 :=
  if cmd_str = "net".toList then some SUBSYS_NET
  else if cmd_str = "power".toList then some SUBSYS_PWR
  else if cmd_str = "memory".toList then some SUBSYS_MEM
  else none

def command (line : Text) : Command :=
  match words line with
  | [] => .skip
  | w :: rest =>
    if w = "exit".toList then .exit
    else
      match rest with
      | [] => .skip
      | o :: _ => .set (subsystem w) (strtoull o).1

/-- An unknown command word leaves the subsystem of the last command. -/
def Loop.obey (inj : Injector β) (s : Loop β) : Command → Loop β
  | .skip => s
  | .exit => s.leave inj
  | .set sys severity => s.set_state inj (sys.elim s.cmd UInt32.toUInt64) severity

/-- The three tests are one choice, since the words differ. -/
theorem decode_eq (cmd_str : Text) (cmd : UInt64) :
    decode cmd_str cmd = (subsystem cmd_str).elim cmd UInt32.toUInt64 := by
  unfold decode subsystem
  by_cases hnet : cmd_str = "net".toList
  · rw [hnet]
    rfl
  · by_cases hpower : cmd_str = "power".toList
    · rw [hpower]
      rfl
    · by_cases hmemory : cmd_str = "memory".toList
      · rw [hmemory]
        rfl
      · simp only [if_neg hnet, if_neg hpower, if_neg hmemory, Option.elim_none]

/-- **The loop body is the command of the line.** -/
theorem line_eq (inj : Injector β) (h : s.status = .running) (line : Text) :
    s.line inj line = s.obey inj (command line) := by
  rw [Loop.line, if_pos h, command]
  cases words line with
  | nil => rfl
  | cons w rest =>
      by_cases hexit : w = "exit".toList
      · simp [Loop.execute, Loop.obey, hexit]
      · cases rest with
        | nil => simp only [Loop.execute, Loop.obey, if_neg hexit]
        | cons o rest => simp only [Loop.execute, Loop.obey, if_neg hexit, decode_eq]

theorem line_of_stopped (h : s.status ≠ .running) (line : Text) : s.line inj line = s := by
  rw [Loop.line, if_neg h]

/-! ## Kinds of lines -/

/-- The first word of a line. -/
def names (line : Text) : Option Text := (words line).head?

/-- A second word follows. -/
def HasOption (line : Text) : Prop := 2 ≤ (words line).length

instance : DecidablePred HasOption := fun line =>
  inferInstanceAs (Decidable (2 ≤ (words line).length))

/-- The first word is none the loop knows. -/
def Unknown (line : Text) : Prop :=
  ∃ w ∈ names line, w ∉ ["net".toList, "power".toList, "memory".toList, "exit".toList]

instance : DecidablePred Unknown := fun line => inferInstanceAs (Decidable
  (∃ w ∈ names line, w ∉ ["net".toList, "power".toList, "memory".toList, "exit".toList]))

/-- A power command, of whatever severity. -/
def PowerCommand (line : Text) : Prop := names line = some "power".toList ∧ HasOption line

instance : DecidablePred PowerCommand := fun line =>
  inferInstanceAs (Decidable (names line = some "power".toList ∧ HasOption line))

/-- The loop ends with the line. -/
def Ends (line : Text) : Prop := names line = some "exit".toList ∨ PowerCommand line

instance : DecidablePred Ends := fun line =>
  inferInstanceAs (Decidable (names line = some "exit".toList ∨ PowerCommand line))

theorem command_eq_exit {line : Text} (h : names line = some "exit".toList) :
    command line = .exit := by
  unfold names at h
  unfold command
  cases hw : words line with
  | nil => simp [hw] at h
  | cons w rest =>
      rw [hw, List.head?_cons] at h
      obtain rfl := Option.some.inj h
      rfl

theorem command_eq_skip {line : Text} (h : ¬ HasOption line)
    (hexit : names line ≠ some "exit".toList) : command line = .skip := by
  unfold names at hexit
  unfold HasOption at h
  unfold command
  cases hw : words line with
  | nil => rfl
  | cons w rest =>
      rw [hw, List.head?_cons] at hexit
      cases rest with
      | nil => simpa using hexit
      | cons o rest => simp [hw] at h

/-- A line with an option is a command for what its first word names. -/
theorem command_eq_set {line : Text} (h : HasOption line)
    (hexit : names line ≠ some "exit".toList) :
    ∃ w severity, names line = some w ∧ command line = .set (subsystem w) severity := by
  unfold names at hexit
  unfold HasOption at h
  unfold command names
  cases hw : words line with
  | nil => simp [hw] at h
  | cons w rest =>
      rw [hw, List.head?_cons] at hexit
      cases rest with
      | nil => simp [hw] at h
      | cons o rest =>
          refine ⟨w, (strtoull o).1, rfl, ?_⟩
          have hne : w ≠ "exit".toList := fun he => hexit (by rw [he])
          simp only [if_neg hne]

/-- **What a line can be.** -/
theorem command_cases (line : Text) :
    (command line = .skip ∧ ¬ HasOption line ∧ ¬ Ends line) ∨
    (command line = .exit ∧ names line = some "exit".toList ∧ ¬ Unknown line) ∨
    (∃ severity, command line = .set (some SUBSYS_PWR) severity ∧ PowerCommand line ∧
      ¬ Unknown line) ∨
    (∃ sys severity, command line = .set (some sys) severity ∧
      (sys = SUBSYS_NET ∨ sys = SUBSYS_MEM) ∧ HasOption line ∧ ¬ Ends line ∧ ¬ Unknown line) ∨
    (∃ severity, command line = .set none severity ∧ HasOption line ∧ ¬ Ends line ∧
      Unknown line) := by
  by_cases hexit : names line = some "exit".toList
  · -- `exit` needs no option
    refine .inr (.inl ⟨command_eq_exit hexit, hexit, ?_⟩)
    rintro ⟨w, hw, hmem⟩
    obtain rfl := Option.some.inj (hexit.symm.trans hw)
    exact hmem (by decide)
  · by_cases hopt : HasOption line
    · obtain ⟨w, severity, hw, hcmd⟩ := command_eq_set hopt hexit
      have hunknown : Unknown line ↔
          w ∉ ["net".toList, "power".toList, "memory".toList, "exit".toList] := by
        simp [Unknown, hw]
      have hends : Ends line ↔ w = "power".toList := by
        rw [hw] at hexit
        simp only [Ends, PowerCommand, hw, hopt, and_true, hexit, false_or, Option.some.injEq]
      have hne : w ≠ "exit".toList := fun he => hexit (by rw [hw, he])
      rw [hunknown, hends, hcmd]
      by_cases hpower : w = "power".toList
      · refine .inr (.inr (.inl ⟨severity, by rw [hpower]; rfl, ⟨?_, hopt⟩, ?_⟩))
        · rw [hw, hpower]
        · rw [hpower]
          decide
      · by_cases hnet : w = "net".toList
        · refine .inr (.inr (.inr (.inl ⟨SUBSYS_NET, severity, ?_, .inl rfl, hopt, hpower, ?_⟩)))
          · rw [hnet]
            rfl
          · rw [hnet]
            decide
        · by_cases hmemory : w = "memory".toList
          · refine .inr (.inr (.inr (.inl
              ⟨SUBSYS_MEM, severity, ?_, .inr rfl, hopt, hpower, ?_⟩)))
            · rw [hmemory]
              rfl
            · rw [hmemory]
              decide
          · refine .inr (.inr (.inr (.inr ⟨severity, ?_, hopt, hpower, ?_⟩)))
            · rw [subsystem, if_neg hnet, if_neg hpower, if_neg hmemory]
            · simp only [List.mem_cons, List.not_mem_nil, or_false, not_or]
              exact ⟨hnet, hpower, hmemory, hne⟩
    · refine .inl ⟨command_eq_skip hopt hexit, hopt, ?_⟩
      rintro (h | ⟨-, h⟩)
      · exact hexit h
      · exact hopt h

theorem not_ends_of_unknown {line : Text} (h : Unknown line) : ¬ Ends line := by
  rcases command_cases line with ⟨-, -, hn⟩ | ⟨-, -, hk⟩ | ⟨_, -, -, hk⟩ |
    ⟨_, _, -, -, -, -, hk⟩ | ⟨_, -, -, hn, -⟩
  · exact hn
  · exact absurd h hk
  · exact absurd h hk
  · exact absurd h hk
  · exact hn

/-- A stray line: the loop has an option, and no subsystem to give it to. -/
theorem stray_iff {line : Text} :
    (Unknown line ∧ HasOption line) ↔ ∃ severity, command line = .set none severity := by
  constructor
  · rintro ⟨hu, hopt⟩
    rcases command_cases line with ⟨-, hn, -⟩ | ⟨-, -, hk⟩ | ⟨_, -, -, hk⟩ |
      ⟨_, _, -, -, -, -, hk⟩ | ⟨severity, hc, -⟩
    · exact absurd hopt hn
    · exact absurd hu hk
    · exact absurd hu hk
    · exact absurd hu hk
    · exact ⟨severity, hc⟩
  · rintro ⟨severity, hc⟩
    rcases command_cases line with ⟨hc', -⟩ | ⟨hc', -⟩ | ⟨_, hc', -⟩ | ⟨_, _, hc', -⟩ |
      ⟨_, -, hopt, -, hu⟩
    · exact absurd (hc.symm.trans hc') (by simp)
    · exact absurd (hc.symm.trans hc') (by simp)
    · exact absurd (hc.symm.trans hc') (by simp)
    · exact absurd (hc.symm.trans hc') (by simp)
    · exact ⟨hu, hopt⟩

/-- The call is recorded, and `cmd` keeps its subsystem. -/
@[simp] theorem set_state_calls (cmd opt : UInt64) :
    (s.set_state inj cmd opt).calls = s.calls ++ [(cmd.toUInt32, opt)] := by
  unfold Loop.set_state
  split <;> rfl

@[simp] theorem set_state_cmd (cmd opt : UInt64) : (s.set_state inj cmd opt).cmd = cmd := by
  unfold Loop.set_state
  split <;> rfl

theorem set_state_exited (hinj : Switches inj) {cmd : UInt64} (h : cmd.toUInt32 = SUBSYS_PWR)
    (opt : UInt64) : (s.set_state inj cmd opt).status = .exited := by
  rw [Loop.set_state, h, hinj.pwr]

/-- No other subsystem ends the process. -/
theorem set_state_running (hinj : Switches inj) {cmd : UInt64} (h : cmd.toUInt32 ≠ SUBSYS_PWR)
    (opt : UInt64) : (s.set_state inj cmd opt).status = s.status := by
  rw [Loop.set_state]
  by_cases hnet : cmd.toUInt32 = SUBSYS_NET
  · obtain ⟨b', hb', -⟩ := hinj.net opt s.injector
    rw [hnet, hb']
  · by_cases hmem : cmd.toUInt32 = SUBSYS_MEM
    · rw [hmem, hinj.mem]
    · rw [hinj.other _ _ _ hnet h hmem]

/-! ## Lines that name no component -/

/-- The subsystems of `enum en_subsys`. -/
def subsystems : List UInt32 := [SUBSYS_NET, SUBSYS_PWR, SUBSYS_MEM]

/-- The line acts on no component but the one it names: with an unknown command
word it makes no call for a subsystem and leaves the network and the process as
they were, and its effect does not depend on the command before it. -/
structure Loop.OnlyNamed (inj : Injector β) (s : Loop β) (line : Text) : Prop where
  no_call : Unknown line →
    ∀ c ∈ (s.line inj line).calls.drop s.calls.length, c.1 ∉ subsystems
  net_kept : Unknown line →
    inj.net_state (s.line inj line).injector = inj.net_state s.injector
  process_kept : Unknown line → (s.line inj line).status = s.status
  no_history : ∀ cmd,
    (Loop.line inj { s with cmd := cmd } line).calls = (s.line inj line).calls ∧
    (Loop.line inj { s with cmd := cmd } line).injector = (s.line inj line).injector ∧
    (Loop.line inj { s with cmd := cmd } line).status = (s.line inj line).status

/-- Every line of `ls` does, whatever the uninitialised `cmd` holds. -/
def ActsOnNamed (inj : Injector β) (b : β) (ls : List Text) : Prop :=
  ∀ cmd0, EachStep (Loop.line inj) (Loop.OnlyNamed inj) (Loop.start cmd0 b) ls

/-- Only an unknown command word looks at the old `cmd`. -/
theorem obey_no_history {c : Command} (h : ∀ severity, c ≠ .set none severity) (cmd : UInt64) :
    (Loop.obey inj { s with cmd := cmd } c).calls = (s.obey inj c).calls ∧
    (Loop.obey inj { s with cmd := cmd } c).injector = (s.obey inj c).injector ∧
    (Loop.obey inj { s with cmd := cmd } c).status = (s.obey inj c).status := by
  cases c with
  | skip => exact ⟨rfl, rfl, rfl⟩
  | exit => exact ⟨rfl, rfl, rfl⟩
  | set sys severity =>
      cases sys with
      | none => exact absurd rfl (h severity)
      | some sys =>
          unfold Loop.obey Loop.set_state
          dsimp only [Option.elim_some]
          split <;> exact ⟨rfl, rfl, rfl⟩

theorem onlyNamed_of_stopped (h : s.status ≠ .running) (line : Text) : s.OnlyNamed inj line := by
  have heq : s.line inj line = s := line_of_stopped h line
  constructor
  · simp [heq]
  · simp [heq]
  · simp [heq]
  · intro cmd
    rw [heq, line_of_stopped (s := { s with cmd := cmd }) h line]
    exact ⟨rfl, rfl, rfl⟩

theorem onlyNamed_of_not_stray (hrun : s.status = .running) {line : Text}
    (h : ¬ (Unknown line ∧ HasOption line)) : s.OnlyNamed inj line := by
  have hset : ∀ severity, command line ≠ .set none severity :=
    fun severity hc => h (stray_iff.mpr ⟨severity, hc⟩)
  have hskip : Unknown line → s.line inj line = s := by
    intro hunknown
    rcases command_cases line with ⟨hc, -⟩ | ⟨-, -, hk⟩ | ⟨_, -, -, hk⟩ | ⟨_, _, -, -, -, -, hk⟩ |
      ⟨_, hc, -⟩
    · rw [line_eq inj hrun, hc, Loop.obey]
    · exact absurd hunknown hk
    · exact absurd hunknown hk
    · exact absurd hunknown hk
    · exact absurd hc (hset _)
  constructor
  · intro hunknown
    simp [hskip hunknown]
  · intro hunknown
    rw [hskip hunknown]
  · intro hunknown
    rw [hskip hunknown]
  · intro cmd
    rw [line_eq inj hrun, line_eq (s := { s with cmd := cmd }) inj hrun]
    exact obey_no_history hset cmd

/-- A stray line repeats the last command. -/
theorem not_onlyNamed_of_stray (hrun : s.status = .running) (hcmd : s.cmd.toUInt32 ∈ subsystems)
    {line : Text} (hu : Unknown line) (hopt : HasOption line) : ¬ s.OnlyNamed inj line := by
  intro h
  obtain ⟨severity, hc⟩ := stray_iff.mp ⟨hu, hopt⟩
  have hmem : (s.cmd.toUInt32, severity) ∈ (s.line inj line).calls.drop s.calls.length := by
    rw [line_eq inj hrun, hc, Loop.obey, Option.elim_none, set_state_calls]
    simp
  exact h.no_call hu _ hmem hcmd

/-! ## Whole runs -/

/-- A line that is neither stray nor the last one leaves the loop running, with
a command of the enumeration in `cmd` if there was one. -/
theorem line_running (hinj : Switches inj) (hrun : s.status = .running) {line : Text}
    (hend : ¬ Ends line) (hstray : ¬ (Unknown line ∧ HasOption line)) :
    (s.line inj line).status = .running ∧
      (s.cmd.toUInt32 ∈ subsystems → (s.line inj line).cmd.toUInt32 ∈ subsystems) := by
  rw [line_eq inj hrun]
  rcases command_cases line with ⟨hc, -⟩ | ⟨-, he, -⟩ | ⟨_, -, hp, -⟩ | ⟨sys, severity, hc, hsys, -⟩ |
    ⟨_, -, hopt, -, hu⟩
  · rw [hc]
    exact ⟨hrun, id⟩
  · exact absurd (.inl he) hend
  · exact absurd (.inr hp) hend
  · have h32 : sys.toUInt64.toUInt32 = sys := by simp
    have hne : sys.toUInt64.toUInt32 ≠ SUBSYS_PWR := by
      rw [h32]
      rcases hsys with rfl | rfl <;> decide
    rw [hc, Loop.obey, Option.elim_some, set_state_running hinj hne, set_state_cmd, h32]
    refine ⟨hrun, fun _ => ?_⟩
    rcases hsys with rfl | rfl <;> decide
  · exact absurd ⟨hu, hopt⟩ hstray

/-- The loop does not go on behind a line that ends it. -/
theorem line_stopped (hinj : Switches inj) {line : Text} (hend : Ends line) :
    (s.line inj line).status ≠ .running := by
  by_cases hrun : s.status = .running
  · rw [line_eq inj hrun]
    rcases command_cases line with ⟨-, -, hn⟩ | ⟨hc, -⟩ | ⟨_, hc, -⟩ | ⟨_, _, -, -, -, hn, -⟩ |
      ⟨_, -, -, hn, -⟩
    · exact absurd hend hn
    · simp [hc, Loop.obey, Loop.leave]
    · rw [hc, Loop.obey, Option.elim_some, set_state_exited hinj rfl]
      decide
    · exact absurd hend hn
    · exact absurd hend hn
  · rw [line_of_stopped hrun]
    exact hrun

theorem eachStep_onlyNamed_of_stopped (h : s.status ≠ .running) (ls : List Text) :
    EachStep (Loop.line inj) (Loop.OnlyNamed inj) s ls := by
  induction ls with
  | nil => exact eachStep_nil
  | cons line ls ih =>
      rw [eachStep_cons, line_of_stopped h]
      exact ⟨onlyNamed_of_stopped h line, ih⟩

/-- The lines the loop gets to, up to the one that ends it. -/
def untilEnd (ls : List Text) : List Text := ls.takeWhile (fun line => !decide (Ends line))

theorem eachStep_onlyNamed (hinj : Switches inj) (hrun : s.status = .running) {ls : List Text}
    (h : ∀ line ∈ untilEnd ls, ¬ (Unknown line ∧ HasOption line)) :
    EachStep (Loop.line inj) (Loop.OnlyNamed inj) s ls := by
  induction ls generalizing s with
  | nil => exact eachStep_nil
  | cons line ls ih =>
      rw [eachStep_cons]
      by_cases hend : Ends line
      · -- the loop is not there for the lines behind this one
        have hknown : ¬ (Unknown line ∧ HasOption line) :=
          fun hs => not_ends_of_unknown hs.1 hend
        exact ⟨onlyNamed_of_not_stray hrun hknown,
          eachStep_onlyNamed_of_stopped (line_stopped hinj hend) ls⟩
      · rw [untilEnd, List.takeWhile_cons_of_pos (by simpa using hend)] at h
        have hknown := h line List.mem_cons_self
        refine ⟨onlyNamed_of_not_stray hrun hknown, ih (line_running hinj hrun hend hknown).1 ?_⟩
        exact fun l hl => h l (List.mem_cons_of_mem _ hl)

theorem not_stray_of_eachStep (hinj : Switches inj) (hrun : s.status = .running)
    (hcmd : s.cmd.toUInt32 ∈ subsystems) {ls : List Text}
    (h : EachStep (Loop.line inj) (Loop.OnlyNamed inj) s ls) :
    ∀ line ∈ untilEnd ls, ¬ (Unknown line ∧ HasOption line) := by
  induction ls generalizing s with
  | nil => simp [untilEnd]
  | cons line ls ih =>
      rw [eachStep_cons] at h
      obtain ⟨hline, hrest⟩ := h
      have hknown : ¬ (Unknown line ∧ HasOption line) :=
        fun hs => not_onlyNamed_of_stray hrun hcmd hs.1 hs.2 hline
      by_cases hend : Ends line
      · simp [untilEnd, hend]
      · rw [untilEnd, List.takeWhile_cons_of_pos (by simpa using hend)]
        obtain ⟨hrun', hcmd'⟩ := line_running hinj hrun hend hknown
        intro l hl
        rcases List.mem_cons.mp hl with rfl | hl
        · exact hknown
        · exact ih hrun' (hcmd' hcmd) hrest l hl

/-- For an injector that switches: no stray line before the end. -/
theorem actsOnNamed_switches (hinj : Switches inj) (b : β) (ls : List Text) :
    ActsOnNamed inj b ls ↔ ∀ line ∈ untilEnd ls, ¬ (Unknown line ∧ HasOption line) := by
  constructor
  · intro h
    -- nothing keeps a subsystem out of the uninitialised variable
    have hcmd : SUBSYS_NET.toUInt64.toUInt32 ∈ subsystems := by decide
    exact not_stray_of_eachStep hinj rfl hcmd (h SUBSYS_NET.toUInt64)
  · intro h cmd0
    exact eachStep_onlyNamed hinj rfl h

/-- **A line acts only on the component it names** exactly when no line before
the end of the loop has an unknown command word and an option. -/
theorem actsOnNamed_iff (ls : List Text) :
    (∀ b, ActsOnNamed Preload.injector b ls ↔
      ∀ line ∈ untilEnd ls, ¬ (Unknown line ∧ HasOption line)) ∧
    (∀ b, ActsOnNamed Privileged.injector b ls ↔
      ∀ line ∈ untilEnd ls, ¬ (Unknown line ∧ HasOption line)) :=
  ⟨fun b => actsOnNamed_switches Preload.switches b ls,
    fun b => actsOnNamed_switches Privileged.switches b ls⟩

/-- A fault of an unknown component takes the network down. -/
theorem not_actsOnNamed_disk :
    ¬ ActsOnNamed Preload.injector Preload.initial ["net 0\n".toList, "disk 100\n".toList] := by
  intro h
  have h0 := h 0
  rw [eachStep_cons, eachStep_cons] at h0
  have hnet := h0.2.1.net_kept (by decide +kernel)
  exact absurd hnet (by decide +kernel)

/-! ## Recovery -/

/-- The number the second word is read as. -/
def severity (line : Text) : UInt64 := (strtoull ((words line).getD 1 [])).1

/-- Lines that only recover: none is `exit`, and every power command has
severity 0. -/
structure Recovery (ls : List Text) : Prop where
  no_exit : ∀ line ∈ ls, names line ≠ some "exit".toList
  nominal : ∀ line ∈ ls, PowerCommand line → severity line = 0

/-- No line makes `lauSim_set_state` end the process. -/
def Survives (inj : Injector β) (b : β) (ls : List Text) : Prop :=
  ∀ cmd0, Always (Loop.line inj) (fun s => s.status ≠ .exited) (Loop.start cmd0 b) ls

/-- A power command ends the process at any severity. -/
theorem line_power (hinj : Switches inj) (hrun : s.status = .running) {line : Text}
    (h : PowerCommand line) : (s.line inj line).status = .exited := by
  rw [line_eq inj hrun]
  rcases command_cases line with ⟨-, hn, -⟩ | ⟨-, he, -⟩ | ⟨_, hc, -⟩ | ⟨_, _, -, -, -, hn, -⟩ |
    ⟨_, -, -, hn, -⟩
  · exact absurd h.2 hn
  · exact absurd (he.symm.trans h.1) (by simp)
  · rw [hc, Loop.obey, Option.elim_some, set_state_exited hinj rfl]
  · exact absurd (.inr h) hn
  · exact absurd (.inr h) hn

theorem line_no_option (hrun : s.status = .running) {line : Text}
    (hexit : names line ≠ some "exit".toList) (h : ¬ HasOption line) : s.line inj line = s := by
  rw [line_eq inj hrun, command_eq_skip h hexit, Loop.obey]

/-- A line that neither is a power command nor repeats one keeps the process,
and does not leave `SUBSYS_PWR` in `cmd`. -/
theorem line_survives (hinj : Switches inj) (hrun : s.status = .running) {line : Text}
    (hexit : names line ≠ some "exit".toList) (hpower : ¬ PowerCommand line)
    (h : s.cmd.toUInt32 ≠ SUBSYS_PWR ∨ (HasOption line ∧ ¬ Unknown line)) :
    (s.line inj line).status = .running ∧ (s.line inj line).cmd.toUInt32 ≠ SUBSYS_PWR := by
  rw [line_eq inj hrun]
  rcases command_cases line with ⟨hc, hn, -⟩ | ⟨-, he, -⟩ | ⟨_, -, hp, -⟩ | ⟨sys, _, hc, hsys, -⟩ |
    ⟨_, hc, -, -, hu⟩
  · rcases h with h | h
    · rw [hc, Loop.obey]
      exact ⟨hrun, h⟩
    · exact absurd h.1 hn
  · exact absurd he hexit
  · exact absurd hp hpower
  · have hne : sys.toUInt64.toUInt32 ≠ SUBSYS_PWR := by
      rcases hsys with rfl | rfl <;> decide
    rw [hc, Loop.obey, Option.elim_some, set_state_running hinj hne, set_state_cmd]
    exact ⟨hrun, hne⟩
  · rcases h with h | h
    · rw [hc, Loop.obey, Option.elim_none, set_state_running hinj h, set_state_cmd]
      exact ⟨hrun, h⟩
    · exact absurd hu h.2

/-- Without `exit` the loop goes on, or the process is over. -/
theorem line_running_of_not_exited (hinj : Switches inj) (hrun : s.status = .running)
    {line : Text} (hexit : names line ≠ some "exit".toList)
    (h : (s.line inj line).status ≠ .exited) : (s.line inj line).status = .running := by
  by_cases hpower : PowerCommand line
  · exact absurd (line_power hinj hrun hpower) h
  · rw [line_eq inj hrun] at h ⊢
    rcases command_cases line with ⟨hc, -⟩ | ⟨-, he, -⟩ | ⟨_, -, hp, -⟩ | ⟨sys, severity, hc, -⟩ |
      ⟨severity, hc, -⟩
    · rw [hc]
      exact hrun
    · exact absurd he hexit
    · exact absurd hp hpower
    -- with an option, the injector decides
    all_goals
      rw [hc, Loop.obey, Loop.set_state] at h ⊢
      split at h
      · exact hrun
      · exact absurd rfl h

theorem not_power_of_always (hinj : Switches inj) (hrun : s.status = .running) {ls : List Text}
    (hexit : ∀ line ∈ ls, names line ≠ some "exit".toList)
    (h : Always (Loop.line inj) (fun s => s.status ≠ .exited) s ls) :
    ∀ line ∈ ls, ¬ PowerCommand line := by
  induction ls generalizing s with
  | nil => simp
  | cons line ls ih =>
      rw [always_cons] at h
      have hline : (s.line inj line).status ≠ .exited := h.2.head
      have hrun' := line_running_of_not_exited hinj hrun (hexit line List.mem_cons_self) hline
      intro l hl
      rcases List.mem_cons.mp hl with rfl | hl
      · exact fun hp => hline (line_power hinj hrun hp)
      · exact ih hrun' (fun l hl => hexit l (List.mem_cons_of_mem _ hl)) h.2 l hl

/-- With `SUBSYS_PWR` in the uninitialised variable, the first option must not
be a stray one. -/
theorem not_unknown_of_always (hinj : Switches inj) (hrun : s.status = .running)
    (hcmd : s.cmd.toUInt32 = SUBSYS_PWR) {ls : List Text}
    (hexit : ∀ line ∈ ls, names line ≠ some "exit".toList)
    (h : Always (Loop.line inj) (fun s => s.status ≠ .exited) s ls) :
    ∀ line ∈ ls.find? (fun line => HasOption line), ¬ Unknown line := by
  induction ls with
  | nil => simp
  | cons line ls ih =>
      rw [always_cons] at h
      by_cases hopt : HasOption line
      · rw [List.find?_cons_of_pos (by simpa using hopt)]
        intro l hl hu
        obtain rfl := Option.mem_some_iff.mp hl
        obtain ⟨severity, hc⟩ := stray_iff.mp ⟨hu, hopt⟩
        apply h.2.head
        rw [line_eq inj hrun, hc, Loop.obey, Option.elim_none, set_state_exited hinj hcmd]
      · rw [List.find?_cons_of_neg (by simpa using hopt)]
        rw [line_no_option hrun (hexit line List.mem_cons_self) hopt] at h
        exact ih (fun l hl => hexit l (List.mem_cons_of_mem _ hl)) h.2

theorem always_of_cmd (hinj : Switches inj) (hrun : s.status = .running)
    (hcmd : s.cmd.toUInt32 ≠ SUBSYS_PWR) {ls : List Text}
    (hexit : ∀ line ∈ ls, names line ≠ some "exit".toList)
    (hpower : ∀ line ∈ ls, ¬ PowerCommand line) :
    Always (Loop.line inj) (fun s => s.status ≠ .exited) s ls := by
  induction ls generalizing s with
  | nil =>
      rw [always_nil, hrun]
      decide
  | cons line ls ih =>
      obtain ⟨hrun', hcmd'⟩ := line_survives hinj hrun (hexit line List.mem_cons_self)
        (hpower line List.mem_cons_self) (.inl hcmd)
      rw [always_cons, hrun]
      exact ⟨by decide, ih hrun' hcmd' (fun l hl => hexit l (List.mem_cons_of_mem _ hl))
        (fun l hl => hpower l (List.mem_cons_of_mem _ hl))⟩

/-- Up to the first option `cmd` may hold anything; from then on it holds what
the option was for. -/
theorem always_of_first_option (hinj : Switches inj) (hrun : s.status = .running) {ls : List Text}
    (hexit : ∀ line ∈ ls, names line ≠ some "exit".toList)
    (hpower : ∀ line ∈ ls, ¬ PowerCommand line)
    (hfirst : ∀ line ∈ ls.find? (fun line => HasOption line), ¬ Unknown line) :
    Always (Loop.line inj) (fun s => s.status ≠ .exited) s ls := by
  induction ls with
  | nil =>
      rw [always_nil, hrun]
      decide
  | cons line ls ih =>
      have hexit' : ∀ l ∈ ls, names l ≠ some "exit".toList :=
        fun l hl => hexit l (List.mem_cons_of_mem _ hl)
      have hpower' : ∀ l ∈ ls, ¬ PowerCommand l := fun l hl => hpower l (List.mem_cons_of_mem _ hl)
      rw [always_cons]
      refine ⟨by rw [hrun]; decide, ?_⟩
      by_cases hopt : HasOption line
      · -- from here on `cmd` holds what a line has put there
        rw [List.find?_cons_of_pos (by simpa using hopt)] at hfirst
        obtain ⟨hrun', hcmd'⟩ := line_survives hinj hrun (hexit line List.mem_cons_self)
          (hpower line List.mem_cons_self) (.inr ⟨hopt, hfirst line rfl⟩)
        exact always_of_cmd hinj hrun' hcmd' hexit' hpower'
      · rw [List.find?_cons_of_neg (by simpa using hopt)] at hfirst
        rw [line_no_option hrun (hexit line List.mem_cons_self) hopt]
        exact ih hexit' hpower' hfirst

theorem survives_switches (hinj : Switches inj) (b : β) {ls : List Text} (h : Recovery ls) :
    Survives inj b ls ↔ (∀ line ∈ ls, ¬ PowerCommand line) ∧
      ∀ line ∈ ls.find? (fun line => HasOption line), ¬ Unknown line := by
  constructor
  · intro hs
    -- the worst the uninitialised variable can hold
    have hcmd : SUBSYS_PWR.toUInt64.toUInt32 = SUBSYS_PWR := by decide
    have hpwr := hs SUBSYS_PWR.toUInt64
    exact ⟨not_power_of_always hinj rfl h.no_exit hpwr,
      not_unknown_of_always hinj rfl hcmd h.no_exit hpwr⟩
  · rintro ⟨hpower, hfirst⟩ cmd0
    exact always_of_first_option hinj rfl h.no_exit hpower hfirst

/-- **Recovery keeps the application running** exactly when no power command is
among the lines, whatever its severity, and the first line with an option does
not find the uninitialised `cmd`. -/
theorem survives_iff {ls : List Text} (h : Recovery ls) :
    (∀ b, Survives Preload.injector b ls ↔ (∀ line ∈ ls, ¬ PowerCommand line) ∧
      ∀ line ∈ ls.find? (fun line => HasOption line), ¬ Unknown line) ∧
    (∀ b, Survives Privileged.injector b ls ↔ (∀ line ∈ ls, ¬ PowerCommand line) ∧
      ∀ line ∈ ls.find? (fun line => HasOption line), ¬ Unknown line) :=
  ⟨fun b => survives_switches Preload.switches b h,
    fun b => survives_switches Privileged.switches b h⟩

theorem survives_iff_net :
    Recovery ["net 100\n".toList, "net 0\n".toList] ∧
    Survives Privileged.injector Privileged.initial ["net 100\n".toList, "net 0\n".toList] := by
  have h : Recovery ["net 100\n".toList, "net 0\n".toList] :=
    ⟨by decide +kernel, by decide +kernel⟩
  exact ⟨h, ((survives_iff h).2 _).mpr ⟨by decide +kernel, by decide +kernel⟩⟩

/-- The command the client writes when the node has recovered ends it. -/
theorem not_survives_power_zero :
    Recovery ["power 0\n".toList] ∧
    ¬ Survives Preload.injector Preload.initial ["power 0\n".toList] ∧
    ¬ Survives Privileged.injector Privileged.initial ["power 0\n".toList] := by
  refine ⟨⟨by decide +kernel, by decide +kernel⟩, fun h => ?_, fun h => ?_⟩
  all_goals
    have h0 := h 0
    rw [always_cons, always_nil] at h0
    exact absurd h0.2 (by decide +kernel)

end Backend

end LauSim
