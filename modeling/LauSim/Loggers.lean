/-
The two loggers: `srv/stdoutLog.cpp` and the plugin filelogger.

Both are called from several threads at once: the main thread of the server and the threads
of the communication plugin. Both keep a smallest level and write one line for each message
that is not below it, under a mutex. They differ in what the mutex covers. The file logger
tests and sets the level with the lock held and writes the line with one `fprintf`. The
standard logger tests and sets the level without the lock, and writes the line in four pieces.

The threads and the lock are `Mutex`. The file is at all times what the calls made one after
the other leave (`file_linear`); the standard log is that too, up to a piece of the line that
is being written, if no thread sets the level meanwhile (`stdout_linear`), and then the lines
in both can be read back (`logs_read_back`).
-/
import LauSim.Lib.CText
import LauSim.Lib.Mutex
import LauSim.Server

set_option autoImplicit false

namespace LauSim

open CText

/-- The numbers of the enumeration. -/
def LogLevel.value : LogLevel → ℕ
  | .None => 0
  | .Debug => 1
  | .Info => 2
  | .Warning => 3
  | .Error => 4
  | .Fatal => 5

/-- `log_level_from_int`. -/
def log_level_from_int (level : UInt32) : LogLevel :=
  if level = 0 then .None
  else if level = 1 then .Debug
  else if level = 2 then .Info
  else if level = 3 then .Warning
  else if level = 4 then .Error
  else if level = 5 then .Fatal
  else .Warning

namespace Loggers

open Mutex

/-- The `switch` both loggers have. -/
def prefix_text : LogLevel → Text
  | .None => "[NONE] ".toList
  | .Debug => "[DEBUG]".toList
  | .Info => "[INFO] ".toList
  | .Warning => "[WARN] ".toList
  | .Error => "[ERROR]".toList
  | .Fatal => "[FATAL]".toList

/-- The line a message becomes. -/
def line (l : LogLevel) (msg : Text) : Text := prefix_text l ++ [' '] ++ msg ++ ['\n']

/-- A logger: the smallest level (`ll_min`, `lvl`) and what it has written. -/
structure Logger where
  level : LogLevel
  out : Text
  deriving DecidableEq, Repr

/-- A call through the interface `logger`. -/
inductive Call where
  | set_ll (l : LogLevel)
  | log_fun (l : LogLevel) (msg : Text)
  deriving DecidableEq, Repr

/-! ## One call at a time -/

/-- `log_stdout`. -/
def log_stdout (l : LogLevel) (str : Text) (s : Logger) : Logger :=
  if l.value < s.level.value then s
  else { s with out := s.out ++ prefix_text l ++ [' '] ++ str ++ ['\n'] }

/-- `set_min_log_level`. -/
def set_min_log_level (l : LogLevel) (s : Logger) : Logger := { s with level := l }

/-- `standard_log`. -/
def standard_log (s : Logger) : Call → Logger
  | .set_ll l => set_min_log_level l s
  | .log_fun l msg => log_stdout l msg s

/-- `logging_fun`. -/
def logging_fun (level : LogLevel) (msg : Text) (s : Logger) : Logger :=
  if s.level.value ≤ level.value then { s with out := s.out ++ line level msg } else s

/-- `set_log_level`. -/
def set_log_level (level : LogLevel) (s : Logger) : Logger := { s with level := level }

/-- `file_log`. -/
def file_log (s : Logger) : Call → Logger
  | .set_ll l => set_log_level l s
  | .log_fun l msg => logging_fun l msg s

/-- What the loggers agree on when nobody calls them at the same time. -/
theorem file_log_eq_standard_log : file_log = standard_log := by
  funext s c
  cases c with
  | set_ll l => rfl
  | log_fun l msg =>
      rw [file_log, standard_log, logging_fun, log_stdout]
      by_cases h : l.value < s.level.value
      · rw [if_neg (by omega), if_pos h]
      · rw [if_pos (by omega), if_neg h]
        simp [line]

/-! ## Calls of several threads -/

/-- The standard logger: the level is not protected, the stream is. A message that is not
below the level is written in four pieces. -/
def stdoutCode : Code Call Text LogLevel Text where
  before ll_min
    | .set_ll l => (l, none)
    | .log_fun l str =>
      (ll_min, if l.value < ll_min.value then none
        else some [prefix_text l, [' '], str, ['\n']])
  exec out piece := out ++ piece

/-- The file logger: level and file are protected, and each call is one section with one
access to them. -/
def fileCode : Code Call Call Unit Logger where
  before _ c := ((), some [c])
  exec := file_log

variable {τ : Type*} [DecidableEq τ]

theorem filter_enters_file (cs : List Call) : cs.filter (enters fileCode ()) = cs :=
  List.filter_eq_self.mpr fun _ _ => rfl

/-- The history behind the file. -/
theorem exists_file_history (s : Logger) (prog : τ → List Call) (ts : List τ) :
    ∃ hist : List (τ × Call),
      (run fileCode (start () s prog) ts).shared = (hist.map Prod.snd).foldl standard_log s ∧
      (∀ t, byThread t hist <+: prog t) ∧
      (Finished (run fileCode (start () s prog) ts) → ∀ t, byThread t hist = prog t) := by
  -- nothing is touched without the lock
  have hquiet : Quiet fileCode () prog := fun _ _ _ => rfl
  obtain ⟨hist, part, h, hdone⟩ := exists_explains hquiet s ts
  -- a section of one step is not begun or finished
  have hpart : part = [] := by
    rcases h.front with hpart | ⟨t, k, -, hpart, hne⟩
    · exact hpart
    · rcases List.prefix_cons_iff.mp hpart with hnil | ⟨rest, rfl, hrest⟩
      · exact hnil
      · rw [List.prefix_nil.mp hrest] at hne
        exact absurd rfl hne
  refine ⟨hist, ?_, fun t => ?_, fun hfin t => ?_⟩
  · rw [h.shared, hpart, List.append_nil, ← file_log_eq_standard_log]
    congr 1
    exact List.map_eq_flatMap.symm
  · have := h.order t
    rwa [filter_enters_file] at this
  · have := (hdone hfin).2 t
    rwa [filter_enters_file] at this

/-- **The file logger is linearizable.** Whatever the threads call and in whatever order they
run, level and file are at all times those of some sequence of calls made one after the other:
the first calls of each thread in the order of that thread, and all of them in the end. -/
theorem file_linear (s : Logger) (prog : τ → List Call) (ts : List τ) :
    ∃ hist : List (τ × Call),
      (run fileCode (start () s prog) ts).shared = (hist.map Prod.snd).foldl standard_log s ∧
      (∀ t, byThread t hist <+: prog t) ∧
      (Finished (run fileCode (start () s prog) ts) → ∀ t, byThread t hist = prog t) :=
  exists_file_history s prog ts

/-! ## The standard logger -/

/-- The calls write and do not set the level. -/
def OnlyLogs (prog : τ → List Call) : Prop := ∀ t, ∀ c ∈ prog t, ∃ l msg, c = .log_fun l msg

/-- The calls that write a line when the smallest level is `u`. -/
def heard (u : LogLevel) : Call → Bool
  | .set_ll _ => false
  | .log_fun l _ => decide (u.value ≤ l.value)

/-- What a call writes if it is heard. -/
def Call.line : Call → Text
  | .set_ll _ => []
  | .log_fun l msg => Loggers.line l msg

theorem enters_stdout (u : LogLevel) : enters stdoutCode u = heard u := by
  funext c
  cases c with
  | set_ll l => rfl
  | log_fun l msg =>
      rw [enters, stdoutCode, heard]
      by_cases h : l.value < u.value
      · simp [h]
      · simp [h, Nat.le_of_not_lt h]

theorem flatten_body_stdout {u : LogLevel} {c : Call} (h : heard u c = true) :
    (body stdoutCode u c).flatten = c.line := by
  cases c with
  | set_ll l => cases h
  | log_fun l msg =>
      have hl : ¬ l.value < u.value := Nat.not_lt.mpr (of_decide_eq_true h)
      simp [body, stdoutCode, hl, Call.line, line]

theorem foldl_append (out : Text) (pieces : List Text) :
    pieces.foldl stdoutCode.exec out = out ++ pieces.flatten := by
  induction pieces generalizing out with
  | nil => simp
  | cons p ps ih => rw [List.foldl_cons, ih, List.flatten_cons, stdoutCode, List.append_assoc]

/-- The text is that of the calls made one after the other. -/
theorem foldl_standard_log {u : LogLevel} {out : Text} {cs : List Call}
    (h : ∀ c ∈ cs, heard u c = true) :
    cs.foldl standard_log ⟨u, out⟩ = ⟨u, out ++ cs.flatMap Call.line⟩ := by
  induction cs generalizing out with
  | nil => simp
  | cons c cs ih =>
      have hc := h c List.mem_cons_self
      cases c with
      | set_ll l => cases hc
      | log_fun l msg =>
          have hl : ¬ l.value < u.value := Nat.not_lt.mpr (of_decide_eq_true hc)
          rw [List.foldl_cons, standard_log, log_stdout, if_neg hl,
            ih fun c hc => h c (List.mem_cons_of_mem _ hc)]
          simp [Call.line, line]

/-- A call of the history is a call of its thread. -/
theorem mem_byThread {hist : List (τ × Call)} {c : τ × Call} (h : c ∈ hist) :
    c.2 ∈ byThread c.1 hist := by
  simp only [byThread, List.mem_map, List.mem_filter, decide_eq_true_eq]
  exact ⟨c, ⟨h, rfl⟩, rfl⟩

/-- What the threads have put on the stream: the lines of `hist`, and a piece `front` of the
next line of one thread, without its end. -/
structure Written (u : LogLevel) (prog : τ → List Call) (out : Text) (hist : List (τ × Call))
    (front : Text) : Prop where
  out : out = hist.flatMap (fun c => c.2.line) ++ front
  order : ∀ t, byThread t hist <+: (prog t).filter (heard u)
  front : front = [] ∨ ∃ t c rest, byThread t hist ++ [c] <+: (prog t).filter (heard u) ∧
    rest ≠ [] ∧ c.line = front ++ rest

theorem Written.heard {u : LogLevel} {prog : τ → List Call} {out front : Text}
    {hist : List (τ × Call)} (h : Written u prog out hist front) :
    ∀ c ∈ hist, Loggers.heard u c.2 = true := by
  intro c hc
  exact (List.mem_filter.mp ((h.order c.1).subset (mem_byThread hc))).2

/-- The last piece of a line is not empty. -/
theorem flatten_ne_nil_of_append_eq_body {u : LogLevel} {c : Call} {part rest : List Text}
    (h : part ++ rest = body stdoutCode u c) (hc : Loggers.heard u c = true) (hrest : rest ≠ []) :
    rest.flatten ≠ [] := by
  have hlast : rest.getLast hrest = ['\n'] := by
    cases c with
    | set_ll l => cases hc
    | log_fun l msg =>
        have hl : ¬ l.value < u.value := Nat.not_lt.mpr (of_decide_eq_true hc)
        have hbody : part ++ rest = [prefix_text l, [' '], msg] ++ [['\n']] := by
          rw [h]
          simp [body, stdoutCode, hl]
        have hne : part ++ rest ≠ [] := List.append_ne_nil_of_right_ne_nil part hrest
        rw [← List.getLast_append_of_ne_nil hne hrest]
        simp only [hbody, List.getLast_append_singleton]
  intro hnil
  have := List.flatten_eq_nil_iff.mp hnil _ (List.getLast_mem hrest)
  rw [hlast] at this
  cases this

theorem exists_written {u : LogLevel} {prog : τ → List Call} (h : OnlyLogs prog) (ts : List τ) :
    ∃ hist front, Written u prog (run stdoutCode (start u [] prog) ts).shared hist front ∧
      (Finished (run stdoutCode (start u [] prog) ts) →
        front = [] ∧ ∀ t, byThread t hist = (prog t).filter (heard u)) := by
  have hquiet : Quiet stdoutCode u prog := by
    intro t c hc
    obtain ⟨l, msg, rfl⟩ := h t c hc
    rfl
  obtain ⟨hist, part, hex, hdone⟩ := exists_explains hquiet [] ts
  rw [enters_stdout] at hdone
  obtain ⟨hshared, horder, hfront⟩ := hex
  rw [enters_stdout] at horder hfront
  have hheard : ∀ c ∈ hist, heard u c.2 = true := fun c hc =>
    (List.mem_filter.mp ((horder c.1).subset (mem_byThread hc))).2
  refine ⟨hist, part.flatten, ⟨?_, horder, ?_⟩, fun hfin => ?_⟩
  · rw [hshared, foldl_append, List.nil_append, List.flatten_append, List.flatMap_def,
      List.flatten_flatten, List.map_map, List.flatMap_def]
    congr 2
    exact List.map_congr_left fun c hc => flatten_body_stdout (hheard c hc)
  · rcases hfront with rfl | ⟨t, c, hnext, ⟨rest, hrest⟩, hne⟩
    · exact Or.inl rfl
    · have hc : heard u c = true := by
        have hmem : c ∈ byThread t hist ++ [c] := by simp
        exact (List.mem_filter.mp (hnext.subset hmem)).2
      refine Or.inr ⟨t, c, rest.flatten, hnext, ?_, ?_⟩
      · apply flatten_ne_nil_of_append_eq_body hrest hc
        rintro rfl
        exact hne (by simpa using hrest)
      · rw [← flatten_body_stdout hc, ← hrest, List.flatten_append]
  · rw [(hdone hfin).1]
    exact ⟨rfl, (hdone hfin).2⟩

/-- **Lines are not torn.** As long as no thread sets the level, the stream holds at all times
what some sequence of calls made one after the other would have written, and then at most a
piece of one line, which the thread whose call is next in its order is writing. Each thread's
messages that are not below the level come in its order, and all of them in the end. -/
theorem stdout_linear (u : LogLevel) (prog : τ → List Call) (h : OnlyLogs prog)
    (ts : List τ) :
    ∃ (hist : List (τ × Call)) (front : Text),
      (run stdoutCode (start u [] prog) ts).shared
        = ((hist.map Prod.snd).foldl standard_log ⟨u, []⟩).out ++ front ∧
      (∀ t, byThread t hist <+: (prog t).filter (heard u)) ∧
      (front = [] ∨ ∃ t c rest, byThread t hist ++ [c] <+: (prog t).filter (heard u) ∧
        rest ≠ [] ∧ c.line = front ++ rest) ∧
      (Finished (run stdoutCode (start u [] prog) ts) →
        front = [] ∧ ∀ t, byThread t hist = (prog t).filter (heard u)) := by
  obtain ⟨hist, front, hw, hdone⟩ := exists_written (u := u) h ts
  refine ⟨hist, front, ?_, hw.order, hw.front, hdone⟩
  rw [hw.out, foldl_standard_log (List.forall_mem_map.mpr hw.heard), List.flatMap_map,
    List.nil_append]

/-- Two threads that write at the same time, the second one first below the level. -/
def talk : Bool → List Call
  | true => [.log_fun .Info "cleaning up".toList]
  | false => [.log_fun .Debug "recieved message on backchannel".toList,
      .log_fun .Error "Could not write to file".toList]

/-- They take turns until both are done. -/
def turns : List Bool := [true, false, false, true] ++ (List.replicate 12 [false, true]).flatten

theorem onlyLogs_talk : OnlyLogs talk := by
  intro t c hc
  cases t with
  | true => exact ⟨_, _, List.mem_singleton.mp hc⟩
  | false =>
      rcases List.mem_cons.mp hc with rfl | hc
      · exact ⟨_, _, rfl⟩
      · exact ⟨_, _, List.mem_singleton.mp hc⟩

theorem finished_talk : Finished (run stdoutCode (start .Info [] talk) turns) := by
  intro t
  cases t <;> exact ⟨rfl, rfl⟩

theorem stdout_linear_talk :
    ∃ (hist : List (Bool × Call)) (front : Text),
      (run stdoutCode (start .Info [] talk) turns).shared
        = ((hist.map Prod.snd).foldl standard_log ⟨.Info, []⟩).out ++ front ∧
      front = [] ∧ ∀ t, byThread t hist = (talk t).filter (heard .Info) := by
  obtain ⟨hist, front, hout, -, -, hdone⟩ := stdout_linear .Info talk onlyLogs_talk turns
  exact ⟨hist, front, hout, hdone finished_talk⟩

/-- A thread raises the level and then writes, while another one stands between its test and
the lock. -/
def raising : Bool → List Call
  | true => [.log_fun .Debug "a".toList]
  | false => [.set_ll .Fatal, .log_fun .Fatal "b".toList]

-- the level was raised before `b` was written, and a message below it comes after `b`
example : (run stdoutCode (start .None [] raising)
    ([true] ++ List.replicate 8 false ++ List.replicate 6 true)).shared
      = line .Fatal "b".toList ++ line .Debug "a".toList := by decide

/-! ## Reading a log -/

/-- The level a line begins with. -/
def level_of (head : Text) : Option LogLevel :=
  [LogLevel.None, .Debug, .Info, .Warning, .Error, .Fatal].find?
    (fun l => decide (prefix_text l = head))

/-- A line taken apart: seven bytes for the level, a blank, the message, a newline. -/
def read_line (x : Text) : Option (LogLevel × Text) :=
  (level_of (x.take 7)).map fun l => (l, (x.drop 8).dropLast)

/-- The messages in a log, up to its last newline. -/
def read_log (out : Text) : List (LogLevel × Text) := (completeLines out).filterMap read_line

/-- The message of a call. -/
def Call.message : Call → Option (LogLevel × Text)
  | .set_ll _ => none
  | .log_fun l msg => some (l, msg)

theorem read_line_line (l : LogLevel) (msg : Text) : read_line (line l msg) = some (l, msg) := by
  have hlen : (prefix_text l).length = 7 := by cases l <;> rfl
  have htake : (line l msg).take 7 = prefix_text l := by
    rw [line, List.append_assoc, List.append_assoc, ← hlen, List.take_left]
  have hdrop : (line l msg).drop 8 = msg ++ ['\n'] := by
    rw [line, List.append_assoc, List.drop_append_of_le_length]
    · simp [hlen]
    · simp [hlen]
  have hlevel : level_of (prefix_text l) = some l := by cases l <;> decide
  rw [read_line, htake, hdrop, hlevel]
  simp

/-- A message without a newline is one line. -/
theorem isLine_line (l : LogLevel) {msg : Text} (h : '\n' ∉ msg) : IsLine (line l msg) := by
  refine ⟨prefix_text l ++ [' '] ++ msg, ?_, rfl⟩
  have hp : '\n' ∉ prefix_text l := by cases l <;> decide
  simp [hp, h]

/-- No message has a newline in it. -/
def NoNewline (prog : τ → List Call) : Prop :=
  ∀ t, ∀ c ∈ prog t, ∀ m ∈ c.message, '\n' ∉ m.2

/-- What a heard call writes is read back. -/
theorem read_line_call {u : LogLevel} {c : Call} (h : heard u c = true) :
    read_line c.line = c.message := by
  cases c with
  | set_ll l => cases h
  | log_fun l msg => exact read_line_line l msg

theorem isLine_call {u : LogLevel} {c : Call} (h : heard u c = true)
    (hm : ∀ m ∈ c.message, '\n' ∉ m.2) : IsLine c.line := by
  cases c with
  | set_ll l => cases h
  | log_fun l msg => exact isLine_line l (hm (l, msg) rfl)

/-- A piece of a line without its end has no newline. -/
theorem not_mem_of_isLine {x front rest : Text} (h : IsLine x) (hrest : rest ≠ [])
    (hx : x = front ++ rest) : '\n' ∉ front := by
  obtain ⟨m, hm, rfl⟩ := h
  rw [← List.dropLast_append_getLast hrest, ← List.append_assoc] at hx
  have hm' : m = front ++ rest.dropLast := (List.append_inj' hx rfl).1
  rw [hm', List.mem_append, not_or] at hm
  exact hm.1

/-- The messages in a log are the first ones of each thread that are not below the level,
each once and in the order of that thread, and all of them if the threads are done. -/
def ReadsBack (u : LogLevel) (prog : τ → List Call) (out : Text) (done : Prop) : Prop :=
  ∃ hist : List (τ × Call), read_log out = hist.filterMap (fun c => c.2.message) ∧
    (∀ t, byThread t hist <+: (prog t).filter (heard u)) ∧
    (done → ∀ t, byThread t hist = (prog t).filter (heard u))

/-- Heard calls, and a piece of a line behind them. -/
theorem read_log_append {u : LogLevel} {prog : τ → List Call} (hnl : NoNewline prog)
    {hist : List (τ × Call)} (horder : ∀ t, byThread t hist <+: (prog t).filter (heard u))
    {front : Text} (hfront : '\n' ∉ front) :
    read_log (hist.flatMap (fun c => c.2.line) ++ front)
      = hist.filterMap (fun c => c.2.message) := by
  have hmem : ∀ c ∈ hist, c.2 ∈ prog c.1 ∧ heard u c.2 = true := fun c hc =>
    List.mem_filter.mp ((horder c.1).subset (mem_byThread hc))
  have hlines : ∀ x ∈ hist.map (fun c => c.2.line), IsLine x := by
    refine List.forall_mem_map.mpr fun c hc => ?_
    exact isLine_call (hmem c hc).2 (hnl c.1 c.2 (hmem c hc).1)
  rw [read_log, List.flatMap_def, completeLines_append hlines,
    completeLines_eq_nil_iff.mpr hfront, List.append_nil, List.filterMap_map]
  exact List.filterMap_congr fun c hc => read_line_call (hmem c hc).2

theorem stdout_read_back (u : LogLevel) (prog : τ → List Call) (h : OnlyLogs prog)
    (hnl : NoNewline prog) (ts : List τ) :
    ReadsBack u prog (run stdoutCode (start u [] prog) ts).shared
      (Finished (run stdoutCode (start u [] prog) ts)) := by
  obtain ⟨hist, front, hw, hdone⟩ := exists_written (u := u) h ts
  have hfront : '\n' ∉ front := by
    rcases hw.front with rfl | ⟨t, c, rest, hnext, hrest, hline⟩
    · exact List.not_mem_nil
    · -- the line that is being written
      have hmem : c ∈ byThread t hist ++ [c] := by simp
      obtain ⟨hprog, hheard⟩ := List.mem_filter.mp (hnext.subset hmem)
      exact not_mem_of_isLine (isLine_call hheard (hnl t c hprog)) hrest hline
  refine ⟨hist, ?_, hw.order, fun hfin => (hdone hfin).2⟩
  rw [hw.out]
  exact read_log_append hnl hw.order hfront

/-- A call that is not heard leaves the logger alone. -/
theorem foldl_standard_log_filter {u : LogLevel} {out : Text} {cs : List Call}
    (h : ∀ c ∈ cs, ∃ l msg, c = .log_fun l msg) :
    cs.foldl standard_log ⟨u, out⟩ = ⟨u, out ++ (cs.filter (heard u)).flatMap Call.line⟩ := by
  induction cs generalizing out with
  | nil => simp
  | cons c cs ih =>
      obtain ⟨l, msg, rfl⟩ := h c List.mem_cons_self
      have hrest := fun c hc => h c (List.mem_cons_of_mem _ hc)
      rw [List.foldl_cons, standard_log, log_stdout]
      by_cases hl : l.value < u.value
      · rw [if_pos hl, ih hrest, List.filter_cons_of_neg (by simp [heard, hl])]
      · have hheard : heard u (.log_fun l msg) = true := by
          rw [heard]
          exact decide_eq_true (Nat.not_lt.mp hl)
        rw [if_neg hl, ih hrest, List.filter_cons_of_pos hheard, List.flatMap_cons]
        simp [Call.line, line]

theorem byThread_filter (t : τ) (q : Call → Bool) (hist : List (τ × Call)) :
    byThread t (hist.filter (fun c => q c.2)) = (byThread t hist).filter q := by
  rw [byThread, byThread, List.filter_map, List.filter_filter, List.filter_filter]
  congr 2
  funext c
  exact Bool.and_comm _ _

theorem file_read_back (u : LogLevel) (prog : τ → List Call) (h : OnlyLogs prog)
    (hnl : NoNewline prog) (ts : List τ) :
    ReadsBack u prog (run fileCode (start () ⟨u, []⟩ prog) ts).shared.out
      (Finished (run fileCode (start () ⟨u, []⟩ prog) ts)) := by
  obtain ⟨hist, hout, horder, hdone⟩ := exists_file_history ⟨u, []⟩ prog ts
  have hlogs : ∀ c ∈ hist.map Prod.snd, ∃ l msg, c = .log_fun l msg := by
    refine List.forall_mem_map.mpr fun c hc => ?_
    exact h c.1 c.2 ((horder c.1).subset (mem_byThread hc))
  have horder' : ∀ t, byThread t (hist.filter (fun c => heard u c.2))
      <+: (prog t).filter (heard u) := by
    intro t
    rw [byThread_filter]
    exact (horder t).filter _
  refine ⟨hist.filter (fun c => heard u c.2), ?_, horder', fun hfin t => ?_⟩
  · have hread := read_log_append hnl horder' List.not_mem_nil
    rw [List.append_nil] at hread
    rw [hout, foldl_standard_log_filter hlogs, ← hread, List.filter_map, List.flatMap_map]
    rfl
  · rw [byThread_filter, hdone hfin t]

/-- **A log reads back.** If no thread sets the level and no message has a newline in it, the
messages in the log are at all times the first ones of each thread that are not below the
level, each once and in the order of that thread, and all of them in the end: on the standard
stream and in the file. -/
theorem logs_read_back (u : LogLevel) (prog : τ → List Call) (h : OnlyLogs prog)
    (hnl : NoNewline prog) (ts : List τ) :
    ReadsBack u prog (run stdoutCode (start u [] prog) ts).shared
        (Finished (run stdoutCode (start u [] prog) ts)) ∧
      ReadsBack u prog (run fileCode (start () ⟨u, []⟩ prog) ts).shared.out
        (Finished (run fileCode (start () ⟨u, []⟩ prog) ts)) :=
  ⟨stdout_read_back u prog h hnl ts, file_read_back u prog h hnl ts⟩

theorem logs_read_back_talk :
    ReadsBack .Info talk (run stdoutCode (start .Info [] talk) turns).shared True ∧
      ReadsBack .Info talk (run fileCode (start () ⟨.Info, []⟩ talk) turns).shared.out True := by
  have hnl : NoNewline talk := by
    intro t c hc m hm
    cases t <;> simp only [talk, List.mem_cons, List.not_mem_nil, or_false] at hc
    · rcases hc with rfl | rfl <;> cases hm <;> decide
    · subst hc
      cases hm
      decide
  have hfile : Finished (run fileCode (start () ⟨.Info, []⟩ talk) turns) := by
    intro t
    cases t <;> exact ⟨rfl, rfl⟩
  obtain ⟨⟨hist, hread, horder, hdone⟩, hist', hread', horder', hdone'⟩ :=
    logs_read_back .Info talk onlyLogs_talk hnl turns
  exact ⟨⟨hist, hread, horder, fun _ => hdone finished_talk⟩,
    hist', hread', horder', fun _ => hdone' hfile⟩

end Loggers

end LauSim
