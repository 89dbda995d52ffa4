/-
`client/src/client.c`: the loop of the client that turns the faults of the server
into commands on the FIFO.

One channel carries two things: the start signal of the server (a fault of the
node itself with severity 0) and the faults. The loop does not tell them apart
by what they say: the first fault it sees is taken for the start signal. This
file has the loop, with every write beside the fault it was made for, and the
exact condition under which that shortcut is harmless. Standard output is left
out.
-/
import LauSim.Lib.CText

set_option autoImplicit false

namespace LauSim

open CText

/-- `fault` of `client/include/interface.h`. No component is the NULL pointer. -/
structure ClientFault where
  component : Option Text
  severity : UInt32
  deriving DecidableEq, Repr

/-- The variable `synced` of `main`, and what was written to the FIFO. -/
structure Client where
  synced : Bool
  writes : List (ClientFault × Text)
  deriving DecidableEq, Repr

namespace Client

/-! ## The loop -/

def initial : Client := { synced := false, writes := [] }

/-- `fprintf (fifo, "%s %d\n", ...)`, with `power` for the node itself. -/
def command (f : ClientFault) : Text :=
  match f.component with
  | none => "power ".toList ++ (fmtD 32 f.severity.toNat ++ "\n".toList)
  | some c => c ++ (" ".toList ++ (fmtD 32 f.severity.toNat ++ "\n".toList))

/-- The body of the `for` loop. -/
def forward (s : Client) (f : ClientFault) : Client :=
  -- whatever the first fault says, it is taken for the start signal
  if !s.synced then { synced := true, writes := s.writes ++ [(f, "\n".toList)] }
  else { s with writes := s.writes ++ [(f, command f)] }

/-- The body of the `while` loop, for the list that `get_faults` returned. -/
def get_faults (s : Client) (flt : List ClientFault) : Client := flt.foldl forward s

/-- The `while` loop, until `req_stop` is set. -/
def loop (s : Client) (flts : List (List ClientFault)) : Client := flts.foldl get_faults s

/-- The bytes of some writes. -/
def text (ws : List (ClientFault × Text)) : Text := ws.flatMap Prod.snd

/-- Everything `main` puts into the FIFO. -/
def main (flts : List (List ClientFault)) : Text :=
  text (initial.loop flts).writes ++ "exit\n".toList

/-! ## What the loop writes -/

/-- How `get_faults` groups the faults makes no difference. -/
theorem loop_eq (s : Client) (flts : List (List ClientFault)) :
    s.loop flts = s.get_faults flts.flatten := by
  rw [loop, get_faults, List.foldl_flatten]
  rfl

/-- After the start signal every fault is written as its command. -/
theorem get_faults_of_synced {s : Client} (h : s.synced = true) (fs : List ClientFault) :
    s.get_faults fs = { s with writes := s.writes ++ fs.map (fun f => (f, command f)) } := by
  induction fs generalizing s with
  | nil => simp [get_faults]
  | cons f fs ih =>
      have hf : s.forward f = { s with writes := s.writes ++ [(f, command f)] } := by
        rw [forward, h]
        rfl
      have hcons : s.get_faults (f :: fs) = (s.forward f).get_faults fs := rfl
      rw [hcons, hf, ih (s := { s with writes := s.writes ++ [(f, command f)] }) h]
      simp

/-- The first fault opens the stream, whatever it is. -/
theorem get_faults_initial_cons (f : ClientFault) (fs : List ClientFault) :
    (initial.get_faults (f :: fs)).writes =
      (f, "\n".toList) :: fs.map (fun f => (f, command f)) := by
  have hcons : initial.get_faults (f :: fs) =
      ({ synced := true, writes := [(f, "\n".toList)] } : Client).get_faults fs := rfl
  rw [hcons, get_faults_of_synced rfl]
  rfl

theorem newline_not_mem_command_init (n : ℕ) {c : Text} (h : '\n' ∉ c) :
    '\n' ∉ c ++ (" ".toList ++ fmtD 32 n) := by
  simp only [List.mem_append, not_or]
  exact ⟨h, by simp, not_mem_fmtD (by decide) (by decide) 32 n⟩

/-- A command is one line exactly when its component has no newline. -/
theorem isLine_command_iff (f : ClientFault) :
    IsLine (command f) ↔ ∀ c ∈ f.component, '\n' ∉ c := by
  unfold command
  cases f.component with
  | none =>
      refine iff_of_true ⟨"power".toList ++ (" ".toList ++ fmtD 32 f.severity.toNat), ?_, ?_⟩ ?_
      · exact newline_not_mem_command_init _ (by simp)
      · simp
      · simp
  | some c =>
      constructor
      · rintro ⟨l, hl, heq⟩ d hd hmem
        obtain rfl : c = d := by simpa using hd
        -- without its last byte the command still begins with the component
        have hinit : c ++ (" ".toList ++ fmtD 32 f.severity.toNat) = l := by
          apply (List.append_left_inj ['\n']).mp
          rw [← heq]
          simp
        exact hl (hinit ▸ List.mem_append_left _ hmem)
      · intro h
        refine ⟨c ++ (" ".toList ++ fmtD 32 f.severity.toNat), ?_, by simp⟩
        exact newline_not_mem_command_init _ (h c rfl)

/-- No command is the start newline. -/
theorem command_ne_newline (f : ClientFault) : command f ≠ "\n".toList := by
  intro h
  have hmem : ' ' ∈ command f := by
    unfold command
    cases f.component with
    | none => simp
    | some c => simp
  rw [h] at hmem
  simp at hmem

/-! ## The start signal -/

/-- What `Server::send_synced_signal` sends. -/
def IsStart (f : ClientFault) : Prop := f.component = none ∧ f.severity = 0

instance : DecidablePred IsStart := fun f =>
  inferInstanceAs (Decidable (f.component = none ∧ f.severity = 0))

/-- What the writes `ws` should be for the faults `fs`: one write for each fault
in the order received, the start newline at most once and only for a start
signal, and one command line for every other fault. -/
structure Forwards (fs : List ClientFault) (ws : List (ClientFault × Text)) : Prop where
  in_order : ws.map Prod.fst = fs
  start_once : ws.countP (fun w => w.2 = "\n".toList) ≤ 1
  only_start : ∀ w ∈ ws, w.2 = "\n".toList → IsStart w.1
  one_line : ∀ w ∈ ws, ¬ IsStart w.1 → w.2 = command w.1 ∧ IsLine w.2

/-- The writes after the start newline hold no second one. -/
theorem countP_newline_commands (fs : List ClientFault) :
    (fs.map (fun f => (f, command f))).countP (fun w => w.2 = "\n".toList) = 0 := by
  rw [List.countP_eq_zero]
  intro w hw
  obtain ⟨f, -, rfl⟩ := List.mem_map.mp hw
  simpa using command_ne_newline f

/-- **The client takes no fault for the start signal** exactly when the first
fault of the run is one, and no fault has a component with a newline. -/
theorem forwards_iff (flts : List (List ClientFault)) :
    Forwards flts.flatten (initial.loop flts).writes ↔
      (∀ f ∈ flts.flatten.head?, IsStart f) ∧
        ∀ f ∈ flts.flatten, ∀ c ∈ f.component, '\n' ∉ c := by
  rw [loop_eq]
  cases hfs : flts.flatten with
  | nil => exact iff_of_true ⟨rfl, by decide, by simp [initial, get_faults],
      by simp [initial, get_faults]⟩ (by simp)
  | cons f fs =>
      rw [get_faults_initial_cons]
      constructor
      · -- the first fault wrote the newline, so it has to be the signal
        rintro ⟨-, -, hstart, hline⟩
        have hf : IsStart f := hstart _ List.mem_cons_self rfl
        refine ⟨by simpa using hf, fun g hg c hc => ?_⟩
        rcases List.mem_cons.mp hg with rfl | hg
        · rw [hf.1] at hc
          simp at hc
        · -- a fault with a component is no start signal, so its write is one line
          have hns : ¬ IsStart g := fun h => by rw [h.1] at hc; simp at hc
          have hmem : (g, command g) ∈ (f, "\n".toList) :: fs.map (fun f => (f, command f)) :=
            List.mem_cons_of_mem _ (List.mem_map_of_mem hg)
          exact (isLine_command_iff g).mp (hline _ hmem hns).2 c hc
      · rintro ⟨hstart, hnl⟩
        have hf : IsStart f := hstart f rfl
        refine ⟨?_, ?_, ?_, ?_⟩
        · simp [Function.comp_def]
        · rw [List.countP_cons, countP_newline_commands]
          split <;> omega
        · intro w hw hnewline
          rcases List.mem_cons.mp hw with rfl | hw
          · exact hf
          · obtain ⟨g, -, rfl⟩ := List.mem_map.mp hw
            exact absurd hnewline (command_ne_newline g)
        · intro w hw hns
          rcases List.mem_cons.mp hw with rfl | hw
          · exact absurd hf hns
          · obtain ⟨g, hg, rfl⟩ := List.mem_map.mp hw
            exact ⟨rfl, (isLine_command_iff g).mpr (hnl g (List.mem_cons_of_mem _ hg))⟩

/-- Without the sync option the server sends no start signal: the first fault
is lost. -/
theorem not_forwards_unsynced :
    ¬ Forwards [{ component := some "net".toList, severity := 100 }]
      (initial.loop [[{ component := some "net".toList, severity := 100 }]]).writes := by
  intro h
  have hs := h.only_start _ (List.mem_singleton.mpr rfl) rfl
  exact absurd hs (by decide)

end Client

end LauSim
