/-
How the lines come out of the FIFO: the waiting and the reading of
`client/src/backend.c`, around the command loop.

`lauSim_main` polls the *descriptor* with `select`, and takes its lines from
the buffered *stream* with `getline`, one for each wakeup. The two do not see
the same bytes: a read of the stream takes all bytes of the FIFO, up to the size
of its buffer, and `select` knows nothing of what is left in that buffer. The
same stream was read before by the `fgetc` of `lauSim_init`, which waits for the
start signal.

Here the client, the closing thread and the backend move in any order. The
client keeps its end open, so that the stream has no end. `written` and
`executed` record what the client wrote and which lines the loop body got.
-/
import LauSim.Lib.Runs
import LauSim.Preload
import LauSim.Privileged

set_option autoImplicit false

namespace LauSim

open Backend CText Runs

/-- Where the backend stands. -/
inductive Pc where
  /-- `lauSim_init`, in `fgetc` -/
  | fgetc
  /-- `lauSim_main`, in `select` -/
  | select
  /-- `lauSim_main`, in `getline` -/
  | getline
  /-- behind the loop, or at the end of the process -/
  | stopped
  deriving DecidableEq, Repr

/-- The FIFO, the stream over it, and the loop. -/
structure Fifo (β : Type) where
  /-- the bytes in the FIFO -/
  kernel : Text
  /-- the bytes the stream has read and not given out -/
  buffer : Text
  /-- the bytes of the line `getline` is reading -/
  gathered : Text
  pc : Pc
  loop : Loop β
  /-- `lauSim_req_close_fd` has data -/
  requested : Bool
  written : Text
  executed : List Text

/-- A move of the client, of the thread that closes the backend, or of the
backend. -/
inductive Move where
  | write (bytes : Text)
  | close
  | backend
  deriving DecidableEq, Repr

namespace Fifo

variable {β : Type} (inj : Injector β) (size : ℕ)

/-! ## The steps -/

/-- Before `lauSim_init`. Only the process that made the FIFO waits for the
start signal. -/
def start (fifo_created : Bool) (cmd0 : UInt64) (b : β) : Fifo β :=
  { kernel := [], buffer := [], gathered := [], pc := if fifo_created then .fgetc else .select
    loop := Loop.start cmd0 b, requested := false, written := [], executed := [] }

/-- The stream, with its buffer empty, reads what the FIFO has. -/
def read (s : Fifo β) : Fifo β :=
  { s with buffer := s.kernel.take size, kernel := s.kernel.drop size }

/-- `fgetc (fifo)` is the first use of the stream. -/
def fgetc (s : Fifo β) : Fifo β :=
  match s.kernel.take size with
  -- it waits for the first byte
  | [] => s
  | _ :: rest => { s.read size with buffer := rest, pc := .select }

/-- `select`, and the two tests behind it. -/
def select (s : Fifo β) : Fifo β :=
  -- the request is looked at first, whatever the FIFO has
  if s.requested then { s with loop := s.loop.leave inj, pc := .stopped }
  else if s.kernel = [] then s
  else { s with pc := .getline }

/-- One round of `getline`: a line that is complete in the buffer is returned,
and the loop body gets it; else the rest of the buffer is put aside, and the
stream reads again. -/
def getline (s : Fifo β) : Fifo β :=
  match strchr '\n' s.buffer with
  | some (l, rest) =>
    let line := s.gathered ++ l ++ ['\n']
    let loop := s.loop.line inj line
    { s with
      buffer := rest
      gathered := []
      loop := loop
      pc := if loop.status = .running then .select else .stopped
      executed := s.executed ++ [line] }
  | none => read size { s with gathered := s.gathered ++ s.buffer }

/-- One move. A backend that waits does not change. -/
def step (s : Fifo β) : Move → Fifo β
  | .write bytes => { s with kernel := s.kernel ++ bytes, written := s.written ++ bytes }
  | .close => { s with requested := true }
  | .backend =>
    match s.pc with
    | .fgetc => s.fgetc size
    | .select => s.select inj
    | .getline => s.getline inj size
    | .stopped => s

/-! ## What the backend has seen -/

/-- The bytes `fgetc` takes out of the stream before the first line. -/
def skipped (fifo_created : Bool) : ℕ := if fifo_created then 1 else 0

/-- Nothing is left waiting: when the loop sits in `select` with an empty FIFO
and no request, every complete line has gone through it. -/
def NoneWaiting (fifo_created : Bool) (loop0 : Loop β) (s : Fifo β) : Prop :=
  s.pc = .select → s.kernel = [] → s.requested = false →
    s.executed = completeLines (s.written.drop (skipped fifo_created)) ∧
      s.loop = lauSim_main inj loop0 s.executed

/-- Every byte is somewhere: skipped, executed, put aside, in the buffer or in the
FIFO. -/
structure Inv (fifo_created : Bool) (loop0 : Loop β) (s : Fifo β) : Prop where
  bytes : s.pc ≠ .fgetc → ∃ first, first.length = skipped fifo_created ∧
    s.written = first ++ (s.executed.flatten ++ (s.gathered ++ (s.buffer ++ s.kernel)))
  isLine : ∀ l ∈ s.executed, IsLine l
  gathered : '\n' ∉ s.gathered
  between : s.pc = .select → s.gathered = []
  loop : s.pc ≠ .stopped → s.loop = lauSim_main inj loop0 s.executed
  waiting : s.pc = .fgetc → fifo_created = true ∧ s.written = s.kernel ∧ s.executed = [] ∧
    s.gathered = []

variable {inj size} {fifo_created : Bool} {loop0 : Loop β} {s : Fifo β}

theorem inv_start (fifo_created : Bool) (cmd0 : UInt64) (b : β) :
    Inv inj fifo_created (Loop.start cmd0 b) (start fifo_created cmd0 b) where
  bytes h := by
    have hc : fifo_created = false := by
      by_contra hc
      simp [start, hc] at h
    exact ⟨[], by simp [skipped, hc], by simp [start]⟩
  isLine := by simp [start]
  gathered := by simp [start]
  between _ := rfl
  loop _ := rfl
  waiting h := by
    refine ⟨?_, rfl, rfl, rfl⟩
    by_contra hc
    simp [start, hc] at h

theorem inv_write (h : Inv inj fifo_created loop0 s) (bytes : Text) :
    Inv inj fifo_created loop0 (s.step inj size (.write bytes)) where
  bytes hpc := by
    obtain ⟨first, hlen, hw⟩ := h.bytes hpc
    refine ⟨first, hlen, ?_⟩
    simp only [step, hw, List.append_assoc]
  isLine := h.isLine
  gathered := h.gathered
  between := h.between
  loop := h.loop
  waiting hpc := by
    obtain ⟨hc, hw, he, hg⟩ := h.waiting hpc
    exact ⟨hc, by simp [step, hw], he, hg⟩

theorem inv_fgetc (h : Inv inj fifo_created loop0 s) (hpc : s.pc = .fgetc) :
    Inv inj fifo_created loop0 (s.fgetc size) := by
  unfold fgetc
  cases htake : s.kernel.take size with
  | nil => exact h
  | cons c rest =>
      obtain ⟨hc, hw, he, hg⟩ := h.waiting hpc
      refine ⟨fun _ => ⟨[c], by simp [skipped, hc], ?_⟩, h.isLine, h.gathered, fun _ => hg,
        fun _ => h.loop (by rw [hpc]; decide), by simp⟩
      -- the byte that `fgetc` returns is the one that is skipped
      have hsplit := List.take_append_drop size s.kernel
      rw [htake] at hsplit
      simp only [read, hw, he, hg, List.flatten_nil, List.nil_append]
      exact hsplit.symm

theorem inv_select (h : Inv inj fifo_created loop0 s) (hpc : s.pc = .select) :
    Inv inj fifo_created loop0 (s.select inj) := by
  have hbytes := h.bytes (by rw [hpc]; decide)
  have hloop := h.loop (by rw [hpc]; decide)
  unfold select
  by_cases hreq : s.requested
  · rw [if_pos hreq]
    exact ⟨fun _ => hbytes, h.isLine, h.gathered, by simp, by simp, by simp⟩
  · rw [if_neg hreq]
    by_cases hk : s.kernel = []
    · rw [if_pos hk]
      exact h
    · rw [if_neg hk]
      exact ⟨fun _ => hbytes, h.isLine, h.gathered, by simp, fun _ => hloop, by simp⟩

theorem inv_getline (h : Inv inj fifo_created loop0 s) (hpc : s.pc = .getline) :
    Inv inj fifo_created loop0 (s.getline inj size) := by
  obtain ⟨first, hlen, hw⟩ := h.bytes (by rw [hpc]; decide)
  have hloop := h.loop (by rw [hpc]; decide)
  have hspec := strchr_spec '\n' s.buffer
  unfold getline
  cases hchr : strchr '\n' s.buffer with
  | none =>
      -- the buffer is put aside, and filled from the FIFO
      rw [hchr] at hspec
      refine ⟨fun _ => ⟨first, hlen, ?_⟩, h.isLine, ?_, ?_, fun _ => hloop, ?_⟩
      · simp only [read, List.take_append_drop, List.append_assoc]
        exact hw
      · simp only [read, List.mem_append, not_or]
        exact ⟨h.gathered, hspec⟩
      · simp [read, hpc]
      · simp [read, hpc]
  | some p =>
      obtain ⟨l, rest⟩ := p
      rw [hchr] at hspec
      obtain ⟨hbuf, hl⟩ := hspec
      -- what was put aside and the front of the buffer are the line
      refine ⟨fun _ => ⟨first, hlen, ?_⟩, ?_, by simp, fun _ => rfl, fun _ => ?_, ?_⟩
      · simp only [hw, hbuf, List.flatten_append, List.flatten_singleton, List.append_assoc,
          List.nil_append, List.cons_append]
      · intro x hx
        rcases List.mem_append.mp hx with hx | hx
        · exact h.isLine x hx
        · obtain rfl := List.mem_singleton.mp hx
          refine ⟨s.gathered ++ l, ?_, rfl⟩
          simp only [List.mem_append, not_or]
          exact ⟨h.gathered, hl⟩
      · simp only [lauSim_main, List.foldl_append, List.foldl_cons, List.foldl_nil]
        rw [hloop, lauSim_main]
      · dsimp only
        split <;> simp

/-- **No byte is lost**, whatever the order of the moves. -/
theorem inv_step (h : Inv inj fifo_created loop0 s) (m : Move) :
    Inv inj fifo_created loop0 (s.step inj size m) := by
  cases m with
  | write bytes => exact inv_write h bytes
  | close => exact ⟨h.bytes, h.isLine, h.gathered, h.between, h.loop, h.waiting⟩
  | backend =>
      unfold step
      cases hpc : s.pc with
      | fgetc => exact inv_fgetc h hpc
      | select => exact inv_select h hpc
      | getline => exact inv_getline h hpc
      | stopped => exact h

/-! ## Lines behind the back of `select` -/

/-- In `select` with an empty FIFO, a line waits exactly when the buffer has
one. -/
theorem noneWaiting_iff (h : Inv inj fifo_created loop0 s) (hpc : s.pc = .select)
    (hk : s.kernel = []) (hreq : s.requested = false) :
    NoneWaiting inj fifo_created loop0 s ↔ '\n' ∉ s.buffer := by
  obtain ⟨first, hlen, hw⟩ := h.bytes (by rw [hpc]; decide)
  have hloop := h.loop (by rw [hpc]; decide)
  have hcomplete : completeLines (s.written.drop (skipped fifo_created)) =
      s.executed ++ completeLines s.buffer := by
    rw [hw, ← hlen, List.drop_left, h.between hpc, hk, List.nil_append, List.append_nil,
      completeLines_append h.isLine]
  constructor
  · intro hn
    have heq := (hn hpc hk hreq).1
    rw [hcomplete, List.self_eq_append_right] at heq
    exact completeLines_eq_nil_iff.mp heq
  · intro hbuf _ _ _
    rw [hcomplete, completeLines_eq_nil_iff.mpr hbuf, List.append_nil]
    exact ⟨rfl, hloop⟩

/-- The reads that empty the FIFO bring in one line at most, and none behind the
byte that `fgetc` is waiting for. -/
def OneLineRead (size : ℕ) (s : Fifo β) (m : Move) : Prop :=
  m = .backend → s.kernel.length ≤ size →
    (s.pc = .fgetc → '\n' ∉ s.kernel.tail) ∧
    (s.pc = .getline → '\n' ∉ s.buffer → s.kernel.count '\n' ≤ 1)

instance (size : ℕ) (s : Fifo β) (m : Move) : Decidable (OneLineRead size s m) :=
  inferInstanceAs (Decidable (m = .backend → s.kernel.length ≤ size →
    (s.pc = .fgetc → '\n' ∉ s.kernel.tail) ∧
    (s.pc = .getline → '\n' ∉ s.buffer → s.kernel.count '\n' ≤ 1)))

/-- With nothing in the FIFO to wake it up, the loop has no second line in the
buffer. -/
structure Clear (s : Fifo β) : Prop where
  select : s.kernel = [] → s.pc = .select → '\n' ∉ s.buffer
  getline : s.kernel = [] → s.pc = .getline → s.buffer.count '\n' ≤ 1

theorem clear_start (fifo_created : Bool) (cmd0 : UInt64) (b : β) :
    Clear (start fifo_created cmd0 b) :=
  ⟨fun _ _ => by simp [start], fun _ _ => by simp [start]⟩

theorem clear_fgetc (hpc : s.pc = .fgetc) (h : OneLineRead size s .backend) :
    Clear (s.fgetc size) := by
  unfold fgetc
  cases htake : s.kernel.take size with
  | nil => exact ⟨fun _ hpc' => by simp [hpc] at hpc', fun _ hpc' => by simp [hpc] at hpc'⟩
  | cons c rest =>
      refine ⟨fun hk _ => ?_, fun _ hpc' => by simp at hpc'⟩
      have hle : s.kernel.length ≤ size := List.drop_eq_nil_iff.mp hk
      have hkernel : s.kernel = c :: rest := by rw [← htake, List.take_of_length_le hle]
      have htail := (h rfl hle).1 hpc
      rw [hkernel] at htail
      exact htail

theorem clear_select (hs : Clear s) : Clear (s.select inj) := by
  unfold select
  by_cases hreq : s.requested
  · rw [if_pos hreq]
    exact ⟨fun _ hpc' => by simp at hpc', fun _ hpc' => by simp at hpc'⟩
  · rw [if_neg hreq]
    by_cases hk : s.kernel = []
    · rw [if_pos hk]
      exact hs
    · rw [if_neg hk]
      exact ⟨fun hk' => absurd hk' hk, fun hk' => absurd hk' hk⟩

theorem clear_getline (hs : Clear s) (hpc : s.pc = .getline)
    (h : OneLineRead size s .backend) : Clear (s.getline inj size) := by
  have hspec := strchr_spec '\n' s.buffer
  unfold getline
  cases hchr : strchr '\n' s.buffer with
  | none =>
      rw [hchr] at hspec
      refine ⟨fun _ hpc' => by simp [read, hpc] at hpc', fun hk _ => ?_⟩
      have hle : s.kernel.length ≤ size := List.drop_eq_nil_iff.mp hk
      simp only [read, List.take_of_length_le hle]
      exact (h rfl hle).2 hpc hspec
  | some p =>
      obtain ⟨l, rest⟩ := p
      rw [hchr] at hspec
      obtain ⟨hbuf, hl⟩ := hspec
      refine ⟨fun hk _ => ?_, fun _ hpc' => ?_⟩
      · -- the line that was taken had the only newline
        have hcount := hs.getline hk hpc
        rw [hbuf, List.count_append, List.count_cons_self] at hcount
        apply List.count_eq_zero.mp
        dsimp only
        omega
      · dsimp only at hpc'
        split at hpc' <;> simp at hpc'

theorem clear_step (hs : Clear s) (m : Move) (h : OneLineRead size s m) :
    Clear (s.step inj size m) := by
  cases m with
  | write bytes =>
      refine ⟨fun hk => ?_, fun hk => ?_⟩
      · exact hs.select (List.append_eq_nil_iff.mp hk).1
      · exact hs.getline (List.append_eq_nil_iff.mp hk).1
  | close => exact ⟨hs.select, hs.getline⟩
  | backend =>
      unfold step
      cases hpc : s.pc with
      | fgetc => exact clear_fgetc hpc h
      | select => exact clear_select hs
      | getline => exact clear_getline hs hpc h
      | stopped => exact hs

theorem noneWaiting_of_clear (h : Inv inj fifo_created loop0 s) (hs : Clear s) :
    NoneWaiting inj fifo_created loop0 s :=
  fun hpc hk hreq => (noneWaiting_iff h hpc hk hreq).mpr (hs.select hk hpc) hpc hk hreq

/-- **No command is left waiting** in any run in which no read that empties the
FIFO brings in two lines. -/
theorem noneWaiting_of_reads (inj : Injector β) (size : ℕ) (fifo_created : Bool) (cmd0 : UInt64)
    (b : β) (ms : List Move)
    (h : EachStep (step inj size) (OneLineRead size) (start fifo_created cmd0 b) ms) :
    Always (step inj size) (NoneWaiting inj fifo_created (Loop.start cmd0 b))
      (start fifo_created cmd0 b) ms := by
  have hinv : Always (step inj size)
      (fun s => Inv inj fifo_created (Loop.start cmd0 b) s ∧ Clear s)
      (start fifo_created cmd0 b) ms := by
    refine always_of_eachStep ⟨inv_start fifo_created cmd0 b, clear_start fifo_created cmd0 b⟩ ?_ h
    rintro s m ⟨hs, hc⟩ hm
    exact ⟨inv_step hs m, clear_step hc m hm⟩
  exact hinv.imp (fun s hs => noneWaiting_of_clear hs.1 hs.2)

/-- The moves of a client that waits for the backend. -/
def patient : List Move :=
  [.write "\n".toList, .backend, .write "net 1\n".toList, .backend, .backend, .backend,
    .write "net 0\n".toList, .backend, .backend, .backend]

theorem noneWaiting_of_reads_patient :
    EachStep (step Preload.injector 4096) (OneLineRead 4096) (start true 0 Preload.initial)
      patient ∧
    Always (step Preload.injector 4096)
      (NoneWaiting Preload.injector true (Loop.start 0 Preload.initial))
      (start true 0 Preload.initial) patient := by
  have h : EachStep (step Preload.injector 4096) (OneLineRead 4096)
      (start true 0 Preload.initial) patient := by
    decide +kernel
  exact ⟨h, noneWaiting_of_reads Preload.injector 4096 true 0 Preload.initial patient h⟩

/-- The client writes two commands before the backend comes round to reading:
the second one stays in the buffer. -/
theorem not_noneWaiting_two_lines :
    ¬ Always (step Preload.injector 4096)
      (NoneWaiting Preload.injector true (Loop.start 0 Preload.initial))
      (start true 0 Preload.initial)
      [.write "\n".toList, .backend, .write "net 1\n".toList, .write "net 0\n".toList,
        .backend, .backend, .backend] := by
  intro h
  have hlast := h _ (List.prefix_refl _)
  have hwaits := (hlast (by decide +kernel) (by decide +kernel) (by decide +kernel)).1
  exact absurd hwaits (by decide +kernel)

/-- The condition leaves out nothing harmless: a read that empties the FIFO and
brings in two lines leaves one waiting, if the loop gets back to `select`
before the client writes again. -/
theorem waits_of_two_lines (h : Inv inj fifo_created loop0 s) (hpc : s.pc = .getline)
    (hbuf : '\n' ∉ s.buffer) (hle : s.kernel.length ≤ size) (hcount : 2 ≤ s.kernel.count '\n')
    (hreq : s.requested = false)
    (hback : ((s.step inj size .backend).step inj size .backend).pc = .select) :
    ¬ NoneWaiting inj fifo_created loop0
      ((s.step inj size .backend).step inj size .backend) := by
  have hfirst : s.step inj size .backend =
      { s with gathered := s.gathered ++ s.buffer, buffer := s.kernel, kernel := [] } := by
    have hspec := strchr_spec '\n' s.buffer
    unfold step getline
    rw [hpc]
    dsimp only
    cases hchr : strchr '\n' s.buffer with
    | none => simp only [read, List.take_of_length_le hle, List.drop_of_length_le hle]
    | some p =>
        rw [hchr] at hspec
        exact absurd (hspec.1 ▸ List.mem_append_right _ List.mem_cons_self) hbuf
  have hinv : Inv inj fifo_created loop0 ((s.step inj size .backend).step inj size .backend) :=
    inv_step (inv_step h .backend) .backend
  rw [hfirst] at hback hinv ⊢
  have hspec := strchr_spec '\n' s.kernel
  unfold step getline at hback hinv ⊢
  simp only [hpc] at hback hinv ⊢
  cases hchr : strchr '\n' s.kernel with
  | none =>
      rw [hchr] at hspec
      have hzero := List.count_eq_zero.mpr hspec
      omega
  | some p =>
      -- the first line is taken, and the second is still in the buffer
      obtain ⟨l, rest⟩ := p
      rw [hchr] at hspec hback hinv
      rw [noneWaiting_iff hinv hback rfl hreq, not_not]
      apply List.count_pos_iff.mp
      have hl := List.count_eq_zero.mpr hspec.2
      rw [hspec.1, List.count_append, List.count_cons_self] at hcount
      dsimp only
      omega

end Fifo

end LauSim
