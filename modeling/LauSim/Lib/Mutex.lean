/-
Threads and one lock.

Each thread has a list of calls to make. A call first does what it does without the lock:
it may read and write the unprotected part of the state, and it decides whether to go on.
If it does, the thread asks for the lock, makes the micro-steps of its critical section one
by one, and gives the lock back. A schedule is a list of threads, the one whose turn it is;
a thread that waits for a lock somebody else holds loses its turn.

`exists_explains`: if the calls leave the unprotected part as it is, then after every schedule
the protected part is what the sections make of it one after the other, in the order in which
they were entered, and each thread's sections stand in that order as in its own program.
-/
import LauSim.Lib.Runs

set_option autoImplicit false

namespace Mutex

variable {τ κ ε υ σ : Type*} [DecidableEq τ]

/-- What the calls do: `before` without the lock (the new unprotected part, and the
micro-steps of the critical section, if the call enters it), `exec` with it. -/
structure Code (κ ε υ σ : Type*) where
  before : υ → κ → υ × Option (List ε)
  exec : σ → ε → σ

/-- Where a thread is. -/
inductive Place (κ ε : Type*) where
  | idle
  -- at the lock operation, with the section of the call
  | waiting (k : κ) (es : List ε)
  -- the lock is held; what is left of the section
  | inside (k : κ) (es : List ε)

structure State (τ κ ε υ σ : Type*) where
  free : υ
  shared : σ
  holder : Option τ
  place : τ → Place κ ε
  todo : τ → List κ

def start (u : υ) (s : σ) (prog : τ → List κ) : State τ κ ε υ σ :=
  { free := u, shared := s, holder := none, place := fun _ => .idle, todo := prog }

variable (code : Code κ ε υ σ)

/-- One turn of thread `t`. -/
def turn (st : State τ κ ε υ σ) (t : τ) : State τ κ ε υ σ :=
  match st.place t with
  | .idle =>
    match st.todo t with
    | [] => st
    | k :: ks =>
      match code.before st.free k with
      -- the call returns without the lock
      | (u, none) => { st with free := u, todo := Function.update st.todo t ks }
      | (u, some es) =>
        { st with free := u, todo := Function.update st.todo t ks,
                  place := Function.update st.place t (.waiting k es) }
  | .waiting k es =>
    match st.holder with
    | some _ => st
    | none => { st with holder := some t, place := Function.update st.place t (.inside k es) }
  | .inside k (e :: es) =>
    { st with shared := code.exec st.shared e,
              place := Function.update st.place t (.inside k es) }
  | .inside _ [] => { st with holder := none, place := Function.update st.place t .idle }

/-- A run: the threads take their turns. -/
def run (st : State τ κ ε υ σ) (ts : List τ) : State τ κ ε υ σ := ts.foldl (turn code) st

/-- The call enters its section. -/
def enters (u : υ) (k : κ) : Bool := (code.before u k).2.isSome

/-- The micro-steps of the call. -/
def body (u : υ) (k : κ) : List ε := (code.before u k).2.getD []

/-- The calls of one thread in a history of all threads. -/
def byThread (t : τ) (hist : List (τ × κ)) : List κ :=
  (hist.filter (fun c => decide (c.1 = t))).map Prod.snd

omit [DecidableEq τ] in
/-- The call a thread is in. -/
def Place.call : Place κ ε → List κ
  | .idle => []
  | .waiting k _ => [k]
  | .inside k _ => [k]

/-- Nothing is left to do. -/
def Finished (st : State τ κ ε υ σ) : Prop := ∀ t, st.place t = .idle ∧ st.todo t = []

/-- The calls leave the unprotected part as it is. -/
def Quiet (u : υ) (prog : τ → List κ) : Prop := ∀ t, ∀ k ∈ prog t, (code.before u k).1 = u

@[simp] theorem byThread_nil (t : τ) : byThread t ([] : List (τ × κ)) = [] := rfl

theorem byThread_append_self (t : τ) (hist : List (τ × κ)) (k : κ) :
    byThread t (hist ++ [(t, k)]) = byThread t hist ++ [k] := by
  simp [byThread]

theorem byThread_append_ne {t t' : τ} (h : t' ≠ t) (hist : List (τ × κ)) (k : κ) :
    byThread t (hist ++ [(t', k)]) = byThread t hist := by
  simp [byThread, h]

/-- What holds of one thread with the calls `prog`, of which it has finished `mine`: its calls
are done in order, and it is inside exactly when it holds the lock, with the micro-steps
`part` of its section behind it. -/
def Fine (u : υ) (prog : List κ) (holds : Prop) (mine : List κ) (part : List ε)
    (place : Place κ ε) (todo : List κ) : Prop :=
  mine ++ place.call ++ todo.filter (enters code u) = prog.filter (enters code u) ∧
    (∀ k ∈ todo, (code.before u k).1 = u) ∧
    match place with
    | .idle => ¬ holds
    | .waiting k es => ¬ holds ∧ (code.before u k).2 = some es
    | .inside k es => holds ∧ (code.before u k).2 = some (part ++ es)

/-- The state `st` comes from `s` by the finished sections `hist`, in this order, and the
first micro-steps `part` of the section that is under way. -/
structure Linear (u : υ) (s : σ) (prog : τ → List κ) (st : State τ κ ε υ σ)
    (hist : List (τ × κ)) (part : List ε) : Prop where
  free : st.free = u
  shared : st.shared = (hist.flatMap (fun c => body code u c.2) ++ part).foldl code.exec s
  open_part : st.holder = none → part = []
  fine : ∀ t, Fine code u (prog t) (st.holder = some t) (byThread t hist) part
    (st.place t) (st.todo t)

variable {code} {u : υ} {s : σ} {prog : τ → List κ} {st : State τ κ ε υ σ}
variable {hist : List (τ × κ)} {part : List ε}

theorem linear_start (h : Quiet code u prog) :
    Linear code u s prog (start u s prog) [] [] where
  free := rfl
  shared := rfl
  open_part := fun _ => rfl
  fine := fun t => ⟨rfl, h t, by simp [start]⟩

/-- A thread that does not hold the lock is not concerned by what happens inside. -/
theorem Fine.congr {p : List κ} {holds holds' : Prop} {mine : List κ} {part' : List ε}
    {place : Place κ ε} {todo : List κ} (h : Fine code u p holds mine part place todo)
    (hno : ¬ holds) (hno' : ¬ holds') : Fine code u p holds' mine part' place todo := by
  obtain ⟨horder, hquiet, hplace⟩ := h
  refine ⟨horder, hquiet, ?_⟩
  cases place with
  | idle => exact hno'
  | waiting k es => exact ⟨hno', hplace.2⟩
  | inside k es => exact absurd hplace.1 hno

/-- Thread `t` begins its next call. -/
theorem Linear.begin (h : Linear code u s prog st hist part) {t : τ} {k : κ} {ks : List κ}
    (hplace : st.place t = .idle) (htodo : st.todo t = k :: ks) :
    Linear code u s prog (turn code st t) hist part := by
  obtain ⟨horder, hquiet, hno⟩ := hplace ▸ htodo ▸ h.fine t
  have hfree : (code.before u k).1 = u := hquiet k List.mem_cons_self
  have hks : ∀ k ∈ ks, (code.before u k).1 = u := fun k' hk' =>
    hquiet k' (List.mem_cons_of_mem _ hk')
  rw [List.filter_cons] at horder
  rcases hbefore : code.before u k with ⟨u', _ | es⟩
  · -- it returns early
    have hu : u' = u := by rw [hbefore] at hfree; exact hfree
    have hpass : enters code u k = false := by rw [enters, hbefore]; rfl
    rw [hpass] at horder
    have hturn : turn code st t = { st with todo := Function.update st.todo t ks } := by
      simp only [turn, hplace, htodo, h.free, hbefore, hu]
    rw [hturn]
    refine ⟨h.free, h.shared, h.open_part, ?_⟩
    refine (Function.forall_update_iff st.todo fun t' todo => Fine code u (prog t')
      (st.holder = some t') (byThread t' hist) part (st.place t') todo).mpr
      ⟨?_, fun t' _ => h.fine t'⟩
    rw [hplace]
    exact ⟨horder, hks, hno⟩
  · have hu : u' = u := by rw [hbefore] at hfree; exact hfree
    have hpass : enters code u k = true := by rw [enters, hbefore]; rfl
    rw [hpass] at horder
    have hturn : turn code st t = { st with
        todo := Function.update st.todo t ks
        place := Function.update st.place t (.waiting k es) } := by
      simp only [turn, hplace, htodo, h.free, hbefore, hu]
    rw [hturn]
    refine ⟨h.free, h.shared, h.open_part, fun t' => ?_⟩
    by_cases ht : t' = t
    · subst ht
      simp only [Function.update_self]
      refine ⟨?_, hks, hno, by rw [hbefore]⟩
      rw [← horder]
      simp [Place.call]
    · simp only [Function.update_of_ne ht]
      exact h.fine t'

/-- Thread `t` takes the lock. -/
theorem Linear.lock (h : Linear code u s prog st hist part) {t : τ} {k : κ} {es : List ε}
    (hplace : st.place t = .waiting k es) (hnone : st.holder = none) :
    Linear code u s prog (turn code st t) hist part := by
  have hpart : part = [] := h.open_part hnone
  obtain ⟨horder, hquiet, -, hes⟩ := hplace ▸ h.fine t
  simp only [turn, hplace, hnone]
  refine ⟨h.free, h.shared, fun hc => by simp at hc, ?_⟩
  refine (Function.forall_update_iff st.place fun t' place => Fine code u (prog t')
    (some t = some t') (byThread t' hist) part place (st.todo t')).mpr ⟨?_, fun t' ht => ?_⟩
  · exact ⟨horder, hquiet, rfl, by rw [hpart]; exact hes⟩
  · refine (h.fine t').congr (by simp [hnone]) fun heq => ht (Option.some.inj heq).symm

/-- Thread `t` makes a micro-step of its section. -/
theorem Linear.exec (h : Linear code u s prog st hist part) {t : τ} {k : κ} {e : ε}
    {es : List ε} (hplace : st.place t = .inside k (e :: es)) :
    Linear code u s prog (turn code st t) hist (part ++ [e]) := by
  obtain ⟨horder, hquiet, hholds, hes⟩ := hplace ▸ h.fine t
  simp only [turn, hplace]
  refine ⟨h.free, ?_, fun hc => absurd (hc.symm.trans hholds) (by simp), ?_⟩
  · rw [← List.append_assoc, List.foldl_append, ← h.shared]
    rfl
  refine (Function.forall_update_iff st.place fun t' place => Fine code u (prog t')
    (st.holder = some t') (byThread t' hist) (part ++ [e]) place (st.todo t')).mpr
    ⟨?_, fun t' ht => ?_⟩
  · exact ⟨horder, hquiet, hholds, by rw [hes]; simp⟩
  · have hno : st.holder ≠ some t' := fun heq => ht (by simpa [heq] using hholds)
    exact (h.fine t').congr hno hno

/-- Thread `t` gives the lock back: its section is finished. -/
theorem Linear.unlock (h : Linear code u s prog st hist part) {t : τ} {k : κ}
    (hplace : st.place t = .inside k []) :
    Linear code u s prog (turn code st t) (hist ++ [(t, k)]) [] := by
  obtain ⟨horder, hquiet, hholds, hes⟩ := hplace ▸ h.fine t
  rw [List.append_nil] at hes
  simp only [turn, hplace]
  refine ⟨h.free, ?_, fun _ => rfl, ?_⟩
  · have hbody : body code u k = part := by rw [body, hes]; rfl
    rw [h.shared]
    simp [hbody]
  refine (Function.forall_update_iff st.place fun t' place => Fine code u (prog t')
    (none = some t') (byThread t' (hist ++ [(t, k)])) [] place (st.todo t')).mpr
    ⟨?_, fun t' ht => ?_⟩
  · refine ⟨?_, hquiet, by simp⟩
    rw [byThread_append_self, ← horder]
    simp [Place.call]
  · rw [byThread_append_ne (Ne.symm ht)]
    have hno : st.holder ≠ some t' := fun heq => ht (by simpa [heq] using hholds)
    exact (h.fine t').congr hno (by simp)

theorem Linear.turn (h : Linear code u s prog st hist part) (t : τ) :
    ∃ hist' part', Linear code u s prog (turn code st t) hist' part' := by
  cases hplace : st.place t with
  | idle =>
      cases htodo : st.todo t with
      | nil => exact ⟨hist, part, by simpa only [Mutex.turn, hplace, htodo] using h⟩
      | cons k ks => exact ⟨hist, part, h.begin hplace htodo⟩
  | waiting k es =>
      cases hholder : st.holder with
      | none => exact ⟨hist, part, h.lock hplace hholder⟩
      | some t' => exact ⟨hist, part, by simpa only [Mutex.turn, hplace, hholder] using h⟩
  | inside k es =>
      cases es with
      | nil => exact ⟨hist ++ [(t, k)], [], h.unlock hplace⟩
      | cons e es => exact ⟨hist, part ++ [e], h.exec hplace⟩

theorem exists_linear (h : Quiet code u prog) (s : σ) (ts : List τ) :
    ∃ hist part, Linear code u s prog (run code (start u s prog) ts) hist part := by
  have hinv : Runs.Always (Mutex.turn code)
      (fun st => ∃ hist part, Linear code u s prog st hist part) (start u s prog) ts :=
    Runs.always_of_step ⟨[], [], linear_start h⟩ (fun st t ⟨_, _, hl⟩ => hl.turn t) ts
  exact hinv ts List.prefix_rfl

/-- The section that is under way belongs to one call, the next one of its thread. -/
theorem Linear.part_eq (h : Linear code u s prog st hist part) :
    part = [] ∨ ∃ t k, byThread t hist ++ [k] <+: (prog t).filter (enters code u) ∧
      part <+: body code u k := by
  cases hholder : st.holder with
  | none => exact Or.inl (h.open_part hholder)
  | some t =>
      obtain ⟨horder, -, hplace⟩ := h.fine t
      cases hp : st.place t with
      | idle => rw [hp] at hplace; exact absurd hholder hplace
      | waiting k es => rw [hp] at hplace; exact absurd hholder hplace.1
      | inside k es =>
          rw [hp] at hplace horder
          refine Or.inr ⟨t, k, ⟨(st.todo t).filter (enters code u), horder⟩, es, ?_⟩
          rw [body, hplace.2]
          rfl

/-- When all threads are done, each has finished its whole program and nothing is under way. -/
theorem Linear.finished (h : Linear code u s prog st hist part) (hdone : Finished st) :
    part = [] ∧ ∀ t, byThread t hist = (prog t).filter (enters code u) := by
  constructor
  · apply h.open_part
    cases hholder : st.holder with
    | none => rfl
    | some t =>
        have hplace := (h.fine t).2.2
        rw [(hdone t).1] at hplace
        exact absurd hholder hplace
  · intro t
    have horder := (h.fine t).1
    rw [(hdone t).1, (hdone t).2] at horder
    simpa [Place.call] using horder

variable (code) in
/-- The protected part `x` is what the sections of `hist` make of `s` one after the other, and
then the front piece `part` of one more section: the next one of some thread. Each thread's
sections are the first ones of its program, in its order. -/
structure Explains (u : υ) (s : σ) (prog : τ → List κ) (x : σ) (hist : List (τ × κ))
    (part : List ε) : Prop where
  shared : x = (hist.flatMap (fun c => body code u c.2) ++ part).foldl code.exec s
  order : ∀ t, byThread t hist <+: (prog t).filter (enters code u)
  front : part = [] ∨ ∃ t k, byThread t hist ++ [k] <+: (prog t).filter (enters code u) ∧
    part <+: body code u k ∧ part ≠ body code u k

/-- **Critical sections do not mix.** Whatever the schedule, there is an order of the sections
that explains the protected part; when all threads are done, each has run its whole program. -/
theorem exists_explains (h : Quiet code u prog) (s : σ) (ts : List τ) :
    ∃ hist part, Explains code u s prog (run code (start u s prog) ts).shared hist part ∧
      (Finished (run code (start u s prog) ts) →
        part = [] ∧ ∀ t, byThread t hist = (prog t).filter (enters code u)) := by
  obtain ⟨hist, part, hl⟩ := exists_linear h s ts
  have hfirst : ∀ t, byThread t hist <+: (prog t).filter (enters code u) := by
    intro t
    rw [← (hl.fine t).1, List.append_assoc]
    exact List.prefix_append _ _
  rcases hl.part_eq with hpart | ⟨t, k, hnext, hpart⟩
  · exact ⟨hist, part, ⟨hl.shared, hfirst, Or.inl hpart⟩, hl.finished⟩
  by_cases hall : part = body code u k
  · -- all of the section is done, only the lock is not given back yet
    refine ⟨hist ++ [(t, k)], [], ⟨?_, fun t' => ?_, Or.inl rfl⟩, fun hdone => ⟨rfl, fun t' => ?_⟩⟩
    · rw [hl.shared, hall]
      simp
    · by_cases ht : t = t'
      · subst ht
        rw [byThread_append_self]
        exact hnext
      · rw [byThread_append_ne ht]
        exact hfirst t'
    · -- then somebody holds it, and not all are done
      have hlen := hnext.length_le
      rw [← (hl.finished hdone).2 t, List.length_append, List.length_singleton] at hlen
      omega
  · exact ⟨hist, part, ⟨hl.shared, hfirst, Or.inr ⟨t, k, hnext, hpart, hall⟩⟩, hl.finished⟩

end Mutex
