/-
What the socket table tracks when the hooks overlap.

`is_in_list` gives the lock back before it compares the index of its loop with `num_fds`, and
`accept` believes it. If the table changes between the look and the comparison, a connection may
be taken for a network socket that is none, or the other way round. So the table is right only
if nobody changes it while a thread stands there (`Calm`). And it knows no listener that the
program has got without a hooked call, by inheritance or with `dup`, so connections come from
sockets of hooked calls only (`Known`). `table_exact`: then, whatever the other steps of the
hooks do in between, the table has of the descriptors nobody is opening or closing exactly the
network sockets that are not shut down. As in `Hooks` it is a list of descriptors.
-/
import LauSim.Hooks

set_option autoImplicit false

namespace LauSim.Hooks

open Preload Runs

variable {τ : Type} [DecidableEq τ]

/-- The thread is about to change the table. -/
def Place.changes : Place → Bool
  | .adding _ => true
  | .removing _ => true
  | .switching => true
  | _ => false

/-- The thread is in `is_in_list`, before the look or behind it. -/
def Place.judging : Place → Bool
  | .looking _ _ => true
  | .counting _ _ => true
  | _ => false

/-- No other thread changes the table while one is in `is_in_list`. -/
def Calm (s : Threads τ) (ta : τ × Act) : Prop :=
  (s.place ta.1).changes = true → ∀ t, t ≠ ta.1 → (s.place t).judging = false

instance [Fintype τ] (s : Threads τ) (ta : τ × Act) : Decidable (Calm s ta) :=
  inferInstanceAs (Decidable (_ → _))

/-- A connection comes from a socket that a hooked call has made, that is not shut down, and
that no thread is opening or closing. -/
def Known (s : Threads τ) (ta : τ × Act) : Prop :=
  match ta.2 with
  | .accept sock ret =>
    s.place ta.1 = .app → 0 ≤ ret →
      (∃ d ∈ s.shared.socks, d.fd = sock ∧ d.shut = false) ∧ ∀ t, (s.place t).holds ≠ some sock
  | _ => True

instance [Fintype τ] (s : Threads τ) (ta : τ × Act) : Decidable (Known s ta) :=
  match ta with
  | (t, .accept sock ret) => inferInstanceAs (Decidable (s.place t = .app → 0 ≤ ret →
      (∃ d ∈ s.shared.socks, d.fd = sock ∧ d.shut = false) ∧ ∀ t, (s.place t).holds ≠ some sock))
  | (_, .socket _ _) => inferInstanceAs (Decidable True)
  | (_, .close _) => inferInstanceAs (Decidable True)
  | (_, .set_net _) => inferInstanceAs (Decidable True)
  | (_, .file _) => inferInstanceAs (Decidable True)
  | (_, .go) => inferInstanceAs (Decidable True)

/-- What a place knows about the socket it is about to add. -/
def Judged (sh : Preload) : Place → Prop
  | .adding fd => ∀ d ∈ sh.socks, d.fd = fd → d.net = true ∧ d.shut = false
  | .looking sock fd =>
    0 ≤ fd → ∀ d ∈ sh.socks, d.fd = fd → (sock ∈ sh.table ↔ d.net = true) ∧ d.shut = false
  | .counting i fd =>
    0 ≤ fd → ∀ d ∈ sh.socks, d.fd = fd → (i < sh.table.length ↔ d.net = true) ∧ d.shut = false
  | _ => True

/-- The table is right, up to the calls that are under way. -/
structure Exact (s : Threads τ) : Prop where
  nonneg : ∀ d ∈ s.shared.socks, 0 ≤ d.fd
  entries : ∀ d ∈ s.shared.socks, d.fd ∈ s.shared.table → d.net = true ∧ d.shut = false
  judged : ∀ t, Judged s.shared (s.place t)
  all : ∀ d ∈ s.shared.socks, d.net = true → d.shut = false →
    d.fd ∈ s.shared.table ∨ ∃ t, (s.place t).holds = some d.fd

/-- What is judged stays right as long as the socket does, and the table too if it is needed. -/
theorem Judged.frame {sh sh' : Preload} {p : Place} (h : Judged sh p)
    (hsocks : ∀ fd, p.fresh = some fd → ∀ d ∈ sh'.socks, d.fd = fd → d ∈ sh.socks)
    (htable : sh'.table = sh.table ∨ p.judging = false) : Judged sh' p := by
  cases p with
  | adding fd =>
      intro d hd hfd
      exact h d (hsocks fd rfl d hd hfd) hfd
  | looking sock fd =>
      intro hle d hd hfd
      have hfresh : (Place.looking sock fd).fresh = some fd := if_neg (by omega)
      rw [htable.resolve_right (by simp [Place.judging])]
      exact h hle d (hsocks fd hfresh d hd hfd) hfd
  | counting i fd =>
      intro hle d hd hfd
      have hfresh : (Place.counting i fd).fresh = some fd := if_neg (by omega)
      rw [htable.resolve_right (by simp [Place.judging])]
      exact h hle d (hsocks fd hfresh d hd hfd) hfd
  | app => trivial
  | removing fd => trivial
  | closing fd => trivial
  | switching => trivial
  | marking => trivial

/-- **Step rule.** -/
theorem Exact.moved {s : Threads τ} (h : Exact s) {t : τ} {sh : Preload} {files : List Int}
    {p : Place} (hnonneg : ∀ d ∈ sh.socks, 0 ≤ d.fd)
    (hentries : ∀ d ∈ sh.socks, d.fd ∈ sh.table → d.net = true ∧ d.shut = false)
    (hmine : Judged sh p)
    (hsocks : ∀ t', t' ≠ t → ∀ fd, (s.place t').fresh = some fd →
      ∀ d ∈ sh.socks, d.fd = fd → d ∈ s.shared.socks)
    (htable : sh.table = s.shared.table ∨ ∀ t', t' ≠ t → (s.place t').judging = false)
    (hall : ∀ d ∈ sh.socks, d.net = true → d.shut = false →
      d.fd ∈ sh.table ∨ p.holds = some d.fd ∨ ∃ t', t' ≠ t ∧ (s.place t').holds = some d.fd) :
    Exact { shared := sh, files := files, place := Function.update s.place t p } := by
  refine ⟨hnonneg, hentries, ?_, fun d hd hnet hshut => ?_⟩
  · refine (Function.forall_update_iff s.place fun _ p => Judged sh p).mpr
      ⟨hmine, fun t' ht => (h.judged t').frame (hsocks t' ht) ?_⟩
    exact htable.imp id fun hcalm => hcalm t' ht
  · rcases hall d hd hnet hshut with hin | hp | ⟨t', ht, hholds⟩
    · exact Or.inl hin
    · exact Or.inr ⟨t, by dsimp only; rw [Function.update_self]; exact hp⟩
    · exact Or.inr ⟨t', by dsimp only; rw [Function.update_of_ne ht]; exact hholds⟩

omit [DecidableEq τ] in
/-- Who holds a socket outside the table: `t` or another thread. -/
theorem Exact.all_cases {s : Threads τ} (h : Exact s) (t : τ) {d : Sock}
    (hd : d ∈ s.shared.socks) (hnet : d.net = true) (hshut : d.shut = false) :
    d.fd ∈ s.shared.table ∨ (s.place t).holds = some d.fd ∨
      ∃ t', t' ≠ t ∧ (s.place t').holds = some d.fd := by
  rcases h.all d hd hnet hshut with hin | ⟨t', hholds⟩
  · exact Or.inl hin
  · by_cases ht : t' = t
    · exact Or.inr (Or.inl (ht ▸ hholds))
    · exact Or.inr (Or.inr ⟨t', ht, hholds⟩)

/-- The sockets stay as they are. What goes out of the table is held by the thread, and so is
what it held or it comes in. -/
theorem Exact.retabled {s : Threads τ} (h : Exact s) {t : τ} {sh : Preload} {files : List Int}
    {p : Place} (hsocks : sh.socks = s.shared.socks)
    (hentries : ∀ d ∈ s.shared.socks, d.fd ∈ sh.table → d.net = true ∧ d.shut = false)
    (hmine : Judged sh p)
    (htable : sh.table = s.shared.table ∨ ∀ t', t' ≠ t → (s.place t').judging = false)
    (hall : ∀ d ∈ s.shared.socks, d.net = true → d.shut = false →
      d.fd ∈ s.shared.table ∨ (s.place t).holds = some d.fd →
        d.fd ∈ sh.table ∨ p.holds = some d.fd) :
    Exact { shared := sh, files := files, place := Function.update s.place t p } := by
  refine h.moved ?_ ?_ hmine ?_ htable ?_
  · rw [hsocks]
    exact h.nonneg
  · rw [hsocks]
    exact hentries
  · rw [hsocks]
    exact fun _ _ _ _ d hd _ => hd
  · rw [hsocks]
    intro d hd hnet hshut
    rcases h.all_cases t hd hnet hshut with hin | hholds | hother
    · exact (hall d hd hnet hshut (Or.inl hin)).imp_right Or.inl
    · exact (hall d hd hnet hshut (Or.inr hholds)).imp_right Or.inl
    · exact Or.inr (Or.inr hother)

/-- Table and sockets stay as they are, and the thread keeps what it holds. -/
theorem Exact.replaced {s : Threads τ} (h : Exact s) {t : τ} {sh : Preload} {files : List Int}
    {p : Place} (htable : sh.table = s.shared.table) (hsocks : sh.socks = s.shared.socks)
    (hmine : Judged sh p)
    (hholds : ∀ d ∈ s.shared.socks, d.net = true → d.shut = false →
      (s.place t).holds = some d.fd → p.holds = some d.fd) :
    Exact { shared := sh, files := files, place := Function.update s.place t p } := by
  refine h.retabled hsocks ?_ hmine (Or.inl htable) fun d hd hnet hshut hold => ?_
  · rw [htable]
    exact h.entries
  · rw [htable]
    exact hold.imp_right (hholds d hd hnet hshut)

/-! ## The steps -/

theorem mem_socks_opened {ret : Int} {net : Bool} {sh : Preload} {d : Sock} :
    d ∈ (opened ret net sh).socks ↔
      d ∈ sh.socks ∨ (0 ≤ ret ∧ d = { fd := ret, net := net, shut := false }) := by
  unfold opened
  split
  · next hneg =>
    have : ¬ 0 ≤ ret := by omega
    simp [this]
  · next hneg => simp [not_lt.mp hneg]

/-- A new socket, which its thread holds if it is to be tracked. -/
theorem Exact.opened {s : Threads τ} (h : Exact s) (hsound : Sound s) {t : τ} {ret : Int}
    {net : Bool} {p : Place} (hplace : s.place t = .app) (hret : 0 ≤ ret → ¬ Open s ret)
    (hmine : Judged (opened ret net s.shared) p)
    (hp : 0 ≤ ret → net = true → p.holds = some ret) :
    Exact { shared := opened ret net s.shared, files := s.files,
            place := Function.update s.place t p } := by
  have htable : (Preload.opened ret net s.shared).table = s.shared.table := table_opened ret net _
  refine h.moved ?_ ?_ hmine ?_ (Or.inl htable) ?_
  · intro d hd
    rcases mem_socks_opened.mp hd with hold | ⟨hle, rfl⟩
    · exact h.nonneg d hold
    · exact hle
  · intro d hd hin
    rw [htable] at hin
    rcases mem_socks_opened.mp hd with hold | ⟨hle, rfl⟩
    · exact h.entries d hold hin
    · exact absurd (Or.inl (hsound.live ret hin)) (hret hle)
  · intro t' _ fd hfresh d hd hfd
    rcases mem_socks_opened.mp hd with hold | ⟨hle, rfl⟩
    · exact hold
    · -- what another thread holds is open, so it is not the new one
      have hopen : Open s fd := hsound.holds_open (holds_of_fresh hfresh)
      rw [← hfd] at hopen
      exact absurd hopen (hret hle)
  · intro d hd hnet hshut
    rw [htable]
    rcases mem_socks_opened.mp hd with hold | ⟨hle, rfl⟩
    · refine (h.all_cases t hold hnet hshut).imp_right (Or.imp_left fun hholds => ?_)
      rw [hplace] at hholds
      cases hholds
    · exact Or.inr (Or.inl (hp hle hnet))

omit [DecidableEq τ] in
/-- The socket with a number. -/
theorem eq_of_fd {s : Threads τ} (hsound : Sound s) {d d' : Sock} (hd : d ∈ s.shared.socks)
    (hd' : d' ∈ s.shared.socks) (hfd : d.fd = d'.fd) : d = d' :=
  List.inj_on_of_nodup_map hsound.fds hd hd' hfd

omit [DecidableEq τ] in
/-- The table knows the sockets that nobody is opening or closing. -/
theorem Exact.mem_table_iff {s : Threads τ} (h : Exact s) {d : Sock} (hd : d ∈ s.shared.socks)
    (hfree : ∀ t, (s.place t).holds ≠ some d.fd) :
    d.fd ∈ s.shared.table ↔ d.net = true ∧ d.shut = false := by
  constructor
  · exact h.entries d hd
  · rintro ⟨hnet, hshut⟩
    rcases h.all d hd hnet hshut with hin | ⟨t, hholds⟩
    · exact hin
    · exact absurd hholds (hfree t)

theorem Exact.accepted {s : Threads τ} (h : Exact s) (hsound : Sound s) {t : τ}
    {sock ret : Int} (hplace : s.place t = .app) (hret : 0 ≤ ret → ¬ Open s ret)
    (hknown : 0 ≤ ret → (∃ d ∈ s.shared.socks, d.fd = sock ∧ d.shut = false) ∧
      ∀ t, (s.place t).holds ≠ some sock) :
    Exact { shared := Preload.opened ret (isNet s.shared sock) s.shared, files := s.files,
            place := Function.update s.place t (.looking sock ret) } := by
  refine h.opened hsound hplace hret ?_ fun hle _ => ?_
  · intro hle d hd hfd
    obtain ⟨⟨listener, hlistener, rfl, hup⟩, hfree⟩ := hknown hle
    have htable : (Preload.opened ret (isNet s.shared listener.fd) s.shared).table
        = s.shared.table := table_opened _ _ _
    rcases mem_socks_opened.mp hd with hold | ⟨-, rfl⟩
    · exact absurd (Or.inl (List.mem_map.mpr ⟨d, hold, hfd⟩)) (hret hle)
    refine ⟨?_, rfl⟩
    -- the table knows the listener, and the kernel says what it is
    rw [htable, h.mem_table_iff hlistener hfree]
    have hnet : isNet s.shared listener.fd = true ↔ listener.net = true := by
      rw [isNet, List.any_eq_true]
      constructor
      · rintro ⟨d', hd', heq⟩
        rw [Bool.and_eq_true, beq_iff_eq] at heq
        rw [← eq_of_fd hsound hd' hlistener heq.1]
        exact heq.2
      · intro hnet
        exact ⟨listener, hlistener, by rw [hnet]; simp⟩
    exact ⟨fun hl => hnet.mpr hl.1, fun hl => ⟨hnet.mp hl, hup⟩⟩
  · rw [Place.holds, Place.fresh, if_neg (by omega)]
    rfl

theorem Exact.added {s : Threads τ} (h : Exact s) (hsound : Sound s) {t : τ} {fd : Int}
    (hplace : s.place t = .adding fd)
    (hcalm : ∀ t', t' ≠ t → (s.place t').judging = false) :
    Exact { shared := (add_sock_to_list fd s.shared).2, files := s.files,
            place := Function.update s.place t .app } := by
  have hsocks : (add_sock_to_list fd s.shared).2.socks = s.shared.socks := socks_add_sock fd _
  have hfresh : (s.place t).fresh = some fd := by rw [hplace]; rfl
  obtain ⟨d₀, hd₀, hfd₀⟩ := List.mem_map.mp ((hsound.fits t).1 fd hfresh).1
  have hle : 0 ≤ fd := hfd₀ ▸ h.nonneg d₀ hd₀
  have hmem : ∀ x, x ∈ (add_sock_to_list fd s.shared).2.table ↔ x ∈ s.shared.table ∨ x = fd := by
    intro x
    rw [table_add_sock, if_pos hle, Option.toList_some, List.mem_append, List.mem_singleton]
  have hjudged : Judged s.shared (.adding fd) := hplace ▸ h.judged t
  refine h.retabled hsocks ?_ trivial (Or.inr hcalm) fun d _ _ _ hold => Or.inl ?_
  · intro d hd hin
    rcases (hmem d.fd).mp hin with hold | hfd
    · exact h.entries d hd hold
    · exact hjudged d hd hfd
  · refine (hmem d.fd).mpr (hold.imp_right fun hholds => ?_)
    rw [hplace] at hholds
    exact (Option.some.inj hholds).symm

theorem Exact.removed {s : Threads τ} (h : Exact s) (hsound : Sound s) {t : τ} {fd : Int}
    (hplace : s.place t = .removing fd)
    (hcalm : ∀ t', t' ≠ t → (s.place t').judging = false) :
    Exact { shared := (remove_sock_from_list fd s.shared).2, files := s.files,
            place := Function.update s.place t (.closing fd) } := by
  have hsocks : (remove_sock_from_list fd s.shared).2.socks = s.shared.socks :=
    socks_remove_sock fd _
  have hmem : ∀ x, x ∈ (remove_sock_from_list fd s.shared).2.table ↔
      x ∈ s.shared.table ∧ x ≠ fd := by
    intro x
    rw [table_remove_sock_of_nodup hsound.table fd, List.mem_filter, bne_iff_ne]
  refine h.retabled hsocks ?_ trivial (Or.inr hcalm) fun d _ _ _ hold => ?_
  · exact fun d hd hin => h.entries d hd ((hmem d.fd).mp hin).1
  · -- the entry that goes is the one the thread will close
    by_cases hfd : d.fd = fd
    · exact Or.inr (congrArg some hfd.symm)
    · refine Or.inl ((hmem d.fd).mpr ⟨hold.resolve_right fun hholds => ?_, hfd⟩)
      rw [hplace] at hholds
      exact hfd (Option.some.inj hholds).symm

theorem Exact.closed {s : Threads τ} (h : Exact s) {t : τ} {fd : Int}
    (hplace : s.place t = .closing fd) {files : List Int} :
    Exact { shared := close_fd fd s.shared, files := files,
            place := Function.update s.place t .app } := by
  have hmem : ∀ d, d ∈ (close_fd fd s.shared).socks ↔ d ∈ s.shared.socks ∧ d.fd ≠ fd := by
    intro d
    rw [close_fd, List.mem_filter, bne_iff_ne]
  refine h.moved ?_ ?_ trivial ?_ (Or.inl rfl) ?_
  · exact fun d hd => h.nonneg d ((hmem d).mp hd).1
  · exact fun d hd hin => h.entries d ((hmem d).mp hd).1 hin
  · exact fun _ _ _ _ d hd _ => ((hmem d).mp hd).1
  · intro d hd hnet hshut
    obtain ⟨hold, hne⟩ := (hmem d).mp hd
    refine (h.all_cases t hold hnet hshut).imp_right (Or.imp_left fun hholds => ?_)
    rw [hplace] at hholds
    exact absurd (Option.some.inj hholds).symm hne

theorem Exact.shut {s : Threads τ} (h : Exact s) (hsound : Sound s) {t : τ}
    (hplace : s.place t = .switching)
    (hcalm : ∀ t', t' ≠ t → (s.place t').judging = false) :
    Exact { shared := shut_all s.shared, files := s.files,
            place := Function.update s.place t .marking } := by
  -- a socket that is not shut down now was not in the table
  have hmem : ∀ d ∈ (shut_all s.shared).socks, ∃ d' ∈ s.shared.socks, d'.fd = d.fd ∧
      (d'.fd ∉ s.shared.table → d = d') ∧ (d'.fd ∈ s.shared.table → d.shut = true) := by
    intro d hd
    obtain ⟨d', hd', rfl⟩ := List.mem_map.mp hd
    refine ⟨d', hd', ?_, fun hnot => ?_, fun hin => ?_⟩
    · split
      · rfl
      · rfl
    · rw [if_neg]
      simpa using hnot
    · rw [if_pos]
      simpa using hin
  refine h.moved ?_ ?_ trivial ?_ (Or.inr hcalm) ?_
  · intro d hd
    obtain ⟨d', hd', hfd, -⟩ := hmem d hd
    exact hfd ▸ h.nonneg d' hd'
  · intro d _ hin
    cases hin
  · intro t' _ fd hfresh d hd hfd
    obtain ⟨d', hd', hfd', hsame, -⟩ := hmem d hd
    rw [hsame (by rw [hfd', hfd]; exact ((hsound.fits t').1 fd hfresh).2)]
    exact hd'
  · intro d hd hnet hshut
    obtain ⟨d', hd', hfd, hsame, hdown⟩ := hmem d hd
    have hnot : d'.fd ∉ s.shared.table := fun hin => by
      rw [hdown hin] at hshut
      cases hshut
    obtain rfl : d = d' := hsame hnot
    rcases h.all_cases t hd' hnet hshut with hin | hholds | hother
    · exact absurd hin hnot
    · rw [hplace] at hholds
      cases hholds
    · exact Or.inr (Or.inr hother)

theorem exact_step {s : Threads τ} {ta : τ × Act} (h : Exact s) (hsound : Sound s)
    (hl : Legal s ta) (hknown : Known s ta) (hcalm : Calm s ta) : Exact (step s ta) := by
  obtain ⟨t, a⟩ := ta
  obtain ⟨sh, files, p, hmoves, hstep⟩ := step_moves s t a
  rw [hstep]
  clear hstep
  have hquiet : (s.place t).changes = true → ∀ t', t' ≠ t → (s.place t').judging = false := hcalm
  generalize hplace : s.place t = q at hmoves hquiet
  have hidle : q.holds = none → ∀ d ∈ s.shared.socks, d.net = true → d.shut = false →
      (s.place t).holds = some d.fd → p.holds = some d.fd := by
    intro hnone d _ _ _ hholds
    rw [hplace, hnone] at hholds
    cases hholds
  cases hmoves with
  | stay => exact h.replaced rfl rfl (hplace ▸ h.judged t) fun d _ _ _ hholds => hplace ▸ hholds
  | socket domain ret hno =>
      refine h.opened hsound hplace (hl hplace) trivial fun hle hnet => ?_
      exact absurd ⟨hnet, hle⟩ hno
  | socketNet domain ret hnet hret =>
      refine h.opened hsound hplace (hl hplace) ?_ fun _ _ => rfl
      intro d hd hfd
      rcases mem_socks_opened.mp hd with hold | ⟨-, rfl⟩
      · exact absurd (Or.inl (List.mem_map.mpr ⟨d, hold, hfd⟩)) (hl hplace hret)
      · exact ⟨hnet, rfl⟩
  | accept sock ret => exact h.accepted hsound hplace (hl hplace) (hknown hplace)
  | close fd => exact h.replaced rfl rfl trivial (hidle rfl)
  | fail severity => exact h.replaced rfl rfl trivial (hidle rfl)
  | repair severity => exact h.replaced rfl rfl trivial (hidle rfl)
  | file fd => exact h.replaced rfl rfl trivial (hidle rfl)
  | add fd => exact h.added hsound hplace (hquiet rfl)
  | look sock fd =>
      have hjudged : Judged s.shared (.looking sock fd) := hplace ▸ h.judged t
      -- the index is below `num_fds` exactly if the listener is in the table
      refine h.replaced rfl rfl (fun hle d hd hfd => ?_) fun d _ _ _ hholds => ?_
      · refine ⟨?_, (hjudged hle d hd hfd).2⟩
        rw [← (hjudged hle d hd hfd).1]
        exact List.idxOf_lt_length_iff
      · rw [hplace] at hholds
        exact hholds
  | counted i fd hi hfd =>
      have hjudged : Judged s.shared (.counting i fd) := hplace ▸ h.judged t
      refine h.replaced rfl rfl (fun d hd hd' => ?_) fun d _ _ _ hholds => ?_
      · obtain ⟨hnet, hshut⟩ := hjudged hfd d hd hd'
        exact ⟨hnet.mp hi, hshut⟩
      · rw [hplace, Place.holds, Place.fresh, if_neg (by omega)] at hholds
        exact hholds
  | passed i fd hno =>
      have hjudged : Judged s.shared (.counting i fd) := hplace ▸ h.judged t
      refine h.replaced rfl rfl trivial fun d hd hnet _ hholds => ?_
      -- a network socket has been counted
      rw [hplace, Place.holds, Place.fresh] at hholds
      split at hholds
      · cases hholds
      · next hneg =>
        have hle : 0 ≤ fd := not_lt.mp hneg
        have hi := (hjudged hle d hd (Option.some.inj hholds).symm).1.mpr hnet
        exact absurd ⟨hi, hle⟩ hno
  | remove fd => exact h.removed hsound hplace (hquiet rfl)
  | closed fd => exact h.closed hplace
  | shut => exact h.shut hsound hplace (hquiet rfl)
  | mark => exact h.replaced rfl rfl trivial (hidle rfl)

omit [DecidableEq τ] in
theorem exact_start (files : List Int) : Exact (start files : Threads τ) where
  nonneg := fun _ h => by cases h
  entries := fun _ h => by cases h
  judged := fun _ => trivial
  all := fun _ h => by cases h

-- the comparison with `num_fds` comes too late: a local connection is taken for one of the network
example : (([(0, .socket 1 4), (1, .socket 2 5), (2, .accept 4 6), (2, .go), (1, .go), (2, .go),
    (2, .go)] : List (Fin 3 × Act)).foldl step (start [])).shared.table = [5, 6] := by
  decide +kernel

end LauSim.Hooks
