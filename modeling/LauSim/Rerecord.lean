/-
Replay, record, replay: a transcript is a normal form of what replay reads.

`RecordReplay` needs plain names. Replay hands out no others: what it reads are
tokens and fields of a line, so they have no comma, no newline and no NUL, and a
line with `tic#` in it is taken for a heading (`plain_read_node`,
`plain_classify`). So a run of replay on any file can be recorded, however odd the
file (gaps, headings that go back, lines that are skipped, numbers in other bases),
and the recording is read as the same run. What is written depends only on what the
run says (`transcript_congr`), so a second recording changes nothing any more.

The counters wrap on both sides at the same call, from which on replay is silent
(`tics_all`); there is no bound on the length of the run.
-/
import LauSim.RecordReplay

set_option autoImplicit false

namespace LauSim.RecordReplay

open CText Schedule Transcribe Replay

/-! ## Replay reads plain names -/

theorem nul_not_mem_cstr (l : Text) : nul ∉ cstr l := by
  intro hm
  have h := List.mem_takeWhile_imp hm
  simp at h

/-- A token of a node line. -/
theorem plain_token {l t : Text} (h : t ∈ strtoks ",\n".toList (cstr l)) : t ≠ [] ∧ Plain t := by
  obtain ⟨hne, hbytes⟩ := mem_strtoks h
  refine ⟨hne, fun c hc => ?_⟩
  obtain ⟨hdelim, hmem⟩ := hbytes c hc
  refine ⟨?_, ?_, ?_⟩
  · rintro rfl
    exact hdelim (by decide)
  · rintro rfl
    exact hdelim (by decide)
  · rintro rfl
    exact nul_not_mem_cstr l hmem

theorem mem_read_components {m : ℕ} {toks : List Text} {cs : List Component}
    (h : read_components m toks = some cs) : ∀ c ∈ cs, c.name ∈ toks := by
  intro c hc
  rw [(read_components_some h).2, List.mem_map] at hc
  obtain ⟨x, hx, rfl⟩ := hc
  exact List.mem_of_mem_take hx

/-- A node that is read has plain names. -/
theorem plain_read_node {i : ℕ} {l : Text} {n : Node} (h : read_node i (cstr l) = .ok (some n)) :
    PlainNode n := by
  have htok : ∀ t ∈ strtoks ",\n".toList (cstr l), t ≠ [] ∧ Plain t := fun t => plain_token
  unfold read_node at h
  cases htoks : strtoks ",\n".toList (cstr l) with
  | nil =>
      rw [htoks] at h
      simp at h
  | cons name toks =>
      cases toks with
      | nil =>
          rw [htoks] at h
          simp at h
      | cons cur toks =>
          simp only [htoks] at h
          rw [htoks] at htok
          split at h
          · simp at h
          · next cs hcs =>
            rw [Except.ok.injEq, Option.some.injEq] at h
            rw [← h]
            refine ⟨htok name List.mem_cons_self, fun c hc => ?_⟩
            have hmem := mem_read_components hcs c hc
            exact htok c.name (List.mem_cons_of_mem _ (List.mem_cons_of_mem _ hmem))

theorem plain_read_nodes {k i : ℕ} {ls ls' : List Text} {ns : List Node}
    (h : read_nodes k i ls = .ok (some ns, ls')) : ∀ n ∈ ns, PlainNode n := by
  induction k generalizing i ls ns with
  | zero =>
      simp only [read_nodes, Except.ok.injEq, Prod.mk.injEq, Option.some.injEq] at h
      rw [← h.1]
      simp
  | succ k ih =>
      cases ls with
      | nil => simp [read_nodes] at h
      | cons l ls =>
          obtain ⟨n, ns', hnode, hrest, rfl⟩ := read_nodes_cons h
          exact List.forall_mem_cons.mpr ⟨plain_read_node hnode, ih hrest⟩

theorem plain_get_nodes {s s' : Replay} {t : NodeTable}
    (h : Replay.manager.get_nodes s = .ok (some t, s')) : ∀ n ∈ t.1, PlainNode n := by
  obtain ⟨l, ls, ls', -, hread, -⟩ := get_nodes_some h
  exact plain_read_nodes hread

/-- What a fault that survives says: `PlainFault`, of the three fields. -/
def PlainTriple (t : Triple) : Prop :=
  (Plain t.1 ∧ ¬ "tic#".toList <:+: t.1) ∧
    ∀ c, t.2.1 = some c → c ≠ [] ∧ Plain c ∧ ¬ "tic#".toList <:+: c

theorem plainFault_iff (f : Fault) : PlainFault f ↔ PlainTriple f.triple := Iff.rfl

/-- The fields of a line that is read as a fault. -/
theorem parse_fault_fields {buf : Text} {t : Triple} (h : parse_fault buf = some t) :
    ∃ comp sev, buf = t.1 ++ ',' :: (comp ++ ',' :: sev) ∧ ',' ∉ t.1 ∧ ',' ∉ comp ∧
      t.2.1 = if comp = [] then none else some comp := by
  unfold parse_fault at h
  have hname := strchr_spec ',' buf
  cases hone : strchr ',' buf with
  | none => simp [hone] at h
  | some p =>
      obtain ⟨name, rest⟩ := p
      rw [hone] at hname
      simp only [hone] at h
      have hcomp := strchr_spec ',' rest
      cases htwo : strchr ',' rest with
      | none => simp [htwo] at h
      | some q =>
          obtain ⟨comp, sev⟩ := q
          rw [htwo] at hcomp
          simp only [htwo] at h
          split at h
          · simp at h
          · rw [← Option.some.inj h]
            exact ⟨comp, sev, by rw [hname.1, hcomp.1], hname.2, hcomp.2, rfl⟩

/-- A field in front of a comma. A newline is only at the end of a line, a NUL not in a
C string, and `tic#` not in a line that is no heading. -/
theorem plain_field {content l a b x : Text} (hl : l ∈ lines content)
    (hhead : ¬ isHeading (cstr l) = true) (hbuf : cstr l = a ++ ',' :: b) (hx : x <:+: a)
    (hcomma : ',' ∉ x) : Plain x ∧ ¬ "tic#".toList <:+: x := by
  obtain ⟨tail, htail⟩ : cstr l <+: l := List.takeWhile_prefix _
  have hnl : '\n' ∉ a := by
    apply not_mem_of_mem_lines hl (b := b ++ tail) (d := ',')
    rw [← htail, hbuf, List.append_assoc, List.cons_append]
  have hbytes : x <:+: cstr l := by
    apply hx.trans
    rw [hbuf]
    exact ⟨[], ',' :: b, rfl⟩
  refine ⟨fun c hc => ⟨?_, ?_, ?_⟩, fun hin => ?_⟩
  · rintro rfl
    exact hcomma hc
  · rintro rfl
    exact hnl (hx.subset hc)
  · rintro rfl
    exact nul_not_mem_cstr l (hbytes.subset hc)
  · apply hhead
    rw [isHeading, strstr_iff]
    exact hin.trans hbytes

/-- **A fault that is read has plain names.** -/
theorem plain_classify {content l : Text} (hl : l ∈ lines content) {t : Triple}
    (h : classify l = .entry t) : PlainTriple t := by
  unfold classify at h
  split at h
  · simp at h
  · next hhead =>
    cases hparse : parse_fault (cstr l) with
    | none => simp [hparse] at h
    | some t' =>
        simp only [hparse, Item.entry.injEq] at h
        subst h
        obtain ⟨comp, sev, hbuf, hname, hcomp, hopt⟩ := parse_fault_fields hparse
        have hsplit : cstr l = (t'.1 ++ ',' :: comp) ++ ',' :: sev := by
          rw [hbuf, List.append_assoc, List.cons_append]
        refine ⟨plain_field hl hhead hsplit ⟨[], ',' :: comp, rfl⟩ hname, fun c hc => ?_⟩
        rw [hopt] at hc
        split at hc
        · simp at hc
        · next hne =>
          rw [← Option.some.inj hc]
          exact ⟨hne, plain_field hl hhead hsplit ⟨t'.1 ++ [','], [], by simp⟩ hcomp⟩

/-! ## Runs of any length -/

/-- **Every call of a run**, also past the end of the counter: the schedule of the file
below `2 ^ 64 - 1`, and nothing from there on. -/
theorem tics_all {s : Replay} (h : Before 0 s) (n : ℕ) :
    ∃ fss s', manager.tics n s = .ok (fss, s') ∧
      ∀ k < n, (fss[k]?).map (List.map Fault.triple)
        = some (if k < 2 ^ 64 - 1 then s.player.slot k else []) := by
  have hahead : s.player.Ahead 0 := fun q _ => Nat.zero_le q.1
  by_cases hn : n ≤ 2 ^ 64 - 1
  · obtain ⟨fss, s', htics, hrun, -, -⟩ := tics_spec (n := n) (by omega) h
    refine ⟨fss, s', htics, fun k hk => ?_⟩
    rw [← List.getElem?_map, hrun, Player.run_getElem hahead hk, if_pos (by omega), Nat.zero_add]
  · -- the calls that count, and the silent ones behind them
    obtain ⟨m, hm⟩ : ∃ m, m = 2 ^ 64 - 1 := ⟨_, rfl⟩
    obtain ⟨fss, s₁, htics, hrun, hplayer, -⟩ := tics_spec (n := m) (by omega) h
    have hwait : s₁.player.Ahead (0 + m) := by
      rw [hplayer]
      exact Player.ahead_run hahead
    have hsilent : Silent s₁ := by
      by_cases hdone : s₁.done = true
      · exact Or.inl hdone
      · right
        rw [player, if_neg hdone] at hwait
        have hge := hwait _ rfl
        have hlt := UInt64.toNat_lt s₁.nxt_tic
        simp only at hge
        omega
    obtain ⟨s', hrest⟩ := tics_of_silent (n - m) hsilent
    have hall := FaultManager.tics_add htics hrest
    rw [show m + (n - m) = n by omega] at hall
    have hlen : fss.length = m := FaultManager.tics_length htics
    refine ⟨_, s', hall, fun k hk => ?_⟩
    rw [← hm]
    by_cases hkm : k < m
    · rw [List.getElem?_append_left (by omega), ← List.getElem?_map, hrun,
        Player.run_getElem hahead hkm, if_pos hkm, Nat.zero_add]
    · rw [List.getElem?_append_right (by omega), List.getElem?_replicate_of_lt (by omega),
        if_neg hkm]
      rfl

/-- **What replay reports can be recorded.** -/
theorem plainFaults_tics {content : Text} {s : Replay} (hfile : ∀ l ∈ s.file, l ∈ lines content)
    {n : ℕ} {fss : List (List Fault)} (hlen : fss.length = n)
    (h : ∀ k < n, (fss[k]?).map (List.map Fault.triple)
      = some (if k < 2 ^ 64 - 1 then s.player.slot k else [])) : PlainFaults fss := by
  intro fs hfs f hf
  obtain ⟨k, hk, rfl⟩ := List.getElem_of_mem hfs
  have hslot := h k (by omega)
  rw [List.getElem?_eq_getElem hk, Option.map_some, Option.some.injEq] at hslot
  have hmem : f.triple ∈ fss[k].map Fault.triple := List.mem_map_of_mem hf
  rw [hslot] at hmem
  split at hmem
  · -- due at `k`, so a line of the file
    unfold player at hmem
    split at hmem
    · exact absurd hmem List.not_mem_nil
    · obtain ⟨l, hl, hentry⟩ := List.mem_map.mp (mem_of_mem_slot hmem)
      rw [plainFault_iff]
      exact plain_classify (hfile l hl) hentry
  · exact absurd hmem List.not_mem_nil

/-! ## What a transcript depends on -/

theorem nodesText_congr {t t' : NodeTable} (h : NodeTable.names t' = NodeTable.names t) :
    nodesText t' = nodesText t := by
  -- the text is a function of the names
  have htext : ∀ u : NodeTable, nodesText u = fmtU (NodeTable.names u).length ++ '\n' ::
      (NodeTable.names u).flatMap (fun p => p.1 ++
        ((fmtU p.2.length :: p.2).flatMap (fun x => ',' :: x) ++ ['\n'])) := by
    intro u
    have hline : nodeLine = fun n : Node => n.name ++ ((fmtU (n.components.map
        Component.name).length :: n.components.map Component.name).flatMap (fun x => ',' :: x)
          ++ ['\n']) := by
      funext n
      rw [nodeLine_eq, List.length_map]
      rfl
    rw [nodesText, NodeTable.names, List.length_map, List.flatMap_map, hline]
  rw [htext, htext, h]

theorem faultLines_congr {fs gs : List Fault} (h : gs.map Fault.triple = fs.map Fault.triple) :
    gs.flatMap faultLine = fs.flatMap faultLine := by
  -- a fault line is a function of the triple
  have hline : ∀ l : List Fault, l.flatMap faultLine = (l.map Fault.triple).flatMap (fun t =>
      t.1 ++ ',' :: ((t.2.1.getD []) ++ ',' :: (fmtD 32 t.2.2.toNat ++ ['\n']))) := by
    intro l
    rw [List.flatMap_map]
    rfl
  rw [hline, hline, h]

theorem ticsText_congr {fss gss : List (List Fault)}
    (h : gss.map (List.map Fault.triple) = fss.map (List.map Fault.triple)) (k : UInt64) :
    ticsText k gss = ticsText k fss := by
  induction fss generalizing gss k with
  | nil =>
      rw [List.map_nil, List.map_eq_nil_iff] at h
      rw [h]
  | cons fs fss ih =>
      obtain ⟨gs, gss', rfl, hhead, htail⟩ := List.map_eq_cons_iff.mp h
      rw [ticsText, ticsText, faultLines_congr hhead, ih htail]

/-- **A transcript depends on what the run says**, and on nothing else. -/
theorem transcript_congr {t t' : NodeTable} {fss gss : List (List Fault)}
    (hnames : NodeTable.names t' = NodeTable.names t)
    (hfaults : gss.map (List.map Fault.triple) = fss.map (List.map Fault.triple)) :
    transcript t' gss = transcript t fss := by
  rw [transcript, transcript, nodesText_congr hnames, ticsText_congr hfaults]

/-! ## Replay, record, replay, record -/

/-- A run of replay on a file it accepts, and what it says. -/
theorem drive_replay {content : Text} {t : NodeTable} {s : Replay}
    (hnodes : Replay.manager.get_nodes (Replay.init content) = .ok (some t, s))
    (hread : ∀ l ∈ Replay.body content, Readable l) (n : ℕ) :
    ∃ fss q, Replay.manager.drive n (Replay.init content) = .ok (some (t, fss), q) ∧
      fss.length = n ∧ (∀ node ∈ t.1, PlainNode node) ∧ PlainFaults fss ∧
      ∀ k < n, 2 ^ 64 - 1 ≤ k → (fss[k]?).map (List.map Fault.triple) = some [] := by
  obtain ⟨-, hfile, htic⟩ := get_nodes_spec hnodes
  have hbefore : Before 0 s := by
    refine ⟨fun _ => by rw [htic]; rfl, ?_⟩
    rw [hfile]
    exact hread
  have hlines : ∀ l ∈ s.file, l ∈ lines content := by
    intro l hl
    rw [hfile] at hl
    exact List.mem_of_mem_drop hl
  obtain ⟨fss, q, htics, hslots⟩ := tics_all hbefore n
  have hlen : fss.length = n := FaultManager.tics_length htics
  refine ⟨fss, q, FaultManager.drive_some hnodes htics, hlen, plain_get_nodes hnodes,
    plainFaults_tics hlines hlen hslots, fun k hk hlate => ?_⟩
  rw [hslots k hk, if_neg (by omega)]

end LauSim.RecordReplay
