/-
Which files `get_nodes` of `plugins/replay/replay.c` accepts.

A node table is a line with a number, and that many lines `name,m,c1,...,cm`. What
`get_nodes` reads are the tokens of `strtok`, which skips empty fields, with a count
that nobody checks: `strtoull` may read none of it, or a part, and what it reads is cut
to `unsigned`. So more lines are accepted than the form says, and read as something
else than they spell. And one kind of line is not answered at all: where there is no
token, NULL goes to `strlen`.

`accepts_iff` says for which files none of this happens.
-/
import LauSim.Headings

set_option autoImplicit false

namespace LauSim.NodeTables

open CText Replay RecordReplay

/-! ## Lines -/

/-- The fields of a line. -/
def fields (l : Text) : List Text := ((cstr l).takeWhile (fun c => c != '\n')).splitOn ','

/-- The tokens of a line, as `get_nodes` gets them from `strtok`. -/
def tokens (l : Text) : List Text := strtoks ",\n".toList (cstr l)

/-- `name,m,c1,...,cm`, possibly followed by further fields. -/
def Form (l name : Text) (m : ℕ) (comps : List Text) : Prop :=
  ∃ count more, fields l = name :: count :: (comps ++ more) ∧
    (∀ f ∈ name :: count :: comps, f ≠ []) ∧ (strtoull count).2 = [] ∧
    (strtoull count).1.toNat = m ∧ comps.length = m

/-- The tokens that are not there are the empty fields. -/
theorem tokens_eq {content l : Text} (h : l ∈ lines content) :
    tokens l = (fields l).filter (fun f => f ≠ []) := by
  have hsplit := List.takeWhile_append_dropWhile (p := fun c => c != '\n') (l := cstr l)
  have htext : ∀ c ∈ (cstr l).takeWhile (fun c => c != '\n'),
      (",\n".toList).contains c = (c == ',') := by
    intro c hc
    have hne : c ≠ '\n' := by simpa using List.mem_takeWhile_imp hc
    rw [Bool.eq_iff_iff]
    simp [hne]
  have hfields : strtoks ",\n".toList ((cstr l).takeWhile (fun c => c != '\n'))
      = (fields l).filter (fun f => f ≠ []) := by
    rw [strtoks_eq_filter htext, fields, List.splitOn_eq_splitOnP]
  cases hdrop : (cstr l).dropWhile (fun c => c != '\n') with
  | nil =>
      rw [hdrop, List.append_nil] at hsplit
      rw [← hfields, hsplit]
      rfl
  | cons d rest =>
      -- the newline is the last byte of the line
      have hd : d = '\n' := by
        have hhead := List.head_dropWhile_not (fun c => c != '\n') (l := cstr l) (by simp [hdrop])
        simpa [hdrop] using hhead
      have hrest : rest = [] := by
        by_contra hne
        obtain ⟨e, rest', rfl⟩ := List.exists_cons_of_ne_nil hne
        have hline : l = ((cstr l).takeWhile (fun c => c != '\n') ++ [d]) ++
            e :: (rest' ++ l.dropWhile (fun c => c != nul)) :=
          calc l = cstr l ++ l.dropWhile (fun c => c != nul) :=
                List.takeWhile_append_dropWhile.symm
            _ = ((cstr l).takeWhile (fun c => c != '\n') ++ d :: e :: rest') ++
                  l.dropWhile (fun c => c != nul) := by rw [← hdrop, hsplit]
            _ = _ := by simp
        have hnot := not_mem_of_mem_lines h hline
        rw [hd] at hnot
        simp at hnot
      rw [hdrop, hd, hrest] at hsplit
      rw [← hfields, tokens, ← hsplit, strtoks_append_delim (by decide)]
      rw [hsplit]

/-- The line has a name, a count and as many further tokens as the count says once it is
cut to 32 bits. -/
def Enough (l : Text) : Prop :=
  ∃ name count toks, tokens l = name :: count :: toks ∧
    (strtoull count).1.toUInt32.toNat ≤ toks.length

/-- The count is a number below `2 ^ 32` and nothing else, and no field up to the last
component is empty. -/
def Tidy (l : Text) : Prop :=
  ∀ name count toks, tokens l = name :: count :: toks →
    (strtoull count).2 = [] ∧ (strtoull count).1.toNat < 2 ^ 32 ∧
      ∀ f ∈ (fields l).take (2 + (strtoull count).1.toNat), f ≠ []

/-- What a node that is read has of its line. -/
def ReadFrom (l : Text) (n : Node) : Prop :=
  ∃ name count toks, tokens l = name :: count :: toks ∧
    (strtoull count).1.toUInt32.toNat ≤ toks.length ∧ n.name = name ∧
    n.components.map Component.name = toks.take (strtoull count).1.toUInt32.toNat

/-- The tokens in front are the fields in front, if none of these is empty. -/
theorem take_filter_ne_nil {fs : List Text} {k : ℕ} (h : ∀ f ∈ fs.take k, f ≠ []) :
    (fs.filter (fun f => f ≠ [])).take k = fs.take k := by
  induction fs generalizing k with
  | nil => rfl
  | cons f fs ih =>
      cases k with
      | zero => rfl
      | succ k =>
          rw [List.take_succ_cons] at h ⊢
          obtain ⟨hf, hfs⟩ := List.forall_mem_cons.mp h
          rw [List.filter_cons_of_pos (by simpa using hf), List.take_succ_cons, ih hfs]

/-- **A node and its line.** What is read of a line spells the line, exactly if it is
tidy. -/
theorem form_iff_tidy {content l : Text} {n : Node} (hl : l ∈ lines content)
    (hread : ReadFrom l n) :
    Form l n.name n.num_components (n.components.map Component.name) ↔ Tidy l := by
  obtain ⟨name, count, toks, htoks, hle, hname, hcomps⟩ := hread
  have hfilter := tokens_eq hl
  rw [htoks] at hfilter
  constructor
  · rintro ⟨count', more, hfields, hne, hend, hnum, hlen⟩ name₂ count₂ toks₂ htoks₂
    -- the count of the form is the second token
    have hfront : ∀ f ∈ (fields l).take 2, f ≠ [] := by
      rw [hfields]
      intro f hf
      apply hne
      simp only [List.take_succ_cons, List.take_zero, List.mem_cons, List.not_mem_nil,
        or_false] at hf ⊢
      rcases hf with rfl | rfl
      · exact Or.inl rfl
      · exact Or.inr (Or.inl rfl)
    have htake := take_filter_ne_nil hfront
    rw [← hfilter, hfields, ← htoks, htoks₂] at htake
    have hcount : count₂ = count' := (List.cons.inj (List.cons.inj htake).2).1
    have hlt : n.num_components < 2 ^ 32 := n.num_lt
    rw [hcount]
    refine ⟨hend, by omega, fun f hf => hne f ?_⟩
    rw [hnum, hfields, ← hlen, Nat.add_comm, List.take_succ_cons, List.take_succ_cons,
      List.take_left] at hf
    exact hf
  · intro htidy
    obtain ⟨hend, hlt, hne⟩ := htidy name count toks htoks
    -- the cut to `unsigned` loses nothing, and the first `2 + m` tokens are the fields
    have hcut : (strtoull count).1.toUInt32.toNat = (strtoull count).1.toNat := by
      rw [UInt64.toNat_toUInt32, Nat.mod_eq_of_lt hlt]
    rw [hcut] at hle hcomps
    have htake := take_filter_ne_nil hne
    rw [← hfilter, Nat.add_comm, List.take_succ_cons, List.take_succ_cons] at htake
    have hlen : (n.components.map Component.name).length = (strtoull count).1.toNat := by
      rw [hcomps, List.length_take, Nat.min_eq_left hle]
    refine ⟨count, (fields l).drop (2 + (strtoull count).1.toNat), ?_, ?_, hend, ?_, ?_⟩
    · conv_lhs => rw [← List.take_append_drop (2 + (strtoull count).1.toNat) (fields l)]
      rw [Nat.add_comm, ← htake, hname, hcomps]
      rfl
    · rw [hname, hcomps, htake, Nat.add_comm]
      exact hne
    · rw [Node.num_components, ← List.length_map (f := Component.name)]
      exact hlen.symm
    · rw [Node.num_components, List.length_map]

theorem Enough.tokens_ne {l : Text} (h : Enough l) : tokens l ≠ [] := by
  obtain ⟨name, count, toks, htoks, -⟩ := h
  rw [htoks]
  exact List.cons_ne_nil _ _

/-- A line of the form has enough tokens. -/
theorem enough_of_form {content l name : Text} {m : ℕ} {comps : List Text}
    (hl : l ∈ lines content) (h : Form l name m comps) : Enough l := by
  obtain ⟨count, more, hfields, hne, -, hnum, hlen⟩ := h
  have hkeep : (name :: count :: comps).filter (fun f => f ≠ []) = name :: count :: comps :=
    List.filter_eq_self.mpr (fun f hf => by simpa using hne f hf)
  refine ⟨name, count, comps ++ more.filter (fun f => f ≠ []), ?_, ?_⟩
  · rw [tokens_eq hl, hfields]
    have happ : name :: count :: (comps ++ more) = (name :: count :: comps) ++ more := rfl
    rw [happ, List.filter_append, hkeep]
    rfl
  · -- a count that is cut asks for fewer components
    rw [UInt64.toNat_toUInt32, List.length_append, hlen, hnum]
    have hmod := Nat.mod_le m (2 ^ 32)
    omega

/-! ## The node loop -/

/-- Everything a node line can do. -/
theorem read_node_cases (i : ℕ) (l : Text) :
    (tokens l = [] ∧ read_node i (cstr l) = .error .nullToken) ∨
    (tokens l ≠ [] ∧ ¬ Enough l ∧ read_node i (cstr l) = .ok none) ∨
    (Enough l ∧ ∃ n, read_node i (cstr l) = .ok (some n) ∧ n.id = Int32.ofNat i ∧
      ReadFrom l n) := by
  unfold Enough ReadFrom tokens read_node
  match htoks : strtoks ",\n".toList (cstr l) with
  | [] => exact Or.inl ⟨rfl, rfl⟩
  | [name] => exact Or.inr (Or.inl ⟨by simp, by simp, rfl⟩)
  | name :: count :: toks =>
      dsimp only
      split
      · next hnone =>
        refine Or.inr (Or.inl ⟨by simp, ?_, rfl⟩)
        rintro ⟨name', count', toks', heq, hle⟩
        obtain ⟨-, heq⟩ := List.cons.inj heq
        obtain ⟨rfl, rfl⟩ := List.cons.inj heq
        rw [read_components_eq, if_pos hle] at hnone
        simp at hnone
      · next cs hcs =>
        obtain ⟨hle, hcomps⟩ := read_components_some hcs
        refine Or.inr (Or.inr ⟨⟨name, count, toks, rfl, hle⟩, _, rfl, rfl, name, count, toks, rfl,
          hle, rfl, ?_⟩)
        show cs.map Component.name = _
        rw [hcomps, List.map_map]
        exact List.map_id _

/-- The first `k` lines all have enough tokens. -/
def AllEnough (k : ℕ) (ls : List Text) : Prop := ∀ j < k, ∃ l, ls[j]? = some l ∧ Enough l

/-- There is a line without tokens among the first `k`, and the lines in front of it have
enough. -/
def BlankReached (k : ℕ) (ls : List Text) : Prop :=
  ∃ j < k, AllEnough j ls ∧ ∃ l, ls[j]? = some l ∧ tokens l = []

theorem allEnough_succ {k : ℕ} {l : Text} {ls : List Text} :
    AllEnough (k + 1) (l :: ls) ↔ Enough l ∧ AllEnough k ls := by
  constructor
  · intro h
    refine ⟨?_, fun j hj => ?_⟩
    · obtain ⟨l', hl', henough⟩ := h 0 (by omega)
      rw [List.getElem?_cons_zero, Option.some_inj] at hl'
      rw [hl']
      exact henough
    · have hnext := h (j + 1) (by omega)
      rw [List.getElem?_cons_succ] at hnext
      exact hnext
  · rintro ⟨hl, hls⟩ j hj
    cases j with
    | zero => exact ⟨l, rfl, hl⟩
    | succ j =>
        rw [List.getElem?_cons_succ]
        exact hls j (by omega)

theorem blankReached_succ {k : ℕ} {l : Text} {ls : List Text} :
    BlankReached (k + 1) (l :: ls) ↔ tokens l = [] ∨ (Enough l ∧ BlankReached k ls) := by
  constructor
  · rintro ⟨j, hj, henough, l', hl', hblank⟩
    cases j with
    | zero =>
        rw [List.getElem?_cons_zero, Option.some_inj] at hl'
        rw [hl']
        exact Or.inl hblank
    | succ j =>
        obtain ⟨hl, hls⟩ := allEnough_succ.mp henough
        rw [List.getElem?_cons_succ] at hl'
        exact Or.inr ⟨hl, j, by omega, hls, l', hl', hblank⟩
  · rintro (hblank | ⟨hl, j, hj, hls, l', hl', hblank⟩)
    · exact ⟨0, by omega, fun j hj => absurd hj (by omega), l, rfl, hblank⟩
    · exact ⟨j + 1, by omega, allEnough_succ.mpr ⟨hl, hls⟩, l', hl', hblank⟩

/-- **The node loop.** It reads all nodes if all lines have enough tokens; otherwise it
goes wrong at a line without tokens, if it comes to one, and else gives up. -/
theorem read_nodes_cases (k i : ℕ) (ls : List Text) :
    (AllEnough k ls ∧ ∃ ns, read_nodes k i ls = .ok (some ns, ls.drop k) ∧
      ∀ j n, ns[j]? = some n → ∃ l, ls[j]? = some l ∧ n.id = Int32.ofNat (i + j) ∧
        ReadFrom l n) ∨
    (BlankReached k ls ∧ read_nodes k i ls = .error .nullToken) ∨
    (¬ AllEnough k ls ∧ ¬ BlankReached k ls ∧ ∃ ls', read_nodes k i ls = .ok (none, ls')) := by
  induction k generalizing i ls with
  | zero =>
      refine Or.inl ⟨fun j hj => absurd hj (by omega), [], rfl, fun j n hn => ?_⟩
      simp at hn
  | succ k ih =>
      cases ls with
      | nil =>
          refine Or.inr (Or.inr ⟨fun h => ?_, ?_, [], rfl⟩)
          · obtain ⟨l, hl, -⟩ := h 0 (by omega)
            simp at hl
          · rintro ⟨j, -, -, l, hl, -⟩
            simp at hl
      | cons l ls =>
          rw [allEnough_succ, blankReached_succ, read_nodes]
          rcases read_node_cases i l with ⟨hblank, hnode⟩ | ⟨hne, hshort, hnode⟩ |
            ⟨henough, n, hnode, hid, hread⟩
          · rw [hnode]
            exact Or.inr (Or.inl ⟨Or.inl hblank, rfl⟩)
          · rw [hnode]
            refine Or.inr (Or.inr ⟨fun h => hshort h.1, ?_, ls, rfl⟩)
            rintro (hblank | h)
            · exact hne hblank
            · exact hshort h.1
          · rw [hnode]
            rcases ih (i + 1) ls with ⟨hall, ns, hns, hnodes⟩ | ⟨hblank, hns⟩ |
              ⟨hall, hblank, ls', hns⟩
            · refine Or.inl ⟨⟨henough, hall⟩, n :: ns, ?_, fun j m hm => ?_⟩
              · simp only [bind, Except.bind, hns, pure, Except.pure, List.drop_succ_cons]
              · cases j with
                | zero =>
                    rw [List.getElem?_cons_zero, Option.some_inj] at hm
                    rw [← hm]
                    exact ⟨l, rfl, hid, hread⟩
                | succ j =>
                    rw [List.getElem?_cons_succ] at hm ⊢
                    rw [show i + (j + 1) = i + 1 + j by omega]
                    exact hnodes j m hm
            · refine Or.inr (Or.inl ⟨Or.inr ⟨henough, hblank⟩, ?_⟩)
              simp only [bind, Except.bind, hns]
            · refine Or.inr (Or.inr ⟨fun h => hall h.2, ?_, ls', ?_⟩)
              · rintro (hnil | h)
                · exact henough.tokens_ne hnil
                · exact hblank h.2
              · simp only [bind, Except.bind, hns, pure, Except.pure]

/-! ## The whole file -/

/-- The file starts with the node table `t`: a line that begins with a number, and for
each node, in order, a line of the form with its names. -/
def Spells (content : Text) (t : NodeTable) : Prop :=
  ∃ l ls, lines content = l :: ls ∧ (strtoull (cstr l)).2 ≠ cstr l ∧
    t.1.length = (strtoull (cstr l)).1.toNat ∧
    ∀ (i : ℕ) (n : Node), t.1[i]? = some n → n.id.toInt = i ∧ ∃ l', ls[i]? = some l' ∧
      Form l' n.name n.num_components (n.components.map Component.name)

/-- The file starts with a node table. -/
def WellFormed (content : Text) : Prop :=
  ∃ l ls, lines content = l :: ls ∧ (strtoull (cstr l)).2 ≠ cstr l ∧
    ∀ i < (strtoull (cstr l)).1.toNat, ∃ l' name m comps, ls[i]? = some l' ∧ Form l' name m comps

/-- `get_nodes` returns: non-zero, and the file does not start with a node table, or 0
and the table the file starts with. -/
def Exact (content : Text) : Prop :=
  (∃ s, Replay.get_nodes (Replay.init content) = .ok (none, s) ∧ ¬ WellFormed content) ∨
  ∃ t s, Replay.get_nodes (Replay.init content) = .ok (some t, s) ∧ Spells content t

/-- What a file must be for that. Of the lines the number in the first line asks for: the
loop comes to none without tokens; and if all of them have enough tokens, they are tidy
and at most `2 ^ 31`, and the line behind them, if it is taken for a heading, has a
second token. -/
def Fit (content : Text) : Prop :=
  ∀ l ls, lines content = l :: ls → (strtoull (cstr l)).2 ≠ cstr l →
    ¬ BlankReached (strtoull (cstr l)).1.toNat ls ∧
    (AllEnough (strtoull (cstr l)).1.toNat ls →
      (∀ i < (strtoull (cstr l)).1.toNat, ∀ l', ls[i]? = some l' → Tidy l') ∧
      (strtoull (cstr l)).1.toNat ≤ 2 ^ 31 ∧
      ∀ l', ls[(strtoull (cstr l)).1.toNat]? = some l' → strstr (cstr l') "tic".toList = true →
        Headings.tokens l' ≠ [])

theorem first_heading_ok_iff (s : Replay) :
    (∃ s', first_heading s = .ok s') ↔
      ∀ l, s.file.head? = some l → strstr (cstr l) "tic".toList = true →
        Headings.tokens l ≠ [] := by
  constructor
  · rintro ⟨s', hs'⟩ l hl htic hnone
    rw [← Headings.tic_num_of_eq_error_iff] at hnone
    obtain ⟨ls, hfile⟩ : ∃ ls, s.file = l :: ls := List.head?_eq_some_iff.mp hl
    rw [first_heading, hfile] at hs'
    dsimp only at hs'
    rw [if_pos htic, hnone] at hs'
    simp [bind, Except.bind] at hs'
  · intro h
    cases hs : first_heading s with
    | ok s' => exact ⟨s', rfl⟩
    | error e =>
        obtain ⟨l, hl, htic, hnone⟩ := Headings.first_heading_error hs
        exact absurd hnone (h l hl htic)

/-- `nodes[i].id = i` keeps the index as long as it fits in an `int`. -/
theorem toInt_ofNat_iff (n : ℕ) : (∀ i < n, (Int32.ofNat i).toInt = i) ↔ n ≤ 2 ^ 31 := by
  constructor
  · intro h
    by_contra hlt
    -- the first index that does not fit
    have hwrap := h (2 ^ 31) (by omega)
    rw [Int32.toInt_ofNat'] at hwrap
    exact absurd hwrap (by decide)
  · intro h i hi
    exact Int32.toInt_ofNat_of_lt (by omega)

theorem not_blankReached {k : ℕ} {ls : List Text} (h : AllEnough k ls) : ¬ BlankReached k ls := by
  rintro ⟨j, hj, -, l, hl, hblank⟩
  obtain ⟨l', hl', henough⟩ := h j hj
  rw [hl, Option.some_inj] at hl'
  rw [← hl'] at henough
  exact henough.tokens_ne hblank

/-- A table that was read is the one the file starts with, exactly if its lines are tidy
and the indices fit. -/
theorem spells_iff {content l : Text} {ls : List Text} {t : NodeTable}
    (hlines : lines content = l :: ls) (hnum : (strtoull (cstr l)).2 ≠ cstr l)
    (hlen : t.1.length = (strtoull (cstr l)).1.toNat)
    (hnodes : ∀ j n, t.1[j]? = some n → ∃ l', ls[j]? = some l' ∧ n.id = Int32.ofNat (0 + j) ∧
      ReadFrom l' n) :
    Spells content t ↔
      (∀ i < (strtoull (cstr l)).1.toNat, ∀ l', ls[i]? = some l' → Tidy l') ∧
      (strtoull (cstr l)).1.toNat ≤ 2 ^ 31 := by
  have hmem : ∀ {i : ℕ} {l' : Text}, ls[i]? = some l' → l' ∈ lines content := by
    intro i l' hl'
    rw [hlines]
    exact List.mem_cons_of_mem _ (List.mem_of_getElem? hl')
  rw [← toInt_ofNat_iff, ← hlen]
  constructor
  · rintro ⟨l₂, ls₂, hlines₂, -, -, hspell⟩
    rw [hlines] at hlines₂
    obtain ⟨rfl, rfl⟩ := List.cons.inj hlines₂
    refine ⟨fun i hi l' hl' => ?_, fun i hi => ?_⟩
    · obtain ⟨-, l₃, hl₃, hform⟩ := hspell i t.1[i] (List.getElem?_eq_getElem hi)
      obtain ⟨l₄, hl₄, -, hread⟩ := hnodes i t.1[i] (List.getElem?_eq_getElem hi)
      rw [hl'] at hl₃ hl₄
      rw [← Option.some.inj hl₃] at hform
      rw [← Option.some.inj hl₄] at hread
      exact (form_iff_tidy (hmem hl') hread).mp hform
    · obtain ⟨hid, -⟩ := hspell i t.1[i] (List.getElem?_eq_getElem hi)
      obtain ⟨_, -, hofNat, -⟩ := hnodes i t.1[i] (List.getElem?_eq_getElem hi)
      rw [hofNat, Nat.zero_add] at hid
      exact hid
  · rintro ⟨htidy, hfits⟩
    refine ⟨l, ls, hlines, hnum, hlen, fun i n hn => ?_⟩
    have hi : i < t.1.length := (List.getElem?_eq_some_iff.mp hn).1
    obtain ⟨l', hl', hid, hread⟩ := hnodes i n hn
    refine ⟨?_, l', hl', (form_iff_tidy (hmem hl') hread).mpr (htidy i hi l' hl')⟩
    rw [hid, Nat.zero_add]
    exact hfits i hi

/-- Everything `get_nodes` can do with a file whose first line begins with a number. -/
theorem answer_cases {content l : Text} {ls : List Text} (hlines : lines content = l :: ls)
    (hnum : (strtoull (cstr l)).2 ≠ cstr l) :
    ((BlankReached (strtoull (cstr l)).1.toNat ls ∨
        ¬ ∀ l', ls[(strtoull (cstr l)).1.toNat]? = some l' →
          strstr (cstr l') "tic".toList = true → Headings.tokens l' ≠ []) ∧
      (AllEnough (strtoull (cstr l)).1.toNat ls ∨ BlankReached (strtoull (cstr l)).1.toNat ls) ∧
      ∃ e, Replay.get_nodes (Replay.init content) = .error e) ∨
    (¬ AllEnough (strtoull (cstr l)).1.toNat ls ∧ ¬ BlankReached (strtoull (cstr l)).1.toNat ls ∧
      ∃ s, Replay.get_nodes (Replay.init content) = .ok (none, s)) ∨
    (AllEnough (strtoull (cstr l)).1.toNat ls ∧
      (∀ l', ls[(strtoull (cstr l)).1.toNat]? = some l' →
        strstr (cstr l') "tic".toList = true → Headings.tokens l' ≠ []) ∧
      ∃ t s, Replay.get_nodes (Replay.init content) = .ok (some t, s) ∧
        (Spells content t ↔
          (∀ i < (strtoull (cstr l)).1.toNat, ∀ l', ls[i]? = some l' → Tidy l') ∧
          (strtoull (cstr l)).1.toNat ≤ 2 ^ 31)) := by
  have hfile : (Replay.init content).file = l :: ls := hlines
  rcases get_nodes_cases (Replay.init content) with ⟨hnil, -⟩ | ⟨l₂, ls₂, hfile₂, hcase⟩
  · rw [hfile] at hnil
    simp at hnil
  rw [hfile] at hfile₂
  obtain ⟨rfl, rfl⟩ := List.cons.inj hfile₂
  rcases hcase with ⟨hno, -⟩ | ⟨-, hcase⟩
  · exact absurd hno hnum
  rcases read_nodes_cases (strtoull (cstr l)).1.toNat 0 ls with ⟨hall, ns, hns, hnodes⟩ |
    ⟨hblank, hns⟩ | ⟨hshort, hblank, ls', hns⟩
  · -- the table is read, and the line behind it decides
    have hheading := first_heading_ok_iff
      { Replay.init content with file := ls.drop (strtoull (cstr l)).1.toNat }
    rw [List.head?_drop] at hheading
    rw [hns] at hcase
    rcases hcase with ⟨e, he, -⟩ | ⟨ls', he, -⟩ | ⟨ns', ls', he, hcase⟩
    · simp at he
    · simp at he
    · rw [Except.ok.injEq, Prod.mk.injEq, Option.some_inj] at he
      obtain ⟨rfl, rfl⟩ := he
      rcases hcase with ⟨e, hhead, hget⟩ | ⟨s', hlt, hhead, hget⟩
      · refine Or.inl ⟨Or.inr (fun h => ?_), Or.inl hall, e, hget⟩
        obtain ⟨s', hs'⟩ := hheading.mpr h
        rw [hhead] at hs'
        simp at hs'
      · refine Or.inr (Or.inr ⟨hall, hheading.mp ⟨s', hhead⟩, _, s', hget, ?_⟩)
        exact spells_iff hlines hnum (read_nodes_length hns) hnodes
  · rw [hns] at hcase
    rcases hcase with ⟨e, -, hget⟩ | ⟨ls', he, -⟩ | ⟨ns', ls', he, -⟩
    · exact Or.inl ⟨Or.inl hblank, Or.inr hblank, e, hget⟩
    · simp at he
    · simp at he
  · rw [hns] at hcase
    rcases hcase with ⟨e, he, -⟩ | ⟨ls', -, hget⟩ | ⟨ns', ls', he, -⟩
    · simp at he
    · exact Or.inr (Or.inl ⟨hshort, hblank, _, hget⟩)
    · simp at he

/-- A file that starts with a node table has a number in its first line, and node lines
with enough tokens. -/
theorem WellFormed.allEnough {content l : Text} {ls : List Text}
    (hlines : lines content = l :: ls) (h : WellFormed content) :
    (strtoull (cstr l)).2 ≠ cstr l ∧ AllEnough (strtoull (cstr l)).1.toNat ls := by
  obtain ⟨l₂, ls₂, hcons, hnum, hform⟩ := h
  rw [hlines] at hcons
  obtain ⟨rfl, rfl⟩ := List.cons.inj hcons
  refine ⟨hnum, fun i hi => ?_⟩
  obtain ⟨l', name, m, comps, hl', hform⟩ := hform i hi
  have hmem : l' ∈ lines content := by
    rw [hlines]
    exact List.mem_cons_of_mem _ (List.mem_of_getElem? hl')
  exact ⟨l', hl', enough_of_form hmem hform⟩

/-- **Node tables, exactly.** For every content of the file: `get_nodes` returns non-zero
for a file that does not start with a node table, or 0 with the names, ids, component
counts and component names of the table the file starts with, and hands no NULL to
`strlen`, exactly if the loop comes to no node line without tokens and, where all node
lines have enough tokens to be accepted, these are tidy, their indices fit in an `int`,
and a heading behind them has a second token. -/
theorem accepts_iff (content : Text) : Exact content ↔ Fit content := by
  constructor
  · intro hexact l ls hlines hnum
    rcases answer_cases hlines hnum with ⟨-, -, e, hget⟩ | ⟨hshort, hblank, -⟩ |
      ⟨hall, hheading, t, s, hget, hspells⟩
    · -- undefined behaviour is no answer
      rcases hexact with ⟨s, hret, -⟩ | ⟨t, s, hret, -⟩
      · exact absurd (hget.symm.trans hret) (by simp)
      · exact absurd (hget.symm.trans hret) (by simp)
    · exact ⟨hblank, fun hall => absurd hall hshort⟩
    · refine ⟨not_blankReached hall, fun _ => ?_⟩
      rcases hexact with ⟨s', hret, -⟩ | ⟨t', s', hret, ht'⟩
      · exact absurd (hget.symm.trans hret) (by simp)
      · rw [hget, Except.ok.injEq, Prod.mk.injEq, Option.some_inj] at hret
        rw [← hret.1, hspells] at ht'
        exact ⟨ht'.1, ht'.2, hheading⟩
  · intro hfit
    rcases get_nodes_cases (Replay.init content) with ⟨hnil, hget⟩ | ⟨l, ls, hlines, hcase⟩
    · refine Or.inl ⟨_, hget, ?_⟩
      rintro ⟨l, ls, hcons, -⟩
      exact absurd (hcons.symm.trans hnil) (by simp)
    · rcases hcase with ⟨hno, hget⟩ | ⟨hnum, -⟩
      · exact Or.inl ⟨_, hget, fun h => (h.allEnough hlines).1 hno⟩
      · obtain ⟨hblank, htable⟩ := hfit l ls hlines hnum
        rcases answer_cases hlines hnum with ⟨hbad, hreached, -⟩ | ⟨hshort, -, s, hget⟩ |
          ⟨hall, -, t, s, hget, hspells⟩
        · have hall := hreached.resolve_right hblank
          exact absurd (htable hall).2.2 (hbad.resolve_left hblank)
        · exact Or.inl ⟨s, hget, fun h => hshort (h.allEnough hlines).2⟩
        · obtain ⟨htidy, hfits, -⟩ := htable hall
          exact Or.inr ⟨t, s, hget, hspells.mpr ⟨htidy, hfits⟩⟩

/-- A blank line where a node is expected. -/
theorem not_exact_blank : ¬ Exact "1\n\n".toList := by
  have hnull : Replay.get_nodes (Replay.init "1\n\n".toList) = .error .nullToken := by
    decide +kernel
  rintro (⟨s, hget, -⟩ | ⟨t, s, hget, -⟩)
  · rw [hnull] at hget
    simp at hget
  · rw [hnull] at hget
    simp at hget

end LauSim.NodeTables
