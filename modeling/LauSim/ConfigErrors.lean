/-
How `Config::load_config` of `srv/config.cpp` fails.

Two things can go wrong with a configuration file without its caller noticing. A tic
length that `std::stoul` cannot read leaves `load_config` by an exception, as does a
role asked for a plugin that is not registered, and a tic length that is read
differently from what is written is taken without a word (`answered_iff`). And a word
that is no key at all passes for an assignment, if what it assigns is the name of a
plugin (`known_keys_iff`).

Both are about a loop over lines. A line is judged in the state the lines before it
have left, so the conditions are on the state before each line, and the properties are
those of the file and of every beginning of it.
-/
import LauSim.Assignment
import LauSim.Lib.Runs

set_option autoImplicit false

namespace LauSim.Config

open CText PluginManager Runs

variable {α : Type} [LinearOrder α]

/-! ## The loop over the lines -/

variable {pl : α → Plugin} {lib : Libraries α}

/-- The loop has read `lines` and is in the state `s`. -/
def Reads (pl : α → Plugin) (lib : Libraries α) (c : Conf α) (r : Registry α) (lines : List Text)
    (s : Loading α) : Prop :=
  c.is_loaded = false ∧ load_lines pl lib lines ⟨c, r, 0, 0⟩ = (.ret 0, s)

theorem load_lines_append {pre : List Text} {s s' : Loading α}
    (h : load_lines pl lib pre s = (.ret 0, s')) (rest : List Text) :
    load_lines pl lib (pre ++ rest) s = load_lines pl lib rest s' := by
  induction pre generalizing s with
  | nil =>
      obtain ⟨-, rfl⟩ := Prod.mk.inj h
      rfl
  | cons line pre ih =>
      rw [load_lines] at h
      rw [List.cons_append, load_lines]
      split at h
      · exact ih h
      · simp at h
      · simp at h

/-- A loop that gets through has got through every beginning. -/
theorem load_lines_of_append {pre rest : List Text} {s s' : Loading α}
    (h : load_lines pl lib (pre ++ rest) s = (.ret 0, s')) :
    ∃ s₁, load_lines pl lib pre s = (.ret 0, s₁) := by
  induction pre generalizing s with
  | nil => exact ⟨s, rfl⟩
  | cons line pre ih =>
      rw [List.cons_append, load_lines] at h
      rw [load_lines]
      split at h
      · exact ih h
      · simp at h
      · simp at h

/-- The loop over one line gets through as its body does, and throws as it does. -/
theorem load_lines_singleton {line : Text} {s s' : Loading α}
    (h : load_line pl lib line s = (.ret 0, s')) : load_lines pl lib [line] s = (.ret 0, s') := by
  rw [load_lines, h]
  rfl

theorem load_line_of_singleton {line : Text} {s s' : Loading α}
    (h : load_lines pl lib [line] s = (.ret 0, s')) : load_line pl lib line s = (.ret 0, s') := by
  rw [load_lines] at h
  split at h
  · next s₁ hline =>
    rw [hline]
    exact h
  · simp at h
  · simp at h

theorem load_lines_throws {line : Text} {s : Loading α}
    (h : (load_line pl lib line s).1 = .throws) : (load_lines pl lib [line] s).1 = .throws := by
  have hline : load_line pl lib line s = (.throws, (load_line pl lib line s).2) := Prod.ext h rfl
  rw [load_lines, hline]

/-- Where a loop that does not get through has stopped. -/
theorem load_lines_stops (pl : α → Plugin) (lib : Libraries α) (lines : List Text) (s : Loading α) :
    (∃ s', load_lines pl lib lines s = (.ret 0, s')) ∨
    ∃ pre line s₁, pre ++ [line] <+: lines ∧ load_lines pl lib pre s = (.ret 0, s₁) ∧
      (load_lines pl lib lines s).1 =
        if (load_line pl lib line s₁).1 = .throws then .throws else .ret (-1) := by
  induction lines generalizing s with
  | nil => exact Or.inl ⟨s, rfl⟩
  | cons line lines ih =>
      rw [load_lines]
      split
      · next s₁ hline =>
        rcases ih s₁ with hdone | ⟨pre, l, s₂, hpre, hreads, hend⟩
        · exact Or.inl hdone
        · refine Or.inr ⟨line :: pre, l, s₂, ?_, ?_, hend⟩
          · rw [List.cons_append]
            exact List.cons_prefix_cons.mpr ⟨rfl, hpre⟩
          · rw [load_lines, hline]
            exact hreads
      · next r s₁ hne hline =>
        refine Or.inr ⟨[], line, s, by simp, rfl, ?_⟩
        rw [hline, if_neg (by simp)]
      · next s₁ hline =>
        refine Or.inr ⟨[], line, s, by simp, rfl, ?_⟩
        rw [hline, if_pos rfl]

theorem load_config_of_loaded {lines : List Text} {c : Conf α} {r : Registry α}
    (h : c.is_loaded = true) : (load_config pl lib (some lines) c r).1 = .ret 1 := by
  unfold load_config
  rw [if_pos h]

/-- What a call returns that has read the file. -/
theorem load_config_fst {lines : List Text} {c : Conf α} {r : Registry α}
    (h : c.is_loaded = false) :
    (load_config pl lib (some lines) c r).1 = (load_lines pl lib lines ⟨c, r, 0, 0⟩).1 := by
  unfold load_config
  rw [if_neg (by simp [h])]
  dsimp only
  split
  · next s hlines => rw [hlines]
  · rfl

/-- One line more is answered as the line is. -/
theorem Reads.load_config_zero {pre : List Text} {line : Text} {c : Conf α} {r : Registry α}
    {s : Loading α} (h : Reads pl lib c r pre s) (hline : (load_line pl lib line s).1 = .ret 0) :
    (load_config pl lib (some (pre ++ [line])) c r).1 = .ret 0 := by
  have hall : load_lines pl lib [line] s = (.ret 0, (load_line pl lib line s).2) :=
    load_lines_singleton (Prod.ext hline rfl)
  rw [load_config_fst h.1, load_lines_append h.2, hall]

theorem Reads.load_config_throws {pre : List Text} {line : Text} {c : Conf α} {r : Registry α}
    {s : Loading α} (h : Reads pl lib c r pre s) (hline : (load_line pl lib line s).1 = .throws) :
    (load_config pl lib (some (pre ++ [line])) c r).1 = .throws := by
  rw [load_config_fst h.1, load_lines_append h.2, load_lines_throws hline]

theorem load_config_eq_zero_iff {lines : List Text} {c : Conf α} {r : Registry α} :
    (load_config pl lib (some lines) c r).1 = .ret 0 ↔ ∃ s, Reads pl lib c r lines s := by
  cases hloaded : c.is_loaded with
  | true =>
      rw [load_config_of_loaded hloaded]
      simp [Reads, hloaded]
  | false =>
      rw [load_config_fst hloaded]
      constructor
      · intro h
        exact ⟨_, hloaded, Prod.ext h rfl⟩
      · rintro ⟨s, -, hs⟩
        rw [hs]

/-- The section a line stands in, and the lines in front of it. -/
theorem mem_placed_iff {inLibs b : Bool} {lines : List Text} {line : Text} :
    (b, line) ∈ placed inLibs lines ↔
      ∃ pre, pre ++ [line] <+: lines ∧ b = pre.foldl nextSection inLibs := by
  induction lines using List.reverseRecOn with
  | nil => simp [placed]
  | append_singleton lines l ih =>
      rw [placed_append, List.mem_append, ih, List.mem_singleton, Prod.mk.injEq]
      constructor
      · rintro (⟨pre, hpre, hb⟩ | ⟨hb, hl⟩)
        · exact ⟨pre, List.prefix_concat_iff.mpr (Or.inr hpre), hb⟩
        · rw [hl]
          exact ⟨lines, List.prefix_refl _, hb⟩
      · rintro ⟨pre, hpre, hb⟩
        rcases List.prefix_concat_iff.mp hpre with heq | hpre
        · obtain ⟨hlines, hl⟩ := List.append_inj' heq rfl
          rw [← hlines]
          exact Or.inr ⟨hb, List.singleton_inj.mp hl⟩
        · exact Or.inl ⟨pre, hpre, hb⟩

theorem Reads.state_iff {lines : List Text} {c : Conf α} {r : Registry α} {s : Loading α}
    (h : Reads pl lib c r lines s) : s.state = 2 ↔ inLibsAfter lines = true := by
  obtain ⟨-, hlines⟩ := h
  induction lines using List.reverseRecOn generalizing s with
  | nil =>
      obtain ⟨-, rfl⟩ := Prod.mk.inj hlines
      simp [inLibsAfter]
  | append_singleton lines line ih =>
      obtain ⟨s₁, hs₁⟩ := load_lines_of_append hlines
      rw [load_lines_append hs₁] at hlines
      rw [inLibsAfter_append]
      exact state_load_line (ih hs₁) (load_line_of_singleton hlines)

/-- A line read outside the library sections stands outside them. -/
theorem Reads.mem_placed {pre : List Text} {c : Conf α} {r : Registry α} {s : Loading α}
    (h : Reads pl lib c r pre s) (hstate : s.state ≠ 2) (line : Text) :
    (false, line) ∈ placed false (pre ++ [line]) := by
  have hout : inLibsAfter pre = false := by
    rw [← Bool.not_eq_true, ← h.state_iff]
    exact hstate
  exact mem_placed_iff.mpr ⟨pre, List.prefix_refl _, hout.symm⟩

/-- A line outside the library sections, of a file that was read to its end, has been
read outside of them. -/
theorem Reads.of_mem_placed {lines : List Text} {c : Conf α} {r : Registry α} {s : Loading α}
    (h : Reads pl lib c r lines s) {line : Text} (hline : (false, line) ∈ placed false lines) :
    ∃ pre s₁, pre ++ [line] <+: lines ∧ Reads pl lib c r pre s₁ ∧ s₁.state ≠ 2 ∧
      (load_line pl lib line s₁).1 = .ret 0 := by
  obtain ⟨pre, hpre, hout⟩ := mem_placed_iff.mp hline
  obtain ⟨rest, rfl⟩ := hpre
  obtain ⟨s₂, hs₂⟩ := load_lines_of_append h.2
  obtain ⟨s₁, hs₁⟩ := load_lines_of_append hs₂
  have hreads : Reads pl lib c r pre s₁ := ⟨h.1, hs₁⟩
  refine ⟨pre, s₁, List.prefix_append _ _, hreads, ?_, ?_⟩
  · rw [Ne, hreads.state_iff, Bool.not_eq_true]
    exact hout.symm
  · rw [load_lines_append hs₁] at hs₂
    rw [load_line_of_singleton hs₂]

/-! ## Every file is answered -/

/-- A line that is blank, a comment or a section header. -/
def Exempt (line : Text) : Prop :=
  words line = [] ∨ (∃ token rest, words line = token :: rest ∧ token.head? = some '#') ∨
    lineToken line = .libs ∨ lineToken line = .config

/-- A number in the range of `unsigned long`, written in decimal. -/
def IsUlong (v : Text) : Prop :=
  ∃ ds, ds ≠ [] ∧ (∀ d ∈ ds, isDigitOf 10 d = true) ∧
    ((v = ds ∨ v = '+' :: ds) ∧ digitsValue 10 ds < 2 ^ 64 ∨
      v = '-' :: ds ∧ digitsValue 10 ds = 0)

/-- `tic = v` -/
def TicLine (line v : Text) : Prop :=
  heads ticKeys line = true ∧ (words line)[1]? = some "=".toList ∧ value line = some v

/-- `load_config` returns one of its codes, and it is not 0 if the file sets the tic
length to what is no number. -/
def Answered (pl : α → Plugin) (lib : Libraries α) (c : Conf α) (r : Registry α)
    (lines : List Text) : Prop :=
  ∃ code, (load_config pl lib (some lines) c r).1 = .ret code ∧
    (code = 0 ∨ code = 1 ∨ code = -1) ∧
    (code = 0 → ∀ line v, (false, line) ∈ placed false lines → TicLine line v → IsUlong v)

/-- What a line may be in the state `s`: the tic length it sets is a number, and the
library it loads asks for no role of a plugin that is not registered. -/
def Sound (pl : α → Plugin) (lib : Libraries α) (s : Loading α) (line : Text) : Prop :=
  (s.state ≠ 2 → ∀ v, TicLine line v → IsUlong v) ∧
  (s.state = 2 → ¬ Exempt line → ∀ name args, words line = name :: args →
    EachStep (fun r call => (PluginManager.call pl call r).2)
      (fun r call => ¬ Unregistered pl r call) s.plugins (lib s.loaded name args).2)

/-- Decimal digits behind a sign, or behind none. -/
theorem isSome_stoul {sign ds : Text} (hsign : sign = [] ∨ sign = ['+'] ∨ sign = ['-'])
    (hne : ds ≠ []) (hds : ∀ d ∈ ds, isDigitOf 10 d = true) (hlt : digitsValue 10 ds < 2 ^ 64) :
    (stoul (sign ++ ds)).isSome = true := by
  have hdigit : ∀ d ∈ ds, digitValue d < 10 := fun d hd => of_decide_eq_true (hds d hd)
  have hnul : nul ∉ sign ++ ds := by
    intro hmem
    rcases List.mem_append.mp hmem with hmem | hmem
    · rcases hsign with rfl | rfl | rfl
      · simp at hmem
      · exact absurd hmem (by decide)
      · exact absurd hmem (by decide)
    · exact absurd (hdigit nul hmem) (by decide)
  obtain ⟨d, ds', rfl⟩ := List.exists_cons_of_ne_nil hne
  have hd := hdigit d List.mem_cons_self
  have hspace : (sign ++ d :: ds').dropWhile isspace = sign ++ d :: ds' := by
    rcases hsign with rfl | rfl | rfl
    · rw [List.nil_append, List.dropWhile_cons_of_neg]
      rw [not_isspace_of_digitValue_lt hd]
      simp
    · rfl
    · rfl
  have hskip : skipSign (sign ++ d :: ds') = d :: ds' := by
    rcases hsign with rfl | rfl | rfl
    · have hplus : d ≠ '+' := by
        rintro rfl
        exact absurd hd (by decide)
      have hminus : d ≠ '-' := by
        rintro rfl
        exact absurd hd (by decide)
      simp [skipSign, hplus, hminus]
    · rfl
    · rfl
  have htake : (d :: ds').takeWhile (isDigitOf 10) = d :: ds' := List.takeWhile_eq_self_iff.mpr hds
  unfold stoul
  rw [cstr_of_not_mem hnul, hspace]
  dsimp only
  rw [hskip, htake, if_neg hne, if_neg (Nat.not_le.mpr hlt)]
  split
  · rfl
  · rfl

theorem isSome_stoul_of_isUlong {v : Text} (h : IsUlong v) : (stoul v).isSome = true := by
  obtain ⟨ds, hne, hds, ⟨rfl | rfl, hlt⟩ | ⟨rfl, hzero⟩⟩ := h
  · exact isSome_stoul (Or.inl rfl) hne hds hlt
  · exact isSome_stoul (Or.inr (Or.inl rfl)) hne hds hlt
  · refine isSome_stoul (Or.inr (Or.inr rfl)) hne hds ?_
    rw [hzero]
    decide

/-! ## The body of the loop -/

theorem load_line_exempt {line : Text} (h : Exempt line) (s : Loading α) :
    (load_line pl lib line s).1 = .ret 0 := by
  unfold load_line
  dsimp only
  split
  · rfl
  · next token rest hwords =>
    split
    · rfl
    · next hcomment =>
      have hid : (get_token_identifyer token).value &&& decl_id = 0 := by
        rw [header_iff]
        rcases h with hnil | ⟨t, rest', ht, hc⟩ | hlibs
        · rw [hwords] at hnil
          exact absurd hnil (by simp)
        · rw [hwords] at ht
          obtain ⟨rfl, -⟩ := List.cons.inj ht
          exact absurd hc hcomment
        · unfold lineToken at hlibs
          rw [hwords] at hlibs
          exact hlibs
      rw [if_pos hid]

/-- Any other line starts with a word that is no comment and opens no section. -/
theorem not_exempt_iff {line : Text} : ¬ Exempt line ↔ ∃ token rest, words line = token :: rest ∧
    token.head? ≠ some '#' ∧ lineToken line = get_token_identifyer token ∧
    ¬ (get_token_identifyer token).value &&& decl_id = 0 := by
  unfold Exempt lineToken
  cases hwords : words line with
  | nil => exact iff_of_false (fun h => h (Or.inl rfl)) (by simp)
  | cons token rest =>
      simp only [header_iff]
      constructor
      · intro h
        push Not at h
        exact ⟨token, rest, rfl, h.2.1 token rest rfl, rfl, not_or.mpr h.2.2⟩
      · rintro ⟨t, r, ht, hcomment, -, hdecl⟩ (h | ⟨t', r', ht', h⟩ | h)
        · simp at h
        · rw [← (List.cons.inj ht').1, (List.cons.inj ht).1] at h
          exact hcomment h
        · rw [(List.cons.inj ht).1] at h
          exact hdecl h

/-- It is the name of a library inside a library section. -/
theorem load_line_lib {line token : Text} {rest : List Text} {s : Loading α} (h : ¬ Exempt line)
    (hwords : words line = token :: rest) (hstate : s.state = 2) :
    (load_line pl lib line s).1 =
      if (runCalls pl (lib s.loaded token rest).2 s.plugins).1 then .ret (lib s.loaded token rest).1
      else .throws := by
  obtain ⟨t, r, ht, hcomment, -, hdecl⟩ := not_exempt_iff.mp h
  rw [hwords] at ht
  obtain ⟨rfl, -⟩ := List.cons.inj ht
  have hlibs : s.state = UInt8.ofNat (1 <<< TokenId.libs.value) := hstate
  unfold load_line
  rw [hwords]
  dsimp only
  rw [if_neg hcomment, if_neg hdecl, if_pos hlibs]
  rfl

/-- It is a key elsewhere. -/
theorem load_line_decl (pl : α → Plugin) (lib : Libraries α) {line token : Text}
    {rest : List Text} {s : Loading α} (h : ¬ Exempt line) (hwords : words line = token :: rest)
    (hstate : s.state ≠ 2) :
    ∃ c, (load_line pl lib line s).1 = (set_config pl (lineToken line) rest s.plugins c).1 := by
  obtain ⟨t, r, ht, hcomment, hid, hdecl⟩ := not_exempt_iff.mp h
  rw [hwords] at ht
  obtain ⟨rfl, -⟩ := List.cons.inj ht
  have hlibs : ¬ s.state = UInt8.ofNat (1 <<< TokenId.libs.value) := hstate
  rw [hid]
  unfold load_line
  rw [hwords]
  dsimp only
  rw [if_neg hcomment, if_neg hdecl, if_neg hlibs]
  exact ⟨_, rfl⟩

theorem not_exempt_of_tic {line : Text} (h : lineToken line = .tic) : ¬ Exempt line := by
  rintro (hnil | ⟨token, rest, hwords, hcomment⟩ | hlibs | hconfig)
  · rw [lineToken, hnil] at h
    exact absurd h (by decide)
  · rw [lineToken, hwords] at h
    exact absurd ((get_token_comment hcomment).symm.trans h) (by decide)
  · exact absurd (hlibs.symm.trans h) (by decide)
  · exact absurd (hconfig.symm.trans h) (by decide)

theorem ticLine_iff {line token v : Text} {rest : List Text} (hwords : words line = token :: rest) :
    TicLine line v ↔
      lineToken line = .tic ∧ rest.head? = some "=".toList ∧ rest[1]? = some v := by
  rw [TicLine, heads_tic, decide_eq_true_iff, value, hwords, List.head?_eq_getElem?]
  rfl

/-- Outside the library sections, `tic = v` is carried out or throws. -/
theorem load_line_tic {line v : Text} {s : Loading α} (hstate : s.state ≠ 2) (h : TicLine line v) :
    (load_line pl lib line s).1 = if (stoul v).isSome then .ret 0 else .throws := by
  have hid : lineToken line = .tic := by
    rw [← decide_eq_true_iff (p := lineToken line = .tic), ← heads_tic]
    exact h.1
  obtain ⟨token, rest, hwords, -⟩ := not_exempt_iff.mp (not_exempt_of_tic hid)
  obtain ⟨-, heq, hv⟩ := (ticLine_iff hwords).mp h
  obtain ⟨c, hc⟩ := load_line_decl pl lib (not_exempt_of_tic hid) hwords hstate
  rw [hc, hid, set_config_tic heq hv]

/-- Where the body of the loop throws. -/
theorem load_line_throws_iff {line : Text} {s : Loading α} :
    (load_line pl lib line s).1 = .throws ↔
      (s.state ≠ 2 ∧ ∃ v, TicLine line v ∧ stoul v = none) ∨
      (s.state = 2 ∧ ¬ Exempt line ∧ ∃ name args, words line = name :: args ∧
        (runCalls pl (lib s.loaded name args).2 s.plugins).1 = false) := by
  constructor
  · intro h
    have hexempt : ¬ Exempt line := by
      intro hexempt
      rw [load_line_exempt hexempt] at h
      exact absurd h (by decide)
    obtain ⟨token, rest, hwords, -⟩ := not_exempt_iff.mp hexempt
    by_cases hstate : s.state = 2
    · refine Or.inr ⟨hstate, hexempt, token, rest, hwords, ?_⟩
      rw [load_line_lib hexempt hwords hstate] at h
      by_contra hcalls
      rw [Bool.not_eq_false] at hcalls
      rw [if_pos hcalls] at h
      exact End.noConfusion h
    · obtain ⟨c, hc⟩ := load_line_decl pl lib hexempt hwords hstate
      rw [hc] at h
      obtain ⟨hid, heq, v, hv, hnone⟩ := set_config_throws h
      exact Or.inl ⟨hstate, v, (ticLine_iff hwords).mpr ⟨hid, heq, hv⟩, hnone⟩
  · rintro (⟨hstate, v, hline, hnone⟩ | ⟨hstate, hexempt, name, args, hwords, hcalls⟩)
    · rw [load_line_tic hstate hline, hnone]
      rfl
    · rw [load_line_lib hexempt hwords hstate, hcalls]
      rfl

theorem Sound.not_throws {line : Text} {s : Loading α} (h : Sound pl lib s line) :
    (load_line pl lib line s).1 ≠ .throws := by
  rw [Ne, load_line_throws_iff]
  rintro (⟨hstate, v, hline, hnone⟩ | ⟨hstate, hexempt, name, args, hwords, hcalls⟩)
  · have hsome := isSome_stoul_of_isUlong (h.1 hstate v hline)
    rw [hnone] at hsome
    simp at hsome
  · rw [runCalls_iff.mpr (h.2 hstate hexempt name args hwords)] at hcalls
    simp at hcalls

/-- **Status codes, exactly.** For every file, every behaviour of the libraries, every
configuration and every registry: of the file and of every beginning of it,
`load_config` returns 0, 1 or -1, and not 0 if it sets the tic length to what is no
number in the range of `unsigned long`, exactly if every line the loop comes to sets
the tic length to such a number, if it sets it, and no library it loads asks for a role
of a plugin that is not registered. -/
theorem answered_iff (pl : α → Plugin) (lib : Libraries α) (c : Conf α) (r : Registry α)
    (lines : List Text) :
    (∀ pre, pre <+: lines → Answered pl lib c r pre) ↔
      ∀ pre line s, pre ++ [line] <+: lines → Reads pl lib c r pre s → Sound pl lib s line := by
  constructor
  · intro h pre line s hpre hreads
    -- the beginning that ends with the line
    obtain ⟨code, hcode, -, htic⟩ := h _ hpre
    have hnot : (load_line pl lib line s).1 ≠ .throws := by
      intro hthrows
      rw [hreads.load_config_throws hthrows] at hcode
      exact End.noConfusion hcode
    rw [Ne, load_line_throws_iff, not_or] at hnot
    refine ⟨fun hstate v hline => ?_, fun hstate hexempt name args hwords => ?_⟩
    · have hsome : (stoul v).isSome = true := by
        by_contra hnone
        exact hnot.1 ⟨hstate, v, hline, by simpa using hnone⟩
      have hzero : (load_line pl lib line s).1 = .ret 0 := by
        rw [load_line_tic hstate hline, if_pos hsome]
      rw [hreads.load_config_zero hzero] at hcode
      exact htic (End.ret.inj hcode).symm line v (hreads.mem_placed hstate line) hline
    · rw [← runCalls_iff]
      by_contra hcalls
      exact hnot.2 ⟨hstate, hexempt, name, args, hwords, by simpa using hcalls⟩
  · intro h pre hpre
    cases hloaded : c.is_loaded with
    | true =>
        refine ⟨1, load_config_of_loaded hloaded, by decide, fun hone => ?_⟩
        exact absurd hone (by decide)
    | false =>
        rcases load_lines_stops pl lib pre ⟨c, r, 0, 0⟩ with
          ⟨s, hs⟩ | ⟨pre', line, s, hpre', hs, hend⟩
        · -- the file is read to its end
          refine ⟨0, ?_, by decide, fun _ line v hline htic => ?_⟩
          · rw [load_config_fst hloaded, hs]
          · have hreads : Reads pl lib c r pre s := ⟨hloaded, hs⟩
            obtain ⟨pre', s', hpre', hreads', hstate, -⟩ := hreads.of_mem_placed hline
            exact (h pre' line s' (hpre'.trans hpre) hreads').1 hstate v htic
        · -- a line is refused
          have hsound : Sound pl lib s line := h pre' line s (hpre'.trans hpre) ⟨hloaded, hs⟩
          refine ⟨-1, ?_, by decide, fun hzero => absurd hzero (by decide)⟩
          rw [load_config_fst hloaded, hend, if_neg hsound.not_throws]

/-- `tic = abc` -/
theorem not_answered_tic_abc :
    ¬ Answered (fun _ : ℕ => Plugin.mk "p".toList PL_LOGGER) (fun _ _ _ => (0, [])) Conf.initial
        OrdMap.empty ["tic = abc".toList] := by
  rintro ⟨code, hcode, -⟩
  have hthrows : (load_config (fun _ : ℕ => Plugin.mk "p".toList PL_LOGGER) (fun _ _ _ => (0, []))
      (some ["tic = abc".toList]) Conf.initial OrdMap.empty).1 = .throws := by decide +kernel
  rw [hthrows] at hcode
  exact End.noConfusion hcode

/-! ## Known keys -/

/-- `key = value ...`, for a key of the table. -/
def KnownLine (line : Text) : Prop :=
  ∃ key v rest, words line = key :: "=".toList :: v :: rest ∧
    ∃ item ∈ tokenids, item.2.value &&& decl_id ≠ 0 ∧ strcaseeq key item.1 = true

/-- `key = value ...`, for a key that is not in the table and the name of a plugin. -/
def Silent (pl : α → Plugin) (s : Loading α) (line : Text) : Prop :=
  s.state ≠ 2 ∧ ∃ key v rest p, words line = key :: "=".toList :: v :: rest ∧
    key.head? ≠ some '#' ∧ (∀ item ∈ tokenids, strcaseeq key item.1 = false) ∧
    get_by_name pl v s.plugins = some p

/-- A word that is not in the table has no token. -/
theorem get_token_unknown {tk : Text} (h : ∀ item ∈ tokenids, strcaseeq tk item.1 = false) :
    get_token_identifyer tk = .none := by
  apply get_token_of_not_mem
  intro item hitem heq
  have hno := h item hitem
  rw [strcaseeq_token hitem, decide_eq_false_iff_not] at hno
  exact hno heq

/-- The token of an unknown word has the bit of a declaration: the line is taken for an
assignment, and the `switch` has no case for it. -/
theorem load_line_silent (lib : Libraries α) {line : Text} {s : Loading α} (h : Silent pl s line) :
    ¬ Exempt line ∧ (load_line pl lib line s).1 = .ret 0 := by
  obtain ⟨hstate, key, v, rest, p, hwords, hcomment, hunknown, hp⟩ := h
  have hid : lineToken line = .none := by
    rw [lineToken, hwords]
    exact get_token_unknown hunknown
  have hexempt : ¬ Exempt line := by
    refine not_exempt_iff.mpr ⟨key, _, hwords, hcomment, ?_, ?_⟩
    · rw [hid, get_token_unknown hunknown]
    · rw [get_token_unknown hunknown]
      decide
  refine ⟨hexempt, ?_⟩
  obtain ⟨c, hc⟩ := load_line_decl pl lib hexempt hwords hstate
  rw [hc, hid]
  have heq : ("=".toList :: v :: rest).head? = some "=".toList := rfl
  have hv : ("=".toList :: v :: rest)[1]? = some v := rfl
  unfold set_config
  rw [if_neg (not_not.mpr heq), hv]
  dsimp only
  rw [if_neg (by decide), hp]
  rfl

/-- A line that is accepted as an assignment is one to a known key, or a silent one. -/
theorem known_or_silent {line : Text} {s : Loading α} (hexempt : ¬ Exempt line)
    (hstate : s.state ≠ 2) (h : (load_line pl lib line s).1 = .ret 0) :
    KnownLine line ∨ Silent pl s line := by
  obtain ⟨key, tail, hwords, hcomment, hid, hdecl⟩ := not_exempt_iff.mp hexempt
  obtain ⟨c, hc⟩ := load_line_decl pl lib hexempt hwords hstate
  rw [hc] at h
  have heq := set_config_equals h
  have hzero : set_config pl (lineToken line) tail s.plugins c = (.ret 0, _) := Prod.ext h rfl
  obtain ⟨v, hv, hcase⟩ := set_config_eq_zero hzero
  obtain ⟨rest, rfl⟩ : ∃ rest, tail = "=".toList :: v :: rest := by
    match tail, heq, hv with
    | e :: w :: rest, heq, hv =>
      exact ⟨rest, by rw [Option.some.inj heq, Option.some.inj hv]⟩
  by_cases hknown : ∃ item ∈ tokenids, strcaseeq key item.1 = true
  · obtain ⟨item, hitem, hkey⟩ := hknown
    refine Or.inl ⟨key, v, rest, hwords, item, hitem, ?_, hkey⟩
    rw [strcaseeq_token hitem, decide_eq_true_iff] at hkey
    rw [← get_token_of_mem hitem hkey]
    exact hdecl
  · have hunknown : ∀ item ∈ tokenids, strcaseeq key item.1 = false := by
      intro item hitem
      by_contra hkey
      exact hknown ⟨item, hitem, by simpa using hkey⟩
    rcases hcase with ⟨htic, -⟩ | ⟨-, p, hp, -⟩
    · rw [hid, get_token_unknown hunknown] at htic
      exact absurd htic (by decide)
    · exact Or.inr ⟨hstate, key, v, rest, p, hwords, hcomment, hunknown, hp⟩

/-- **Known keys, exactly.** For every file, every behaviour of the libraries, every
configuration and every registry: whenever `load_config` returns 0 for the file or a
beginning of it, every line outside the library sections is blank, a comment, a
section header or an assignment to a key of the table, exactly if the loop comes to no
line that assigns the name of a loaded plugin to a word which is not in the table. -/
theorem known_keys_iff (pl : α → Plugin) (lib : Libraries α) (c : Conf α) (r : Registry α)
    (lines : List Text) :
    (∀ pre, pre <+: lines → (load_config pl lib (some pre) c r).1 = .ret 0 →
      ∀ line, (false, line) ∈ placed false pre → Exempt line ∨ KnownLine line) ↔
      ∀ pre line s, pre ++ [line] <+: lines → Reads pl lib c r pre s → ¬ Silent pl s line := by
  constructor
  · rintro h pre line s hpre hreads hsilent
    obtain ⟨hexempt, hret⟩ := load_line_silent lib hsilent
    have hline := hreads.mem_placed hsilent.1 line
    rcases h _ hpre (hreads.load_config_zero hret) line hline with hex | hknown
    · exact hexempt hex
    · -- the word would be in the table
      obtain ⟨-, key, v, rest, p, hwords, -, hunknown, -⟩ := hsilent
      obtain ⟨key', v', rest', hwords', item, hitem, -, hkey⟩ := hknown
      rw [hwords] at hwords'
      rw [← (List.cons.inj hwords').1, hunknown item hitem] at hkey
      exact absurd hkey (by decide)
  · intro h pre hpre hzero line hline
    obtain ⟨s, hreads⟩ := load_config_eq_zero_iff.mp hzero
    obtain ⟨pre', s', hpre', hreads', hstate, hret⟩ := hreads.of_mem_placed hline
    by_contra hnot
    rw [not_or] at hnot
    rcases known_or_silent hnot.1 hstate hret with hknown | hsilent
    · exact hnot.2 hknown
    · exact h pre' line s' (hpre'.trans hpre) hreads' hsilent

/-- `foo = p`, for a plugin `p` that a library has registered. -/
theorem not_known_keys_foo :
    ¬ ((load_config (fun _ : ℕ => Plugin.mk "p".toList PL_LOGGER) (fun _ _ _ => (0, []))
          (some ["foo = p".toList]) Conf.initial (OrdMap.empty.emplace 0 PL_NONE)).1 = .ret 0 →
        ∀ line, (false, line) ∈ placed false ["foo = p".toList] →
          Exempt line ∨ KnownLine line) := by
  intro h
  have hwords : words "foo = p".toList = ["foo".toList, "=".toList, "p".toList] := by decide +kernel
  rcases h (by decide +kernel) "foo = p".toList (by decide +kernel) with hexempt | hknown
  · refine not_exempt_iff.mpr ⟨"foo".toList, _, hwords, by decide, ?_, by decide +kernel⟩ hexempt
    rw [lineToken, hwords]
  · obtain ⟨key, v, rest, hline, item, hitem, -, hkey⟩ := hknown
    rw [hwords] at hline
    have hunknown : ∀ item ∈ tokenids, strcaseeq "foo".toList item.1 = false := by decide +kernel
    rw [← (List.cons.inj hline).1, hunknown item hitem] at hkey
    exact absurd hkey (by decide)

end LauSim.Config
