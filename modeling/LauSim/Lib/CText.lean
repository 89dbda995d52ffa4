/-
C text as lists: the part of `<string.h>`, `<stdlib.h>` and `<stdio.h>` that
line-oriented C programs are written with.

A byte of a C text is a `Char`, so that the literals of a source can be
written as they stand; every statement below is for *all* lists, and the byte
strings a C program can meet are among them. A buffer is the list of the bytes
`getline` stored, and what the string functions see of it is `cstr`: everything
before the first NUL.

The functions follow the C standard (strtoull with base 0, `%u`, `%d`) and
POSIX (`getline`). Two reformulations are proved rather than assumed:
`lines` is what successive `getline` calls return (`getline_eq`), and
`strtoks` is what successive `strtok` calls return (`strtoks_eq`).

The second half is the printing/reading pair: what `%u` or a signed `%d` wrote
is read back by `strtoull`, whatever follows the number, as long as it is not
alphanumeric (`strtoull_fmtU`, `strtoull_fmtD64`, `strtoull_fmtD32`).
-/
import Mathlib

set_option autoImplicit false

namespace CText

/-- A C text, byte by byte. -/
abbrev Text := List Char

/-- The terminating NUL. -/
def nul : Char := '\x00'

/-- What the string functions see of a buffer. -/
def cstr (buf : Text) : Text := buf.takeWhile (fun c => c != nul)

theorem cstr_of_not_mem {s : Text} (h : nul ∉ s) : cstr s = s := by
  rw [cstr, List.takeWhile_eq_self_iff]
  intro c hc
  simp only [bne_iff_ne, ne_eq]
  rintro rfl
  exact h hc

/-- `strcmp (a, b) == 0`. -/
def streq (a b : Text) : Bool := decide (cstr a = cstr b)

theorem streq_symm {a b : Text} (h : streq a b = true) : streq b a = true := by
  simpa [streq, eq_comm] using h

theorem streq_trans {a b c : Text} (h : streq a b = true) (h' : streq b c = true) :
    streq a c = true := by
  simp only [streq, decide_eq_true_eq] at *
  exact h.trans h'

/-! ## Lines -/

/-- POSIX `getline`: `none` at the end of the stream (the call returns -1),
else the line with its newline, if it has one, and the rest of the stream. -/
def getline (s : Text) : Option (Text × Text) :=
  match s with
  | [] => none
  | _ :: _ =>
    match s.dropWhile (fun c => c != '\n') with
    -- the stream ends without a newline: what is there is the line
    | [] => some (s, [])
    | nl :: rest => some (s.takeWhile (fun c => c != '\n') ++ [nl], rest)

/-- The lines of a stream, each with its newline (the last one may lack it). -/
def lines : Text → List Text
  | [] => []
  | c :: cs =>
    if c = '\n' then [c] :: lines cs
    else
      -- `c` belongs to the line that comes next, if there is one
      match lines cs with
      | [] => [[c]]
      | l :: ls => (c :: l) :: ls

@[simp] theorem lines_nil : lines [] = [] := rfl

theorem lines_newline (s : Text) : lines ('\n' :: s) = ['\n'] :: lines s := by
  simp [lines]

/-- A line that is complete comes off the front. -/
theorem lines_append_newline {l : Text} (h : '\n' ∉ l) (rest : Text) :
    lines (l ++ '\n' :: rest) = (l ++ ['\n']) :: lines rest := by
  induction l with
  | nil => exact lines_newline rest
  | cons c l ih =>
      have hc : c ≠ '\n' := fun heq => h (by rw [heq]; exact List.mem_cons_self)
      have hl : '\n' ∉ l := fun hm => h (List.mem_cons_of_mem _ hm)
      rw [List.cons_append, lines, if_neg hc, ih hl]
      rfl

theorem lines_of_not_mem {l : Text} (h : '\n' ∉ l) (hne : l ≠ []) : lines l = [l] := by
  induction l with
  | nil => exact absurd rfl hne
  | cons c l ih =>
      have hc : c ≠ '\n' := fun heq => h (by rw [heq]; exact List.mem_cons_self)
      have hl : '\n' ∉ l := fun hm => h (List.mem_cons_of_mem _ hm)
      rw [lines, if_neg hc]
      cases l with
      | nil => rfl
      | cons d l => rw [ih hl (by simp)]

/-- `getline` pops the lines one by one. -/
theorem getline_eq (s : Text) :
    (getline s = none ∧ lines s = []) ∨
      ∃ l rest, getline s = some (l, rest) ∧ lines s = l :: lines rest := by
  cases s with
  | nil => exact Or.inl ⟨rfl, rfl⟩
  | cons c cs =>
      right
      have hmem : '\n' ∉ (c :: cs).takeWhile (fun c => c != '\n') := fun hm => by
        have h := List.mem_takeWhile_imp hm
        simp at h
      have hsplit := List.takeWhile_append_dropWhile (p := fun c => c != '\n') (l := c :: cs)
      cases hd : (c :: cs).dropWhile (fun c => c != '\n') with
      | nil =>
          -- no newline: the stretch in front of it is everything
          rw [hd, List.append_nil] at hsplit
          refine ⟨c :: cs, [], ?_, ?_⟩
          · simp only [getline, hd]
          · exact lines_of_not_mem (by rw [← hsplit]; exact hmem) (by simp)
      | cons d rest =>
          have hdn : d = '\n' := by
            have h := List.head_dropWhile_not (fun c => c != '\n') (l := c :: cs) (by rw [hd]; simp)
            simpa [hd] using h
          refine ⟨(c :: cs).takeWhile (fun c => c != '\n') ++ [d], rest, ?_, ?_⟩
          · simp only [getline, hd]
          · conv_lhs => rw [← hsplit, hd, hdn]
            rw [lines_append_newline hmem, hdn]

/-- A line has a newline at its end only: not in front of another byte. -/
theorem not_mem_of_mem_lines {s l : Text} (h : l ∈ lines s) {a b : Text} {d : Char}
    (hl : l = a ++ d :: b) : '\n' ∉ a := by
  induction s generalizing l a with
  | nil => exact absurd h List.not_mem_nil
  | cons c cs ih =>
      rw [lines] at h
      split at h
      · rcases List.mem_cons.mp h with rfl | h
        · -- a line that is only a newline has nothing in front
          cases a with
          | nil => exact List.not_mem_nil
          | cons x a => simp at hl
        · exact ih h hl
      · next hc =>
        cases hlines : lines cs with
        | nil =>
            rw [hlines] at h
            rw [List.mem_singleton.mp h] at hl
            cases a with
            | nil => exact List.not_mem_nil
            | cons x a => simp at hl
        | cons m ls =>
            rw [hlines] at h
            rcases List.mem_cons.mp h with rfl | h
            · cases a with
              | nil => exact List.not_mem_nil
              | cons x a =>
                  rw [List.cons_append, List.cons.injEq] at hl
                  have hrest := ih (by rw [hlines]; exact List.mem_cons_self) hl.2
                  rw [List.mem_cons, not_or, ← hl.1]
                  exact ⟨fun heq => hc heq.symm, hrest⟩
            · exact ih (by rw [hlines]; exact List.mem_cons_of_mem _ h) hl

/-- A complete line. -/
def IsLine (x : Text) : Prop := ∃ l, '\n' ∉ l ∧ x = l ++ ['\n']

theorem lines_append_isLine {x : Text} (h : IsLine x) (rest : Text) :
    lines (x ++ rest) = x :: lines rest := by
  obtain ⟨l, hl, rfl⟩ := h
  rw [List.append_assoc, List.singleton_append, lines_append_newline hl]

/-- A text written line by line has the lines written. -/
theorem lines_flatMap {β : Type*} {g : β → Text} {xs : List β} (h : ∀ x ∈ xs, IsLine (g x))
    (rest : Text) : lines (xs.flatMap g ++ rest) = xs.map g ++ lines rest := by
  induction xs with
  | nil => rfl
  | cons x xs ih =>
      rw [List.flatMap_cons, List.append_assoc, lines_append_isLine (h x List.mem_cons_self),
        ih (fun y hy => h y (List.mem_cons_of_mem _ hy))]
      rfl

/-- The lines that have their newline. -/
def completeLines (s : Text) : List Text := (lines s).filter (fun l => l.getLast? = some '\n')

/-- Complete lines at the front are complete lines of the text. -/
theorem completeLines_append {ls : List Text} (h : ∀ l ∈ ls, IsLine l) (rest : Text) :
    completeLines (ls.flatten ++ rest) = ls ++ completeLines rest := by
  have hlines := lines_flatMap (g := id) h rest
  rw [List.flatMap_id, List.map_id] at hlines
  have hfilter : ls.filter (fun l => l.getLast? = some '\n') = ls := by
    rw [List.filter_eq_self]
    intro l hl
    obtain ⟨m, -, rfl⟩ := h l hl
    simp
  rw [completeLines, hlines, List.filter_append, hfilter, completeLines]

theorem completeLines_eq_lines {s : Text} (h : ∀ l ∈ lines s, IsLine l) :
    completeLines s = lines s := by
  rw [completeLines, List.filter_eq_self]
  intro l hl
  obtain ⟨m, -, rfl⟩ := h l hl
  simp

theorem completeLines_eq_nil_iff {s : Text} : completeLines s = [] ↔ '\n' ∉ s := by
  constructor
  · intro h hmem
    obtain ⟨l, rest, rfl, hl⟩ := List.eq_append_cons_of_mem hmem
    have hlines := @completeLines_append [l ++ ['\n']]
      (List.forall_mem_singleton.mpr ⟨l, hl, rfl⟩) rest
    simp [h] at hlines
  · intro h
    by_cases hs : s = []
    · rw [hs]
      rfl
    · have hlast : s.getLast? ≠ some '\n' := fun hl => h (List.mem_of_getLast? hl)
      rw [completeLines, lines_of_not_mem h hs]
      simp [hlast]

/-! ## Tokens, and the first occurrence of a byte -/

/-- One call of `strtok`: leading delimiters are skipped, the token runs to the
next delimiter, which is overwritten. `none` is the NULL pointer. -/
def strtok (delim : List Char) (s : Text) : Option (Text × Text) :=
  match s.dropWhile (fun c => delim.contains c) with
  | [] => none
  | c :: cs =>
    some ((c :: cs).takeWhile (fun c => !delim.contains c),
      ((c :: cs).dropWhile (fun c => !delim.contains c)).tail)

/-- The tokens from the left end on: the one that starts at the first byte
(empty when that byte is a delimiter), and the later ones. -/
def strtoksGo (delim : List Char) : Text → Text × List Text
  | [] => ([], [])
  | c :: cs =>
    match strtoksGo delim cs with
    | (t, ts) =>
      -- a delimiter closes the token that starts behind it, if that is not empty
      if delim.contains c then ([], if t = [] then ts else t :: ts) else (c :: t, ts)

/-- The tokens that `strtok (s, delim)` and the calls `strtok (NULL, delim)`
after it return, in order; the call after the last one returns NULL. -/
def strtoks (delim : List Char) (s : Text) : List Text :=
  match strtoksGo delim s with
  | (t, ts) => if t = [] then ts else t :: ts

@[simp] theorem strtoks_nil (delim : List Char) : strtoks delim [] = [] := rfl

theorem strtoksGo_cons_delim {delim : List Char} {c : Char} (h : c ∈ delim) (s : Text) :
    strtoksGo delim (c :: s) = ([], strtoks delim s) := by
  simp only [strtoksGo, strtoks]
  rw [if_pos (List.contains_iff_mem.mpr h)]

theorem strtoks_cons_delim {delim : List Char} {c : Char} (h : c ∈ delim) (s : Text) :
    strtoks delim (c :: s) = strtoks delim s := by
  conv_lhs => rw [strtoks]
  simp only [strtoksGo_cons_delim h, if_true]

/-- The token that starts at the left end swallows everything up to the next
delimiter. -/
theorem strtoksGo_append {delim : List Char} {t : Text} (h : ∀ c ∈ t, c ∉ delim) (s : Text) :
    strtoksGo delim (t ++ s) = (t ++ (strtoksGo delim s).1, (strtoksGo delim s).2) := by
  induction t with
  | nil => rfl
  | cons c t ih =>
      have hc : ¬ delim.contains c = true :=
        fun hm => h c List.mem_cons_self (List.contains_iff_mem.mp hm)
      rw [List.cons_append, strtoksGo, ih (fun d hd => h d (List.mem_cons_of_mem _ hd))]
      simp only [if_neg hc, List.cons_append]

/-- A non-empty stretch without delimiters, closed by one, is the first token. -/
theorem strtoks_append {delim : List Char} {t : Text} (hne : t ≠ [])
    (h : ∀ c ∈ t, c ∉ delim) {d : Char} (hd : d ∈ delim) (s : Text) :
    strtoks delim (t ++ d :: s) = t :: strtoks delim s := by
  rw [strtoks, strtoksGo_append h, strtoksGo_cons_delim hd]
  simp [hne]

/-- A non-empty text without delimiters is its only token. -/
theorem strtoks_of_not_mem {delim : List Char} {t : Text} (hne : t ≠ [])
    (h : ∀ c ∈ t, c ∉ delim) : strtoks delim t = [t] := by
  have hgo := strtoksGo_append h []
  rw [List.append_nil] at hgo
  rw [strtoks, hgo]
  simp [strtoksGo, hne]

/-- Tokens written with a separator in front of each but the first, and closed
by a last delimiter, are read back. -/
theorem strtoks_intercalate {delim : List Char} {sep last : Char} (hsep : sep ∈ delim)
    (hlast : last ∈ delim) {x : Text} {xs : List Text}
    (h : ∀ t ∈ x :: xs, t ≠ [] ∧ ∀ c ∈ t, c ∉ delim) :
    strtoks delim (x ++ (xs.flatMap (fun t => sep :: t) ++ [last])) = x :: xs := by
  induction xs generalizing x with
  | nil =>
      obtain ⟨hne, hx⟩ := h x List.mem_cons_self
      exact strtoks_append hne hx hlast []
  | cons y ys ih =>
      obtain ⟨hne, hx⟩ := h x List.mem_cons_self
      rw [List.flatMap_cons, List.cons_append, List.cons_append, strtoks_append hne hx hsep,
        List.append_assoc, ih (fun t ht => h t (List.mem_cons_of_mem _ ht))]

/-- What every token is: not empty, without delimiters, made of bytes of the text. -/
theorem mem_strtoks {delim : List Char} {s t : Text} (h : t ∈ strtoks delim s) :
    t ≠ [] ∧ ∀ c ∈ t, c ∉ delim ∧ c ∈ s := by
  have hgo : ∀ s : Text, (∀ c ∈ (strtoksGo delim s).1, c ∉ delim ∧ c ∈ s) ∧
      ∀ t ∈ (strtoksGo delim s).2, t ≠ [] ∧ ∀ c ∈ t, c ∉ delim ∧ c ∈ s := by
    intro s
    induction s with
    | nil => exact ⟨by simp [strtoksGo], by simp [strtoksGo]⟩
    | cons d s ih =>
        obtain ⟨hfirst, hlater⟩ := ih
        have hfirst' : ∀ c ∈ (strtoksGo delim s).1, c ∉ delim ∧ c ∈ d :: s :=
          fun c hc => ⟨(hfirst c hc).1, List.mem_cons_of_mem _ (hfirst c hc).2⟩
        have hlater' : ∀ t ∈ (strtoksGo delim s).2, t ≠ [] ∧ ∀ c ∈ t, c ∉ delim ∧ c ∈ d :: s :=
          fun t ht => ⟨(hlater t ht).1, fun c hc =>
            ⟨((hlater t ht).2 c hc).1, List.mem_cons_of_mem _ ((hlater t ht).2 c hc).2⟩⟩
        rw [strtoksGo]
        dsimp only
        split
        · refine ⟨fun c hc => absurd hc List.not_mem_nil, ?_⟩
          split
          · exact hlater'
          · next hne => exact List.forall_mem_cons.mpr ⟨⟨hne, hfirst'⟩, hlater'⟩
        · next hd =>
          refine ⟨List.forall_mem_cons.mpr ⟨⟨?_, List.mem_cons_self⟩, hfirst'⟩, hlater'⟩
          exact fun hm => hd (List.contains_iff_mem.mpr hm)
  obtain ⟨hfirst, hlater⟩ := hgo s
  rw [strtoks] at h
  dsimp only at h
  split at h
  · exact hlater t h
  · next hne =>
    rcases List.mem_cons.mp h with rfl | h
    · exact ⟨hne, hfirst⟩
    · exact hlater t h

/-- A delimiter at the end closes nothing that is not a token already. -/
theorem strtoks_append_delim {delim : List Char} {d : Char} (h : d ∈ delim) (s : Text) :
    strtoks delim (s ++ [d]) = strtoks delim s := by
  have hgo : strtoksGo delim (s ++ [d]) = strtoksGo delim s := by
    induction s with
    | nil => exact strtoksGo_cons_delim h []
    | cons c s ih => rw [List.cons_append, strtoksGo, strtoksGo, ih]
  rw [strtoks, strtoks, hgo]

/-- The tokens are the pieces between the delimiters that are not empty. -/
theorem strtoks_eq_filter {delim : List Char} {p : Char → Bool} {s : Text}
    (h : ∀ c ∈ s, delim.contains c = p c) :
    strtoks delim s = (s.splitOnP p).filter (fun t => t ≠ []) := by
  have hgo : ∃ t ts, s.splitOnP p = t :: ts ∧
      strtoksGo delim s = (t, ts.filter (fun t => t ≠ [])) := by
    induction s with
    | nil => exact ⟨[], [], rfl, rfl⟩
    | cons c s ih =>
        obtain ⟨hc, hs⟩ := List.forall_mem_cons.mp h
        obtain ⟨t, ts, hsplit, hgo⟩ := ih hs
        rw [List.splitOnP_cons_eq_if_modifyHead, hsplit, strtoksGo, hgo, hc]
        dsimp only
        by_cases hp : p c = true
        · rw [if_pos hp, if_pos hp]
          refine ⟨[], t :: ts, rfl, ?_⟩
          rw [List.filter_cons]
          by_cases ht : t = []
          · simp [ht]
          · simp [ht]
        · rw [if_neg hp, if_neg hp]
          exact ⟨c :: t, ts, rfl, rfl⟩
  obtain ⟨t, ts, hsplit, hgo⟩ := hgo
  rw [strtoks, hgo, hsplit, List.filter_cons]
  by_cases ht : t = []
  · simp [ht]
  · simp [ht]

/-- `strtoks` is the sequence of the `strtok` calls. -/
theorem strtoks_eq (delim : List Char) (s : Text) :
    strtoks delim s =
      match strtok delim s with
      | none => []
      | some (t, rest) => t :: strtoks delim rest := by
  induction s with
  | nil => rfl
  | cons c s ih =>
      by_cases hc : c ∈ delim
      · rw [strtoks_cons_delim hc, ih]
        simp [strtok, hc]
      · -- the token is the stretch up to the next delimiter, or up to the end
        have hdrop : (c :: s).dropWhile (fun c => delim.contains c) = c :: s := by
          simp [hc]
        have hmem : ∀ d ∈ (c :: s).takeWhile (fun c => !delim.contains c), d ∉ delim := by
          intro d hd hm
          have h := List.mem_takeWhile_imp hd
          simp [hm] at h
        have hne : (c :: s).takeWhile (fun c => !delim.contains c) ≠ [] := by
          simp [hc]
        have hsplit := List.takeWhile_append_dropWhile
          (p := fun c => !delim.contains c) (l := c :: s)
        simp only [strtok, hdrop]
        cases hd : (c :: s).dropWhile (fun c => !delim.contains c) with
        | nil =>
            rw [hd, List.append_nil] at hsplit
            conv_lhs => rw [← hsplit]
            exact strtoks_of_not_mem hne hmem
        | cons d rest =>
            have hdd : d ∈ delim := by
              have h := List.head_dropWhile_not (fun c => !delim.contains c)
                (l := c :: s) (by rw [hd]; simp)
              simp only [hd, List.head_cons] at h
              simpa using h
            conv_lhs => rw [← hsplit, hd]
            exact strtoks_append hne hmem hdd rest

/-- `strchr`: the text before the first `c`, and the text after it; `none` is
the NULL pointer. -/
def strchr (c : Char) : Text → Option (Text × Text)
  | [] => none
  | d :: s =>
    if d = c then some ([], s)
    else (strchr c s).map (fun p => (d :: p.1, p.2))

/-- What `strchr` found, and what it means that it did not. -/
theorem strchr_spec (c : Char) (s : Text) :
    match strchr c s with
    | none => c ∉ s
    | some (t, rest) => s = t ++ c :: rest ∧ c ∉ t := by
  induction s with
  | nil => simp [strchr]
  | cons d s ih =>
      by_cases hd : d = c
      · simp [strchr, hd]
      · rw [strchr, if_neg hd]
        cases hs : strchr c s with
        | none =>
            rw [hs] at ih
            simpa [Ne.symm hd] using ih
        | some p =>
            rw [hs] at ih
            obtain ⟨heq, hmem⟩ := ih
            refine ⟨by rw [heq]; rfl, ?_⟩
            simpa [Ne.symm hd] using hmem

/-- `strchr` finds the byte that closes a stretch without it. -/
theorem strchr_append {c : Char} {t : Text} (h : c ∉ t) (s : Text) :
    strchr c (t ++ c :: s) = some (t, s) := by
  induction t with
  | nil => simp [strchr]
  | cons d t ih =>
      have hd : d ≠ c := fun heq => h (by rw [heq]; exact List.mem_cons_self)
      rw [List.cons_append, strchr, if_neg hd, ih (fun hm => h (List.mem_cons_of_mem _ hm))]
      rfl

/-- `strstr (s, pat) != NULL`. -/
def strstr (s pat : Text) : Bool := decide (pat <:+: s)

theorem strstr_iff {s pat : Text} : strstr s pat = true ↔ pat <:+: s := by
  simp [strstr]

/-- A pattern without the separator lies on one side of it. -/
theorem infix_append_sep {sep : Char} {pat a b : Text} (hsep : sep ∉ pat)
    (h : pat <:+: a ++ sep :: b) : pat <:+: a ∨ pat <:+: b := by
  obtain ⟨s, t, hst⟩ := h
  rcases List.append_eq_append_iff.mp hst with ⟨c, ha, -⟩ | ⟨c, hsp, hb⟩
  · -- the pattern ends inside `a`
    left
    exact ⟨s, c, ha.symm⟩
  · -- the pattern ends behind `a`: it starts behind the separator, which it does not contain
    cases c with
    | nil =>
        left
        exact ⟨s, [], by rw [List.append_nil, hsp, List.append_nil]⟩
    | cons d c =>
        rw [List.cons_append, List.cons.injEq] at hb
        obtain ⟨rfl, hb⟩ := hb
        rcases List.append_eq_append_iff.mp hsp with ⟨e, -, hpat⟩ | ⟨e, -, hpat⟩
        · exact absurd (by rw [hpat]; simp) hsep
        · cases e with
          | nil => exact absurd (by rw [← List.nil_append pat, ← hpat]; simp) hsep
          | cons e₀ e =>
              right
              rw [List.cons_append, List.cons.injEq] at hpat
              obtain ⟨-, hc⟩ := hpat
              exact ⟨e, t, by rw [hb, hc]⟩

/-! ## Reading a number: `strtoull (s, &end, 0)` -/

/-- `isspace` in the C locale. -/
def isspace (c : Char) : Bool :=
  c == ' ' || c == '\t' || c == '\n' || c == '\x0b' || c == '\x0c' || c == '\r'

/-- The value of a digit: `0`-`9`, then the letters of either case; 36 for a
byte that is no digit in any base. -/
def digitValue (c : Char) : Nat :=
  if '0' ≤ c ∧ c ≤ '9' then c.toNat - 48
  else if 'a' ≤ c ∧ c ≤ 'z' then c.toNat - 87
  else if 'A' ≤ c ∧ c ≤ 'Z' then c.toNat - 55
  else 36

def isDigitOf (base : Nat) (c : Char) : Bool := decide (digitValue c < base)

/-- The number a digit string denotes. -/
def digitsValue (base : Nat) (ds : Text) : Nat :=
  ds.foldl (fun n c => n * base + digitValue c) 0

/-- The text behind an optional sign. -/
def skipSign : Text → Text
  | '-' :: s => s
  | '+' :: s => s
  | s => s

/-- The base that base 0 selects, and the text its digits start at: `0x` counts
only in front of a hexadecimal digit, a plain leading `0` is an octal digit. -/
def detectBase : Text → Nat × Text
  | '0' :: x :: h :: s =>
    if (x = 'x' ∨ x = 'X') ∧ isDigitOf 16 h then (16, h :: s) else (8, '0' :: x :: h :: s)
  | '0' :: s => (8, '0' :: s)
  | s => (10, s)

/-- `strtoull (s, &end, 0)`: the value and the text at `end`. Without a digit
nothing is converted (`end = s`); a value out of range is `ULLONG_MAX`; a minus
sign negates in the unsigned type. -/
def strtoull (s : Text) : UInt64 × Text :=
  let t := s.dropWhile isspace
  -- base and digits
  let b := detectBase (skipSign t)
  let ds := b.2.takeWhile (isDigitOf b.1)
  if ds = [] then (0, s)
  else
    let n := digitsValue b.1 ds
    (if 2 ^ 64 ≤ n then 18446744073709551615
      else if t.head? = some '-' then -(UInt64.ofNat n)
      else UInt64.ofNat n,
     b.2.dropWhile (isDigitOf b.1))

/-! ## Writing a number -/

/-- `%u`, `%lu`, `%zu`. -/
def fmtU (n : Nat) : Text := Nat.toDigits 10 n

/-- `%x`, `std::hex`. -/
def fmtX (n : Nat) : Text := Nat.toDigits 16 n

/-- `%d` or `%ld` given the `w`-bit unsigned value `n`: the two's complement
reading is printed. -/
def fmtD (w n : Nat) : Text :=
  if n < 2 ^ (w - 1) then fmtU n else '-' :: fmtU (2 ^ w - n)

/-- A text at which a number in front of it ends, in any base. -/
def Stops (s : Text) : Prop := ∀ c ∈ s.head?, digitValue c = 36

theorem stops_nil : Stops [] := by simp [Stops]

theorem stops_cons {c : Char} (h : digitValue c = 36) (s : Text) : Stops (c :: s) := by
  simpa [Stops] using h

/-! ## What was written is read back -/

theorem digitValue_digitChar {d : Nat} (h : d < 16) : digitValue (Nat.digitChar d) = d := by
  interval_cases d <;> decide

theorem digitValue_lt_of_mem_toDigits {b n : Nat} (hb : 1 < b) (hb' : b ≤ 16) {c : Char}
    (h : c ∈ Nat.toDigits b n) : digitValue c < b := by
  -- the last digit comes off the end, the others are those of `n / b`
  induction n using Nat.strong_induction_on with
  | _ n ih =>
      rw [Nat.toDigits_eq_if hb] at h
      split at h
      · next hn =>
        rw [List.mem_singleton.mp h, digitValue_digitChar (by omega)]
        exact hn
      · next hn =>
        have hmod : n % b < b := Nat.mod_lt _ (by omega)
        rcases List.mem_append.mp h with h | h
        · exact ih (n / b) (Nat.div_lt_self (by omega) hb) h
        · rw [List.mem_singleton.mp h, digitValue_digitChar (by omega)]
          exact hmod

theorem digitsValue_append_singleton (base : Nat) (ds : Text) (c : Char) :
    digitsValue base (ds ++ [c]) = digitsValue base ds * base + digitValue c := by
  simp [digitsValue]

/-- The digits of a number denote it. -/
theorem digitsValue_toDigits {b : Nat} (hb : 1 < b) (hb' : b ≤ 16) (n : Nat) :
    digitsValue b (Nat.toDigits b n) = n := by
  induction n using Nat.strong_induction_on with
  | _ n ih =>
      rw [Nat.toDigits_eq_if hb]
      split
      · next hn => simp [digitsValue, digitValue_digitChar (show n < 16 by omega)]
      · have hmod : n % b < b := Nat.mod_lt _ (by omega)
        rw [digitsValue_append_singleton, ih (n / b) (Nat.div_lt_self (by omega) hb),
          digitValue_digitChar (by omega), Nat.div_add_mod']

theorem digitValue_lt_of_mem_fmtU {n : Nat} {c : Char} (h : c ∈ fmtU n) : digitValue c < 10 :=
  digitValue_lt_of_mem_toDigits (by omega) (by omega) h

theorem digitsValue_fmtU (n : Nat) : digitsValue 10 (fmtU n) = n :=
  digitsValue_toDigits (by omega) (by omega) n

theorem fmtU_ne_nil (n : Nat) : fmtU n ≠ [] := Nat.toDigits_ne_nil

/-- Only zero is written with a leading zero. -/
theorem fmtU_head_ne_zero {n : Nat} (h : 0 < n) : (fmtU n).head? ≠ some '0' := by
  induction n using Nat.strong_induction_on with
  | _ n ih =>
      rw [fmtU, Nat.toDigits_eq_if (by omega)]
      split
      · simp; omega
      · rw [List.head?_append_of_ne_nil _ Nat.toDigits_ne_nil]
        exact ih (n / 10) (by omega) (by omega)

theorem exists_fmtU_eq_cons (n : Nat) : ∃ c cs, fmtU n = c :: cs ∧ digitValue c < 10 := by
  obtain ⟨c, cs, hcs⟩ := List.exists_cons_of_ne_nil (fmtU_ne_nil n)
  exact ⟨c, cs, hcs, digitValue_lt_of_mem_fmtU (n := n) (by rw [hcs]; exact List.mem_cons_self)⟩

/-- The bytes of a signed number: decimal digits and the minus sign. -/
theorem mem_fmtD {w n : Nat} {c : Char} (h : c ∈ fmtD w n) : c = '-' ∨ digitValue c < 10 := by
  unfold fmtD at h
  split at h
  · exact Or.inr (digitValue_lt_of_mem_fmtU h)
  · rcases List.mem_cons.mp h with h | h
    · exact Or.inl h
    · exact Or.inr (digitValue_lt_of_mem_fmtU h)

/-- A byte that is neither is in no number. -/
theorem not_mem_fmtD {c : Char} (hminus : c ≠ '-') (hdigit : 10 ≤ digitValue c) (w n : Nat) :
    c ∉ fmtD w n := by
  intro h
  rcases mem_fmtD h with h | h
  · exact hminus h
  · omega

theorem fmtD_ne_nil (w n : Nat) : fmtD w n ≠ [] := by
  unfold fmtD
  split
  · exact fmtU_ne_nil n
  · simp

theorem not_isspace_of_digitValue_lt {c : Char} (h : digitValue c < 10) : isspace c = false := by
  by_contra hs
  simp only [isspace, Bool.not_eq_false, Bool.or_eq_true, beq_iff_eq] at hs
  rcases hs with ((((rfl | rfl) | rfl) | rfl) | rfl) | rfl <;> exact absurd h (by decide)

theorem takeWhile_of_stops {base : Nat} (hb : base ≤ 36) {rest : Text} (h : Stops rest) :
    rest.takeWhile (isDigitOf base) = [] ∧ rest.dropWhile (isDigitOf base) = rest := by
  cases rest with
  | nil => exact ⟨rfl, rfl⟩
  | cons c rest =>
      have hc : isDigitOf base c = false := by
        have h36 : digitValue c = 36 := h c rfl
        simp only [isDigitOf, h36, decide_eq_false_iff_not, not_lt]
        exact hb
      simp [hc]

/-- The digits of a stretch of digits in front of something that stops it. -/
theorem span_digits {base : Nat} (hb : base ≤ 36) (ds : Text) {rest : Text}
    (hds : ∀ c ∈ ds, digitValue c < base) (hr : Stops rest) :
    (ds ++ rest).takeWhile (isDigitOf base) = ds ∧
      (ds ++ rest).dropWhile (isDigitOf base) = rest := by
  have hall : ∀ c ∈ ds, isDigitOf base c = true := fun c hc => decide_eq_true (hds c hc)
  obtain ⟨htake, hdrop⟩ := takeWhile_of_stops hb hr
  rw [List.takeWhile_append_of_pos hall, List.dropWhile_append_of_pos hall, htake, hdrop]
  exact ⟨List.append_nil ds, rfl⟩

/-- Zero is written as one octal digit. The byte behind it is not an `x`, so it
does not announce a hexadecimal number. -/
theorem detectBase_zero {rest : Text} (h : Stops rest) :
    detectBase ('0' :: rest) = (8, '0' :: rest) := by
  cases rest with
  | nil => rfl
  | cons x s =>
      have h36 : digitValue x = 36 := h x rfl
      have hx : ¬ (x = 'x' ∨ x = 'X') := by
        rintro (rfl | rfl) <;> exact absurd h36 (by decide)
      cases s with
      | nil => rfl
      | cons c s => simp only [detectBase, hx, false_and, if_false]

theorem detectBase_of_head_ne {s : Text} (h : s.head? ≠ some '0') : detectBase s = (10, s) := by
  unfold detectBase
  split
  · exact absurd rfl h
  · exact absurd rfl h
  · rfl

/-- Base detection on a written number: octal for `0`, decimal otherwise; in
both cases the digits are the ones written and denote the number. -/
theorem detectBase_fmtU (n : Nat) {rest : Text} (hr : Stops rest) :
    ∃ b, detectBase (fmtU n ++ rest) = (b, fmtU n ++ rest) ∧
      (fmtU n ++ rest).takeWhile (isDigitOf b) = fmtU n ∧
      (fmtU n ++ rest).dropWhile (isDigitOf b) = rest ∧ digitsValue b (fmtU n) = n := by
  rcases Nat.eq_zero_or_pos n with rfl | hn
  · -- the octal digit `0` has the same value as the decimal one
    have h0 : fmtU 0 = ['0'] := Nat.toDigits_zero 10
    rw [h0]
    have hspan := span_digits (show 8 ≤ 36 by omega) ['0']
      (by intro c hc; rw [List.mem_singleton.mp hc]; decide) hr
    exact ⟨8, detectBase_zero hr, hspan.1, hspan.2, by decide⟩
  · have hhead : (fmtU n ++ rest).head? ≠ some '0' := by
      rw [List.head?_append_of_ne_nil _ (fmtU_ne_nil n)]
      exact fmtU_head_ne_zero hn
    have hspan := span_digits (show 10 ≤ 36 by omega) (fmtU n)
      (fun c hc => digitValue_lt_of_mem_fmtU hc) hr
    exact ⟨10, detectBase_of_head_ne hhead, hspan.1, hspan.2, digitsValue_fmtU n⟩

/-- **`strtoull` reads back `%u`**, whatever follows, if it stops the number. -/
theorem strtoull_fmtU {n : Nat} (hn : n < 2 ^ 64) {rest : Text} (hr : Stops rest) :
    strtoull (fmtU n ++ rest) = (UInt64.ofNat n, rest) := by
  obtain ⟨c, cs, hcs, hc⟩ := exists_fmtU_eq_cons n
  obtain ⟨b, hb, htake, hdrop, hval⟩ := detectBase_fmtU n hr
  -- the first byte is a digit: no white space to skip, no sign
  have hskip : (fmtU n ++ rest).dropWhile isspace = fmtU n ++ rest := by
    rw [hcs, List.cons_append, List.dropWhile_cons_of_neg]
    simp [not_isspace_of_digitValue_lt hc]
  have hsign : skipSign (fmtU n ++ rest) = fmtU n ++ rest := by
    rw [hcs, List.cons_append]
    unfold skipSign
    split
    · next heq => rw [(List.cons.inj heq).1] at hc; exact absurd hc (by decide)
    · next heq => rw [(List.cons.inj heq).1] at hc; exact absurd hc (by decide)
    · rfl
  have hminus : (fmtU n ++ rest).head? ≠ some '-' := by
    rw [hcs, List.cons_append, List.head?_cons]
    intro heq
    rw [Option.some.inj heq] at hc
    exact absurd hc (by decide)
  simp only [strtoull, hskip, hsign, hb, htake, hdrop, hval]
  rw [if_neg (fmtU_ne_nil n), if_neg (by omega), if_neg hminus]

/-- A minus sign in front of a written number negates it in 64 bits. -/
theorem strtoull_minus_fmtU {n : Nat} (hn : n < 2 ^ 64) {rest : Text} (hr : Stops rest) :
    strtoull ('-' :: (fmtU n ++ rest)) = (-(UInt64.ofNat n), rest) := by
  obtain ⟨b, hb, htake, hdrop, hval⟩ := detectBase_fmtU n hr
  have hskip : ('-' :: (fmtU n ++ rest)).dropWhile isspace = '-' :: (fmtU n ++ rest) := by
    rw [List.dropWhile_cons_of_neg (by decide)]
  simp only [strtoull, hskip, skipSign, hb, htake, hdrop, hval, List.head?_cons, if_true]
  rw [if_neg (fmtU_ne_nil n), if_neg (by omega)]

/-- **`strtoull` reads back `%ld`** of a 64-bit unsigned value, the values
printed with a minus sign included. -/
theorem strtoull_fmtD64 (n : UInt64) {rest : Text} (hr : Stops rest) :
    strtoull (fmtD 64 n.toNat ++ rest) = (n, rest) := by
  have hlt : n.toNat < 2 ^ 64 := UInt64.toNat_lt n
  rw [fmtD]
  split
  · rw [strtoull_fmtU hlt hr, UInt64.ofNat_toNat]
  · next hge =>
    -- `2 ^ 64 - n` was printed, and is negated back
    rw [List.cons_append, strtoull_minus_fmtU (by omega) hr]
    congr 1
    apply UInt64.toNat_inj.mp
    simp only [UInt64.toNat_neg, UInt64.toNat_ofNat', UInt64.size]
    omega

/-- **`strtoull` reads back `%d`** of a 32-bit unsigned value, once the result
is cut back to 32 bits. -/
theorem strtoull_fmtD32 (n : UInt32) {rest : Text} (hr : Stops rest) :
    (strtoull (fmtD 32 n.toNat ++ rest)).1.toUInt32 = n ∧
      (strtoull (fmtD 32 n.toNat ++ rest)).2 = rest := by
  have hlt : n.toNat < 2 ^ 32 := UInt32.toNat_lt n
  rw [fmtD]
  split
  · rw [strtoull_fmtU (by omega) hr]
    refine ⟨?_, rfl⟩
    apply UInt32.toNat_inj.mp
    simp only [UInt64.toNat_toUInt32, UInt64.toNat_ofNat']
    omega
  · next hge =>
    -- `2 ^ 32 - n` was printed; negated in 64 bits it is `n` in the low 32
    rw [List.cons_append, strtoull_minus_fmtU (by omega) hr]
    refine ⟨?_, rfl⟩
    apply UInt32.toNat_inj.mp
    simp only [UInt64.toNat_toUInt32, UInt64.toNat_neg, UInt64.toNat_ofNat', UInt64.size]
    omega

/-- **`strtoull` reads back `0x%x`**, whatever follows, if it stops the number. -/
theorem strtoull_fmtX {n : Nat} (hn : n < 2 ^ 64) {rest : Text} (hr : Stops rest) :
    strtoull ('0' :: 'x' :: (fmtX n ++ rest)) = (UInt64.ofNat n, rest) := by
  have hdigits : ∀ c ∈ fmtX n, digitValue c < 16 := fun c hc =>
    digitValue_lt_of_mem_toDigits (by omega) (by omega) hc
  obtain ⟨htake, hdrop⟩ := span_digits (show 16 ≤ 36 by omega) (fmtX n) hdigits hr
  -- there is a digit behind the `x`, so the text is taken for a hexadecimal number
  have hbase : detectBase ('0' :: 'x' :: (fmtX n ++ rest)) = (16, fmtX n ++ rest) := by
    obtain ⟨c, cs, hcs⟩ := List.exists_cons_of_ne_nil (show fmtX n ≠ [] from Nat.toDigits_ne_nil)
    have hc : isDigitOf 16 c = true := by
      apply decide_eq_true
      apply hdigits
      rw [hcs]
      exact List.mem_cons_self
    rw [hcs, List.cons_append]
    simp [detectBase, hc]
  have hskip : ('0' :: 'x' :: (fmtX n ++ rest)).dropWhile isspace
      = '0' :: 'x' :: (fmtX n ++ rest) := by
    rw [List.dropWhile_cons_of_neg (by decide)]
  have hsign : skipSign ('0' :: 'x' :: (fmtX n ++ rest)) = '0' :: 'x' :: (fmtX n ++ rest) := rfl
  have hval : digitsValue 16 (fmtX n) = n := digitsValue_toDigits (by omega) (by omega) n
  simp only [strtoull, hskip, hsign, hbase, htake, hdrop, hval, List.head?_cons]
  rw [if_neg (show fmtX n ≠ [] from Nat.toDigits_ne_nil), if_neg (by omega), if_neg (by decide)]

end CText
