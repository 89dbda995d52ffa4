/-
`getopt` of `<unistd.h>`, as the C library of GNU has it, on a whole command line.

The calls of `getopt` in a loop are one function: `scan` gives what they return up to the -1
that ends the loop. Words that do not start with a dash are passed over, `--` ends the options,
and a word that starts with a dash is a row of option letters. A letter that needs an argument
takes the rest of its word or, if there is none, the whole next word, whatever it looks like.
An unknown letter, or one whose argument is missing at the end, is answered with `?`.

`accepts_iff_scan` says which command lines are read without a `?`, and what is read: `Accepts` is
the grammar, over any set of options in which the dash is not a letter.
-/
import LauSim.Lib.CText

set_option autoImplicit false

namespace Getopt

open CText

/-- Which letters are options, and whether they need an argument. -/
abbrev Letters := Char → Option Bool

/-- The letters of an option string such as `"c:s"`. -/
def letters (optstr : Text) : Letters := fun c =>
  if c = ':' then none
  else
    match optstr.dropWhile (fun d => d != c) with
    | [] => none
    | _ :: ':' :: _ => some true
    | _ => some false

/-- What a call of `getopt` returns. -/
inductive Opt where
  | opt (c : Char) (arg : Option Text)
  /-- `?`, with the letter in `optopt` -/
  | bad (c : Char)
  deriving DecidableEq, Repr

variable (needs : Letters)

/-- The letters of a word behind its dash: what they give, and the letter that waits for its
argument. -/
def cluster : Text → List Opt × Option Char
  | [] => ([], none)
  | c :: cs =>
    match needs c with
    | none => (.bad c :: (cluster cs).1, (cluster cs).2)
    | some false => (.opt c none :: (cluster cs).1, (cluster cs).2)
    | some true => if cs = [] then ([], some c) else ([.opt c (some cs)], none)

/-- The words behind `argv[0]`, where a letter may wait for its argument. -/
def scan : Option Char → List Text → List Opt
  | none, [] => []
  | some c, [] => [.bad c]
  | some c, w :: ws => .opt c (some w) :: scan none ws
  | none, w :: ws =>
    if w = "--".toList then []
    else
      match w with
      | '-' :: c :: cs => (cluster needs (c :: cs)).1 ++ scan (cluster needs (c :: cs)).2 ws
      | _ => scan none ws

/-! ## The grammar -/

/-- A word that is no option. -/
def Operand (w : Text) : Prop := w = "-".toList ∨ w.head? ≠ some '-'

/-- The command line is read as these options. -/
inductive Accepts : List Text → List (Char × Option Text) → Prop where
  | nil : Accepts [] []
  | stop (ws : List Text) : Accepts ("--".toList :: ws) []
  | operand {w : Text} {ws : List Text} {es : List (Char × Option Text)} (hw : Operand w)
      (h : Accepts ws es) : Accepts (w :: ws) es
  | flags {fs : Text} {ws : List Text} {es : List (Char × Option Text)} (hne : fs ≠ [])
      (hfs : ∀ f ∈ fs, needs f = some false) (h : Accepts ws es) :
      Accepts (('-' :: fs) :: ws) (fs.map (fun f => (f, none)) ++ es)
  | attached {fs : Text} {c : Char} {a : Text} {ws : List Text} {es : List (Char × Option Text)}
      (hfs : ∀ f ∈ fs, needs f = some false) (hc : needs c = some true) (ha : a ≠ [])
      (h : Accepts ws es) :
      Accepts (('-' :: (fs ++ c :: a)) :: ws) (fs.map (fun f => (f, none)) ++ (c, some a) :: es)
  | separate {fs : Text} {c : Char} {a : Text} {ws : List Text} {es : List (Char × Option Text)}
      (hfs : ∀ f ∈ fs, needs f = some false) (hc : needs c = some true) (h : Accepts ws es) :
      Accepts (('-' :: (fs ++ [c])) :: a :: ws)
        (fs.map (fun f => (f, none)) ++ (c, some a) :: es)

variable {needs}

/-- An option that was read. -/
def read (e : Char × Option Text) : Opt := .opt e.1 e.2

/-- Flags come off the front of a word. -/
theorem cluster_flags {fs : Text} (hfs : ∀ f ∈ fs, needs f = some false) (rest : Text) :
    cluster needs (fs ++ rest)
      = ((fs.map fun f => (f, none)).map read ++ (cluster needs rest).1,
          (cluster needs rest).2) := by
  induction fs with
  | nil => rfl
  | cons f fs ih =>
      rw [List.cons_append, cluster, hfs f List.mem_cons_self]
      dsimp only
      rw [ih fun g hg => hfs g (List.mem_cons_of_mem _ hg)]
      rfl

theorem cluster_value {c : Char} (hc : needs c = some true) (a : Text) :
    cluster needs (c :: a) = if a = [] then ([], some c) else ([.opt c (some a)], none) := by
  rw [cluster, hc]

/-- What the letters of a word can give without a `?`. -/
theorem cluster_eq_read {w : Text} {es : List (Char × Option Text)} {pending : Option Char}
    (h : cluster needs w = (es.map read, pending)) :
    ∃ fs : Text, (∀ f ∈ fs, needs f = some false) ∧
      ((w = fs ∧ es = fs.map (fun f => (f, none)) ∧ pending = none) ∨
        (∃ c a, needs c = some true ∧ a ≠ [] ∧ w = fs ++ c :: a ∧
          es = fs.map (fun f => (f, none)) ++ [(c, some a)] ∧ pending = none) ∨
        ∃ c, needs c = some true ∧ w = fs ++ [c] ∧ es = fs.map (fun f => (f, none)) ∧
          pending = some c) := by
  induction w generalizing es with
  | nil =>
      obtain ⟨hes, rfl⟩ := Prod.mk.inj h
      rw [List.map_eq_nil_iff.mp hes.symm]
      exact ⟨[], by simp, Or.inl ⟨rfl, rfl, rfl⟩⟩
  | cons c cs ih =>
      rw [cluster] at h
      cases hc : needs c with
      | none =>
          -- a `?` is nothing that was read
          rw [hc] at h
          obtain ⟨hes, -⟩ := Prod.mk.inj h
          cases es with
          | nil => cases hes
          | cons e es => exact Opt.noConfusion (List.cons.inj hes).1
      | some b =>
          rw [hc] at h
          cases b with
          | false =>
              obtain ⟨hes, hpending⟩ := Prod.mk.inj h
              cases es with
              | nil => cases hes
              | cons e es =>
                  obtain ⟨he, htail⟩ := List.cons.inj hes
                  obtain ⟨hce, harg⟩ := Opt.opt.inj he
                  obtain rfl : e = (c, none) := Prod.ext hce.symm harg.symm
                  obtain ⟨fs, hfs, hcase⟩ := ih (Prod.ext htail hpending)
                  refine ⟨c :: fs, List.forall_mem_cons.mpr ⟨hc, hfs⟩, ?_⟩
                  rcases hcase with ⟨rfl, rfl, hp⟩ | ⟨d, a, hd, ha, rfl, rfl, hp⟩ |
                    ⟨d, hd, rfl, rfl, hp⟩
                  · exact Or.inl ⟨rfl, rfl, hp⟩
                  · exact Or.inr (Or.inl ⟨d, a, hd, ha, rfl, rfl, hp⟩)
                  · exact Or.inr (Or.inr ⟨d, hd, rfl, rfl, hp⟩)
          | true =>
              dsimp only at h
              split at h
              · next hnil =>
                -- the word ends with the letter that waits
                obtain ⟨hes, rfl⟩ := Prod.mk.inj h
                rw [List.map_eq_nil_iff.mp hes.symm, hnil]
                exact ⟨[], by simp, Or.inr (Or.inr ⟨c, hc, rfl, rfl, rfl⟩)⟩
              · next hne =>
                obtain ⟨hes, rfl⟩ := Prod.mk.inj h
                obtain ⟨e, rfl, he⟩ := List.map_eq_singleton_iff.mp hes.symm
                obtain ⟨hce, harg⟩ := Opt.opt.inj he
                obtain rfl : e = (c, some cs) := Prod.ext hce harg
                exact ⟨[], by simp, Or.inr (Or.inl ⟨c, cs, hc, hne, rfl, rfl, rfl⟩)⟩

/-- The argument of the last option `c`. -/
def value (c : Char) (es : List (Char × Option Text)) : Option Text :=
  (es.filter (fun e => decide (e.1 = c))).getLast?.map fun e => e.2.getD []

theorem value_append (c : Char) (es : List (Char × Option Text)) (e : Char × Option Text) :
    value c (es ++ [e]) = if e.1 = c then some (e.2.getD []) else value c es := by
  rw [value, value, List.filter_append]
  split
  · next h => simp [h]
  · next h => simp [h]

/-! ## The grammar is what is read -/

/-- A word of option letters, in front of the others. -/
theorem scan_word (hdash : needs '-' = none) {w : Text} (hne : w ≠ [])
    (hw : ∀ c ∈ w.head?, needs c ≠ none) (ws : List Text) :
    scan needs none (('-' :: w) :: ws)
      = (cluster needs w).1 ++ scan needs (cluster needs w).2 ws := by
  cases w with
  | nil => exact absurd rfl hne
  | cons c cs =>
      -- the word is not `--`, because the dash is no letter
      have hcd : c ≠ '-' := by
        rintro rfl
        exact hw '-' rfl hdash
      have hstop : ¬ ('-' :: c :: cs) = "--".toList := fun heq => by
        have : c = '-' := (List.cons.inj (List.cons.inj heq).2).1
        exact hcd this
      rw [scan, if_neg hstop]

theorem scan_operand {w : Text} (hw : Operand w) (ws : List Text) :
    scan needs none (w :: ws) = scan needs none ws := by
  rcases hw with rfl | hw
  · rfl
  · cases w with
    | nil => rfl
    | cons c cs =>
        have hc : c ≠ '-' := fun heq => hw (by rw [heq]; rfl)
        simp [scan, hc]

/-- The first letter of flags and a letter that is an option is an option. -/
theorem head_option {fs : Text} {c : Char} {rest : Text} (hfs : ∀ f ∈ fs, needs f = some false)
    (hc : needs c ≠ none) : ∀ d ∈ (fs ++ c :: rest).head?, needs d ≠ none := by
  intro d hd
  cases fs with
  | nil =>
      obtain rfl : c = d := Option.some.inj hd
      exact hc
  | cons f fs =>
      obtain rfl : f = d := Option.some.inj hd
      rw [hfs f List.mem_cons_self]
      simp

theorem scan_of_accepts (hdash : needs '-' = none) {ws : List Text}
    {es : List (Char × Option Text)} (h : Accepts needs ws es) :
    scan needs none ws = es.map read := by
  induction h with
  | nil => rfl
  | stop ws => rfl
  | operand hw _ ih => rw [scan_operand hw, ih]
  | @flags fs ws es hne hfs _ ih =>
      have hhead : ∀ c ∈ fs.head?, needs c ≠ none := by
        intro c hc
        rw [hfs c (List.mem_of_mem_head? hc)]
        simp
      have hcluster := cluster_flags hfs []
      rw [List.append_nil] at hcluster
      rw [scan_word hdash hne hhead, hcluster, List.map_append]
      simp only [cluster, List.append_nil]
      rw [ih]
  | @attached fs c a ws es hfs hc ha _ ih =>
      rw [scan_word hdash (by simp) (head_option hfs (by rw [hc]; simp)), cluster_flags hfs,
        cluster_value hc, if_neg ha, List.map_append]
      dsimp only
      rw [ih, List.append_assoc]
      rfl
  | @separate fs c a ws es hfs hc _ ih =>
      rw [scan_word hdash (by simp) (head_option hfs (by rw [hc]; simp)), cluster_flags hfs,
        cluster_value hc, if_pos rfl, List.map_append]
      dsimp only
      rw [List.append_nil, scan, ih]
      rfl

/-- A word of option letters that is read without a `?`. -/
theorem accepts_word {c : Char} {cs : Text} {ws : List Text}
    {es : List (Char × Option Text)}
    (hscan : (cluster needs (c :: cs)).1 ++ scan needs (cluster needs (c :: cs)).2 ws = es.map read)
    (ih : ∀ es, scan needs none ws = es.map read → Accepts needs ws es)
    (ihArg : ∀ d es, scan needs (some d) ws = es.map read → ∃ a ws' es', ws = a :: ws' ∧
      es = (d, some a) :: es' ∧ Accepts needs ws' es') :
    Accepts needs (('-' :: c :: cs) :: ws) es := by
  -- what the word itself gives, and what comes behind it
  obtain ⟨es₁, es₂, rfl, hfirst, hrest⟩ := List.append_eq_map_iff.mp hscan
  obtain ⟨fs, hfs, hcase⟩ := cluster_eq_read
    (Prod.ext hfirst.symm rfl :
      cluster needs (c :: cs) = (es₁.map read, (cluster needs (c :: cs)).2))
  rcases hcase with ⟨hw, rfl, hp⟩ | ⟨d, a, hd, ha, hw, rfl, hp⟩ | ⟨d, hd, hw, rfl, hp⟩
  · rw [hp] at hrest
    rw [hw]
    exact .flags (by rw [← hw]; simp) hfs (ih _ hrest.symm)
  · rw [hp] at hrest
    rw [hw, List.append_assoc]
    exact .attached hfs hd ha (ih _ hrest.symm)
  · rw [hp] at hrest
    obtain ⟨a, ws', es', rfl, rfl, hacc⟩ := ihArg d _ hrest.symm
    rw [hw]
    exact .separate hfs hd hacc

theorem accepts_of_scan (ws : List Text) :
    (∀ es, scan needs none ws = es.map read → Accepts needs ws es) ∧
      ∀ c es, scan needs (some c) ws = es.map read → ∃ a ws' es', ws = a :: ws' ∧
        es = (c, some a) :: es' ∧ Accepts needs ws' es' := by
  induction ws with
  | nil =>
      refine ⟨fun es h => ?_, fun c es h => ?_⟩
      · rw [List.map_eq_nil_iff.mp h.symm]
        exact .nil
      · -- the argument is missing
        obtain ⟨e, -, he⟩ := List.map_eq_singleton_iff.mp h.symm
        exact Opt.noConfusion he
  | cons w ws ih =>
      obtain ⟨ihNone, ihArg⟩ := ih
      refine ⟨fun es h => ?_, fun c es h => ?_⟩
      · by_cases hstop : w = "--".toList
        · subst hstop
          rw [List.map_eq_nil_iff.mp h.symm]
          exact .stop ws
        · by_cases hop : Operand w
          · rw [scan_operand hop] at h
            exact .operand hop (ihNone es h)
          · -- a dash and something behind it
            have hword : ∃ c cs, w = '-' :: c :: cs := by
              rw [Operand, not_or, not_not] at hop
              obtain ⟨hne, hhead⟩ := hop
              cases w with
              | nil => cases hhead
              | cons d w =>
                  obtain rfl : d = '-' := Option.some.inj hhead
                  cases w with
                  | nil => exact absurd rfl hne
                  | cons c cs => exact ⟨c, cs, rfl⟩
            obtain ⟨c, cs, rfl⟩ := hword
            rw [scan, if_neg hstop] at h
            exact accepts_word h ihNone ihArg
      · -- the whole word is the argument, also if it starts with a dash
        cases es with
        | nil => cases h
        | cons e es =>
            obtain ⟨he, htail⟩ := List.cons.inj h
            obtain ⟨hc, harg⟩ := Opt.opt.inj he
            refine ⟨w, ws, es, rfl, ?_, ihNone es htail⟩
            rw [← show e = (c, some w) from Prod.ext hc.symm harg.symm]

/-- Only options are read. -/
theorem Accepts.option {ws : List Text} {es : List (Char × Option Text)}
    (h : Accepts needs ws es) : ∀ e ∈ es, needs e.1 ≠ none := by
  have hflag : ∀ fs : Text, (∀ f ∈ fs, needs f = some false) →
      ∀ e ∈ fs.map (fun f => (f, (none : Option Text))), needs e.1 ≠ none := by
    intro fs hfs e he
    obtain ⟨f, hf, rfl⟩ := List.mem_map.mp he
    rw [hfs f hf]
    simp
  induction h with
  | nil => simp
  | stop ws => simp
  | operand hw _ ih => exact ih
  | flags hne hfs _ ih => exact List.forall_mem_append.mpr ⟨hflag _ hfs, ih⟩
  | attached hfs hc ha _ ih =>
      exact List.forall_mem_append.mpr
        ⟨hflag _ hfs, List.forall_mem_cons.mpr ⟨by rw [hc]; simp, ih⟩⟩
  | separate hfs hc _ ih =>
      exact List.forall_mem_append.mpr
        ⟨hflag _ hfs, List.forall_mem_cons.mpr ⟨by rw [hc]; simp, ih⟩⟩

/-- **Exactly the grammar.** -/
theorem accepts_iff_scan (hdash : needs '-' = none) {ws : List Text}
    {es : List (Char × Option Text)} :
    Accepts needs ws es ↔ scan needs none ws = es.map read :=
  ⟨scan_of_accepts hdash, (accepts_of_scan ws).1 es⟩

theorem read_injective : Function.Injective read := by
  intro e e' h
  obtain ⟨hc, harg⟩ := Opt.opt.inj h
  exact Prod.ext hc harg

/-- A command line is read in one way only. -/
theorem Accepts.unique (hdash : needs '-' = none) {ws : List Text}
    {es es' : List (Char × Option Text)} (h : Accepts needs ws es) (h' : Accepts needs ws es') :
    es = es' := by
  refine List.map_injective_iff.mpr read_injective ?_
  rw [← scan_of_accepts hdash h, scan_of_accepts hdash h']

end Getopt
