/-
The command line of the server: `srv/options.cpp` and the beginning of `main`.

`Options::parse` calls `getopt` in a loop and stops at the first `?`. `parse_iff` says which
command lines it accepts, what the options are then (the last of each letter counts), and that
it accepts no other.
-/
import LauSim.Lib.Getopt
import LauSim.Loggers
import LauSim.TicLimit

set_option autoImplicit false

namespace LauSim.CommandLine

open CText Getopt

/-- `Options`. -/
structure Options where
  cfile : Text
  loglevel : LogLevel
  sync : Bool
  max_tics : UInt32
  deriving DecidableEq, Repr

/-- The constructor. -/
def initial : Options := { cfile := [], loglevel := .Warning, sync := false, max_tics := 0 }

def optstr : Text := "c:l:sn:".toList

/-- `log_level_from_int ((unsigned) strtoul (optarg, NULL, 0))`. -/
def loglevel (optarg : Text) : LogLevel := log_level_from_int (strtoull optarg).1.toUInt32

/-- The `switch`: the new options, or none for the `default`. -/
def set (o : Options) : Opt → Option Options
  | .bad _ => none
  | .opt c arg =>
    if c = 'c' then some { o with cfile := arg.getD [] }
    else if c = 'l' then some { o with loglevel := loglevel (arg.getD []) }
    else if c = 's' then some { o with sync := true }
    else if c = 'n' then some { o with max_tics := TicLimit.max_tics (arg.getD []) }
    else none

/-- The loop, over what the calls of `getopt` return. -/
def parse_loop : List Opt → Options → Int × Options
  | [], o => (0, o)
  | e :: es, o =>
    match set o e with
    | some o => parse_loop es o
    | none => (-1, o)

/-- `Options::parse`, on the words behind `argv[0]`. -/
def parse (argv : List Text) : Int × Options :=
  parse_loop (scan (letters optstr) none argv) initial

/-- What `main` does with it. -/
inductive Begin where
  /-- -1, with a message of `getopt` -/
  | unrecognized
  /-- -1, with the usage -/
  | usage
  /-- the file goes to `load_config` -/
  | load_config (file : Text) (opts : Options)
  deriving DecidableEq, Repr

def main (argv : List Text) : Begin :=
  if (parse argv).1 ≠ 0 then .unrecognized
  else if (parse argv).2.cfile = [] then .usage
  else .load_config (parse argv).2.cfile (parse argv).2

/-! ## What the options say -/

/-- The options as the command line gives them. -/
def meant (es : List (Char × Option Text)) : Options where
  cfile := (value 'c' es).getD []
  loglevel := ((value 'l' es).map loglevel).getD .Warning
  sync := es.any fun e => decide (e.1 = 's')
  max_tics := ((value 'n' es).map TicLimit.max_tics).getD 0

theorem letters_optstr {c : Char} (h : letters optstr c ≠ none) :
    c = 'c' ∨ c = 'l' ∨ c = 's' ∨ c = 'n' := by
  by_contra hnot
  obtain ⟨hc, hl, hs, hn⟩ : c ≠ 'c' ∧ c ≠ 'l' ∧ c ≠ 's' ∧ c ≠ 'n' := by
    simpa only [not_or] using hnot
  refine h ?_
  rw [letters]
  split
  · rfl
  · next hcolon =>
    -- any other letter is not found in the string
    have hdrop : optstr.dropWhile (fun d => d != c) = [] := by
      rw [List.dropWhile_eq_nil_iff]
      intro d hd
      have hd' : d = 'c' ∨ d = ':' ∨ d = 'l' ∨ d = 's' ∨ d = 'n' := by
        simp [optstr] at hd
        tauto
      rw [bne_iff_ne]
      rintro rfl
      tauto
    rw [hdrop]

/-- One more option. -/
theorem set_meant (es : List (Char × Option Text)) {e : Char × Option Text}
    (he : letters optstr e.1 ≠ none) :
    set (meant es) (Getopt.read e) = some (meant (es ++ [e])) := by
  obtain ⟨c, arg⟩ := e
  rcases letters_optstr he with rfl | rfl | rfl | rfl
  all_goals simp [set, meant, Getopt.read, value_append]

/-- The loop on options only. -/
theorem parse_loop_read (es : List (Char × Option Text))
    (hes : ∀ e ∈ es, letters optstr e.1 ≠ none) (before : List (Char × Option Text)) :
    parse_loop (es.map Getopt.read) (meant before) = (0, meant (before ++ es)) := by
  induction es generalizing before with
  | nil => rw [List.append_nil]; rfl
  | cons e es ih =>
      obtain ⟨he, hes⟩ := List.forall_mem_cons.mp hes
      rw [List.map_cons, parse_loop, set_meant before he]
      dsimp only
      rw [ih hes, List.append_assoc]
      rfl

/-- The `default` branch is taken for everything else. -/
theorem read_of_parse_loop (evs : List Opt) (o : Options) (h : (parse_loop evs o).1 = 0) :
    ∃ es : List (Char × Option Text), evs = es.map Getopt.read := by
  induction evs generalizing o with
  | nil => exact ⟨[], rfl⟩
  | cons e evs ih =>
      rw [parse_loop] at h
      cases hset : set o e with
      | none =>
          rw [hset] at h
          have : (-1 : Int) = 0 := h
          omega
      | some o' =>
          rw [hset] at h
          obtain ⟨es, rfl⟩ := ih o' h
          cases e with
          | bad c => cases hset
          | opt c arg => exact ⟨(c, arg) :: es, rfl⟩

/-- The command lines that are accepted, and what they mean. -/
theorem parse_iff (argv : List Text) (o : Options) :
    parse argv = (0, o) ↔ ∃ es, Accepts (letters optstr) argv es ∧ o = meant es := by
  have hdash : letters optstr '-' = none := by decide
  constructor
  · intro h
    obtain ⟨es, hscan⟩ := read_of_parse_loop _ initial (by rw [← parse, h])
    have hacc := (accepts_iff_scan hdash).mpr hscan
    refine ⟨es, hacc, ?_⟩
    have hmeant := parse_loop_read es hacc.option []
    rw [← hscan] at hmeant
    have hparse : parse argv = (0, meant es) := hmeant
    rw [h] at hparse
    exact (Prod.mk.inj hparse).2
  · rintro ⟨es, hacc, rfl⟩
    rw [parse, (accepts_iff_scan hdash).mp hacc]
    exact parse_loop_read es hacc.option []

/-- **What the server is told.** `main` goes on exactly if the command line is one of options
and the last `-c` names a file, and then with what the last option of each letter says. It
prints its usage exactly if no file is named, and stops at `parse` for every other line. -/
theorem main_iff (argv : List Text) :
    (∀ f o, main argv = .load_config f o ↔ ∃ es, Accepts (letters optstr) argv es ∧
      value 'c' es = some f ∧ f ≠ [] ∧ o = meant es) ∧
    (main argv = .usage ↔ ∃ es, Accepts (letters optstr) argv es ∧
      (value 'c' es = none ∨ value 'c' es = some [])) ∧
    (main argv = .unrecognized ↔ ∀ es, ¬ Accepts (letters optstr) argv es) := by
  have hdash : letters optstr '-' = none := by decide
  by_cases hacc : ∃ es, Accepts (letters optstr) argv es
  · obtain ⟨es, hes⟩ := hacc
    have hparse := (parse_iff argv (meant es)).mpr ⟨es, hes, rfl⟩
    have hmain : main argv
        = if (meant es).cfile = [] then .usage else .load_config (meant es).cfile (meant es) := by
      rw [main, hparse]
      rfl
    rw [hmain]
    -- an empty name is no name
    have hcfile : (meant es).cfile = (value 'c' es).getD [] := rfl
    refine ⟨fun f o => ⟨fun h => ?_, ?_⟩, ⟨fun h => ⟨es, hes, ?_⟩, ?_⟩,
      ⟨fun h => ?_, fun h => absurd hes (h es)⟩⟩
    · split at h
      · cases h
      · next hne =>
        obtain ⟨rfl, rfl⟩ := Begin.load_config.inj h
        rw [hcfile] at hne ⊢
        cases hv : value 'c' es with
        | none => exact absurd (by rw [hv]; rfl) hne
        | some f => exact ⟨es, hes, hv, by simpa [hv] using hne, rfl⟩
    · rintro ⟨es', hes', hv, hne, rfl⟩
      obtain rfl := hes'.unique hdash hes
      rw [hcfile, hv]
      exact if_neg hne
    · split at h
      · next hnil =>
        rw [hcfile] at hnil
        cases hv : value 'c' es with
        | none => exact Or.inl rfl
        | some f => exact Or.inr (by simpa [hv] using hnil)
      · cases h
    · rintro ⟨es', hes', hv⟩
      obtain rfl := hes'.unique hdash hes
      refine if_pos ?_
      rw [hcfile]
      rcases hv with hv | hv
      all_goals rw [hv]; rfl
    · split at h
      all_goals cases h
  · -- the loop has met a `?`
    have hparse : (parse argv).1 ≠ 0 := by
      intro h
      obtain ⟨es, hes, -⟩ := (parse_iff argv (parse argv).2).mp (Prod.ext h rfl)
      exact hacc ⟨es, hes⟩
    have hmain : main argv = .unrecognized := if_pos hparse
    rw [hmain]
    refine ⟨fun f o => ⟨fun h => ?_, ?_⟩, ⟨fun h => ?_, ?_⟩,
      ⟨fun _ es hes => hacc ⟨es, hes⟩, fun _ => rfl⟩⟩
    · cases h
    · rintro ⟨es, hes, -⟩
      exact absurd ⟨es, hes⟩ hacc
    · cases h
    · rintro ⟨es, hes, -⟩
      exact absurd ⟨es, hes⟩ hacc

end LauSim.CommandLine
