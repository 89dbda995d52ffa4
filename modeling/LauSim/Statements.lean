/-
The configuration file as a little language.

`Config::load_config` reads a file line by line and acts on each line at once. What a line
means depends on the section it stands in: in a library section its first word is a file to
load, elsewhere it is a key of any case. Here the two are taken apart: `statements` is the
syntax of a file, `run` what the statements do.

`load_config_eq_run`: for every file `load_config` is the run of its statements, up to the
lines it echoes at level `LL_Debug`. So two files with the same statements are loaded alike:
blanks, empty lines, comments, the case of keys and whatever follows a section header do not
matter, errors and warnings included.
-/
import LauSim.Config

set_option autoImplicit false

namespace LauSim.Statements

open CText PluginManager Config

/-! ## Syntax -/

inductive Stmt where
  /-- a header: of a library section or not -/
  | header (libs : Bool)
  /-- a library and its arguments -/
  | load (name : Text) (args : List Text)
  /-- a key, and the words behind it -/
  | set (id : TokenId) (rest : List Text)
  deriving DecidableEq, Repr

/-- What a line says, given the section it stands in. -/
def statement (inLibs : Bool) (line : Text) : Option Stmt :=
  match words line with
  | [] => none
  | token :: rest =>
    if token.head? = some '#' then none
    else if get_token_identifyer token = .libs then some (.header true)
    else if get_token_identifyer token = .config then some (.header false)
    else if inLibs then some (.load token rest)
    else some (.set (get_token_identifyer token) rest)

/-- The section behind a statement. -/
def Stmt.next (inLibs : Bool) : Stmt → Bool
  | .header libs => libs
  | .load _ _ => inLibs
  | .set _ _ => inLibs

/-- The statements of a file. -/
def statements : Bool → List Text → List Stmt
  | _, [] => []
  | inLibs, line :: lines =>
    match statement inLibs line with
    | none => statements inLibs lines
    | some st => st :: statements (st.next inLibs) lines

/-! ## What the statements do -/

section Run

variable {α : Type} [LinearOrder α] (pl : α → Plugin) (lib : Libraries α)

/-- The configuration, the registry and the number of libraries loaded. -/
structure Loaded (α : Type) [LinearOrder α] where
  conf : Conf α
  plugins : Registry α
  loaded : ℕ

def exec : Stmt → Loaded α → End × Loaded α
  | .header _, s => (.ret 0, s)
  | .load name args, s =>
    let out := lib s.loaded name args
    let calls := runCalls pl out.2 s.plugins
    (if calls.1 then .ret out.1 else .throws,
      { s with plugins := calls.2, loaded := s.loaded + 1 })
  | .set id rest, s =>
    let out := set_config pl id rest s.plugins s.conf
    (out.1, { s with conf := out.2 })

/-- A step that does not return 0 ends a run. -/
def andThen {σ : Type} (out : End × σ) (k : σ → End × σ) : End × σ :=
  if out.1 = .ret 0 then k out.2
  else if out.1 = .throws then (.throws, out.2)
  else (.ret (-1), out.2)

def run : List Stmt → Loaded α → End × Loaded α
  | [], s => (.ret 0, s)
  | st :: sts, s => andThen (exec pl lib st s) (run sts)

end Run

/-! ## Without the echo -/

section Quiet

variable {α : Type}

/-- The log without its debug lines. -/
def quiet (c : Conf α) : Conf α := { c with log := c.log.filter fun l => decide (l.1 ≠ .Debug) }

@[simp] theorem get_quiet (c : Conf α) (f : Field) : (quiet c).get f = c.get f := by
  cases f <;> rfl

theorem set_quiet (c : Conf α) (p : α) (f : Field) : quiet (c.set p f) = (quiet c).set p f := by
  cases f <;> rfl

theorem log_fun_debug (c : Conf α) (msg : Text) : quiet (c.log_fun .Debug msg) = quiet c := by
  simp [quiet, Conf.log_fun]

theorem log_fun_quiet (c : Conf α) {ll : LogLevel} (hll : ll ≠ .Debug) (msg : Text) :
    quiet (c.log_fun ll msg) = (quiet c).log_fun ll msg := by
  simp [quiet, Conf.log_fun, hll]

variable {pl : α → Plugin}

/-- An assignment does not look at the log. -/
theorem assign_quiet (f : Field) (p : α) (c : Conf α) :
    assign pl f p (quiet c) = ((assign pl f p c).1, quiet (assign pl f p c).2) := by
  have hwarn : (if ((quiet c).get f).isSome then (quiet c).log_fun .Warning f.warning else quiet c)
      = quiet (if (c.get f).isSome then c.log_fun .Warning f.warning else c) := by
    rw [get_quiet]
    split
    · exact (log_fun_quiet c (by decide) _).symm
    · rfl
  rw [assign, assign, hwarn]
  split
  · rw [set_quiet]
  · rw [log_fun_quiet _ (by decide)]

theorem assignAll_quiet (id : TokenId) (p : α) (c : Conf α) :
    assignAll pl id p (quiet c) = ((assignAll pl id p c).1, quiet (assignAll pl id p c).2) := by
  cases id with
  | com_all =>
      simp only [assignAll, assign_quiet]
      split
      · next c' hc' =>
        obtain ⟨hend, hconf⟩ := Prod.mk.inj hc'
        have hret : assign pl .com_actor p c = (.ret 0, (assign pl .com_actor p c).2) :=
          Prod.ext hend rfl
        rw [hret, ← hconf, assign_quiet]
        rfl
      · next hne =>
        have hret : ∀ c', assign pl .com_actor p c ≠ (.ret 0, c') := by
          intro c' hc'
          rw [hc'] at hne
          exact hne _ rfl
        split
        · next c' hc' => exact absurd hc' (hret c')
        · rfl
  | com_actor => exact assign_quiet .com_actor p c
  | com_notify => exact assign_quiet .com_notify p c
  | logger => exact assign_quiet .logger p c
  | manager => exact assign_quiet .fault_manager p c
  | libs => rfl
  | config => rfl
  | tic => rfl
  | none => rfl

variable [LinearOrder α] {lib : Libraries α}

theorem set_config_quiet (pl : α → Plugin) (id : TokenId) (rest : List Text) (r : Registry α)
    (c : Conf α) :
    set_config pl id rest r (quiet c)
      = ((set_config pl id rest r c).1, quiet (set_config pl id rest r c).2) := by
  unfold set_config
  split
  · rw [log_fun_quiet _ (by decide)]
  · split
    · rw [log_fun_quiet _ (by decide)]
    · split
      · have hwarn : (if (quiet c).tic_length ≠ 0 then
              (quiet c).log_fun .Warning "tic length is reassigned".toList else quiet c)
            = quiet (if c.tic_length ≠ 0 then
              c.log_fun .Warning "tic length is reassigned".toList else c) := by
          change (if c.tic_length ≠ 0 then _ else _) = _
          split
          · exact (log_fun_quiet c (by decide) _).symm
          · rfl
        dsimp only
        rw [hwarn]
        split
        · rfl
        · rfl
      · split
        · rw [log_fun_quiet _ (by decide)]
        · exact assignAll_quiet id _ c

/-! ## A file and its statements -/

/-- What the statements work on. -/
def forget (s : Loading α) : Loaded α :=
  { conf := quiet s.conf, plugins := s.plugins, loaded := s.loaded }

/-- The token identifiers without the flag of a declaration are those of the headers. -/
theorem value_and_decl_id (id : TokenId) :
    id.value &&& decl_id = 0 ↔ id = .libs ∨ id = .config := by
  cases id <;> decide

/-- One line: nothing, or a statement and its section. -/
theorem load_line_eq (pl : α → Plugin) (lib : Libraries α) {inLibs : Bool} {s : Loading α}
    (hs : s.state = 2 ↔ inLibs = true) (line : Text) :
    let out := load_line pl lib line s
    match statement inLibs line with
    | none => out.1 = .ret 0 ∧ forget out.2 = forget s ∧ out.2.state = s.state
    | some st => (out.1, forget out.2) = exec pl lib st (forget s) ∧
        (out.2.state = 2 ↔ st.next inLibs = true) := by
  intro out
  have hecho : forget { s with conf := s.conf.log_fun .Debug ("Line: ".toList ++ line) }
      = forget s := by
    rw [forget, forget, log_fun_debug]
  have hout : out = load_line pl lib line s := rfl
  rw [load_line] at hout
  rw [statement]
  cases hwords : words line with
  | nil =>
      rw [hwords] at hout
      rw [hout]
      exact ⟨rfl, hecho, rfl⟩
  | cons token rest =>
      rw [hwords] at hout
      dsimp only at hout ⊢
      by_cases hcomment : token.head? = some '#'
      · rw [if_pos hcomment] at hout ⊢
        rw [hout]
        exact ⟨rfl, hecho, rfl⟩
      rw [if_neg hcomment] at hout ⊢
      by_cases hlibs : get_token_identifyer token = .libs
      · rw [if_pos ((value_and_decl_id _).mpr (Or.inl hlibs)), hlibs] at hout
        rw [if_pos hlibs, hout]
        exact ⟨Prod.ext rfl hecho, iff_of_true rfl rfl⟩
      rw [if_neg hlibs]
      by_cases hconfig : get_token_identifyer token = .config
      · rw [if_pos ((value_and_decl_id _).mpr (Or.inr hconfig)), hconfig] at hout
        rw [if_pos hconfig, hout]
        exact ⟨Prod.ext rfl hecho, iff_of_false (by simp [TokenId.value]) (by simp [Stmt.next])⟩
      rw [if_neg hconfig]
      have hdecl : ¬ (get_token_identifyer token).value &&& decl_id = 0 := fun h =>
        ((value_and_decl_id _).mp h).elim hlibs hconfig
      rw [if_neg hdecl] at hout
      cases inLibs with
      | true =>
          have hin : s.state = UInt8.ofNat (1 <<< TokenId.libs.value) := hs.mpr rfl
          rw [if_pos hin] at hout
          rw [if_pos rfl, hout]
          refine ⟨?_, hs⟩
          simp only [load_lib, exec, forget, log_fun_debug]
          rfl
      | false =>
          have hstate : ¬ s.state = UInt8.ofNat (1 <<< TokenId.libs.value) := fun h =>
            Bool.noConfusion (hs.mp h)
          rw [if_neg hstate] at hout
          rw [if_neg Bool.false_ne_true, hout]
          refine ⟨?_, hs⟩
          have hset := set_config_quiet pl (get_token_identifyer token) rest s.plugins
            (s.conf.log_fun .Debug ("Line: ".toList ++ line))
          rw [log_fun_debug] at hset
          simp only [exec, forget, hset]

theorem andThen_congr {σ τ : Type} {g : σ → τ} {out : End × σ} {out' : End × τ}
    {k : σ → End × σ} {k' : τ → End × τ} (hout : (out.1, g out.2) = out')
    (hk : out.1 = .ret 0 → ((k out.2).1, g (k out.2).2) = k' out'.2) :
    ((andThen out k).1, g (andThen out k).2) = andThen out' k' := by
  rw [← hout] at hk ⊢
  unfold andThen
  dsimp only at hk ⊢
  by_cases hret : out.1 = .ret 0
  · rw [if_pos hret, if_pos hret]
    exact hk hret
  · rw [if_neg hret, if_neg hret]
    split
    · rfl
    · rfl

theorem load_lines_cons (line : Text) (lines : List Text) (s : Loading α) :
    load_lines pl lib (line :: lines) s
      = andThen (load_line pl lib line s) (load_lines pl lib lines) := by
  rw [load_lines, andThen]
  rcases load_line pl lib line s with ⟨ret | -, s'⟩
  · by_cases hret : ret = 0
    · subst hret
      rfl
    · rw [if_neg (by simpa using hret), if_neg (by simp)]
      split
      · next heq =>
        obtain ⟨heq, -⟩ := Prod.mk.inj heq
        exact absurd (End.ret.inj heq) hret
      · next heq =>
        obtain ⟨-, heq⟩ := Prod.mk.inj heq
        rw [heq]
      · next heq => cases heq
  · rfl

/-- The loop over the lines is the run of their statements. -/
theorem load_lines_eq {inLibs : Bool} (lines : List Text) {s : Loading α}
    (hs : s.state = 2 ↔ inLibs = true) :
    ((load_lines pl lib lines s).1, forget (load_lines pl lib lines s).2)
      = run pl lib (statements inLibs lines) (forget s) := by
  induction lines generalizing inLibs s with
  | nil => rfl
  | cons line lines ih =>
      have hline := load_line_eq pl lib hs line
      rw [statements, load_lines_cons]
      cases hst : statement inLibs line with
      | none =>
          -- the line is only echoed
          rw [hst] at hline
          obtain ⟨hret, hforget, hstate⟩ := hline
          have hs' : (load_line pl lib line s).2.state = 2 ↔ inLibs = true := by
            rw [hstate]
            exact hs
          rw [andThen, if_pos hret, ih hs', hforget]
      | some st =>
          rw [hst] at hline
          obtain ⟨hexec, hnext⟩ := hline
          refine andThen_congr hexec fun _ => ?_
          rw [ih hnext, ← hexec]

/-- **A file is its statements.** For every file and every behaviour of the libraries, from
every configuration that is not loaded: `load_config` returns, registers, configures, warns and
complains as the run of the statements of the file does; it adds its flag when all went well,
and the echo of the lines. -/
theorem load_config_eq_run (pl : α → Plugin) (lib : Libraries α) (lines : List Text)
    (c : Conf α) (r : Registry α) (hc : c.is_loaded = false) :
    let out := load_config pl lib (some lines) c r
    let res := run pl lib (statements false lines) ⟨quiet c, r, 0⟩
    out.1 = res.1 ∧ out.2.plugins = res.2.plugins ∧ out.2.loaded = res.2.loaded ∧
      quiet out.2.conf =
        if res.1 = .ret 0 then { res.2.conf with is_loaded := true } else res.2.conf := by
  intro out res
  let s : Loading α := { conf := c, plugins := r, state := 0, loaded := 0 }
  have hs : s.state = 2 ↔ false = true :=
    iff_of_false (show ¬ (0 : UInt8) = 2 by decide) Bool.false_ne_true
  have hlines : ((load_lines pl lib lines s).1, forget (load_lines pl lib lines s).2) = res :=
    load_lines_eq lines hs
  have hout : load_config pl lib (some lines) c r = out := rfl
  rw [load_config, if_neg (by rw [hc]; exact Bool.false_ne_true)] at hout
  rw [← hlines]
  dsimp only at hout
  split at hout
  · next s' hs' =>
    rw [← hout]
    change load_lines pl lib lines s = (.ret 0, s') at hs'
    rw [hs']
    exact ⟨rfl, rfl, rfl, rfl⟩
  · next hne =>
    rw [← hout]
    refine ⟨rfl, rfl, rfl, ?_⟩
    rw [if_neg]
    · rfl
    · intro hret
      exact hne _ (Prod.ext hret rfl)

/-- A comment, odd spacing and a key in capitals. -/
theorem load_config_eq_run_spaced :
    let pl : ℕ → Plugin := fun _ => { name := "p".toList, pl_type := 3 }
    let lib : Libraries ℕ := fun _ _ _ => (0, [.register_plugin 0])
    let lines := ["[LIBS] here".toList, "".toList, "  p.so\t7".toList, "# no".toList,
      "[config]".toList, "COM\t=  p".toList]
    statements false lines = [.header true, .load "p.so".toList ["7".toList], .header false,
        .set .com_all ["=".toList, "p".toList]] ∧
      (load_config pl lib (some lines) Conf.initial OrdMap.empty).1
        = (run pl lib (statements false lines) ⟨quiet Conf.initial, OrdMap.empty, 0⟩).1 := by
  intro pl lib lines
  exact ⟨by decide +kernel, (load_config_eq_run pl lib lines Conf.initial OrdMap.empty rfl).1⟩

end Quiet

end LauSim.Statements
