/-
The configuration file, `srv/config.cpp`.

`load_config` reads the file line by line. The first word of a line is looked up
in the table of tokens: a section header sets the state, any other word is the
name of a library inside a library section, and a key (or nothing known) in front
of an assignment elsewhere. Words are what `operator>>` extracts.

What a library does when it is loaded is a parameter: the `n`-th call of
`load_library` returns some value and has called some functions of the registry
on the way, any of them, in any order. One of these may throw, and nothing between
it and the caller of `load_config` catches that.

The four plugin fields differ in their key words, the capability they ask for and
the words of two messages (`Field`). `load_config_last` reads every field off the
last line that sets it.
-/
import LauSim.PluginManager
import LauSim.Server

set_option autoImplicit false

namespace LauSim.Config

open CText PluginManager

/-! ## Tokens -/

/-- `strcasecmp (a, b) == 0`. -/
def strcaseeq (a b : Text) : Bool :=
  decide ((cstr a).map Char.toLower = (cstr b).map Char.toLower)

/-- The words of a line, as `operator>>` extracts them. -/
def words (line : Text) : List Text := strtoks [' ', '\t', '\n', '\x0b', '\x0c', '\r'] line

/-- The token identifiers of `config.h` and `config.cpp`. -/
inductive TokenId where
  | config | libs | none | com_actor | com_notify | logger | manager | com_all | tic
  deriving DecidableEq, Repr

def TokenId.value : TokenId → ℕ
  | .config => 0x0
  | .libs => 0x1
  | .none => 0xFFFF
  | .com_actor => 0x100
  | .com_notify => 0x101
  | .logger => 0x102
  | .manager => 0x103
  | .com_all => 0x104
  | .tic => 0x105

def decl_id : ℕ := 0x100

def tokenids : List (Text × TokenId) :=
  [("[library]".toList, .libs), ("[lib]".toList, .libs), ("[libs]".toList, .libs),
   ("[config]".toList, .config), ("com-actor".toList, .com_actor),
   ("com_actor".toList, .com_actor), ("actor".toList, .com_actor),
   ("com-notify".toList, .com_notify), ("com_notify".toList, .com_notify),
   ("notify".toList, .com_notify), ("com".toList, .com_all), ("logger".toList, .logger),
   ("log".toList, .logger), ("fault-manager".toList, .manager),
   ("fault_manager".toList, .manager), ("fault".toList, .manager),
   ("manager".toList, .manager), ("tic".toList, .tic), ("tik".toList, .tic)]

def get_token_identifyer (tk : Text) : TokenId :=
  match tokenids.find? (fun item => strcaseeq tk item.1) with
  | some item => item.2
  | none => .none

/-- `std::stoul`, or one of its two exceptions. -/
def stoul (s : Text) : Option UInt64 :=
  let t := (cstr s).dropWhile isspace
  let ds := (skipSign t).takeWhile (isDigitOf 10)
  -- `std::invalid_argument`
  if ds = [] then none
  -- `std::out_of_range`
  else if 2 ^ 64 ≤ digitsValue 10 ds then none
  else if t.head? = some '-' then some (-(UInt64.ofNat (digitsValue 10 ds)))
  else some (UInt64.ofNat (digitsValue 10 ds))

/-! ## The fields -/

/-- The plugin fields of `Config`. -/
inductive Field where
  | com_actor | com_notify | logger | fault_manager
  deriving DecidableEq, Repr

/-- The capability a field asks for. -/
def Field.type : Field → PluginType
  | .com_actor => PL_COM_ACTOR
  | .com_notify => PL_COM_EXTERN
  | .logger => PL_LOGGER
  | .fault_manager => PL_FAULT_MANAGER

def Field.warning : Field → Text
  | .com_actor => "com actor is reassigned".toList
  | .com_notify => "com notify is reassigned".toList
  | .logger => "logger is reassigned".toList
  | .fault_manager => "fault manager is reassigned".toList

/-- What a plugin without the capability is not. -/
def Field.kind : Field → Text
  | .com_actor | .com_notify => "com".toList
  | .logger => "logger".toList
  | .fault_manager => "fault manager".toList

/-- `Config`, and what it has logged. -/
structure Conf (α : Type) where
  com_actor : Option α
  com_notify : Option α
  fault_manager : Option α
  logger : Option α
  tic_length : UInt64
  is_loaded : Bool
  log : List (LogLevel × Text)

namespace Conf

variable {α : Type}

def initial : Conf α :=
  { com_actor := none, com_notify := none, fault_manager := none, logger := none,
    tic_length := 0, is_loaded := false, log := [] }

def log_fun (ll : LogLevel) (msg : Text) (c : Conf α) : Conf α :=
  { c with log := c.log ++ [(ll, cstr msg)] }

def get (c : Conf α) : Field → Option α
  | .com_actor => c.com_actor
  | .com_notify => c.com_notify
  | .logger => c.logger
  | .fault_manager => c.fault_manager

def set (p : α) (c : Conf α) : Field → Conf α
  | .com_actor => { c with com_actor := some p }
  | .com_notify => { c with com_notify := some p }
  | .logger => { c with logger := some p }
  | .fault_manager => { c with fault_manager := some p }

theorem get_set (p : α) (c : Conf α) (f g : Field) :
    (c.set p f).get g = if g = f then some p else c.get g := by
  cases f <;> cases g <;> rfl

@[simp] theorem get_log_fun (ll : LogLevel) (msg : Text) (c : Conf α) (f : Field) :
    (c.log_fun ll msg).get f = c.get f := by
  cases f <;> rfl

@[simp] theorem tic_length_set (p : α) (c : Conf α) (f : Field) :
    (c.set p f).tic_length = c.tic_length := by
  cases f <;> rfl

@[simp] theorem tic_length_log_fun (ll : LogLevel) (msg : Text) (c : Conf α) :
    (c.log_fun ll msg).tic_length = c.tic_length := rfl

end Conf

/-! ## `set_config` -/

/-- How a function ends. -/
inductive End where
  | ret (r : Int)
  | throws
  deriving DecidableEq, Repr

section SetConfig

variable {α : Type} [LinearOrder α] (pl : α → Plugin)

/-- The assignment of a plugin to a field, one case of the `switch`. -/
def assign (f : Field) (p : α) (c : Conf α) : End × Conf α :=
  let c := if (c.get f).isSome then c.log_fun .Warning f.warning else c
  if (pl p).has f.type then (.ret 0, c.set p f)
  else
    (.ret (-1), c.log_fun .Error ("plugin \"".toList ++ cstr (pl p).name ++ "\" is not a ".toList ++
      f.kind ++ " plugin".toList))

/-- The `switch` of `set_config` for a plugin. -/
def assignAll (id : TokenId) (p : α) (c : Conf α) : End × Conf α :=
  match id with
  | .com_all =>
    match assign pl .com_actor p c with
    -- fall through
    | (.ret 0, c) => assign pl .com_notify p c
    | out => out
  | .com_actor => assign pl .com_actor p c
  | .com_notify => assign pl .com_notify p c
  | .logger => assign pl .logger p c
  | .manager => assign pl .fault_manager p c
  | _ => (.ret 0, c)

/-- `Config::set_config`, given the words behind the key. -/
def set_config (id : TokenId) (rest : List Text) (r : Registry α) (c : Conf α) : End × Conf α :=
  if rest.head? ≠ some "=".toList then
    (.ret (-1), c.log_fun .Error "'=' expected in assignment".toList)
  else
    match rest[1]? with
    | none => (.ret (-1), c.log_fun .Error "expected assignment before end of line".toList)
    | some value =>
      if id = .tic then
        let c := if c.tic_length ≠ 0 then c.log_fun .Warning "tic length is reassigned".toList else c
        match stoul value with
        | none => (.throws, c)
        | some n => (.ret 0, { c with tic_length := n })
      else
        match get_by_name pl value r with
        | none => (.ret (-1), c.log_fun .Error
            ("plugin \"".toList ++ value ++ "\" is not loaded".toList))
        | some p => assignAll pl id p c

end SetConfig

/-! ## `load_config` -/

/-- What the `n`-th call of `load_library` does, for a file and its arguments:
the value it returns, and the calls the library makes on the way. -/
abbrev Libraries (α : Type) := ℕ → Text → List Text → Int × List (Call α)

/-- The variables of `load_config`, the registry, and the number of libraries loaded. -/
structure Loading (α : Type) [LinearOrder α] where
  conf : Conf α
  plugins : Registry α
  state : UInt8
  loaded : ℕ

section LoadConfig

variable {α : Type} [LinearOrder α] (pl : α → Plugin) (lib : Libraries α)

/-- `Config::load_lib`. What a call of the library throws passes through it. -/
def load_lib (name : Text) (args : List Text) (s : Loading α) : End × Loading α :=
  let out := lib s.loaded name args
  let calls := runCalls pl out.2 s.plugins
  (if calls.1 then .ret out.1 else .throws,
    { s with plugins := calls.2, loaded := s.loaded + 1 })

/-- The body of the loop over the lines. -/
def load_line (line : Text) (s : Loading α) : End × Loading α :=
  let s := { s with conf := s.conf.log_fun .Debug ("Line: ".toList ++ line) }
  match words line with
  | [] => (.ret 0, s)
  | token :: rest =>
    if token.head? = some '#' then (.ret 0, s)
    else if (get_token_identifyer token).value &&& decl_id = 0 then
      (.ret 0, { s with state := UInt8.ofNat (1 <<< (get_token_identifyer token).value) })
    else if s.state = UInt8.ofNat (1 <<< TokenId.libs.value) then load_lib pl lib token rest s
    else
      let out := set_config pl (get_token_identifyer token) rest s.plugins s.conf
      (out.1, { s with conf := out.2 })

def load_lines : List Text → Loading α → End × Loading α
  | [], s => (.ret 0, s)
  | line :: lines, s =>
    match load_line pl lib line s with
    | (.ret 0, s) => load_lines lines s
    -- `return -1`, whatever the line gave
    | (.ret _, s) => (.ret (-1), s)
    | (.throws, s) => (.throws, s)

/-- `Config::load_config`; `file` holds the lines of the file, if it can be opened. -/
def load_config (file : Option (List Text)) (c : Conf α) (r : Registry α) : End × Loading α :=
  let s := { conf := c, plugins := r, state := 0, loaded := 0 }
  if c.is_loaded then (.ret 1, s)
  else
    match file with
    | none =>
      (.ret (-1), { s with conf := c.log_fun .Error "unable to open configuration file!".toList })
    | some lines =>
      match load_lines pl lib lines s with
      | (.ret 0, s) => (.ret 0, { s with conf := { s.conf with is_loaded := true } })
      | out => out

end LoadConfig

/-! ## What a file says -/

/-- The first word of the line is, ignoring case, one of `keys`. -/
def heads (keys : List Text) (line : Text) : Bool :=
  match words line with
  | [] => false
  | word :: _ => keys.any (fun key => strcaseeq word key)

/-- Whether the lines behind `line` are in a library section, given whether it is. -/
def nextSection (inLibs : Bool) (line : Text) : Bool :=
  if heads ["[library]".toList, "[lib]".toList, "[libs]".toList] line then true
  else if heads ["[config]".toList] line then false
  else inLibs

/-- Each line, and whether it stands in a library section. -/
def placed : Bool → List Text → List (Bool × Text)
  | _, [] => []
  | inLibs, line :: lines => (inLibs, line) :: placed (nextSection inLibs line) lines

/-- The last line outside the library sections that starts with one of `keys`. -/
def lastLine (keys : List Text) (lines : List Text) : Option Text :=
  (((placed false lines).filter (fun l => !l.1 && heads keys l.2)).getLast?).map Prod.snd

/-- The words that set a field. -/
def Field.keys : Field → List Text
  | .com_actor => ["com-actor".toList, "com_actor".toList, "actor".toList, "com".toList]
  | .com_notify => ["com-notify".toList, "com_notify".toList, "notify".toList, "com".toList]
  | .logger => ["logger".toList, "log".toList]
  | .fault_manager =>
    ["fault-manager".toList, "fault_manager".toList, "fault".toList, "manager".toList]

def ticKeys : List Text := ["tic".toList, "tik".toList]

/-- The word a line assigns: `key = value`. -/
def value (line : Text) : Option Text := (words line)[2]?

/-! ## Tokens and keys -/

/-- The words of the table that stand for a token of the kind `P`. -/
def wordsOf (P : TokenId → Bool) : List Text :=
  (tokenids.filter (fun item => P item.2)).map Prod.fst

theorem strcaseeq_token {tk : Text} {item : Text × TokenId} (h : item ∈ tokenids) :
    strcaseeq tk item.1 = decide ((cstr tk).map Char.toLower = item.1) := by
  have hlower : ∀ item ∈ tokenids, (cstr item.1).map Char.toLower = item.1 := by decide
  rw [strcaseeq, hlower item h]

theorem any_wordsOf_iff {P : TokenId → Bool} {tk : Text} :
    (wordsOf P).any (fun key => strcaseeq tk key) = true ↔
      ∃ item ∈ tokenids, P item.2 = true ∧ (cstr tk).map Char.toLower = item.1 := by
  rw [List.any_eq_true]
  constructor
  · rintro ⟨key, hkey, heq⟩
    obtain ⟨item, hitem, rfl⟩ := List.mem_map.mp hkey
    obtain ⟨hitem, hP⟩ := List.mem_filter.mp hitem
    rw [strcaseeq_token hitem] at heq
    exact ⟨item, hitem, hP, by simpa using heq⟩
  · rintro ⟨item, hitem, hP, heq⟩
    refine ⟨item.1, List.mem_map.mpr ⟨item, List.mem_filter.mpr ⟨hitem, hP⟩, rfl⟩, ?_⟩
    rw [strcaseeq_token hitem]
    exact decide_eq_true heq

/-- The token of a word: that of its entry in the table, if it has one. -/
theorem get_token_of_mem {tk : Text} {item : Text × TokenId} (hitem : item ∈ tokenids)
    (heq : (cstr tk).map Char.toLower = item.1) : get_token_identifyer tk = item.2 := by
  -- no word stands in the table twice
  have hself : ∀ item ∈ tokenids, tokenids.find? (fun e => decide (item.1 = e.1)) = some item := by
    decide
  have hfind : tokenids.find? (fun e => strcaseeq tk e.1)
      = tokenids.find? (fun e => decide (item.1 = e.1)) := by
    apply List.find?_congr
    intro e he
    rw [strcaseeq_token he, heq]
  rw [get_token_identifyer, hfind, hself item hitem]

theorem get_token_of_not_mem {tk : Text}
    (h : ∀ item ∈ tokenids, (cstr tk).map Char.toLower ≠ item.1) :
    get_token_identifyer tk = .none := by
  have hfind : tokenids.find? (fun e => strcaseeq tk e.1) = none := by
    rw [List.find?_eq_none]
    intro e he
    rw [strcaseeq_token he]
    simpa using h e he
  rw [get_token_identifyer, hfind]

/-- A word is a key of the kind `P` exactly if its token is of that kind. -/
theorem any_wordsOf {P : TokenId → Bool} (hnone : P .none = false) (tk : Text) :
    (wordsOf P).any (fun key => strcaseeq tk key) = P (get_token_identifyer tk) := by
  rw [Bool.eq_iff_iff, any_wordsOf_iff]
  by_cases h : ∃ item ∈ tokenids, (cstr tk).map Char.toLower = item.1
  · obtain ⟨item, hitem, heq⟩ := h
    rw [get_token_of_mem hitem heq]
    constructor
    · rintro ⟨item', hitem', hP, heq'⟩
      rw [← get_token_of_mem hitem heq, get_token_of_mem hitem' heq']
      exact hP
    · intro hP
      exact ⟨item, hitem, hP, heq⟩
  · push Not at h
    rw [get_token_of_not_mem h, hnone]
    constructor
    · rintro ⟨item, hitem, -, heq⟩
      exact absurd heq (h item hitem)
    · intro hfalse
      simp at hfalse

/-- The tokens that set a field. -/
def Field.setBy (f : Field) (id : TokenId) : Bool :=
  match f with
  | .com_actor => decide (id = .com_actor ∨ id = .com_all)
  | .com_notify => decide (id = .com_notify ∨ id = .com_all)
  | .logger => decide (id = .logger)
  | .fault_manager => decide (id = .manager)

theorem Field.keys_eq (f : Field) : f.keys = wordsOf f.setBy := by
  cases f <;> decide

/-- A comment has no token. -/
theorem get_token_comment {tk : Text} (h : tk.head? = some '#') :
    get_token_identifyer tk = .none := by
  have hitems : ∀ item ∈ tokenids, item.1.head? ≠ some '#' := by decide
  apply get_token_of_not_mem
  intro item hitem heq
  apply hitems item hitem
  obtain ⟨rest, rfl⟩ : ∃ rest, tk = '#' :: rest := by
    cases tk with
    | nil => simp at h
    | cons c rest => exact ⟨rest, by simpa using h⟩
  rw [← heq]
  rfl

/-- The token a line starts with. -/
def lineToken (line : Text) : TokenId :=
  match words line with
  | [] => .none
  | token :: _ => get_token_identifyer token

theorem heads_eq {keys : List Text} {P : TokenId → Bool} (hkeys : keys = wordsOf P)
    (hnone : P .none = false) (line : Text) : heads keys line = P (lineToken line) := by
  unfold heads lineToken
  cases words line with
  | nil => exact hnone.symm
  | cons token rest =>
      rw [hkeys]
      exact any_wordsOf hnone token

theorem heads_field (f : Field) (line : Text) : heads f.keys line = f.setBy (lineToken line) :=
  heads_eq f.keys_eq (by cases f <;> rfl) line

theorem heads_tic (line : Text) : heads ticKeys line = decide (lineToken line = .tic) :=
  heads_eq (P := fun id => decide (id = .tic)) (by decide) rfl line

theorem nextSection_eq (inLibs : Bool) (line : Text) :
    nextSection inLibs line =
      if lineToken line = .libs then true else if lineToken line = .config then false else inLibs := by
  unfold nextSection
  rw [heads_eq (P := fun id => decide (id = .libs)) (by decide) rfl,
    heads_eq (P := fun id => decide (id = .config)) (by decide) rfl]
  simp only [decide_eq_true_eq]

/-- The tokens without the declaration bit are the section headers. -/
theorem header_iff (id : TokenId) : id.value &&& decl_id = 0 ↔ id = .libs ∨ id = .config := by
  cases id <;> decide

/-! ## One line -/

variable {α : Type} [LinearOrder α] {pl : α → Plugin} {lib : Libraries α}

omit [LinearOrder α] in
theorem assign_eq_zero {f : Field} {p : α} {c c' : Conf α} (h : assign pl f p c = (.ret 0, c')) :
    (pl p).has f.type = true ∧ c'.tic_length = c.tic_length ∧
      ∀ g, c'.get g = if g = f then some p else c.get g := by
  unfold assign at h
  dsimp only at h
  split at h
  · next hhas =>
    obtain ⟨-, rfl⟩ := Prod.mk.inj h
    refine ⟨hhas, ?_, fun g => ?_⟩
    · by_cases hset : (c.get f).isSome = true
      · simp [hset]
      · simp [hset]
    · rw [Conf.get_set]
      by_cases hset : (c.get f).isSome = true
      · simp [hset]
      · simp [hset]
  · simp at h

/-- What an assignment with the token `id` of the plugin `p` has done to the fields. -/
def Assigned (pl : α → Plugin) (id : TokenId) (p : α) (c c' : Conf α) : Prop :=
  c'.tic_length = c.tic_length ∧ ∀ f : Field,
    (f.setBy id = true → c'.get f = some p ∧ (pl p).has f.type = true) ∧
    (f.setBy id = false → c'.get f = c.get f)

omit [LinearOrder α] in
theorem assigned_of_assign {id : TokenId} {f : Field} {p : α} {c c' : Conf α}
    (hid : ∀ g : Field, g.setBy id = decide (g = f)) (h : assign pl f p c = (.ret 0, c')) :
    Assigned pl id p c c' := by
  obtain ⟨hhas, htic, hget⟩ := assign_eq_zero h
  refine ⟨htic, fun g => ?_⟩
  rw [hid g, hget g]
  by_cases hg : g = f
  · subst hg
    simp [hhas]
  · simp [hg]

omit [LinearOrder α] in
theorem assigned_refl {id : TokenId} (hid : ∀ g : Field, g.setBy id = false) (p : α) (c : Conf α) :
    Assigned pl id p c c := by
  refine ⟨rfl, fun f => ⟨fun hset => ?_, fun _ => rfl⟩⟩
  rw [hid f] at hset
  simp at hset

omit [LinearOrder α] in
/-- What the `switch` does when it succeeds. -/
theorem assignAll_eq_zero {id : TokenId} {p : α} {c c' : Conf α}
    (h : assignAll pl id p c = (.ret 0, c')) : Assigned pl id p c c' := by
  cases id with
  | com_actor => exact assigned_of_assign (f := .com_actor) (by rintro (_ | _) <;> rfl) h
  | com_notify => exact assigned_of_assign (f := .com_notify) (by rintro (_ | _) <;> rfl) h
  | logger => exact assigned_of_assign (f := .logger) (by rintro (_ | _) <;> rfl) h
  | manager => exact assigned_of_assign (f := .fault_manager) (by rintro (_ | _) <;> rfl) h
  | com_all =>
      -- the actor first, and only if that worked the listener
      unfold assignAll at h
      dsimp only at h
      split at h
      · next c₁ hactor =>
        obtain ⟨hhas, htic, hget⟩ := assign_eq_zero hactor
        obtain ⟨hhas', htic', hget'⟩ := assign_eq_zero h
        refine ⟨htic'.trans htic, fun f => ?_⟩
        cases f with
        | com_actor => simp [Field.setBy, hget', hget, hhas]
        | com_notify => simp [Field.setBy, hget', hhas']
        | logger => simp [Field.setBy, hget', hget]
        | fault_manager => simp [Field.setBy, hget', hget]
      · next hnot => exact absurd h (hnot c')
  | config => exact (Prod.mk.inj h).2 ▸ assigned_refl (by rintro (_ | _) <;> rfl) p c
  | libs => exact (Prod.mk.inj h).2 ▸ assigned_refl (by rintro (_ | _) <;> rfl) p c
  | none => exact (Prod.mk.inj h).2 ▸ assigned_refl (by rintro (_ | _) <;> rfl) p c
  | tic => exact (Prod.mk.inj h).2 ▸ assigned_refl (by rintro (_ | _) <;> rfl) p c

/-- What `set_config` does when it succeeds. -/
theorem set_config_eq_zero {id : TokenId} {rest : List Text} {r : Registry α} {c c' : Conf α}
    (h : set_config pl id rest r c = (.ret 0, c')) :
    ∃ v, rest[1]? = some v ∧
      ((id = .tic ∧ stoul v = some c'.tic_length ∧ ∀ f, c'.get f = c.get f) ∨
        (id ≠ .tic ∧ ∃ p, get_by_name pl v r = some p ∧ Assigned pl id p c c')) := by
  unfold set_config at h
  split at h
  · simp at h
  · split at h
    · simp at h
    · next v hv =>
      refine ⟨v, hv, ?_⟩
      split at h
      · next hid =>
        left
        dsimp only at h
        split at h
        · exact absurd (Prod.mk.inj h).1 (by simp)
        · next n hn =>
          obtain ⟨-, rfl⟩ := Prod.mk.inj h
          refine ⟨hid, hn, fun f => ?_⟩
          have hget : ∀ c₁ : Conf α, ({ c₁ with tic_length := n } : Conf α).get f = c₁.get f := by
            intro c₁
            cases f <;> rfl
          rw [hget]
          split
          · exact Conf.get_log_fun _ _ _ _
          · rfl
      · next hid =>
        right
        split at h
        · simp at h
        · next p hp => exact ⟨hid, p, hp, assignAll_eq_zero h⟩

/-- A line that sets no field: nothing but the log has changed in the configuration. -/
def Same (c c' : Conf α) : Prop := c'.tic_length = c.tic_length ∧ ∀ f, c'.get f = c.get f

/-- Everything a line can do that does not end the loop: open a section; load a
library, or be a comment; assign a value. -/
theorem load_line_cases {line : Text} {s s' : Loading α}
    (h : load_line pl lib line s = (.ret 0, s')) :
    (lineToken line = .libs ∧ s'.state = 2 ∧ s'.plugins = s.plugins ∧ Same s.conf s'.conf) ∨
    (lineToken line = .config ∧ s'.state = 1 ∧ s'.plugins = s.plugins ∧ Same s.conf s'.conf) ∨
    (lineToken line ≠ .libs ∧ lineToken line ≠ .config ∧ s'.state = s.state ∧
      (((s.state = 2 ∨ lineToken line = .none) ∧ (∃ cs, s'.plugins = run pl cs s.plugins) ∧
          Same s.conf s'.conf) ∨
        (s.state ≠ 2 ∧ s'.plugins = s.plugins ∧ ∃ v, value line = some v ∧
          ((lineToken line = .tic ∧ stoul v = some s'.conf.tic_length ∧
              ∀ f, s'.conf.get f = s.conf.get f) ∨
            (lineToken line ≠ .tic ∧ ∃ p, get_by_name pl v s.plugins = some p ∧
              Assigned pl (lineToken line) p s.conf s'.conf))))) := by
  have hsame : Same s.conf (s.conf.log_fun .Debug ("Line: ".toList ++ line)) :=
    ⟨rfl, fun f => Conf.get_log_fun _ _ _ f⟩
  unfold load_line at h
  unfold lineToken value
  dsimp only at h
  split at h
  · next hwords =>
    obtain ⟨-, rfl⟩ := Prod.mk.inj h
    rw [hwords]
    exact Or.inr (Or.inr ⟨by simp, by simp, rfl, Or.inl ⟨Or.inr rfl, ⟨[], rfl⟩, hsame⟩⟩)
  · next token rest hwords =>
    rw [hwords]
    split at h
    · next hcomment =>
      obtain ⟨-, rfl⟩ := Prod.mk.inj h
      rw [get_token_comment hcomment]
      exact Or.inr (Or.inr ⟨by simp, by simp, rfl, Or.inl ⟨Or.inr rfl, ⟨[], rfl⟩, hsame⟩⟩)
    · split at h
      · next hsection =>
        obtain ⟨-, rfl⟩ := Prod.mk.inj h
        rcases (header_iff _).mp hsection with hid | hid
        · exact Or.inl ⟨hid, by simp [hid, TokenId.value], rfl, hsame⟩
        · exact Or.inr (Or.inl ⟨hid, by simp [hid, TokenId.value], rfl, hsame⟩)
      · next hdecl =>
        rw [header_iff, not_or] at hdecl
        obtain ⟨hlibs, hconfig⟩ := hdecl
        refine Or.inr (Or.inr ⟨hlibs, hconfig, ?_⟩)
        split at h
        · next hstate =>
          obtain ⟨-, rfl⟩ := Prod.mk.inj h
          exact ⟨rfl, Or.inl ⟨Or.inl hstate, runCalls_eq_run pl _ _, hsame⟩⟩
        · next hstate =>
          obtain ⟨hret, rfl⟩ := Prod.mk.inj h
          refine ⟨rfl, Or.inr ⟨hstate, rfl, ?_⟩⟩
          have hset : set_config pl (get_token_identifyer token) rest s.plugins
              (s.conf.log_fun .Debug ("Line: ".toList ++ line)) = (.ret 0, _) :=
            Prod.ext hret rfl
          obtain ⟨v, hv, hcase⟩ := set_config_eq_zero hset
          refine ⟨v, hv, ?_⟩
          rcases hcase with ⟨hid, hn, hget⟩ | ⟨hid, p, hp, hassigned⟩
          · exact Or.inl ⟨hid, hn, fun f => (hget f).trans (hsame.2 f)⟩
          · refine Or.inr ⟨hid, p, hp, hassigned.1, fun f => ⟨(hassigned.2 f).1, fun hno => ?_⟩⟩
            exact ((hassigned.2 f).2 hno).trans (hsame.2 f)

/-! ## The whole file -/

/-- Whether a line behind `lines` stands in a library section. -/
def inLibsAfter (lines : List Text) : Bool := lines.foldl nextSection false

theorem placed_append (inLibs : Bool) (lines : List Text) (line : Text) :
    placed inLibs (lines ++ [line])
      = placed inLibs lines ++ [(lines.foldl nextSection inLibs, line)] := by
  induction lines generalizing inLibs with
  | nil => rfl
  | cons l lines ih => exact congrArg ((inLibs, l) :: ·) (ih _)

theorem inLibsAfter_append (lines : List Text) (line : Text) :
    inLibsAfter (lines ++ [line]) = nextSection (inLibsAfter lines) line := by
  simp only [inLibsAfter, List.foldl_append, List.foldl_cons, List.foldl_nil]

theorem lastLine_append (keys lines : List Text) (line : Text) :
    lastLine keys (lines ++ [line]) =
      if inLibsAfter lines = false ∧ heads keys line = true then some line
      else lastLine keys lines := by
  rw [lastLine, placed_append, List.filter_append, List.getLast?_append]
  by_cases h : inLibsAfter lines = false ∧ heads keys line = true
  · rw [if_pos h, List.filter_singleton, ← inLibsAfter, h.1, h.2]
    rfl
  · have hnot : (!inLibsAfter lines && heads keys line) = false := by
      by_contra hne
      exact h (by simpa using hne)
    rw [if_neg h, List.filter_singleton, ← inLibsAfter, hnot]
    rfl

/-- The state is that of the section, behind each line. -/
theorem state_load_line {inLibs : Bool} {line : Text} {s s' : Loading α}
    (h : s.state = 2 ↔ inLibs = true) (hline : load_line pl lib line s = (.ret 0, s')) :
    s'.state = 2 ↔ nextSection inLibs line = true := by
  rw [nextSection_eq]
  rcases load_line_cases hline with ⟨hid, hstate, -⟩ | ⟨hid, hstate, -⟩ |
    ⟨hlibs, hconfig, hstate, -⟩
  · rw [hstate, if_pos hid]
    simp
  · rw [hstate, hid]
    simp
  · -- the section goes on
    rw [hstate, if_neg hlibs, if_neg hconfig]
    exact h

/-- The field `f` holds the plugin that the last line for it names. -/
def FieldOk (pl : α → Plugin) (f : Field) (last : Option Text) (s : Loading α) : Prop :=
  match last with
  | none => s.conf.get f = none
  | some line => ∃ v p, value line = some v ∧ get_by_name pl v s.plugins = some p ∧
      s.conf.get f = some p ∧ (pl p).has f.type = true

/-- The tic length is the number in the last line for it. -/
def TicOk (last : Option Text) (s : Loading α) : Prop :=
  match last with
  | none => s.conf.tic_length = 0
  | some line => ∃ v, value line = some v ∧ stoul v = some s.conf.tic_length

/-- The loop has read `lines`. -/
structure Good (pl : α → Plugin) (lines : List Text) (s : Loading α) : Prop where
  inv : Inv pl s.plugins
  state : s.state = 2 ↔ inLibsAfter lines = true
  field : ∀ f, FieldOk pl f (lastLine f.keys lines) s
  tic : TicOk (lastLine ticKeys lines) s

/-- A name stays that of its plugin, however many are registered after it. -/
theorem get_by_name_run {r : Registry α} (h : Inv pl r) {v : Text} {p : α}
    (hp : get_by_name pl v r = some p) (cs : List (Call α)) :
    get_by_name pl v (run pl cs r) = some p := by
  obtain ⟨hmem, hname⟩ := get_by_name_eq_some hp
  exact (inv_run cs h).get_by_name_iff.mpr ⟨mem_keys_run cs hmem, hname⟩

theorem FieldOk.run {f : Field} {last : Option Text} {s s' : Loading α} (h : FieldOk pl f last s)
    (hinv : Inv pl s.plugins) (cs : List (Call α)) (hplugins : s'.plugins = run pl cs s.plugins)
    (hget : s'.conf.get f = s.conf.get f) : FieldOk pl f last s' := by
  cases last with
  | none => exact hget.trans h
  | some line =>
      obtain ⟨v, p, hv, hp, hf, hhas⟩ := h
      refine ⟨v, p, hv, ?_, hget.trans hf, hhas⟩
      rw [hplugins]
      exact get_by_name_run hinv hp cs

theorem TicOk.congr {last : Option Text} {s s' : Loading α} (h : TicOk last s)
    (htic : s'.conf.tic_length = s.conf.tic_length) : TicOk last s' := by
  cases last with
  | none => exact htic.trans h
  | some line =>
      obtain ⟨v, hv, hn⟩ := h
      exact ⟨v, hv, by rw [htic]; exact hn⟩

/-- A line that sets nothing keeps what the file says, if it is in no field's way. -/
theorem Good.same {lines : List Text} {line : Text} {s s' : Loading α} (h : Good pl lines s)
    (cs : List (Call α)) (hplugins : s'.plugins = run pl cs s.plugins)
    (hsame : Same s.conf s'.conf) (hstate : s'.state = 2 ↔ inLibsAfter (lines ++ [line]) = true)
    (hquiet : ∀ keys, (keys = ticKeys ∨ ∃ f : Field, keys = f.keys) →
      ¬ (inLibsAfter lines = false ∧ heads keys line = true)) :
    Good pl (lines ++ [line]) s' := by
  refine ⟨?_, hstate, fun f => ?_, ?_⟩
  · rw [hplugins]
    exact inv_run cs h.inv
  · rw [lastLine_append, if_neg (hquiet _ (Or.inr ⟨f, rfl⟩))]
    exact (h.field f).run h.inv cs hplugins (hsame.2 f)
  · rw [lastLine_append, if_neg (hquiet _ (Or.inl rfl))]
    exact h.tic.congr hsame.1

/-- Headers, comments and unknown words are no keys. -/
theorem not_heads {line : Text} (h : lineToken line = .libs ∨ lineToken line = .config ∨
    lineToken line = .none) {keys : List Text} (hkeys : keys = ticKeys ∨ ∃ f : Field, keys = f.keys) :
    heads keys line = false := by
  rcases hkeys with rfl | ⟨f, rfl⟩
  · rw [heads_tic]
    rcases h with h | h | h <;> rw [h] <;> rfl
  · rw [heads_field]
    rcases h with h | h | h <;> rw [h] <;> cases f <;> rfl

/-- **One line.** -/
theorem good_line {lines : List Text} {line : Text} {s s' : Loading α} (h : Good pl lines s)
    (hline : load_line pl lib line s = (.ret 0, s')) : Good pl (lines ++ [line]) s' := by
  have hstate : s'.state = 2 ↔ inLibsAfter (lines ++ [line]) = true := by
    rw [inLibsAfter_append]
    exact state_load_line h.state hline
  rcases load_line_cases hline with ⟨hid, -, hplugins, hsame⟩ | ⟨hid, -, hplugins, hsame⟩ |
    ⟨hlibs, hconfig, -, hcase⟩
  · refine h.same [] hplugins hsame hstate (fun keys hkeys => ?_)
    simp [not_heads (Or.inl hid) hkeys]
  · refine h.same [] hplugins hsame hstate (fun keys hkeys => ?_)
    simp [not_heads (Or.inr (Or.inl hid)) hkeys]
  · rcases hcase with ⟨hskip, ⟨cs, hplugins⟩, hsame⟩ | ⟨hout, hplugins, v, hv, hset⟩
    · refine h.same cs hplugins hsame hstate (fun keys hkeys => ?_)
      rcases hskip with hin | hnone
      · simp [h.state.mp hin]
      · simp [not_heads (Or.inr (Or.inr hnone)) hkeys]
    · have hin : inLibsAfter lines = false := by
        by_contra hne
        exact hout (h.state.mpr (by simpa using hne))
      have hinv : Inv pl s'.plugins := by
        rw [hplugins]
        exact h.inv
      rcases hset with ⟨hid, hn, hget⟩ | ⟨hid, p, hp, htic, hassigned⟩
      · refine ⟨hinv, hstate, fun f => ?_, ?_⟩
        · have hno : heads f.keys line = false := by
            rw [heads_field, hid]
            cases f <;> rfl
          rw [lastLine_append, if_neg (by simp [hno])]
          exact (h.field f).run h.inv [] hplugins (hget f)
        · rw [lastLine_append, if_pos ⟨hin, by rw [heads_tic, hid]; rfl⟩]
          exact ⟨v, hv, hn⟩
      · refine ⟨hinv, hstate, fun f => ?_, ?_⟩
        · rw [lastLine_append, heads_field]
          by_cases hf : f.setBy (lineToken line) = true
          · obtain ⟨hset, hhas⟩ := (hassigned f).1 hf
            rw [if_pos ⟨hin, hf⟩]
            exact ⟨v, p, hv, by rw [hplugins]; exact hp, hset, hhas⟩
          · rw [if_neg (by simp [hf])]
            exact (h.field f).run h.inv [] hplugins ((hassigned f).2 (by simpa using hf))
        · rw [lastLine_append, if_neg (by simp [heads_tic, hid])]
          exact h.tic.congr htic

theorem good_lines {lines : List Text} (rest : List Text) {s s' : Loading α} (h : Good pl lines s)
    (hload : load_lines pl lib rest s = (.ret 0, s')) : Good pl (lines ++ rest) s' := by
  induction rest generalizing lines s with
  | nil =>
      obtain ⟨-, rfl⟩ := Prod.mk.inj hload
      rw [List.append_nil]
      exact h
  | cons line rest ih =>
      rw [load_lines] at hload
      split at hload
      · next s₁ hline =>
        have hnext := ih (good_line h hline) hload
        rwa [List.append_assoc, List.singleton_append] at hnext
      · simp at hload
      · simp at hload

theorem good_initial : Good pl [] (⟨Conf.initial, OrdMap.empty, 0, 0⟩ : Loading α) := by
  refine ⟨inv_empty pl, by simp [inLibsAfter], fun f => ?_, rfl⟩
  cases f <;> rfl

/-- A load that returns 0 has read all lines, and the flag is all it adds. -/
theorem good_load_config {lines : List Text} {s : Loading α}
    (h : load_config pl lib (some lines) Conf.initial OrdMap.empty = (.ret 0, s)) :
    Good pl lines s := by
  unfold load_config at h
  rw [if_neg (by simp [Conf.initial])] at h
  dsimp only at h
  split at h
  · next s₁ hlines =>
    obtain ⟨-, rfl⟩ := Prod.mk.inj h
    have hgood := good_lines lines good_initial hlines
    rw [List.nil_append] at hgood
    have hget : ∀ f, ({ s₁.conf with is_loaded := true } : Conf α).get f = s₁.conf.get f := by
      intro f
      cases f <;> rfl
    exact ⟨hgood.inv, hgood.state, fun f => (hgood.field f).run hgood.inv [] rfl (hget f),
      hgood.tic.congr rfl⟩
  · next hnot => exact absurd h (hnot s)

/-- **Configuration.** For every file and every behaviour of the libraries: if
the first call of `load_config` returns 0, every plugin field holds the plugin
named by the last line outside the library sections that starts with a key of the
field, and `nullptr` without such a line; the tic length is the number in the
last line for it, and 0 without one; and every plugin in a field is registered
and has the capability the field asks for. -/
theorem load_config_last (pl : α → Plugin) (lib : Libraries α) (lines : List Text) (s : Loading α)
    (h : load_config pl lib (some lines) Conf.initial OrdMap.empty = (.ret 0, s)) :
    (∀ f : Field,
      (lastLine f.keys lines = none → s.conf.get f = none) ∧
      ∀ line, lastLine f.keys lines = some line → ∃ v p, value line = some v ∧
        get_by_name pl v s.plugins = some p ∧ s.conf.get f = some p) ∧
    ((lastLine ticKeys lines = none → s.conf.tic_length = 0) ∧
      ∀ line, lastLine ticKeys lines = some line → ∃ v, value line = some v ∧
        stoul v = some s.conf.tic_length) ∧
    ∀ f p, s.conf.get f = some p → p ∈ s.plugins.keys ∧ (pl p).has f.type = true := by
  have hgood := good_load_config h
  refine ⟨fun f => ⟨fun hnone => ?_, fun line hlast => ?_⟩, ⟨fun hnone => ?_, fun line hlast => ?_⟩,
    fun f p hp => ?_⟩
  · have hfield := hgood.field f
    rw [hnone] at hfield
    exact hfield
  · have hfield := hgood.field f
    rw [hlast] at hfield
    obtain ⟨v, p, hv, hp, hf, -⟩ := hfield
    exact ⟨v, p, hv, hp, hf⟩
  · have htic := hgood.tic
    rw [hnone] at htic
    exact htic
  · have htic := hgood.tic
    rw [hlast] at htic
    exact htic
  · have hfield := hgood.field f
    cases hlast : lastLine f.keys lines with
    | none =>
        rw [hlast] at hfield
        rw [show s.conf.get f = none from hfield] at hp
        simp at hp
    | some line =>
        rw [hlast] at hfield
        obtain ⟨v, q, -, hq, hf, hhas⟩ := hfield
        have hpq : q = p := Option.some.inj (hf.symm.trans hp)
        rw [← hpq]
        exact ⟨(get_by_name_eq_some hq).1, hhas⟩

/-- One library that registers the plugin `p`, then assignments to two fields. -/
theorem load_config_two_lines :
    let pl : ℕ → Plugin := fun _ => { name := "p".toList, pl_type := 3 }
    let lines := ["[libs]".toList, "p.so".toList, "[config]".toList, "com = p".toList,
      "TIC = 12".toList]
    ∃ s, load_config pl (fun _ _ _ => (0, [.register_plugin 0])) (some lines) Conf.initial
        OrdMap.empty = (.ret 0, s) ∧
      (∃ v p, value "com = p".toList = some v ∧ get_by_name pl v s.plugins = some p ∧
        s.conf.com_actor = some p) ∧
      ∃ v, value "TIC = 12".toList = some v ∧ stoul v = some s.conf.tic_length := by
  intro pl lines
  have hload : load_config pl (fun _ _ _ => (0, [.register_plugin 0])) (some lines) Conf.initial
        OrdMap.empty = (.ret 0, (load_config pl (fun _ _ _ => (0, [.register_plugin 0])) (some lines)
          Conf.initial OrdMap.empty).2) :=
    Prod.ext (by decide +kernel) rfl
  have hlast := load_config_last pl _ lines _ hload
  exact ⟨_, hload, (hlast.1 .com_actor).2 _ (by decide +kernel), hlast.2.1.2 _ (by decide +kernel)⟩

end LauSim.Config
