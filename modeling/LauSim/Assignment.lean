/-
How `Config::set_config` of `srv/config.cpp` fails.

A line that is no assignment, or names no plugin, or a plugin without the capability
its field asks for, is refused with -1; a tic length that `std::stoul` cannot read
leaves the function by an exception. Each field is checked before it is set. The key
`com` sets two, by falling through from one case of the `switch` to the next, and the
check of the second comes after the first is set: `set_config_keeps_iff` says when a
refused line has changed something.
-/
import LauSim.Config

set_option autoImplicit false

namespace LauSim.Config

open CText PluginManager

variable {α : Type} [LinearOrder α]

/-! ## One assignment -/

omit [LinearOrder α] in
theorem same_refl (c : Conf α) : Same c c := ⟨rfl, fun _ => rfl⟩

omit [LinearOrder α] in
theorem same_log_fun (ll : LogLevel) (msg : Text) (c : Conf α) : Same c (c.log_fun ll msg) :=
  ⟨rfl, fun f => Conf.get_log_fun ll msg c f⟩

omit [LinearOrder α] in
theorem Same.log_fun {c c' : Conf α} (h : Same c c') (ll : LogLevel) (msg : Text) :
    Same c (c'.log_fun ll msg) :=
  ⟨h.1, fun f => (Conf.get_log_fun ll msg c' f).trans (h.2 f)⟩

omit [LinearOrder α] in
theorem assign_of_has {pl : α → Plugin} {f : Field} {p : α} (c : Conf α)
    (h : (pl p).has f.type = true) : (assign pl f p c).1 = .ret 0 := by
  unfold assign
  rw [if_pos h]

omit [LinearOrder α] in
/-- One field: the check comes before the assignment. -/
theorem assign_of_not_has {pl : α → Plugin} {f : Field} {p : α} (c : Conf α)
    (h : ¬ (pl p).has f.type = true) :
    (assign pl f p c).1 = .ret (-1) ∧ Same c (assign pl f p c).2 := by
  unfold assign
  rw [if_neg h]
  refine ⟨rfl, Same.log_fun ?_ _ _⟩
  split
  · exact same_log_fun _ _ c
  · exact same_refl c

omit [LinearOrder α] in
theorem assign_keeps {pl : α → Plugin} {f : Field} {p : α} {c : Conf α}
    (h : (assign pl f p c).1 = .ret (-1)) : Same c (assign pl f p c).2 := by
  by_cases hhas : (pl p).has f.type = true
  · rw [assign_of_has c hhas] at h
    simp at h
  · exact (assign_of_not_has c hhas).2

omit [LinearOrder α] in
theorem assignAll_com_all_of_has {pl : α → Plugin} {p : α} {c : Conf α}
    (h : (pl p).has PL_COM_ACTOR = true) :
    assignAll pl .com_all p c = assign pl .com_notify p (assign pl .com_actor p c).2 := by
  have hfirst : assign pl .com_actor p c = (.ret 0, (assign pl .com_actor p c).2) :=
    Prod.ext (assign_of_has c h) rfl
  have hnext : ∀ {c₁}, assign pl .com_actor p c = (.ret 0, c₁) →
      assignAll pl .com_all p c = assign pl .com_notify p c₁ := by
    intro c₁ h₁
    rw [assignAll, h₁]
    rfl
  exact hnext hfirst

omit [LinearOrder α] in
/-- What an assignment of two fields does that gets past the first: nothing but the
first field has changed. -/
theorem assignAll_com_all {pl : α → Plugin} {p : α} {c : Conf α}
    (hactor : (pl p).has PL_COM_ACTOR = true) (hnotify : ¬ (pl p).has PL_COM_EXTERN = true) :
    (assignAll pl .com_all p c).1 = .ret (-1) ∧
      (assignAll pl .com_all p c).2.tic_length = c.tic_length ∧
      ∀ f, (assignAll pl .com_all p c).2.get f = if f = .com_actor then some p else c.get f := by
  have hfirst : assign pl .com_actor p c = (.ret 0, (assign pl .com_actor p c).2) :=
    Prod.ext (assign_of_has c hactor) rfl
  obtain ⟨-, htic, hget⟩ := assign_eq_zero hfirst
  obtain ⟨hret, hsame⟩ := assign_of_not_has (f := .com_notify) (assign pl .com_actor p c).2 hnotify
  rw [assignAll_com_all_of_has hactor]
  exact ⟨hret, hsame.1.trans htic, fun f => (hsame.2 f).trans (hget f)⟩

/-- `com = p`, for a plugin `p` that can be the actor and not the listener, and is not
the actor yet. -/
def HalfDone (pl : α → Plugin) (id : TokenId) (rest : List Text) (r : Registry α) (c : Conf α) :
    Prop :=
  id = .com_all ∧ rest.head? = some "=".toList ∧ ∃ v p, rest[1]? = some v ∧
    get_by_name pl v r = some p ∧ (pl p).has PL_COM_ACTOR = true ∧
    ¬ (pl p).has PL_COM_EXTERN = true ∧ c.com_actor ≠ some p

omit [LinearOrder α] in
/-- The `switch`. -/
theorem assignAll_keeps_iff (pl : α → Plugin) (id : TokenId) (p : α) (c : Conf α) :
    ((assignAll pl id p c).1 = .ret (-1) → Same c (assignAll pl id p c).2) ↔
      ¬ (id = .com_all ∧ (pl p).has PL_COM_ACTOR = true ∧ ¬ (pl p).has PL_COM_EXTERN = true ∧
        c.com_actor ≠ some p) := by
  by_cases hid : id = .com_all
  · subst hid
    by_cases hactor : (pl p).has PL_COM_ACTOR = true
    · by_cases hnotify : (pl p).has PL_COM_EXTERN = true
      · -- both checks pass
        refine iff_of_true (fun hret => ?_) (fun h => h.2.2.1 hnotify)
        rw [assignAll_com_all_of_has hactor, assign_of_has (f := .com_notify) _ hnotify] at hret
        exact absurd hret (by decide)
      · obtain ⟨hret, htic, hget⟩ := assignAll_com_all (c := c) hactor hnotify
        constructor
        · rintro h ⟨-, -, -, hne⟩
          have hcom := (h hret).2 .com_actor
          rw [hget, if_pos rfl] at hcom
          exact hne hcom.symm
        · intro h _
          have hcom : c.com_actor = some p := by
            by_contra hne
            exact h ⟨rfl, hactor, hnotify, hne⟩
          refine ⟨htic, fun f => ?_⟩
          rw [hget]
          split
          · next hf =>
            rw [hf]
            exact hcom.symm
          · rfl
    · -- the first check fails
      refine iff_of_true (fun _ => ?_) (fun h => hactor h.2.1)
      obtain ⟨hret, hsame⟩ := assign_of_not_has (f := .com_actor) c hactor
      have hfirst : ∀ {c₁}, assign pl .com_actor p c = (.ret (-1), c₁) →
          assignAll pl .com_all p c = (.ret (-1), c₁) := by
        intro c₁ h₁
        rw [assignAll, h₁]
        rfl
      rw [hfirst (Prod.ext hret rfl)]
      exact hsame
  · refine iff_of_true (fun hret => ?_) (fun h => hid h.1)
    cases id with
    | com_all => exact absurd rfl hid
    | com_actor => exact assign_keeps hret
    | com_notify => exact assign_keeps hret
    | logger => exact assign_keeps hret
    | manager => exact assign_keeps hret
    | config => exact same_refl c
    | libs => exact same_refl c
    | none => exact same_refl c
    | tic => exact same_refl c

/-- **A refused assignment, exactly.** For every configuration, every registry, every key
and every rest of the line: if `set_config` returns -1, all fields are as they were
before, exactly if the line does not assign to `com` a plugin that can be the actor,
cannot be the listener, and is not the actor yet. -/
theorem set_config_keeps_iff (pl : α → Plugin) (id : TokenId) (rest : List Text) (r : Registry α)
    (c : Conf α) :
    ((set_config pl id rest r c).1 = .ret (-1) → Same c (set_config pl id rest r c).2) ↔
      ¬ HalfDone pl id rest r c := by
  unfold set_config HalfDone
  by_cases heq : rest.head? = some "=".toList
  · rw [if_neg (not_not.mpr heq)]
    cases hv : rest[1]? with
    | none => exact iff_of_true (fun _ => same_log_fun _ _ c) (by simp)
    | some v =>
        dsimp only
        by_cases hid : id = .tic
        · -- a number is read, or the call throws
          rw [if_pos hid]
          refine iff_of_true (fun hret => ?_) (fun h => ?_)
          · cases hn : stoul v with
            | none =>
                rw [hn] at hret
                have hthrows : End.throws = .ret (-1) := hret
                exact absurd hthrows (by decide)
            | some n =>
                rw [hn] at hret
                have hzero : End.ret 0 = .ret (-1) := hret
                exact absurd hzero (by decide)
          · rw [hid] at h
            exact absurd h.1 (by decide)
        · rw [if_neg hid]
          cases hp : get_by_name pl v r with
          | none => exact iff_of_true (fun _ => same_log_fun _ _ c) (by simp [hp])
          | some p =>
              dsimp only
              rw [assignAll_keeps_iff, not_iff_not]
              constructor
              · rintro ⟨hall, hcase⟩
                exact ⟨hall, heq, v, p, rfl, hp, hcase⟩
              · rintro ⟨hall, -, v', p', hv', hp', hcase⟩
                rw [← Option.some.inj hv', hp, Option.some_inj] at hp'
                rw [hp']
                exact ⟨hall, hcase⟩
  · rw [if_pos heq]
    exact iff_of_true (fun _ => same_log_fun _ _ c) (fun h => heq h.2.1)

/-- `com = p` for a plugin that is an actor only. -/
theorem not_set_config_keeps_com :
    ¬ ((set_config (fun _ : ℕ => Plugin.mk "p".toList PL_COM_ACTOR) .com_all
          ["=".toList, "p".toList] (OrdMap.empty.emplace 0 PL_NONE) Conf.initial).1 = .ret (-1) →
        Same Conf.initial (set_config (fun _ : ℕ => Plugin.mk "p".toList PL_COM_ACTOR) .com_all
          ["=".toList, "p".toList] (OrdMap.empty.emplace 0 PL_NONE) Conf.initial).2) := by
  intro h
  have hcom := (h (by decide +kernel)).2 .com_actor
  exact absurd hcom (by decide +kernel)

/-! ## How it ends -/

section Ends

variable {pl : α → Plugin}

omit [LinearOrder α] in
theorem assign_ne_throws (pl : α → Plugin) (f : Field) (p : α) (c : Conf α) :
    (assign pl f p c).1 ≠ .throws := by
  by_cases hhas : (pl p).has f.type = true
  · rw [assign_of_has c hhas]
    decide
  · rw [(assign_of_not_has c hhas).1]
    decide

omit [LinearOrder α] in
theorem assignAll_ne_throws (pl : α → Plugin) (id : TokenId) (p : α) (c : Conf α) :
    (assignAll pl id p c).1 ≠ .throws := by
  cases id with
  | com_all =>
      unfold assignAll
      dsimp only
      split
      · exact assign_ne_throws pl .com_notify p _
      · exact assign_ne_throws pl .com_actor p c
  | com_actor => exact assign_ne_throws pl .com_actor p c
  | com_notify => exact assign_ne_throws pl .com_notify p c
  | logger => exact assign_ne_throws pl .logger p c
  | manager => exact assign_ne_throws pl .fault_manager p c
  | config | libs | none | tic => exact End.noConfusion

/-- `tic = v`: a number is read, or the call throws. -/
theorem set_config_tic {rest : List Text} {v : Text} (heq : rest.head? = some "=".toList)
    (hv : rest[1]? = some v) (r : Registry α) (c : Conf α) :
    (set_config pl .tic rest r c).1 = if (stoul v).isSome then .ret 0 else .throws := by
  unfold set_config
  rw [if_neg (not_not.mpr heq), hv]
  dsimp only
  rw [if_pos rfl]
  cases stoul v with
  | none => rfl
  | some n => rfl

theorem set_config_throws {id : TokenId} {rest : List Text} {r : Registry α} {c : Conf α}
    (h : (set_config pl id rest r c).1 = .throws) :
    id = .tic ∧ rest.head? = some "=".toList ∧ ∃ v, rest[1]? = some v ∧ stoul v = none := by
  by_cases heq : rest.head? = some "=".toList
  · cases hv : rest[1]? with
    | none =>
        unfold set_config at h
        rw [if_neg (not_not.mpr heq), hv] at h
        have hret : End.ret (-1) = .throws := h
        exact absurd hret (by decide)
    | some v =>
        by_cases hid : id = .tic
        · subst hid
          rw [set_config_tic heq hv] at h
          refine ⟨rfl, heq, v, rfl, ?_⟩
          cases hn : stoul v with
          | none => rfl
          | some n =>
              rw [hn, Option.isSome_some, if_pos rfl] at h
              exact absurd h (by decide)
        · unfold set_config at h
          rw [if_neg (not_not.mpr heq), hv] at h
          dsimp only at h
          rw [if_neg hid] at h
          cases hp : get_by_name pl v r with
          | none =>
              rw [hp] at h
              have hret : End.ret (-1) = .throws := h
              exact absurd hret (by decide)
          | some p =>
              rw [hp] at h
              exact absurd h (assignAll_ne_throws pl id p c)
  · unfold set_config at h
    rw [if_pos heq] at h
    have hret : End.ret (-1) = .throws := h
    exact absurd hret (by decide)

theorem set_config_equals {id : TokenId} {rest : List Text} {r : Registry α} {c : Conf α}
    (h : (set_config pl id rest r c).1 = .ret 0) : rest.head? = some "=".toList := by
  by_contra hne
  unfold set_config at h
  rw [if_pos hne] at h
  have hret : End.ret (-1) = .ret 0 := h
  exact absurd hret (by decide)

end Ends

end LauSim.Config
