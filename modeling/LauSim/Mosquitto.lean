/-
The MQTT side of the server (`plugins/mosquitto/com_mosquitto.cpp`) and of the
client (`client/src/mqtt.c`): which topics and filters they build, and how a fault
gets through.

The library is assumed to hand topic and payload on unchanged, and to put a NUL
behind the payload. The tests of `is_init` and `con` and the return values of
`publish` are left out: a message is what is published when they pass.

Server and client build their strings separately. The payload is read back
exactly (`on_message_notify_fail`). The topics keep the three channels apart only
for names that are not the two words the server uses itself, and that leave room
for the end of the filter in a buffer of fixed size (`isolated_iff`).
-/
import LauSim.Lib.Topic
import LauSim.Client

set_option autoImplicit false

namespace LauSim.Mosquitto

open CText Topic

/-- A message as it is published. -/
structure Message where
  topic : Text
  payload : Text
  retain : Bool
  deriving DecidableEq, Repr

/-! ## The server -/

/-- `back_topic` of the server, the filter it subscribes to. -/
def back_filter : Text := "envelope/master/#".toList

/-- `ComMosquitto::notify_fail`. -/
def notify_fail (target : Text) (cmp : Option Text) (severity : UInt32) : Message :=
  { topic := "envelope/".toList ++ (target ++
      match cmp with
      | none => []
      | some cmp => '/' :: cmp),
    payload := '0' :: 'x' :: fmtX severity.toNat,
    retain := false }

/-- `ComMosquitto::notify_extern`. -/
def notify_extern (msg : Text) : Message :=
  { topic := "envelope/lausim".toList, payload := msg, retain := false }

/-! ## The client -/

/-- The filter `init` subscribes to: `snprintf` cuts it to the 510 bytes that fit
`sizeof (top_name) - 1` together with the NUL. -/
def top_name (name : Text) : Text := ("envelope/".toList ++ (name ++ "/#".toList)).take 510

/-- `send_back`, with `node_specific_back_topic` as `init` builds it. -/
def send_back (name buf : Text) : Message :=
  { topic := "envelope/master/".toList ++ name, payload := buf, retain := true }

/-- The variables `on_message` of the client writes: `faults` up to `fault_num`, and `rcv`. -/
structure Received where
  faults : List ClientFault
  rcv : Bool
  deriving DecidableEq, Repr

/-- `on_message` of the client. Without a third level `strtok` returns NULL. -/
def on_message (msg : Message) (s : Received) : Received :=
  { faults := s.faults ++ [{ component := (strtoks ['/'] msg.topic)[2]?,
                             severity := (strtoull msg.payload).1.toUInt32 }],
    rcv := true }

/-! ## A fault gets through -/

theorem slash_not_mem_envelope : '/' ∉ "envelope".toList := by decide

theorem slash_not_mem_master : '/' ∉ "master".toList := by decide

theorem notify_fail_topic (target : Text) (cmp : Option Text) (severity : UInt32) :
    (notify_fail target cmp severity).topic = "envelope".toList ++ '/' :: (target ++
      match cmp with
      | none => []
      | some cmp => '/' :: cmp) := rfl

theorem notify_fail_payload (target : Text) (cmp : Option Text) (severity : UInt32) :
    (notify_fail target cmp severity).payload = '0' :: 'x' :: fmtX severity.toNat := rfl

theorem send_back_topic (name buf : Text) :
    (send_back name buf).topic = "envelope".toList ++ '/' :: ("master".toList ++ '/' :: name) := rfl

theorem not_mem_slash {l : Text} (h : '/' ∉ l) : ∀ c ∈ l, c ∉ ['/'] := by
  intro c hc hmem
  rw [List.mem_singleton.mp hmem] at hc
  exact h hc

/-- The levels of a fault: the node, and the component if there is one. -/
theorem strtoks_notify_fail {target : Text} (htarget : target ≠ []) (hslash : '/' ∉ target)
    {cmp : Option Text} (hcmp : ∀ c ∈ cmp, c ≠ [] ∧ '/' ∉ c) (severity : UInt32) :
    strtoks ['/'] (notify_fail target cmp severity).topic
      = "envelope".toList :: target :: cmp.toList := by
  rw [notify_fail_topic, strtoks_append (by simp) (not_mem_slash slash_not_mem_envelope) (by simp)]
  cases cmp with
  | none =>
      rw [List.append_nil, strtoks_of_not_mem htarget (not_mem_slash hslash)]
      rfl
  | some cmp =>
      obtain ⟨hne, hc⟩ := hcmp cmp rfl
      rw [strtoks_append htarget (not_mem_slash hslash) (by simp),
        strtoks_of_not_mem hne (not_mem_slash hc)]
      rfl

/-- **Faults over MQTT.** For every node name and component that is a level, and
every severity: the fault the client appends for the message the server publishes
is the fault the server was given. -/
theorem on_message_notify_fail (target : Text) (htarget : target ≠ [] ∧ '/' ∉ target)
    (cmp : Option Text) (hcmp : ∀ c ∈ cmp, c ≠ [] ∧ '/' ∉ c) (severity : UInt32) (s : Received) :
    (on_message (notify_fail target cmp severity) s).faults
      = s.faults ++ [{ component := cmp, severity := severity }] := by
  have hcomponent : (strtoks ['/'] (notify_fail target cmp severity).topic)[2]? = cmp := by
    rw [strtoks_notify_fail htarget.1 htarget.2 hcmp]
    cases cmp <;> rfl
  have hseverity : (strtoull (notify_fail target cmp severity).payload).1.toUInt32 = severity := by
    have hlt : severity.toNat < 2 ^ 32 := UInt32.toNat_lt severity
    have hread := strtoull_fmtX (show severity.toNat < 2 ^ 64 by omega) stops_nil
    rw [List.append_nil] at hread
    rw [notify_fail_payload, hread]
    apply UInt32.toNat_inj.mp
    simp only [UInt64.toNat_toUInt32, UInt64.toNat_ofNat']
    omega
  simp only [on_message, hcomponent, hseverity]

theorem on_message_notify_fail_net :
    (on_message (notify_fail "n0".toList (some "net".toList) 255) ⟨[], false⟩).faults
      = [{ component := some "net".toList, severity := 255 }] :=
  on_message_notify_fail "n0".toList ⟨by decide, by decide⟩ (some "net".toList)
    (by intro c hc; rw [← Option.mem_some_iff.mp hc]; decide) 255 ⟨[], false⟩

/-! ## Three channels under one prefix -/

/-- A name that can stand as one level of a topic. -/
structure Level (name : Text) : Prop where
  ne_nil : name ≠ []
  slash : '/' ∉ name
  plus : '+' ∉ name
  hash : '#' ∉ name

/-- The channels of the nodes `N` do not mix: the client of a node hears what is
sent to the node and nothing else, and the server hears neither faults nor what it
tells external programs. -/
structure Isolated (N : Set Text) : Prop where
  fail : ∀ A ∈ N, ∀ B ∈ N, ∀ cmp : Option Text, (∀ c ∈ cmp, Level c) → ∀ severity,
    (matchesTopic (top_name B) (notify_fail A cmp severity).topic = true ↔ A = B)
  external : ∀ B ∈ N, ∀ msg, matchesTopic (top_name B) (Message.topic <| notify_extern msg) = false
  back : ∀ A ∈ N, ∀ B ∈ N, ∀ buf, matchesTopic (top_name B) (send_back A buf).topic = false
  server_fail : ∀ A ∈ N, ∀ cmp : Option Text, (∀ c ∈ cmp, Level c) → ∀ severity,
    matchesTopic back_filter (notify_fail A cmp severity).topic = false
  server_external : ∀ msg, matchesTopic back_filter (Message.topic <| notify_extern msg) = false

theorem levels_notify_fail {target : Text} (hslash : '/' ∉ target) {cmp : Option Text}
    (hcmp : ∀ c ∈ cmp, Level c) (severity : UInt32) :
    levels (notify_fail target cmp severity).topic
      = "envelope".toList :: target :: cmp.toList := by
  rw [notify_fail_topic, levels_cons slash_not_mem_envelope]
  cases cmp with
  | none =>
      rw [List.append_nil, levels_of_not_mem hslash]
      rfl
  | some cmp =>
      rw [levels_cons hslash, levels_of_not_mem (hcmp cmp rfl).slash]
      rfl

theorem levels_notify_extern_topic (msg : Text) :
    levels (Message.topic <| notify_extern msg) = ["envelope".toList, "lausim".toList] := by
  have htopic : (Message.topic <| notify_extern msg)
      = "envelope".toList ++ '/' :: "lausim".toList := rfl
  rw [htopic, levels_cons slash_not_mem_envelope, levels_of_not_mem (by decide)]

theorem levels_send_back {name : Text} (hslash : '/' ∉ name) (buf : Text) :
    levels (send_back name buf).topic = ["envelope".toList, "master".toList, name] := by
  rw [send_back_topic, levels_cons slash_not_mem_envelope, levels_cons slash_not_mem_master,
    levels_of_not_mem hslash]

theorem levels_back_filter :
    levels back_filter = ["envelope".toList, "master".toList, ['#']] := by
  rw [show back_filter = "envelope".toList ++ '/' :: ("master".toList ++ '/' :: ['#']) from rfl,
    levels_cons slash_not_mem_envelope, levels_cons slash_not_mem_master,
    levels_of_not_mem (by decide)]

/-- The filter a client means to subscribe to. -/
def nodeFilter (name : Text) : Text := "envelope/".toList ++ (name ++ "/#".toList)

/-- A name that leaves room for the end of the filter. -/
theorem top_name_eq {name : Text} (hlen : name.length ≤ 499) : top_name name = nodeFilter name := by
  rw [top_name, List.take_of_length_le]
  · rfl
  · simp only [List.length_append]
    have h9 : "envelope/".toList.length = 9 := by decide
    have h2 : "/#".toList.length = 2 := by decide
    omega

theorem levels_nodeFilter {name : Text} (hslash : '/' ∉ name) :
    levels (nodeFilter name) = ["envelope".toList, name, ['#']] := by
  rw [show nodeFilter name = "envelope".toList ++ '/' :: (name ++ '/' :: ['#']) from rfl,
    levels_cons slash_not_mem_envelope, levels_cons hslash, levels_of_not_mem (by decide)]

/-- It matches the topics with the name as second level. -/
theorem matches_nodeFilter {B : Text} (hB : Level B) {topic l : Text} {rest : List Text}
    (h : levels topic = "envelope".toList :: l :: rest) :
    matchesTopic (nodeFilter B) topic = decide (B = l) := by
  rw [matchesTopic, levels_nodeFilter hB.slash, h, matchLevels_cons _ _ (by decide) (by decide),
    matchLevels_cons _ _ hB.plus hB.hash, matchLevels_hash]
  simp

theorem matches_top_name {B : Text} (hB : Level B) (hlen : B.length ≤ 499) {topic l : Text}
    {rest : List Text} (h : levels topic = "envelope".toList :: l :: rest) :
    matchesTopic (top_name B) topic = decide (B = l) := by
  rw [top_name_eq hlen]
  exact matches_nodeFilter hB h

theorem matches_back_filter {topic l : Text} {rest : List Text}
    (h : levels topic = "envelope".toList :: l :: rest) :
    matchesTopic back_filter topic = decide ("master".toList = l) := by
  rw [matchesTopic, levels_back_filter, h, matchLevels_cons _ _ (by decide) (by decide),
    matchLevels_cons _ _ (by decide) (by decide), matchLevels_hash]
  simp

/-- A name that leaves no room: the filter has lost its `#`, and misses the
components of the node. -/
theorem not_matches_top_name {B c : Text} (hB : Level B) (hlen : 500 ≤ B.length) (hc : Level c)
    (severity : UInt32) :
    matchesTopic (top_name B) (notify_fail B (some c) severity).topic = false := by
  have hcut : top_name B = "envelope".toList ++ '/' :: (B ++ ['/', '#']).take 501 := by
    rw [top_name, List.take_append, List.take_of_length_le (by decide)]
    rfl
  have htopic : levels (notify_fail B (some c) severity).topic = ["envelope".toList, B, c] := by
    apply levels_notify_fail hB.slash
    intro c' hc'
    rw [← Option.mem_some_iff.mp hc']
    exact hc
  rw [matchesTopic, htopic, hcut, levels_cons slash_not_mem_envelope,
    matchLevels_cons _ _ (by decide) (by decide)]
  rcases Nat.eq_or_lt_of_le hlen with hlen | hlen
  · -- the slash is left, and an empty level behind it
    have htake : (B ++ ['/', '#']).take 501 = B ++ '/' :: [] := by
      rw [List.take_append, List.take_of_length_le (by omega), ← hlen]
      rfl
    have hempty : matchLevels [[]] [c] = false := by
      rw [matchLevels_cons _ _ (by simp) (by simp)]
      simp [hc.ne_nil.symm]
    rw [htake, levels_cons hB.slash, levels_of_not_mem (by simp),
      matchLevels_cons _ _ hB.plus hB.hash, hempty]
    simp
  · -- not even that
    have htake : (B ++ ['/', '#']).take 501 = B.take 501 := List.take_append_of_le_length hlen
    have hsub : ∀ {x : Char}, x ∉ B → x ∉ B.take 501 := fun hx hmem => hx (List.mem_of_mem_take hmem)
    rw [htake, levels_of_not_mem (hsub hB.slash), matchLevels_cons _ _ (hsub hB.plus) (hsub hB.hash),
      matchLevels_nil_cons]
    simp

/-- **The three channels.** For every set of node names that can stand in a topic:
the channels do not mix exactly if no node is called `master` or `lausim` and no
name is longer than 499 bytes. -/
theorem isolated_iff (N : Set Text) (hN : ∀ A ∈ N, Level A) :
    Isolated N ↔
      ∀ A ∈ N, A ≠ "master".toList ∧ A ≠ "lausim".toList ∧ A.length ≤ 499 := by
  constructor
  · intro h A hA
    have hlen : A.length ≤ 499 := by
      by_contra hlong
      have hnet : Level "net".toList := ⟨by decide, by decide, by decide, by decide⟩
      have hmatch := (h.fail A hA A hA (some "net".toList)
        (by intro c hc; rw [← Option.mem_some_iff.mp hc]; exact hnet) 0).mpr rfl
      rw [not_matches_top_name (hN A hA) (by omega) hnet] at hmatch
      simp at hmatch
    refine ⟨?_, ?_, hlen⟩
    · rintro rfl
      have hback := h.back _ hA _ hA []
      rw [matches_top_name (hN _ hA) hlen (levels_send_back (hN _ hA).slash [])] at hback
      simp at hback
    · rintro rfl
      have hext := h.external _ hA []
      rw [matches_top_name (hN _ hA) hlen (levels_notify_extern_topic [])] at hext
      simp at hext
  · intro h
    refine ⟨fun A hA B hB cmp hcmp severity => ?_, fun B hB msg => ?_, fun A hA B hB buf => ?_,
      fun A hA cmp hcmp severity => ?_, fun msg => ?_⟩
    · rw [matches_top_name (hN B hB) (h B hB).2.2 (levels_notify_fail (hN A hA).slash hcmp severity),
        decide_eq_true_iff]
      exact eq_comm
    · rw [matches_top_name (hN B hB) (h B hB).2.2 (levels_notify_extern_topic msg)]
      exact decide_eq_false (h B hB).2.1
    · rw [matches_top_name (hN B hB) (h B hB).2.2 (levels_send_back (hN A hA).slash buf)]
      exact decide_eq_false (h B hB).1
    · rw [matches_back_filter (levels_notify_fail (hN A hA).slash hcmp severity)]
      exact decide_eq_false (h A hA).1.symm
    · rw [matches_back_filter (levels_notify_extern_topic msg)]
      decide

theorem isolated_two_nodes : Isolated {"n0".toList, "n1".toList} := by
  refine (isolated_iff {"n0".toList, "n1".toList} ?_).mpr ?_
  · rintro A (rfl | rfl)
    · exact ⟨by decide, by decide, by decide, by decide⟩
    · exact ⟨by decide, by decide, by decide, by decide⟩
  · rintro A (rfl | rfl)
    · decide
    · decide

/-- A client called `master` hears what every other client reports. -/
theorem not_isolated_master :
    (∀ A ∈ ({"n0".toList, "master".toList} : Set Text), Level A) ∧
      ¬ Isolated {"n0".toList, "master".toList} := by
  constructor
  · rintro A (rfl | rfl)
    · exact ⟨by decide, by decide, by decide, by decide⟩
    · exact ⟨by decide, by decide, by decide, by decide⟩
  · intro h
    have hback := h.back "n0".toList (by simp) "master".toList (by simp) []
    revert hback
    decide

end LauSim.Mosquitto
