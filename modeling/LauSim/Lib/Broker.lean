/-
A publish/subscribe broker with retained messages, as MQTT has it.

The broker knows who is subscribed to what, and for each topic the last message
that was to be retained. It handles one packet at a time: a new subscriber is
handed the retained messages its filter matches, a message goes to whoever is
subscribed at that moment. Packets of one connection are handled in the order
they were sent; the queues are the caller's.

The rules below are those a proof about a system around the broker needs: who is
subscribed after a packet, what can be retained after it, and what is handed out.
-/
import LauSim.Lib.Topic

set_option autoImplicit false

namespace Mqtt

open CText Topic

/-- What a connection sends. -/
inductive Packet where
  | subscribe (filter : Text)
  | publish (topic payload : Text) (retain : Bool)
  deriving DecidableEq, Repr

/-- A message on its way to a connection. -/
structure Handed (κ : Type) where
  who : κ
  topic : Text
  payload : Text
  deriving DecidableEq, Repr

/-- Subscriptions, and the retained messages with at most one for a topic. -/
structure Broker (κ : Type) where
  subs : List (κ × Text)
  retained : List (Text × Text)
  nodup : (retained.map Prod.fst).Nodup

namespace Broker

variable {κ : Type}

def empty : Broker κ := ⟨[], [], List.nodup_nil⟩

/-- The retained message of a topic is replaced; an empty one is only removed. -/
def store (topic payload : Text) (b : Broker κ) : Broker κ where
  subs := b.subs
  retained :=
    if payload = [] then b.retained.filter (fun m => decide (m.1 ≠ topic))
    else (topic, payload) :: b.retained.filter (fun m => decide (m.1 ≠ topic))
  nodup := by
    have hrest : ((b.retained.filter (fun m => decide (m.1 ≠ topic))).map Prod.fst).Nodup :=
      b.nodup.sublist (List.filter_sublist.map _)
    split
    · exact hrest
    · rw [List.map_cons, List.nodup_cons]
      refine ⟨fun hmem => ?_, hrest⟩
      obtain ⟨m, hm, hfst⟩ := List.mem_map.mp hmem
      have hne : m.1 ≠ topic := by simpa using (List.mem_filter.mp hm).2
      exact hne hfst

/-- One packet, and the messages handed out for it. -/
def process (who : κ) (p : Packet) (b : Broker κ) : Broker κ × List (Handed κ) :=
  match p with
  | .subscribe filter =>
    ({ b with subs := (who, filter) :: b.subs },
      (b.retained.filter (fun m => matchesTopic filter m.1)).map (fun m => ⟨who, m.1, m.2⟩))
  | .publish topic payload retain =>
    (if retain then b.store topic payload else b,
      (b.subs.filter (fun e => matchesTopic e.2 topic)).map (fun e => ⟨e.1, topic, payload⟩))

/-- The connection is gone, and its subscriptions with it. -/
def disconnect [DecidableEq κ] (who : κ) (b : Broker κ) : Broker κ :=
  { b with subs := b.subs.filter (fun e => decide (e.1 ≠ who)) }

/-! ## Who is subscribed -/

theorem mem_subs_process {who : κ} {p : Packet} {b : Broker κ} {e : κ × Text} :
    e ∈ (b.process who p).1.subs ↔ e ∈ b.subs ∨ (e.1 = who ∧ p = .subscribe e.2) := by
  cases p with
  | subscribe filter =>
      simp only [process, List.mem_cons, Packet.subscribe.injEq]
      constructor
      · rintro (rfl | h)
        · exact Or.inr ⟨rfl, rfl⟩
        · exact Or.inl h
      · rintro (h | ⟨h₁, h₂⟩)
        · exact Or.inr h
        · exact Or.inl (Prod.ext h₁ h₂.symm)
  | publish topic payload retain =>
      cases retain <;> simp [process, store]

theorem mem_subs_disconnect [DecidableEq κ] {who : κ} {b : Broker κ} {e : κ × Text} :
    e ∈ (b.disconnect who).subs ↔ e ∈ b.subs ∧ e.1 ≠ who := by
  simp [disconnect]

/-! ## What is retained -/

theorem mem_retained_process {who : κ} {p : Packet} {b : Broker κ} {m : Text × Text}
    (h : m ∈ (b.process who p).1.retained) :
    m ∈ b.retained ∨ p = .publish m.1 m.2 true := by
  cases p with
  | subscribe filter => exact Or.inl h
  | publish topic payload retain =>
      cases retain with
      | false => exact Or.inl h
      | true =>
          simp only [process, if_true, store] at h
          split at h
          · exact Or.inl (List.mem_of_mem_filter h)
          · rcases List.mem_cons.mp h with rfl | h
            · exact Or.inr rfl
            · exact Or.inl (List.mem_of_mem_filter h)

/-! ## What is handed out -/

theorem mem_handed_subscribe {who : κ} {filter : Text} {b : Broker κ} {d : Handed κ} :
    d ∈ (b.process who (.subscribe filter)).2 ↔
      d.who = who ∧ (d.topic, d.payload) ∈ b.retained ∧ matchesTopic filter d.topic = true := by
  simp only [process, List.mem_map, List.mem_filter]
  constructor
  · rintro ⟨m, ⟨hm, hmatch⟩, rfl⟩
    exact ⟨rfl, hm, hmatch⟩
  · rintro ⟨rfl, hm, hmatch⟩
    exact ⟨(d.topic, d.payload), ⟨hm, hmatch⟩, rfl⟩

theorem mem_handed_publish {who : κ} {topic payload : Text} {retain : Bool} {b : Broker κ}
    {d : Handed κ} :
    d ∈ (b.process who (.publish topic payload retain)).2 ↔
      d.topic = topic ∧ d.payload = payload ∧
        ∃ filter, (d.who, filter) ∈ b.subs ∧ matchesTopic filter topic = true := by
  simp only [process, List.mem_map, List.mem_filter]
  constructor
  · rintro ⟨e, ⟨he, hmatch⟩, rfl⟩
    exact ⟨rfl, rfl, e.2, he, hmatch⟩
  · rintro ⟨rfl, rfl, filter, he, hmatch⟩
    exact ⟨(d.who, filter), ⟨he, hmatch⟩, rfl⟩

end Broker

end Mqtt
