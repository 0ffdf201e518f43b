-- The law of suppression: a content message that the filter drops is a copy of
-- content that the channel sent or delivered. One filter serves all ids, and
-- the id of a message is taken as it comes, so the law needs content messages
-- that carry their own hash, and ids that no sync or ephemeral message used.
import Lmao.ExactlyOnce

set_option linter.unusedSectionVars false

namespace lmao.sds

open machine MessageChannel

variable {w : Wire}

/-- The content message that a call hands to `receive`. -/
def contentOf (w : Wire) : ChannelOp → Option ContentMessage
  | .receive raw =>
    match w.sds_from_slice raw with
    | some (.Content m) => some m
    | _ => none
  | _ => none

theorem contentOf_receive {w : Wire} {raw : Bytes} {m : ContentMessage} :
    contentOf w (.receive raw) = some m ↔ w.sds_from_slice raw = some (.Content m) := by
  simp only [contentOf]
  rcases w.sds_from_slice raw with _ | (c | s | e)
  · simp
  · simp
  · simp
  · simp

/-- The content that an event brought in or sent out. -/
def Event.content : Event → Option Bytes
  | .sent m => some m.content
  | .delivered m => some m.content
  | .heard _ => none

/-- A content message of the call carries its own hash, and no sync or
ephemeral message used that id. -/
def Honest (w : Wire) (log : List Event) (op : ChannelOp) : Prop :=
  ∀ m ∈ contentOf w op,
    m.message_id = w.compute_message_id m.content ∧ Event.heard m.message_id ∉ log

instance (log : List Event) (op : ChannelOp) : Decidable (Honest w log op) :=
  inferInstanceAs (Decidable (∀ m ∈ contentOf w op, _))

/-- When the call drops a content message as a duplicate, the channel sent or
delivered the same content before. -/
def NotSuppressed {F : Type} [IdFilter F] (w : Wire) (log : List Event) (s : Session w F)
    (op : ChannelOp) : Prop :=
  ∀ m ∈ contentOf w op, check s.channel.bloom m.message_id = true →
    ∃ e ∈ log, e.content = some m.content

instance {F : Type} [IdFilter F] (log : List Event) (s : Session w F) (op : ChannelOp) :
    Decidable (NotSuppressed w log s op) :=
  inferInstanceAs (Decidable (∀ m ∈ contentOf w op, _))

/-! ## The invariant -/

/-- The id of the message is the hash of its content. -/
def Hashed (w : Wire) (m : ContentMessage) : Prop := m.message_id = w.compute_message_id m.content

/-- What the log and the buffer hold carries its own hash. -/
structure Genuine (w : Wire) (log : List Event) (buf : List SdsMessage) : Prop where
  sent : ∀ m, Event.sent m ∈ log → Hashed w m
  delivered : ∀ m, Event.delivered m ∈ log → Hashed w m
  waiting : ∀ m, SdsMessage.Content m ∈ buf → Hashed w m

theorem mem_eventsOf_delivered {msg : SdsMessage} {out : List ContentMessage} {m : ContentMessage}
    (h : Event.delivered m ∈ eventsOf msg out) : m ∈ out := by
  cases msg <;> simpa [eventsOf] using h

theorem not_mem_eventsOf_sent {msg : SdsMessage} {out : List ContentMessage} {m : ContentMessage} :
    Event.sent m ∉ eventsOf msg out := by
  cases msg <;> simp [eventsOf]

theorem Genuine.effect {F : Type} [IdFilter F] {f f' : F} {buf buf' : List SdsMessage}
    {op : ChannelOp} {log ev : List Event} (h : Genuine w log buf) (hop : Honest w log op)
    (heff : Effect w f buf op f' buf' ev) : Genuine w (log ++ ev) buf' := by
  cases heff with
  | quiet _ =>
    rw [List.append_nil]
    exact h
  | @sent _ m _ hm =>
    refine ⟨?_, ?_, h.waiting⟩
    · intro m' hm'
      rcases List.mem_append.mp hm' with hm' | hm'
      · exact h.sent m' hm'
      · rw [List.mem_singleton, Event.sent.injEq] at hm'
        rw [hm']
        exact hm
    · intro m' hm'
      rcases List.mem_append.mp hm' with hm' | hm'
      · exact h.delivered m' hm'
      · simp at hm'
  | @received raw msg _ _ out hmsg _ hrec =>
    -- What comes out or stays was in the buffer, or is the message of the call.
    have hall : ∀ m, m ∈ out ∨ SdsMessage.Content m ∈ buf' → Hashed w m := by
      intro m hm
      rcases hrec.mem hm with hm | rfl
      · exact h.waiting m hm
      · exact (hop m (by simp [contentOf, hmsg])).1
    refine ⟨?_, ?_, ?_⟩
    · intro m hm
      rcases List.mem_append.mp hm with hm | hm
      · exact h.sent m hm
      · exact absurd hm not_mem_eventsOf_sent
    · intro m hm
      rcases List.mem_append.mp hm with hm | hm
      · exact h.delivered m hm
      · exact hall m (Or.inl (mem_eventsOf_delivered hm))
    · intro m hm
      exact hall m (Or.inr hm)

/-! ## The law -/

/-- In every run of honest calls, a content message that the filter drops has
the content of one that the channel sent or delivered before. -/
theorem only_copies_are_suppressed {enc : Finset MessageId → Bytes}
    (dec : Bytes → Option (Finset MessageId)) (w : Wire)
    (hcollision : Function.Injective w.compute_message_id) (channel_id : ChannelId)
    (sender_id : ParticipantId) (config : ChannelConfig) (now_ms : UInt64) (ops : List ChannelOp)
    (hops : Meets (Session.step (exactBlooms dec)) (fun log _ op => Honest w log op)
      (Session.new w (with_config channel_id sender_id config now_ms :
        MessageChannel (IdSet enc))) ops) :
    Meets (Session.step (exactBlooms dec)) (NotSuppressed w)
      (Session.new w (with_config channel_id sender_id config now_ms :
        MessageChannel (IdSet enc))) ops := by
  rintro before op after rfl s log hr m hm hknown
  have hgenuine : Genuine w log s.channel.incoming_buffer := by
    apply run_invariant_of_meets
      (I := fun log (s : Session w (IdSet enc)) => Genuine w log s.channel.incoming_buffer)
      _ _ hops.of_append hr
    · exact ⟨by simp, by simp, by simp [Session.new, with_config]⟩
    · intro log s op s' ev h hop hstep
      exact h.effect hop (Session.step_effect hstep)
  obtain ⟨hhash, hheard⟩ := hops before op after rfl s log hr m hm
  rw [Session.run_bloom hr, check_setAll_idSet] at hknown
  rcases hknown with hknown | hknown
  · obtain ⟨e, he, hid⟩ := List.mem_map.mp hknown
    refine ⟨e, he, ?_⟩
    cases e with
    | sent m' =>
      have hm' : m'.message_id = w.compute_message_id m'.content := hgenuine.sent m' he
      rw [show m'.message_id = m.message_id from hid, hhash] at hm'
      rw [Event.content, hcollision hm']
    | delivered m' =>
      have hm' : m'.message_id = w.compute_message_id m'.content := hgenuine.delivered m' he
      rw [show m'.message_id = m.message_id from hid, hhash] at hm'
      rw [Event.content, hcollision hm']
    | heard id =>
      rw [show id = m.message_id from hid] at he
      exact absurd he hheard
  · rw [check_idSet] at hknown
    exact absurd hknown (Finset.notMem_empty _)

/-! ## Two runs -/

/-- The text "hello" again, as `send_ephemeral` sends it. -/
def Sample.ephemeral_hello : EphemeralMessage :=
  { message_id := Sample.hello_id, channel_id := "lmao-alice", sender_id := "alice"
    causal_history := [], bloom_filter := none, content := utf8 "hello", repair_request := [] }

def Sample.ephemeral_wire : Wire :=
  .ofTable Sample.hashes [.Content Sample.hello, .Ephemeral Sample.ephemeral_hello]

theorem Sample.ephemeral_wire_injective :
    Function.Injective Sample.ephemeral_wire.compute_message_id :=
  Wire.ofTable_injective (by decide +kernel) (by decide +kernel)

abbrev Sample.session_step (s : Session Sample.ephemeral_wire (IdSet fun _ => []))
    (op : ChannelOp) :=
  s.step (exactBlooms fun _ => none) op

theorem a_second_hello_is_a_copy :
    Meets Sample.session_step (fun log _ op => Honest Sample.ephemeral_wire log op)
      (Session.new _ Sample.bob) [.receive (SdsMessage.to_vec (.Content Sample.hello)),
        .receive (SdsMessage.to_vec (.Content Sample.hello))] ∧
    Meets Sample.session_step (NotSuppressed Sample.ephemeral_wire)
      (Session.new _ Sample.bob) [.receive (SdsMessage.to_vec (.Content Sample.hello)),
        .receive (SdsMessage.to_vec (.Content Sample.hello))] := by
  have hops : Meets Sample.session_step (fun log _ op => Honest Sample.ephemeral_wire log op)
      (Session.new _ Sample.bob) [.receive (SdsMessage.to_vec (.Content Sample.hello)),
        .receive (SdsMessage.to_vec (.Content Sample.hello))] := by
    decide +kernel
  exact ⟨hops, only_copies_are_suppressed _ _ Sample.ephemeral_wire_injective _ _ _ _ _ hops⟩

/-- The ephemeral text takes the id of the content message, which is then
dropped although the channel never sent or delivered any content. -/
theorem an_ephemeral_message_suppresses_content :
    Function.Injective Sample.ephemeral_wire.compute_message_id ∧
    Returns (run Sample.session_step (Session.new _ Sample.bob)
      [.receive (SdsMessage.to_vec (.Ephemeral Sample.ephemeral_hello)),
        .receive (SdsMessage.to_vec (.Content Sample.hello))])
      (fun r => r.2 = [.heard Sample.hello_id]) ∧
    ¬ Meets Sample.session_step (NotSuppressed Sample.ephemeral_wire) (Session.new _ Sample.bob)
      [.receive (SdsMessage.to_vec (.Ephemeral Sample.ephemeral_hello)),
        .receive (SdsMessage.to_vec (.Content Sample.hello))] :=
  ⟨Sample.ephemeral_wire_injective, by decide +kernel⟩

end lmao.sds
