-- Repair (sds/channel.rs): how a channel asks for what it misses, and what it
-- sends again when it is asked. Only the outgoing buffer is looked at, and a
-- message of `send_reliable` is never in it.
import Lmao.OutgoingBuffer

set_option linter.unusedSectionVars false

namespace lmao.sds

open machine MessageChannel

variable {F : Type} [IdFilter F] {w : Wire}

namespace MessageChannel

/-! ## Asking and answering -/

/-- A batch ACK is a sync message: the filter in it acknowledges all that was
seen. -/
def send_batch_ack (w : Wire) (ch : MessageChannel F) (topic : String)
    (publish : String → Bytes → Except TransportError Unit) :
    MessageChannel F × Except TransportError SyncMessage :=
  ch.send_sync w topic publish

/-- The entries that the filter does not know. -/
def build_repair_requests (ch : MessageChannel F) (causal_history : List HistoryEntry) :
    List HistoryEntry :=
  causal_history.filter fun entry => !check ch.bloom entry.message_id

/-- There is nothing to ask for exactly when the dependencies are satisfied. -/
theorem build_repair_requests_eq_nil_iff (ch : MessageChannel F)
    (causal_history : List HistoryEntry) :
    ch.build_repair_requests causal_history = [] ↔
      ch.dependencies_satisfied causal_history = true := by
  unfold build_repair_requests dependencies_satisfied
  simp [List.filter_eq_nil_iff, List.all_eq_true]

/-- A sync message that names the missing entries. -/
def send_repair_request (w : Wire) (ch : MessageChannel F) (topic : String)
    (missing : List HistoryEntry) (publish : String → Bytes → Except TransportError Unit) :
    MessageChannel F × Except TransportError SyncMessage :=
  let (ch, ts) := ch.next_timestamp
  let msg : SyncMessage := {
    message_id := w.compute_message_id (to_le_bytes ts)
    channel_id := ch.channel_id
    sender_id := ch.sender_id
    lamport_timestamp := ts
    causal_history := ch.build_causal_history
    bloom_filter := some (IdFilter.to_bytes ch.bloom)
    repair_request := missing }
  match publish topic (SdsMessage.to_vec (.Sync msg)) with
  | .error e => (ch, .error e)
  | .ok () => (ch, .ok msg)

/-- For each request, the first entry of the outgoing buffer with its id. -/
def to_resend (ch : MessageChannel F) (requests : List HistoryEntry) : List ContentMessage :=
  requests.filterMap fun req => ch.outgoing_buffer.find? fun m => m.message_id == req.message_id

/-- The messages that were published, and their number or the first error of the
transport. `publish n` is its answer to the message `n`. -/
def resend (topic : String) (publish : Nat → String → Bytes → Except TransportError Unit) :
    Nat → List ContentMessage → List (String × ContentMessage) × Except TransportError Nat
  | resent, [] => ([], .ok resent)
  | resent, msg :: rest =>
    match publish resent topic (SdsMessage.to_vec (.Content msg)) with
    | .error e => ([], .error e)
    | .ok () =>
      let r := resend topic publish (resent + 1) rest
      ((topic, msg) :: r.1, r.2)

/-- Publish again the messages that a peer is missing. -/
def handle_repair_requests (ch : MessageChannel F) (topic : String)
    (requests : List HistoryEntry)
    (publish : Nat → String → Bytes → Except TransportError Unit) :
    List (String × ContentMessage) × Except TransportError Nat :=
  if requests.isEmpty then ([], .ok 0) else resend topic publish 0 (ch.to_resend requests)

/-- Process a message with the repair requests in it: what was published again,
and the channel with the answer. A transport that fails ends the call before
the message itself is received. -/
def receive_and_repair (B : Build) (w : Wire) (ch : MessageChannel F) (topic : String) (raw : Bytes)
    (publish : Nat → String → Bytes → Except TransportError Unit) :
    List (String × ContentMessage) ×
      Except Panic (MessageChannel F × Except TransportError (List ContentMessage)) :=
  match w.sds_from_slice raw with
  | none => ([], .ok (ch, .ok []))
  | some msg =>
    let r := if msg.repair_requests.isEmpty then ([], .ok 0)
      else ch.handle_repair_requests topic msg.repair_requests publish
    match r.2 with
    | .error e => (r.1, .ok (ch, .error e))
    | .ok _ => (r.1, (ch.receive B w raw).map fun p => (p.1, .ok p.2))

theorem resend_accepted {topic : String}
    {publish : Nat → String → Bytes → Except TransportError Unit}
    (h : ∀ n topic bytes, publish n topic bytes = .ok ()) (resent : Nat)
    (msgs : List ContentMessage) :
    (resend topic publish resent msgs).1 = msgs.map (topic, ·) := by
  induction msgs generalizing resent with
  | nil => rfl
  | cons msg rest ih => simp only [resend, h, ih, List.map_cons]

theorem handle_repair_requests_accepted {topic : String}
    {publish : Nat → String → Bytes → Except TransportError Unit}
    (h : ∀ n topic bytes, publish n topic bytes = .ok ()) (ch : MessageChannel F)
    (requests : List HistoryEntry) :
    (ch.handle_repair_requests topic requests publish).1 =
      (ch.to_resend requests).map (topic, ·) := by
  unfold handle_repair_requests
  split
  · rename_i hempty
    rw [List.isEmpty_iff.mp hempty]
    rfl
  · exact resend_accepted h 0 _

/-! ## What is sent again -/

/-- For each request with the id of the message, this very message is published
again, and no other message with the id. -/
def Resupplies (ch : MessageChannel F) (m : ContentMessage) : Prop :=
  ∀ (topic : String) (requests : List HistoryEntry)
    (publish : Nat → String → Bytes → Except TransportError Unit),
    (∀ n topic bytes, publish n topic bytes = .ok ()) →
    (ch.handle_repair_requests topic requests publish).1.filter
        (fun p => p.2.message_id == m.message_id) =
      List.replicate (requests.countP fun req => req.message_id == m.message_id) (topic, m)

/-- No entry before the message has its id. -/
def Foremost (ch : MessageChannel F) (m : ContentMessage) : Prop :=
  m.message_id ∉ idsOf (ch.outgoing_buffer.takeWhile (· != m))

instance Foremost.decidable (ch : MessageChannel F) (m : ContentMessage) :
    Decidable (ch.Foremost m) :=
  inferInstanceAs (Decidable (_ ∉ _))

theorem find_eq_some_iff (ch : MessageChannel F) (m : ContentMessage) :
    (ch.outgoing_buffer.find? fun m' => m'.message_id == m.message_id) = some m ↔
      m ∈ ch.outgoing_buffer ∧ ch.Foremost m := by
  unfold Foremost
  induction ch.outgoing_buffer with
  | nil => simp
  | cons m' rest ih =>
    by_cases heq : m' = m
    · subst heq
      simp
    · have hmem : m ∈ m' :: rest ↔ m ∈ rest := by
        rw [List.mem_cons, or_iff_right (Ne.symm heq)]
      have htake : (m' :: rest).takeWhile (· != m) = m' :: rest.takeWhile (· != m) := by
        simp [heq]
      rw [hmem, htake, idsOf_cons, List.mem_cons, not_or]
      by_cases hid : m'.message_id = m.message_id
      · simp [hid, heq]
      · rw [List.find?_cons_of_neg (by simpa using hid), ih]
        constructor
        · rintro ⟨h1, h2⟩
          exact ⟨h1, Ne.symm hid, h2⟩
        · rintro ⟨h1, -, h2⟩
          exact ⟨h1, h2⟩

theorem resupplies_iff (ch : MessageChannel F) (m : ContentMessage) :
    ch.Resupplies m ↔ m ∈ ch.outgoing_buffer ∧ ch.Foremost m := by
  rw [← find_eq_some_iff]
  constructor
  · intro h
    -- One request for the message alone.
    have hone := h "" [{ message_id := m.message_id, lamport_timestamp := 0
                         retrieval_hint := none }] (fun _ _ _ => .ok ()) (fun _ _ _ => rfl)
    rw [handle_repair_requests_accepted (fun _ _ _ => rfl)] at hone
    unfold to_resend at hone
    rcases hfind : ch.outgoing_buffer.find? fun m' => m'.message_id == m.message_id with _ | m'
    · simp [hfind] at hone
    · have hid := List.find?_some hfind
      simp only [List.filterMap_cons, hfind, List.filterMap_nil, List.map_cons, List.map_nil,
        List.filter_cons, hid, if_true, List.filter_nil, List.countP_singleton, BEq.rfl] at hone
      rw [hfind, Option.some.injEq]
      simpa using hone
  · intro hfind topic requests publish hok
    rw [handle_repair_requests_accepted hok]
    unfold to_resend
    induction requests with
    | nil => rfl
    | cons req requests ih =>
      rw [List.filterMap_cons, List.countP_cons]
      by_cases hid : req.message_id = m.message_id
      · rw [hid, hfind]
        simp only [List.map_cons, List.filter_cons, BEq.rfl, if_true, ih]
        rfl
      · have hno : (req.message_id == m.message_id) = false := by simpa using hid
        rw [hno]
        rcases hreq : ch.outgoing_buffer.find? fun m' => m'.message_id == req.message_id with
          _ | m'
        · simpa [hreq] using ih
        · have hm' := List.find?_some hreq
          have hother : (m'.message_id == m.message_id) = false := by
            rw [beq_iff_eq] at hm'
            rw [hm']
            exact hno
          simpa [hreq, hother] using ih

/-- A request goes around: what a peer asks for with `send_repair_request` is
what `receive_and_repair` answers. -/
theorem a_repair_request_is_answered {B : Build} {ch peer peer' : MessageChannel F}
    {m : ContentMessage} (hm : ch.Resupplies m) {missing : List HistoryEntry} {msg : SyncMessage}
    {ask : String → Bytes → Except TransportError Unit} {topic : String}
    (hasked : peer.send_repair_request w topic missing ask = (peer', .ok msg))
    (hread : w.sds_from_slice (SdsMessage.to_vec (.Sync msg)) = some (.Sync msg))
    {publish : Nat → String → Bytes → Except TransportError Unit}
    (hok : ∀ n topic bytes, publish n topic bytes = .ok ()) :
    (ch.receive_and_repair B w topic (SdsMessage.to_vec (.Sync msg)) publish).1.filter
        (fun p => p.2.message_id == m.message_id) =
      List.replicate (missing.countP fun req => req.message_id == m.message_id) (topic, m) := by
  have hmissing : msg.repair_request = missing := by
    unfold send_repair_request at hasked
    dsimp only at hasked
    split at hasked
    · cases hasked
    · cases hasked
      rfl
  have hpublished : (ch.receive_and_repair B w topic (SdsMessage.to_vec (.Sync msg)) publish).1 =
      (ch.handle_repair_requests topic missing publish).1 := by
    have hsame : (if missing.isEmpty then ([], .ok 0)
        else ch.handle_repair_requests topic missing publish) =
          ch.handle_repair_requests topic missing publish := by
      split
      · rename_i hempty
        rw [List.isEmpty_iff.mp hempty]
        rfl
      · rfl
    unfold receive_and_repair
    simp only [hread, SdsMessage.repair_requests, hmissing, hsame]
    split <;> rfl
  rw [hpublished]
  exact hm topic missing publish hok

end MessageChannel

/-! ## The law -/

/-- The buffer holds what was pushed and did not leave, and nothing else. -/
structure Stocked (log : List BufferEvent) (s : Session w F) : Prop where
  pushed : ∀ m ∈ s.channel.outgoing_buffer, .pushed m ∈ log
  kept : ∀ m, .pushed m ∈ log → .acked m ∉ log → .evicted m ∉ log →
    m ∈ s.channel.outgoing_buffer

theorem Stocked.step {dec : Bytes → Option (Finset MessageId)} {log : List BufferEvent}
    {s s' : Session w F} {op : ChannelOp} {ev : List BufferEvent} (h : Stocked log s)
    (hs : s.bufferStep (exactBlooms dec) op = .ok (s', ev)) : Stocked (log ++ ev) s' := by
  obtain ⟨-, -, hchange⟩ := Session.bufferStep_change hs
  generalize hbuf : s'.channel.outgoing_buffer = out' at hchange
  generalize s'.channel.possible_acks = acks' at hchange
  -- What the log before the call says of a message that is in it.
  have hold : ∀ m, .pushed m ∈ log → .acked m ∉ log ++ ev → .evicted m ∉ log ++ ev →
      m ∈ s.channel.outgoing_buffer := by
    intro m hm hacked hevicted
    exact h.kept m hm (fun hin => hacked (List.mem_append_left _ hin))
      (fun hin => hevicted (List.mem_append_left _ hin))
  refine ⟨?_, ?_⟩
  · intro m hm
    rw [hbuf] at hm
    rw [List.mem_append]
    cases hchange with
    | quiet hev => exact .inl (h.pushed m hm)
    | push hpush =>
      rcases List.mem_append.mp hm with hkept | hnew
      · refine .inl (h.pushed m ?_)
        rw [← s.channel.oldest_append_kept]
        exact List.mem_append_right _ hkept
      · rw [List.mem_singleton.mp hnew]
        simp
    | check hop hmsg hnew hr => exact .inl (h.pushed m ((retain_unacked_sublist hr).subset hm))
  · intro m hm hacked hevicted
    rw [hbuf]
    rcases List.mem_append.mp hm with hm | hm
    · have hmem := hold m hm hacked hevicted
      cases hchange with
      | quiet hev => exact hmem
      | push hpush =>
        rw [← s.channel.oldest_append_kept] at hmem
        rcases List.mem_append.mp hmem with holdest | hkept
        · exact absurd (List.mem_append_right _ (List.mem_append_left _
            (List.mem_map_of_mem holdest))) hevicted
        · exact List.mem_append_left _ hkept
      | check hop hmsg hnew hr =>
        by_contra hgone
        exact hacked (List.mem_append_right _ (List.mem_cons_of_mem _
          (List.mem_map_of_mem (List.mem_diff_of_mem hmem hgone))))
    · cases hchange with
      | quiet hev =>
        rcases hev _ hm with ⟨m', hm'⟩ | ⟨msg, hmsg⟩
        · cases hm'
        · cases hmsg
      | @push m' hpush =>
        have heq : m = m' := by simpa using hm
        rw [heq]
        simp
      | check hop hmsg hnew hr => simp at hm

/-- In every state that a run reaches, a message that the channel sent, and that
was neither acknowledged nor evicted, is sent again on request exactly when
`send` sent it and no entry before it has its id. -/
theorem a_repair_resupplies_iff (dec : Bytes → Option (Finset MessageId)) (channel_id : ChannelId)
    (sender_id : ParticipantId) (config : ChannelConfig) (now_ms : UInt64)
    (ops : List ChannelOp) :
    Returns (run (Session.bufferStep (exactBlooms dec))
        (.new w (with_config channel_id sender_id config now_ms : MessageChannel F)) ops)
      fun r => ∀ m, (.pushed m ∈ r.2 ∨ .reliable m ∈ r.2) → .acked m ∉ r.2 → .evicted m ∉ r.2 →
        (r.1.channel.Resupplies m ↔ .pushed m ∈ r.2 ∧ r.1.channel.Foremost m) := by
  obtain ⟨⟨s, log⟩, hr⟩ := run_total (Session.bufferStep_returns dec)
    (.new w (with_config channel_id sender_id config now_ms : MessageChannel F)) ops
  refine ⟨(s, log), hr, ?_⟩
  have h0 : Stocked []
      (.new w (with_config channel_id sender_id config now_ms : MessageChannel F)) := by
    refine ⟨?_, by simp⟩
    intro m hm
    cases hm
  have hinv := run_invariant h0 (fun log s op s' ev h hs => h.step hs) hr
  intro m _ hacked hevicted
  rw [resupplies_iff]
  constructor
  · rintro ⟨hmem, hfirst⟩
    exact ⟨hinv.pushed m hmem, hfirst⟩
  · rintro ⟨hpush, hfirst⟩
    exact ⟨hinv.kept m hpush hacked hevicted, hfirst⟩

namespace Sample

def repair_wire : Wire := .ofTable [(utf8 "hello", "01"), (utf8 "world", "02")] []

/-- No ACK comes. -/
def silent : AckTransport :=
  { subscribe := fun _ => .ok (), publish := fun _ _ _ => .ok (), recv := fun _ => none }

/-- "hello" goes out reliably, and "world" after it. -/
def two_sends : List ChannelOp :=
  [.send_reliable "t" (utf8 "hello") silent, .send "t" (utf8 "world") fun _ _ => .ok ()]

def reliable_hello : ContentMessage :=
  { hello with message_id := "01", bloom_filter := some [] }

def plain_world : ContentMessage :=
  { world with
    message_id := "02"
    bloom_filter := some []
    causal_history := [{ message_id := "01", lamport_timestamp := 1, retrieval_hint := none }] }

def repair_session : Session repair_wire (IdSet fun _ => []) :=
  .new repair_wire (with_config "lmao-alice" "alice" .default 0)

end Sample

theorem a_plain_send_is_resupplied :
    Returns (run (Session.bufferStep (exactBlooms fun _ => none)) Sample.repair_session
        Sample.two_sends)
      fun r => r.1.channel.Resupplies Sample.plain_world := by
  have hlog : Returns (run (Session.bufferStep (exactBlooms fun _ => none)) Sample.repair_session
      Sample.two_sends) fun r => .pushed Sample.plain_world ∈ r.2 ∧
        .acked Sample.plain_world ∉ r.2 ∧ .evicted Sample.plain_world ∉ r.2 ∧
        r.1.channel.Foremost Sample.plain_world := by
    decide +kernel
  obtain ⟨r, hr, hpush, hacked, hevicted, hfirst⟩ := hlog
  obtain ⟨r', hr', hlaw⟩ := a_repair_resupplies_iff (F := IdSet fun _ => [])
    (w := Sample.repair_wire) (fun _ => none) "lmao-alice" "alice" .default 0 Sample.two_sends
  have heq : r' = r := Except.ok.inj (hr'.symm.trans hr)
  subst heq
  exact ⟨r', hr, (hlaw _ (.inl hpush) hacked hevicted).mpr ⟨hpush, hfirst⟩⟩

/-- "world" names the reliable message, which cannot be had again. -/
theorem a_reliable_send_is_not_resupplied :
    Returns (run (Session.bufferStep (exactBlooms fun _ => none)) Sample.repair_session
        Sample.two_sends)
      fun r => r.2 = [.reliable Sample.reliable_hello, .pushed Sample.plain_world] ∧
        Sample.reliable_hello.message_id ∈ deps Sample.plain_world ∧
        r.1.channel.handle_repair_requests "t"
          [{ message_id := "01", lamport_timestamp := 1, retrieval_hint := none }]
          (fun _ _ _ => .ok ()) = ([], .ok 0) ∧
        ¬ r.1.channel.Resupplies Sample.reliable_hello := by
  have hlog : Returns (run (Session.bufferStep (exactBlooms fun _ => none)) Sample.repair_session
      Sample.two_sends) fun r =>
        r.2 = [.reliable Sample.reliable_hello, .pushed Sample.plain_world] ∧
        Sample.reliable_hello.message_id ∈ deps Sample.plain_world ∧
        r.1.channel.to_resend
          [{ message_id := "01", lamport_timestamp := 1, retrieval_hint := none }] = [] ∧
        Sample.reliable_hello ∉ r.1.channel.outgoing_buffer := by
    decide +kernel
  obtain ⟨r, hr, heq, hlisted, hnone, hmissing⟩ := hlog
  refine ⟨r, hr, heq, hlisted, ?_, fun h => hmissing ((resupplies_iff _ _).mp h).1⟩
  unfold handle_repair_requests
  rw [hnone]
  rfl

end lmao.sds
