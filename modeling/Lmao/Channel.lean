-- The SDS message channel (sds/channel.rs). Each method of the Rust code is
-- a function from the channel before the call to the channel after it. What
-- the transport answers is an argument of the call.
import Mathlib.Data.List.AList
import Lmao.Greedy
import Lmao.SdsMessage

namespace lmao.sds

open greedy

def INCOMING_BUFFER_MAX : Nat := 256

def OUTGOING_BUFFER_MAX : Nat := 256

def POSSIBLE_ACKS_MAX : Nat := 1024

inductive TransportError
  | Transport (message : String)
  | Serialization (message : String)
  | Other (message : String)
deriving DecidableEq, Repr

def TransportError.display : TransportError → String
  | .Transport message => message
  | .Serialization message => "serialization error: " ++ message
  | .Other message => message

/-- The timeouts of the Rust struct are left out: time is what the transport
answers. -/
structure ChannelConfig where
  causal_history_size : Nat
  possible_acks_threshold : Nat
  max_retries : Nat
deriving DecidableEq, Repr

def ChannelConfig.default : ChannelConfig :=
  { causal_history_size := 200, possible_acks_threshold := 2, max_retries := 3 }

/-- `causal_history_size * 2`, a product of two `usize`. -/
def ChannelConfig.history_max (config : ChannelConfig) : Nat :=
  config.causal_history_size * 2 % 2 ^ 64

structure MessageChannel (F : Type) where
  channel_id : ChannelId
  sender_id : ParticipantId
  config : ChannelConfig
  lamport_timestamp : UInt64
  bloom : F
  /-- Oldest first. -/
  local_history : List HistoryEntry
  outgoing_buffer : List ContentMessage
  incoming_buffer : List SdsMessage
  possible_acks : AList (fun _ : MessageId => Nat)

namespace MessageChannel

variable {F : Type} [IdFilter F]

def with_config (channel_id : ChannelId) (sender_id : ParticipantId) (config : ChannelConfig)
    (now_ms : UInt64) : MessageChannel F :=
  { channel_id, sender_id, config
    lamport_timestamp := now_ms
    bloom := IdFilter.with_params DEFAULT_CAPACITY
    local_history := []
    outgoing_buffer := []
    incoming_buffer := []
    possible_acks := ∅ }

/-! ## The clock and the history -/

def next_timestamp (ch : MessageChannel F) : MessageChannel F × UInt64 :=
  ({ ch with lamport_timestamp := ch.lamport_timestamp + 1 }, ch.lamport_timestamp + 1)

def update_timestamp (ch : MessageChannel F) (remote_ts : UInt64) : MessageChannel F :=
  { ch with lamport_timestamp := max ch.lamport_timestamp remote_ts + 1 }

/-- The newest entries, newest first. -/
def build_causal_history (ch : MessageChannel F) : List HistoryEntry :=
  ch.local_history.reverse.take ch.config.causal_history_size

def record_in_history (ch : MessageChannel F) (message_id : MessageId)
    (lamport_timestamp : UInt64) : MessageChannel F :=
  let history := ch.local_history ++ [{ message_id, lamport_timestamp, retrieval_hint := none }]
  { ch with local_history := history.drop (history.length - ch.config.history_max) }

/-- `bloom.set` and `record_in_history`, the pair of calls that ends a send
and a delivery. -/
def mark (ch : MessageChannel F) (message_id : MessageId) (lamport_timestamp : UInt64) :
    MessageChannel F :=
  record_in_history { ch with bloom := set ch.bloom message_id } message_id lamport_timestamp

/-! ## Sending -/

/-- The content message that `send` and `send_reliable` build. -/
def content_message (w : Wire) (ch : MessageChannel F) (payload : Bytes) :
    MessageChannel F × ContentMessage :=
  let (ch, ts) := ch.next_timestamp
  (ch, {
    message_id := w.compute_message_id payload
    channel_id := ch.channel_id
    sender_id := ch.sender_id
    lamport_timestamp := ts
    causal_history := ch.build_causal_history
    bloom_filter := some (IdFilter.to_bytes ch.bloom)
    content := payload
    repair_request := [] })

/-- The outgoing buffer with one more message. A full buffer first drops its
oldest one. -/
def push_outgoing (ch : MessageChannel F) (msg : ContentMessage) : MessageChannel F :=
  let out := if ch.outgoing_buffer.length ≥ OUTGOING_BUFFER_MAX then ch.outgoing_buffer.drop 1
    else ch.outgoing_buffer
  { ch with outgoing_buffer := out ++ [msg] }

def send (w : Wire) (ch : MessageChannel F) (topic : String) (payload : Bytes)
    (publish : String → Bytes → Except TransportError Unit) :
    MessageChannel F × Except TransportError ContentMessage :=
  let (ch, msg) := ch.content_message w payload
  match publish topic (SdsMessage.to_vec (.Content msg)) with
  | .error e =>
    (ch, .error (.Transport ("SDS: failed to publish content message: " ++ e.display)))
  | .ok () => ((ch.mark msg.message_id msg.lamport_timestamp).push_outgoing msg, .ok msg)

/-- What the transport does during one `send_reliable`: `recv n` is what the
ACK topic gives within the window of attempt `n`, or nothing. -/
structure AckTransport where
  subscribe : String → Except TransportError Unit
  publish : Nat → String → Bytes → Except TransportError Unit
  recv : Nat → Option Bytes

/-- The attempts from `attempt` on, `n` of them: whether an ACK came, and
the number of copies published. -/
def attempt_loop (w : Wire) (t : AckTransport) (topic : String) (message_id : MessageId)
    (encoded : Bytes) : Nat → Nat → Except TransportError Bool × Nat
  | 0, attempt => (.ok false, attempt)
  | n + 1, attempt =>
    match t.publish attempt topic encoded with
    | .error e => (.error (.Transport ("SDS: publish failed: " ++ e.display)), attempt)
    | .ok () =>
      match t.recv attempt with
      | some ack_data =>
        if w.ack_message_id ack_data = some message_id then (.ok true, attempt + 1)
        else attempt_loop w t topic message_id encoded n (attempt + 1)
      | none => attempt_loop w t topic message_id encoded n (attempt + 1)

/-- What a call of `send_reliable` leaves: `subscribed` says that the ACK
topic is still subscribed. -/
structure Reliable (F : Type) where
  channel : MessageChannel F
  result : Except TransportError (ContentMessage × Bool)
  published : Nat
  subscribed : Bool

def send_reliable (w : Wire) (ch : MessageChannel F) (topic : String) (payload : Bytes)
    (t : AckTransport) : Reliable F :=
  let (ch, msg) := ch.content_message w payload
  let encoded := SdsMessage.to_vec (.Content msg)
  match t.subscribe ("/lmao/1/ack-" ++ msg.message_id ++ "/proto") with
  | .error e => { channel := ch, result := .error e, published := 0, subscribed := false }
  | .ok () =>
    match attempt_loop w t topic msg.message_id encoded (ch.config.max_retries + 1) 0 with
    | (.error e, published) => { channel := ch, result := .error e, published, subscribed := true }
    | (.ok acked, published) =>
      { channel := ch.mark msg.message_id msg.lamport_timestamp
        result := .ok (msg, acked)
        published
        subscribed := false }

def send_sync (w : Wire) (ch : MessageChannel F) (topic : String)
    (publish : String → Bytes → Except TransportError Unit) :
    MessageChannel F × Except TransportError SyncMessage :=
  let (ch, ts) := ch.next_timestamp
  let msg : SyncMessage := {
    message_id := w.compute_message_id (to_le_bytes ts)
    channel_id := ch.channel_id
    sender_id := ch.sender_id
    lamport_timestamp := ts
    causal_history := ch.build_causal_history
    bloom_filter := some (IdFilter.to_bytes ch.bloom)
    repair_request := [] }
  match publish topic (SdsMessage.to_vec (.Sync msg)) with
  | .error e => (ch, .error e)
  | .ok () => (ch, .ok msg)

def send_ephemeral (w : Wire) (ch : MessageChannel F) (topic : String) (payload : Bytes)
    (publish : String → Bytes → Except TransportError Unit) :
    MessageChannel F × Except TransportError EphemeralMessage :=
  let msg : EphemeralMessage := {
    message_id := w.compute_message_id payload
    channel_id := ch.channel_id
    sender_id := ch.sender_id
    causal_history := []
    bloom_filter := none
    content := payload
    repair_request := [] }
  match publish topic (SdsMessage.to_vec (.Ephemeral msg)) with
  | .error e => (ch, .error e)
  | .ok () => (ch, .ok msg)

/-! ## Receiving -/

def is_duplicate (ch : MessageChannel F) (message_id : MessageId) : Bool :=
  check ch.bloom message_id

def dependencies_satisfied (ch : MessageChannel F) (causal_history : List HistoryEntry) : Bool :=
  causal_history.all fun entry => check ch.bloom entry.message_id

/-- The walk of `retain` over the outgoing buffer: the messages that stay,
and the counts of the possible ACKs. -/
def retain_unacked (contains : MessageId → Except Panic Bool) (threshold : Nat) :
    List ContentMessage → AList (fun _ : MessageId => Nat) →
    Except Panic (List ContentMessage × AList (fun _ : MessageId => Nat))
  | [], acks => .ok ([], acks)
  | msg :: rest, acks => do
    if ← contains msg.message_id then
      let count := (acks.lookup msg.message_id).getD 0 + 1
      if count ≥ threshold then
        retain_unacked contains threshold rest (acks.erase msg.message_id)
      else
        let r ← retain_unacked contains threshold rest (acks.insert msg.message_id count)
        return (msg :: r.1, r.2)
    else
      let r ← retain_unacked contains threshold rest acks
      return (msg :: r.1, r.2)

def check_outgoing_acks (B : Build) (ch : MessageChannel F) (remote_bloom_bytes : Bytes) :
    Except Panic (MessageChannel F) :=
  match B.from_bytes remote_bloom_bytes with
  | none => .ok ch
  | some remote_bloom => do
    let (outgoing, acks) ← retain_unacked (B.probably_contains remote_bloom)
      ch.config.possible_acks_threshold ch.outgoing_buffer ch.possible_acks
    let acks := if acks.entries.length > POSSIBLE_ACKS_MAX then ∅ else acks
    return { ch with outgoing_buffer := outgoing, possible_acks := acks }

/-- A buffered message is taken once its dependencies are in the filter. -/
def resolveRule : Rule (MessageChannel F) SdsMessage ContentMessage where
  ready ch
    | .Content content =>
      if ch.dependencies_satisfied content.causal_history then some content else none
    | _ => none
  take ch content := ch.mark content.message_id content.lamport_timestamp

/-- The `while made_progress` loop over the incoming buffer. Each pass but
the last takes a message, so one pass more than there are messages is
enough. -/
def resolve_buffered (ch : MessageChannel F) : MessageChannel F × List ContentMessage :=
  let r := resolveRule.drain (ch.incoming_buffer.length + 1) ch ch.incoming_buffer
  ({ r.1 with incoming_buffer := r.2.2 }, r.2.1)

/-- The incoming buffer with one more message. A full buffer first drops its
oldest one. -/
def park (buf : List SdsMessage) (content : ContentMessage) : List SdsMessage :=
  (if buf.length ≥ INCOMING_BUFFER_MAX then buf.drop 1 else buf) ++ [.Content content]

/-- The `match msg` of `receive`, after the checks. -/
def receive_message (ch : MessageChannel F) : SdsMessage → MessageChannel F × List ContentMessage
  | .Content content =>
    let ch := ch.update_timestamp content.lamport_timestamp
    if ch.dependencies_satisfied content.causal_history then
      let (ch, resolved) :=
        (ch.mark content.message_id content.lamport_timestamp).resolve_buffered
      (ch, content :: resolved)
    else resolve_buffered { ch with incoming_buffer := park ch.incoming_buffer content }
  | .Sync sync =>
    let ch := { ch with bloom := set ch.bloom sync.message_id }
    (ch.update_timestamp sync.lamport_timestamp).resolve_buffered
  | .Ephemeral eph => ({ ch with bloom := set ch.bloom eph.message_id }, [])

/-- The addition in `update_timestamp` overflows on the message. -/
def clock_overflows (ch : MessageChannel F) : SdsMessage → Bool
  | .Content content => (max ch.lamport_timestamp content.lamport_timestamp).toNat + 1 ≥ 2 ^ 64
  | .Sync sync => (max ch.lamport_timestamp sync.lamport_timestamp).toNat + 1 ≥ 2 ^ 64
  | .Ephemeral _ => false

/-- Process an incoming raw message. Returns the delivered content messages. -/
def receive (B : Build) (w : Wire) (ch : MessageChannel F) (raw : Bytes) :
    Except Panic (MessageChannel F × List ContentMessage) :=
  match w.sds_from_slice raw with
  | none => .ok (ch, [])
  | some msg =>
    if check ch.bloom msg.message_id then .ok (ch, [])
    else do
      let ch ← match msg.bloom_filter_bytes with
        | some remote_bloom_bytes => ch.check_outgoing_acks B remote_bloom_bytes
        | none => pure ch
      if B.overflow_checks && ch.clock_overflows msg then .error .add_overflow
      else return ch.receive_message msg

end MessageChannel

end lmao.sds
