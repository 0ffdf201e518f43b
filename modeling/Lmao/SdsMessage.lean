-- The messages of the SDS layer (sds/message.rs): content, sync and
-- ephemeral messages, and the library calls that read and write them.
import Mathlib.Algebra.Group.Nat.Defs
import Lmao.Bloom
import Lmao.Json

namespace lmao.sds

abbrev ChannelId := String

abbrev ParticipantId := String

/-- An entry in the causal history. -/
structure HistoryEntry where
  message_id : MessageId
  lamport_timestamp : UInt64
  retrieval_hint : Option Bytes
deriving DecidableEq, Repr

/-- Carries a payload, with causal ordering. The retrieval hint of the Rust
struct never crosses the wire and is never read, so it is left out. -/
structure ContentMessage where
  message_id : MessageId
  channel_id : ChannelId
  sender_id : ParticipantId
  lamport_timestamp : UInt64
  causal_history : List HistoryEntry
  bloom_filter : Option Bytes
  content : Bytes
  repair_request : List HistoryEntry
deriving DecidableEq, Repr

/-- No payload: carries a bloom filter and a causal history. -/
structure SyncMessage where
  message_id : MessageId
  channel_id : ChannelId
  sender_id : ParticipantId
  lamport_timestamp : UInt64
  causal_history : List HistoryEntry
  bloom_filter : Option Bytes
  repair_request : List HistoryEntry
deriving DecidableEq, Repr

/-- Carries a payload, with no causal ordering. -/
structure EphemeralMessage where
  message_id : MessageId
  channel_id : ChannelId
  sender_id : ParticipantId
  causal_history : List HistoryEntry
  bloom_filter : Option Bytes
  content : Bytes
  repair_request : List HistoryEntry
deriving DecidableEq, Repr

inductive SdsMessage
  | Content (m : ContentMessage)
  | Sync (m : SyncMessage)
  | Ephemeral (m : EphemeralMessage)
deriving DecidableEq, Repr

def SdsMessage.message_id : SdsMessage → MessageId
  | .Content m => m.message_id
  | .Sync m => m.message_id
  | .Ephemeral m => m.message_id

def SdsMessage.sender_id : SdsMessage → ParticipantId
  | .Content m => m.sender_id
  | .Sync m => m.sender_id
  | .Ephemeral m => m.sender_id

def SdsMessage.bloom_filter_bytes : SdsMessage → Option Bytes
  | .Content m => m.bloom_filter
  | .Sync m => m.bloom_filter
  | .Ephemeral m => m.bloom_filter

/-- The entries that the sender asks to be sent again. -/
def SdsMessage.repair_requests : SdsMessage → List HistoryEntry
  | .Content m => m.repair_request
  | .Sync m => m.repair_request
  | .Ephemeral m => m.repair_request

/-- The ids that a message depends on. -/
def deps (m : ContentMessage) : List MessageId := m.causal_history.map (·.message_id)

/-! ## The wire format -/

def HistoryEntry.to_json (e : HistoryEntry) : json.Text :=
  json.object ([
    ("message_id", json.str e.message_id),
    ("lamport_timestamp", json.nat e.lamport_timestamp.toNat)] ++
    json.skip_none "retrieval_hint" json.bytes e.retrieval_hint)

def history_to_json (history : List HistoryEntry) : json.Text :=
  json.array (history.map HistoryEntry.to_json)

/-- The fields of a message, with its variant as the tag `type`. -/
def SdsMessage.to_json : SdsMessage → json.Text
  | .Content m =>
    json.object [
      ("type", json.str "Content"),
      ("message_id", json.str m.message_id),
      ("channel_id", json.str m.channel_id),
      ("sender_id", json.str m.sender_id),
      ("lamport_timestamp", json.nat m.lamport_timestamp.toNat),
      ("causal_history", history_to_json m.causal_history),
      ("bloom_filter", json.option json.bytes m.bloom_filter),
      ("content", json.bytes m.content),
      ("repair_request", history_to_json m.repair_request)]
  | .Sync m =>
    json.object [
      ("type", json.str "Sync"),
      ("message_id", json.str m.message_id),
      ("channel_id", json.str m.channel_id),
      ("sender_id", json.str m.sender_id),
      ("lamport_timestamp", json.nat m.lamport_timestamp.toNat),
      ("causal_history", history_to_json m.causal_history),
      ("bloom_filter", json.option json.bytes m.bloom_filter),
      ("repair_request", history_to_json m.repair_request)]
  | .Ephemeral m =>
    json.object [
      ("type", json.str "Ephemeral"),
      ("message_id", json.str m.message_id),
      ("channel_id", json.str m.channel_id),
      ("sender_id", json.str m.sender_id),
      ("causal_history", history_to_json m.causal_history),
      ("bloom_filter", json.option json.bytes m.bloom_filter),
      ("content", json.bytes m.content),
      ("repair_request", history_to_json m.repair_request)]

/-- `serde_json::to_vec` of a message. -/
def SdsMessage.to_vec (m : SdsMessage) : Bytes := json.to_vec m.to_json

/-- The library calls that a channel reads its input with: SHA-256 with hex,
and `serde_json::from_slice` for SDS messages and for ACKs. -/
structure Wire where
  compute_message_id : Bytes → MessageId
  sds_from_slice : Bytes → Option SdsMessage
  /-- The `message_id` text of a JSON object, if the bytes are one and hold
  one. -/
  ack_message_id : Bytes → Option MessageId

/-- A reader that knows the texts of the given messages and no other, and a
hash that knows the given payloads. -/
def Wire.ofTable (hashes : List (Bytes × MessageId)) (msgs : List SdsMessage) : Wire where
  compute_message_id payload := (hashes.lookup payload).getD ("sha256:" ++ hex_encode payload)
  sds_from_slice raw := msgs.find? fun m => m.to_vec = raw
  ack_message_id _ := none

theorem Wire.ofTable_mem {hashes : List (Bytes × MessageId)} {msgs : List SdsMessage} {raw : Bytes}
    {msg : SdsMessage} (h : (Wire.ofTable hashes msgs).sds_from_slice raw = some msg) :
    msg ∈ msgs :=
  List.mem_of_find?_eq_some h

theorem hex_encode_injective : Function.Injective hex_encode := by
  intro a b h
  have hdecode := congrArg hex_decode h
  rw [hex_decode_encode, hex_decode_encode] at hdecode
  exact Option.some.inj hdecode

/-- A table with one payload for each id, and with no id that starts like the
ids of the payloads outside of it, is collision free. -/
theorem Wire.ofTable_injective {hashes : List (Bytes × MessageId)} {msgs : List SdsMessage}
    (hids : ∀ p ∈ hashes, ∀ q ∈ hashes, p.2 = q.2 → p.1 = q.1)
    (hstart : ∀ p ∈ hashes, p.2.toList.head? ≠ some 's') :
    Function.Injective (Wire.ofTable hashes msgs).compute_message_id := by
  have hother : ∀ x : Bytes, ("sha256:" ++ hex_encode x).toList.head? = some 's' := by
    intro x
    rw [String.toList_append]
    rfl
  have hmem : ∀ {x : Bytes} {id : MessageId}, hashes.lookup x = some id → (x, id) ∈ hashes := by
    intro x id hx
    obtain ⟨l₁, l₂, rfl, -⟩ := List.lookup_eq_some_iff.mp hx
    simp
  intro a b h
  simp only [Wire.ofTable] at h
  rcases ha : hashes.lookup a with _ | ida <;> rcases hb : hashes.lookup b with _ | idb <;>
    simp only [ha, hb, Option.getD_none, Option.getD_some] at h
  · exact hex_encode_injective (String.append_right_inj _ |>.mp h)
  · exact absurd (h ▸ hother a) (hstart _ (hmem hb))
  · exact absurd (h ▸ hother b) (hstart _ (hmem ha))
  · exact hids _ (hmem ha) _ (hmem hb) h

/-- The texts "hello" and "world" with their SHA-256 ids, as content messages
of one sender: `world` depends on `hello`. -/
def Sample.hello_id : MessageId :=
  "2cf24dba5fb0a30e26e83b2ac5b9e29e1b161e5c1fa7425e73043362938b9824"

def Sample.world_id : MessageId :=
  "486ea46224d1bb4fb680f34f7c9ad96a8f24ec88be73ea8e5a6c65260e9cb8a7"

def Sample.hello : ContentMessage :=
  { message_id := hello_id, channel_id := "lmao-alice", sender_id := "alice"
    lamport_timestamp := 1, causal_history := [], bloom_filter := none
    content := utf8 "hello", repair_request := [] }

def Sample.world : ContentMessage :=
  { message_id := world_id, channel_id := "lmao-alice", sender_id := "alice"
    lamport_timestamp := 2, bloom_filter := none
    causal_history := [{ message_id := hello_id, lamport_timestamp := 1, retrieval_hint := none }]
    content := utf8 "world", repair_request := [] }

def Sample.hashes : List (Bytes × MessageId) := [(utf8 "hello", hello_id), (utf8 "world", world_id)]

/-- The little-endian bytes of a timestamp. -/
def to_le_bytes (n : UInt64) : Bytes :=
  (List.range 8).map fun i => UInt8.ofNat (n.toNat / 256 ^ i)

end lmao.sds
