-- The data of the agents (core crate): tasks, agent cards, the envelopes on
-- the topics, and their JSON texts.
import Lmao.Crypto
import Lmao.Json

namespace lmao

open crypto

/-! ## Tasks -/

inductive TaskState
  | Submitted
  | Working
  | InputRequired
  | Completed
  | Failed
  | Cancelled
deriving DecidableEq, Repr

inductive Part
  | Text (text : String)
deriving DecidableEq, Repr

structure Message where
  role : String
  parts : List Part
deriving DecidableEq, Repr

/-- `sender` and `recipient` are `from` and `to` of the Rust struct, which are
words of Lean. -/
structure Task where
  id : String
  sender : String
  recipient : String
  state : TaskState
  message : Message
  result : Option Message
  session_id : Option String
  payload_cid : Option String
  payment_tx : Option String
  payment_amount : Option UInt64
deriving DecidableEq, Repr

/-- A task with one text part. The id is a fresh UUID. -/
def Task.new (id sender recipient text : String) : Task :=
  { id, sender, recipient
    state := .Submitted
    message := { role := "user", parts := [.Text text] }
    result := none
    session_id := none
    payload_cid := none
    payment_tx := none
    payment_amount := none }

namespace Task

def new_in_session (id sender recipient text session_id : String) : Task :=
  { Task.new id sender recipient text with session_id := some session_id }

/-- The answer to a task: its id and session, the two ends swapped, and a text
of the agent. The payment is not carried over. -/
def respond_with_state (task : Task) (text : String) (state : TaskState) : Task :=
  { id := task.id
    sender := task.recipient
    recipient := task.sender
    state
    message := task.message
    result := some { role := "agent", parts := [.Text text] }
    session_id := task.session_id
    payload_cid := none
    payment_tx := none
    payment_amount := none }

def respond (task : Task) (text : String) : Task := task.respond_with_state text .Completed

def respond_failed (task : Task) (error_text : String) : Task :=
  task.respond_with_state error_text .Failed

/-- The text of the first part of the request, if it has parts. -/
def text (task : Task) : Option String :=
  (task.message.parts.map fun | .Text text => text).head?

/-- The text of the first part of the result, if there is one. -/
def result_text (task : Task) : Option String :=
  task.result.bind fun m => (m.parts.map fun | .Text text => text).head?

end Task

structure TaskStreamChunk where
  task_id : String
  chunk_index : UInt32
  text : String
  is_final : Bool
deriving DecidableEq, Repr

/-! ## Agents and envelopes -/

structure AgentCard where
  name : String
  description : String
  version : String
  capabilities : List String
  public_key : String
  intro_bundle : Option IntroBundle
deriving DecidableEq, Repr

structure SealedStatus where
  recipient_hint : Bytes
  ephemeral_pub : Bytes
  nonce : Bytes
  ciphertext : Bytes
deriving DecidableEq, Repr

structure PresenceAnnouncement where
  agent_id : String
  name : String
  capabilities : List String
  waku_topic : String
  ttl_secs : UInt64
  sealed_status : List SealedStatus
  signature : Option Bytes
deriving DecidableEq, Repr

inductive A2AEnvelope
  | AgentCard (card : AgentCard)
  | Task (task : Task)
  | Ack (message_id : String)
  | EncryptedTask (encrypted : EncryptedPayload) (sender_pubkey : String)
  | Presence (announcement : PresenceAnnouncement)
  | StreamChunk (chunk : TaskStreamChunk)
deriving DecidableEq, Repr

/-- The content topic where an agent receives tasks. -/
def task_topic (recipient_pubkey : String) : String :=
  "/lmao/1/task-" ++ recipient_pubkey ++ "/proto"

/-! ## JSON -/

def TaskState.to_json : TaskState → json.Text
  | .Submitted => json.str "submitted"
  | .Working => json.str "working"
  | .InputRequired => json.str "input_required"
  | .Completed => json.str "completed"
  | .Failed => json.str "failed"
  | .Cancelled => json.str "cancelled"

def Part.to_json : Part → json.Text
  | .Text text => json.object [("type", json.str "text"), ("text", json.str text)]

def Message.to_json (m : Message) : json.Text :=
  json.object [("role", json.str m.role), ("parts", json.array (m.parts.map Part.to_json))]

def Task.fields (t : Task) : List (String × json.Text) :=
  [("id", json.str t.id), ("from", json.str t.sender), ("to", json.str t.recipient),
    ("state", t.state.to_json), ("message", t.message.to_json)] ++
  json.skip_none "result" Message.to_json t.result ++
  json.skip_none "session_id" json.str t.session_id ++
  json.skip_none "payload_cid" json.str t.payload_cid ++
  json.skip_none "payment_tx" json.str t.payment_tx ++
  json.skip_none "payment_amount" (fun n => json.nat n.toNat) t.payment_amount

/-- `serde_json::to_vec` of a task. -/
def Task.to_vec (t : Task) : Bytes := json.to_vec (json.object t.fields)

def IntroBundle.to_json (b : IntroBundle) : json.Text :=
  json.object [("agent_pubkey", json.str b.agent_pubkey), ("version", json.str b.version)]

def AgentCard.fields (c : AgentCard) : List (String × json.Text) :=
  [("name", json.str c.name), ("description", json.str c.description),
    ("version", json.str c.version), ("capabilities", json.array (c.capabilities.map json.str)),
    ("public_key", json.str c.public_key)] ++
  json.skip_none "intro_bundle" IntroBundle.to_json c.intro_bundle

def EncryptedPayload.to_json (p : EncryptedPayload) : json.Text :=
  json.object [("nonce", json.str p.nonce), ("ciphertext", json.str p.ciphertext)]

def SealedStatus.to_json (s : SealedStatus) : json.Text :=
  json.object [("recipient_hint", json.bytes s.recipient_hint),
    ("ephemeral_pub", json.bytes s.ephemeral_pub), ("nonce", json.bytes s.nonce),
    ("ciphertext", json.bytes s.ciphertext)]

def PresenceAnnouncement.fields (a : PresenceAnnouncement) : List (String × json.Text) :=
  [("agent_id", json.str a.agent_id), ("name", json.str a.name),
    ("capabilities", json.array (a.capabilities.map json.str)),
    ("waku_topic", json.str a.waku_topic), ("ttl_secs", json.nat a.ttl_secs.toNat)] ++
  (if a.sealed_status = [] then []
    else [("sealed_status", json.array (a.sealed_status.map SealedStatus.to_json))]) ++
  json.skip_none "signature" json.bytes a.signature

def TaskStreamChunk.fields (c : TaskStreamChunk) : List (String × json.Text) :=
  [("task_id", json.str c.task_id), ("chunk_index", json.nat c.chunk_index.toNat),
    ("text", json.str c.text), ("is_final", json.bool c.is_final)]

/-- The fields of an envelope, with its variant as the tag `type`. -/
def A2AEnvelope.to_json : A2AEnvelope → json.Text
  | .AgentCard card => json.object (("type", json.str "agent_card") :: card.fields)
  | .Task task => json.object (("type", json.str "task") :: task.fields)
  | .Ack message_id =>
    json.object [("type", json.str "ack"), ("message_id", json.str message_id)]
  | .EncryptedTask encrypted sender_pubkey =>
    json.object [("type", json.str "encrypted_task"),
      ("encrypted", EncryptedPayload.to_json encrypted), ("sender_pubkey", json.str sender_pubkey)]
  | .Presence announcement =>
    json.object (("type", json.str "presence") :: announcement.fields)
  | .StreamChunk chunk => json.object (("type", json.str "stream_chunk") :: chunk.fields)

/-- `serde_json::to_vec` of an envelope. -/
def A2AEnvelope.to_vec (e : A2AEnvelope) : Bytes := json.to_vec e.to_json

end lmao
