-- The node (node crate): what it is made of, and how it sends a task. Calls of
-- the storage, of the chain and of the transport are functions that say what
-- these answer.
import Mathlib.Data.Finset.Basic
import Lmao.Channel
import Lmao.Presence
import Lmao.Task
import Lmao.Trust

namespace lmao.node

open sds crypto
open sds.MessageChannel (AckTransport)

/-! ## Libraries and errors -/

/-- The library calls of a node: those of its channel, the ciphers,
`serde_json::from_slice` for envelopes and for tasks, and `to_lowercase`. -/
structure Libs where
  wire : Wire
  prims : Primitives
  envelope_from_slice : Bytes → Option A2AEnvelope
  task_from_slice : Bytes → Option Task
  to_lowercase : String → String

/-- Readers that know the texts of the given envelopes and tasks and no
other. -/
def Libs.ofTables (wire : Wire) (prims : Primitives) (envelopes : List A2AEnvelope)
    (tasks : List Task) : Libs where
  wire
  prims
  envelope_from_slice raw := envelopes.find? fun e => e.to_vec = raw
  task_from_slice raw := tasks.find? fun t => t.to_vec = raw
  to_lowercase s := s.map Char.toLower

inductive StorageError
  | Http (message : String)
  | Api (status : UInt16) (body : String)
deriving DecidableEq, Repr

def StorageError.display : StorageError → String
  | .Http message => "storage HTTP error: " ++ message
  | .Api status body => "storage API error (" ++ toString status.toNat ++ "): " ++ body

inductive ExecutionError
  | Rpc (message : String)
  | Other (message : String)
deriving DecidableEq, Repr

/-- The text of a JSON error is left out. -/
inductive NodeError
  | Transport (e : TransportError)
  | Crypto (e : CryptoError)
  | Serialization
  | Execution (e : ExecutionError)
  | Other (message : String)
deriving DecidableEq, Repr

/-- How a call ends early: with an `Err`, or with a panic. -/
inductive Stop
  | error (e : NodeError)
  | panic (p : Panic)
deriving DecidableEq, Repr

/-! ## Configuration -/

structure StorageOffloadConfig where
  upload : Bytes → Except StorageError String
  download : String → Except StorageError Bytes
  threshold_bytes : Nat

/-- `recipient` is `to` of the Rust struct. -/
structure TransferDetails where
  sender : String
  recipient : String
  amount : UInt64
  block_number : UInt64
deriving DecidableEq, Repr

/-- `pay` gives the text of the transaction hash. -/
structure PaymentConfig where
  pay : String → UInt64 → Except ExecutionError String
  verify_transfer : String → Except ExecutionError TransferDetails
  required_amount : UInt64
  auto_pay : Bool
  auto_pay_amount : UInt64
  verify_on_chain : Bool
  receiving_account : String

/-! ## Sessions -/

structure ChatSession where
  id : String
  peer : String
  task_ids : List String
  created_at : UInt64
  last_seen : UInt64
deriving DecidableEq, Repr

def MAX_TASK_IDS : Nat := 64

namespace ChatSession

def new (uuid : String) (now : UInt64) (peer : String) : ChatSession :=
  { id := uuid, peer, task_ids := [], created_at := now, last_seen := now }

def push_task (s : ChatSession) (now : UInt64) (task_id : String) : ChatSession :=
  let task_ids :=
    if task_id ∈ s.task_ids then s.task_ids
    else
      let ids := s.task_ids ++ [task_id]
      ids.drop (ids.length - MAX_TASK_IDS)
  { s with task_ids, last_seen := now }

end ChatSession

/-! ## The node -/

/-- The fields that no modelled call reads are left out, and so are the
metrics, which are only ever counted up. -/
structure LmaoNode (L : Libs) (F : Type) where
  card : AgentCard
  channel : MessageChannel F
  identity : Option (AgentIdentity L.prims)
  sessions : AList fun _ : String => ChatSession
  storage_offload : Option StorageOffloadConfig
  payment : Option PaymentConfig
  seen_tx_hashes : Finset String
  peer_map : PeerMap
  /-- A `usize` that wraps. -/
  round_robin_counter : UInt64
  trust_list : TrustList
  max_concurrent : UInt32
  /-- The maximal number of attempts of the retry layer. -/
  retry_config : Option Nat

namespace LmaoNode

variable {L : Libs} {F : Type} [IdFilter F]

/-- The node of `new`, `from_key` and `with_config`, and with an identity that
of `new_encrypted`. -/
def new (public_key name description : String) (capabilities : List String)
    (identity : Option (AgentIdentity L.prims)) (config : ChannelConfig) (now_ms : UInt64) :
    LmaoNode L F :=
  { card := {
      name, description
      version := "0.1.0"
      capabilities, public_key
      intro_bundle := identity.map fun i => IntroBundle.new i.public_key_hex }
    channel := MessageChannel.with_config ("node-" ++ String.ofList (public_key.toList.take 8))
      public_key config now_ms
    identity
    sessions := ∅
    storage_offload := none
    payment := none
    seen_tx_hashes := ∅
    peer_map := .new
    round_robin_counter := 0
    trust_list := .empty
    max_concurrent := 1
    retry_config := none }

def pubkey (node : LmaoNode L F) : String := node.card.public_key

/-! ## Sending a task -/

/-- Encrypt a task if both sides have encryption identities. -/
def maybe_encrypt_task (node : LmaoNode L F) (task : Task) (recipient_card : Option AgentCard)
    (nonce_bytes : Bytes) : Except NodeError A2AEnvelope :=
  match node.identity, recipient_card.bind AgentCard.intro_bundle with
  | some identity, some bundle =>
    match AgentIdentity.parse_public_key bundle.agent_pubkey with
    | .error e => .error (.Crypto e)
    | .ok their_pubkey =>
      match SessionKey.encrypt L.prims (identity.shared_key their_pubkey) nonce_bytes
        task.to_vec with
      | .error e => .error (.Crypto e)
      | .ok encrypted => .ok (.EncryptedTask encrypted identity.public_key_hex)
  | _, _ => .ok (.Task task)

/-- The task that is sent in place of an offloaded one. -/
def slim_task (task : Task) (cid : String) : Task :=
  { task with
    payload_cid := some cid
    message := { role := task.message.role, parts := [] }
    result := task.result.map fun r => { r with parts := [] } }

/-- Serialize a task into an envelope, offloading to storage if needed. The
two nonces are for the two times that the task can be encrypted. -/
def prepare_payload (node : LmaoNode L F) (task : Task) (recipient_card : Option AgentCard)
    (nonces : Bytes × Bytes) : Except NodeError Bytes := do
  let envelope ← node.maybe_encrypt_task task recipient_card nonces.1
  let payload := envelope.to_vec
  match node.storage_offload with
  | none => return payload
  | some offload =>
    if payload.length > offload.threshold_bytes then
      match offload.upload task.to_vec with
      | .error e => .error (.Other ("storage offload upload failed: " ++ e.display))
      | .ok cid =>
        let slim_envelope ← node.maybe_encrypt_task (slim_task task cid) recipient_card nonces.2
        return slim_envelope.to_vec
    else return payload

/-- If auto-pay is enabled, pay and attach the proof to the task. -/
def maybe_auto_pay (node : LmaoNode L F) (task : Task) : Except NodeError Task :=
  match node.payment with
  | none => .ok task
  | some pay_cfg =>
    if pay_cfg.auto_pay ∧ pay_cfg.auto_pay_amount > 0 then
      match pay_cfg.pay task.recipient pay_cfg.auto_pay_amount with
      | .error e => .error (.Execution e)
      | .ok tx_hash =>
        .ok { task with payment_tx := some tx_hash, payment_amount := some pay_cfg.auto_pay_amount }
    else .ok task

/-- `RetryLayer::send_reliable`: `n` attempts are left, and `t` is the
transport of each. With no attempt at all there is no error to report, and
the `unwrap` of it panics. -/
def retry_send_reliable (ch : MessageChannel F) (max_attempts : Nat) (topic : String)
    (payload : Bytes) (t : Nat → AckTransport) :
    Nat → Option TransportError → MessageChannel F × Except Stop (ContentMessage × Bool)
  | 0, none => (ch, .error (.panic .unwrap_none))
  | 0, some e =>
    (ch, .error (.error (.Other
      ("all " ++ toString max_attempts ++ " attempts failed: " ++ e.display))))
  | n + 1, _ =>
    let r := ch.send_reliable L.wire topic payload (t (max_attempts - (n + 1)))
    match r.result with
    | .ok sent => (r.channel, .ok sent)
    | .error e => retry_send_reliable r.channel max_attempts topic payload t n (some e)

/-- Send a task, encrypted if the recipient has an intro bundle. The answer
says whether an ACK came. -/
def send_task_to (node : LmaoNode L F) (task : Task) (recipient_card : Option AgentCard)
    (nonces : Bytes × Bytes) (t : Nat → AckTransport) : LmaoNode L F × Except Stop Bool :=
  match node.maybe_auto_pay task with
  | .error e => (node, .error (.error e))
  | .ok task =>
    match node.prepare_payload task recipient_card nonces with
    | .error e => (node, .error (.error e))
    | .ok payload =>
      let topic := task_topic task.recipient
      match node.retry_config with
      | some max_attempts =>
        let r := retry_send_reliable (L := L) node.channel max_attempts topic payload t
          max_attempts none
        ({ node with channel := r.1 }, r.2.map Prod.snd)
      | none =>
        let r := node.channel.send_reliable L.wire topic payload (t 0)
        match r.result with
        | .ok (_, acked) => ({ node with channel := r.channel }, .ok acked)
        | .error e => ({ node with channel := r.channel }, .error (.error (.Transport e)))

def send_task (node : LmaoNode L F) (task : Task) (nonces : Bytes × Bytes)
    (t : Nat → AckTransport) : LmaoNode L F × Except Stop Bool :=
  node.send_task_to task none nonces t

end LmaoNode

end lmao.node
