-- How a node receives tasks (tasks/poll.rs). The messages that a call drained
-- from the task topic are taken one by one: each goes through the channel, or
-- is a raw envelope, and each payload that comes out is made into a task. An
-- error on the way ends the call, and the channel stays as it is then.
import Lmao.ChannelSpecs
import Lmao.Node

namespace lmao.node

open sds crypto

variable {L : Libs} {F : Type} [IdFilter F]

/-- An `Err` of a call that cannot panic. -/
def Stop.lift {α : Type} : Except NodeError α → Except Stop α
  | .ok a => .ok a
  | .error e => .error (.error e)

namespace LmaoNode

/-! ## From a payload to a task -/

/-- Decrypt an encrypted task payload. -/
def decrypt_task (identity : AgentIdentity L.prims) (sender_pubkey_hex : String)
    (encrypted : EncryptedPayload) : Except Panic (Except NodeError Task) :=
  match AgentIdentity.parse_public_key sender_pubkey_hex with
  | .error e => .ok (.error (.Crypto e))
  | .ok their_pubkey =>
    match SessionKey.decrypt L.prims (identity.shared_key their_pubkey) encrypted with
    | .error p => .error p
    | .ok (.error e) => .ok (.error (.Crypto e))
    | .ok (.ok plaintext) =>
      match L.task_from_slice plaintext with
      | none => .ok (.error .Serialization)
      | some task => .ok (.ok task)

/-- If the task has a `payload_cid`, fetch the full payload from storage. -/
def maybe_fetch_offloaded (node : LmaoNode L F) (task : Task) : Except NodeError (Option Task) :=
  match task.payload_cid, node.storage_offload with
  | some cid, some offload =>
    match offload.download cid with
    | .error e => .error (.Other ("storage fetch by CID failed: " ++ e.display))
    | .ok data =>
      match L.task_from_slice data with
      | none => .error .Serialization
      | some original => .ok (some original)
  | _, _ => .ok (some task)

/-- Extract a task from an envelope, handling decryption and CID fetching. -/
def extract_task_from_envelope (node : LmaoNode L F) : A2AEnvelope → Except Stop (Option Task)
  | .Task task => Stop.lift (node.maybe_fetch_offloaded task)
  | .EncryptedTask encrypted sender_pubkey =>
    match node.identity with
    | none => .ok none
    | some identity =>
      match decrypt_task identity sender_pubkey encrypted with
      | .error p => .error (.panic p)
      | .ok (.error _) => .ok none
      | .ok (.ok task) => Stop.lift (node.maybe_fetch_offloaded task)
  | _ => .ok none

/-- Extract a task from the content of an SDS message. -/
def extract_task (node : LmaoNode L F) (payload : Bytes) : Except Stop (Option Task) :=
  match L.envelope_from_slice payload with
  | some envelope => node.extract_task_from_envelope envelope
  | none => .ok none

/-- Apply the trust list to an incoming task. -/
def accept_or_drop (node : LmaoNode L F) (task : Task) : Bool :=
  node.trust_list.is_trusted task.sender ||
    match node.trust_list.mode with
    | .Off => true
    | .Enforce => false
    | .Log => true

/-! ## One message -/

/-- What a message brings: content that the channel delivered, or a raw
envelope. -/
inductive Arrival
  | content (m : ContentMessage)
  | envelope (e : A2AEnvelope)

/-- The message goes through the channel. When nothing comes out of it, it is
tried as a raw envelope, with the hash of its bytes as its id. -/
def take_message (L : Libs) (B : Build) (ch : MessageChannel F) (msg : Bytes) :
    Except Panic (MessageChannel F × List Arrival) := do
  let (ch, delivered) ← ch.receive B L.wire msg
  if delivered.isEmpty then
    match L.envelope_from_slice msg with
    | none => return (ch, [])
    | some envelope =>
      let dedup_id := L.wire.compute_message_id msg
      if ch.is_duplicate dedup_id then return (ch, [])
      else return ({ ch with bloom := set ch.bloom dedup_id }, [.envelope envelope])
  else return (ch, delivered.map .content)

/-- A text that is no envelope only goes through the channel. -/
theorem take_message_channel {B : Build} {ch : MessageChannel F} {msg : Bytes}
    (h : L.envelope_from_slice msg = none) :
    take_message L B ch msg =
      (ch.receive B L.wire msg).map fun r => (r.1, r.2.map Arrival.content) := by
  unfold take_message
  rcases ch.receive B L.wire msg with p | ⟨ch', delivered⟩
  · rfl
  · cases delivered with
    | nil => simp [bind, Except.bind, pure, Except.pure, Except.map, h]
    | cons m ms => simp [bind, Except.bind, pure, Except.pure, Except.map]

/-- A text that is no SDS message leaves the channel to the envelope. -/
theorem take_message_raw {B : Build} {ch : MessageChannel F} {msg : Bytes}
    (h : L.wire.sds_from_slice msg = none) :
    take_message L B ch msg =
      match L.envelope_from_slice msg with
      | none => .ok (ch, [])
      | some envelope =>
        if check ch.bloom (L.wire.compute_message_id msg) then .ok (ch, [])
        else .ok ({ ch with bloom := set ch.bloom (L.wire.compute_message_id msg) },
          [.envelope envelope]) := by
  have hreceive : ch.receive B L.wire msg = .ok (ch, []) := by
    unfold MessageChannel.receive
    rw [h]
  unfold take_message
  rw [hreceive]
  simp only [bind, Except.bind, List.isEmpty_nil, if_true, MessageChannel.is_duplicate, pure,
    Except.pure]
  rcases L.envelope_from_slice msg with _ | envelope
  · rfl
  · by_cases hdup : check ch.bloom (L.wire.compute_message_id msg) = true
    · simp [hdup]
    · simp [hdup]

theorem take_message_returns (dec : Bytes → Option (Finset MessageId)) (L : Libs)
    (ch : MessageChannel F) (msg : Bytes) :
    ∃ r, take_message L (exactBlooms dec) ch msg = .ok r := by
  obtain ⟨⟨ch', delivered⟩, hr⟩ := receive_exact_returns dec L.wire ch msg
  unfold take_message
  rw [hr]
  simp only [bind, Except.bind, pure, Except.pure]
  split
  · split
    · exact ⟨_, rfl⟩
    · split <;> exact ⟨_, rfl⟩
  · exact ⟨_, rfl⟩

def extract_arrival (node : LmaoNode L F) : Arrival → Except Stop (Option Task)
  | .content m => node.extract_task m.content
  | .envelope e => node.extract_task_from_envelope e

/-- The ACK that goes out before the payload is looked at. -/
def Arrival.acks : Arrival → List MessageId
  | .content m => [m.message_id]
  | .envelope _ => []

/-- The ACKs and the accepted tasks of the arrivals, up to the first error. -/
def take_arrivals (node : LmaoNode L F) : List Arrival → List MessageId × Except Stop (List Task)
  | [] => ([], .ok [])
  | a :: rest =>
    match node.extract_arrival a with
    | .error stop => (a.acks, .error stop)
    | .ok extracted =>
      let r := node.take_arrivals rest
      (a.acks ++ r.1, r.2.map ((extracted.filter node.accept_or_drop).toList ++ ·))

/-- What the loop over the messages leaves. -/
structure Turn (F : Type) where
  channel : MessageChannel F
  acks : List MessageId
  result : Except Stop (List Task)

/-- One turn of the loop. -/
def turn (B : Build) (node : LmaoNode L F) (ch : MessageChannel F) (msg : Bytes) : Turn F :=
  match take_message L B ch msg with
  | .error p => { channel := ch, acks := [], result := .error (.panic p) }
  | .ok (ch, arrivals) =>
    let r := node.take_arrivals arrivals
    { channel := ch, acks := r.1, result := r.2 }

/-- The turn for a text that is no envelope. -/
theorem turn_of_receive {B : Build} {ch : MessageChannel F} (node : LmaoNode L F) {raw : Bytes}
    {r : MessageChannel F × List ContentMessage} (henv : L.envelope_from_slice raw = none)
    (hr : ch.receive B L.wire raw = .ok r) :
    node.turn B ch raw =
      { channel := r.1
        acks := (node.take_arrivals (r.2.map .content)).1
        result := (node.take_arrivals (r.2.map .content)).2 } := by
  unfold turn
  rw [take_message_channel henv, hr]
  rfl

omit [IdFilter F] in
/-- The channel of the node itself is not read on the way from an arrival to a
task. -/
theorem take_arrivals_frame (node : LmaoNode L F) (ch : MessageChannel F)
    (arrivals : List Arrival) :
    ({ node with channel := ch } : LmaoNode L F).take_arrivals arrivals =
      node.take_arrivals arrivals := by
  induction arrivals with
  | nil => rfl
  | cons a rest ih =>
    unfold take_arrivals
    rw [ih]
    cases a with
    | content m => rfl
    | envelope e => cases e <;> rfl

theorem turn_frame (B : Build) (node : LmaoNode L F) (ch ch' : MessageChannel F) (msg : Bytes) :
    ({ node with channel := ch } : LmaoNode L F).turn B ch' msg = node.turn B ch' msg := by
  unfold turn
  simp only [take_arrivals_frame]

/-- The loop. An error ends it, and the messages that are left are lost. -/
def turns (B : Build) (node : LmaoNode L F) : MessageChannel F → List Bytes → Turn F
  | ch, [] => { channel := ch, acks := [], result := .ok [] }
  | ch, msg :: rest =>
    let r := node.turn B ch msg
    match r.result with
    | .error _ => r
    | .ok tasks =>
      let r' := node.turns B r.channel rest
      { channel := r'.channel, acks := r.acks ++ r'.acks, result := r'.result.map (tasks ++ ·) }

theorem turns_cons_ok {B : Build} {node : LmaoNode L F} {ch : MessageChannel F} {msg : Bytes}
    {tasks : List Task} (h : (node.turn B ch msg).result = .ok tasks) (rest : List Bytes) :
    node.turns B ch (msg :: rest) =
      { channel := (node.turns B (node.turn B ch msg).channel rest).channel
        acks := (node.turn B ch msg).acks ++ (node.turns B (node.turn B ch msg).channel rest).acks
        result := (node.turns B (node.turn B ch msg).channel rest).result.map (tasks ++ ·) } := by
  simp only [turns, h]

theorem turns_frame (B : Build) (node : LmaoNode L F) (ch ch' : MessageChannel F)
    (msgs : List Bytes) :
    ({ node with channel := ch } : LmaoNode L F).turns B ch' msgs = node.turns B ch' msgs := by
  induction msgs generalizing ch' with
  | nil => rfl
  | cons msg rest ih =>
    unfold turns
    simp only [turn_frame, ih]

/-! ## Payments and sessions -/

/-- Whether the payment of a task is good, and the transaction hashes that
were seen after it. -/
def verify_payment (node : LmaoNode L F) (seen : Finset String) (task : Task) :
    Finset String × Bool :=
  match node.payment with
  | none => (seen, true)
  | some pay_cfg =>
    if pay_cfg.required_amount = 0 then (seen, true)
    else
      match task.payment_tx with
      | none => (seen, false)
      | some tx_hash =>
        if tx_hash.isEmpty then (seen, false)
        else if tx_hash ∈ seen then (seen, false)
        else if !pay_cfg.verify_on_chain then
          match task.payment_amount with
          | some amount =>
            if amount ≥ pay_cfg.required_amount then (insert tx_hash seen, true) else (seen, false)
          | none => (seen, false)
        else
          match pay_cfg.verify_transfer tx_hash with
          | .error _ => (seen, false)
          | .ok details =>
            if details.amount < pay_cfg.required_amount then (seen, false)
            else if !pay_cfg.receiving_account.isEmpty ∧
                L.to_lowercase details.recipient ≠ L.to_lowercase pay_cfg.receiving_account then
              (seen, false)
            else (insert tx_hash seen, true)

/-- The tasks with a good payment, each verified after the one before it. -/
def verify_payments (node : LmaoNode L F) :
    Finset String → List Task → Finset String × List Task
  | seen, [] => (seen, [])
  | seen, task :: rest =>
    let (seen, good) := node.verify_payment seen task
    let r := node.verify_payments seen rest
    (r.1, if good then task :: r.2 else r.2)

omit [IdFilter F] in
theorem verify_payments_sublist (node : LmaoNode L F) (seen : Finset String) (tasks : List Task) :
    (node.verify_payments seen tasks).2.Sublist tasks := by
  induction tasks generalizing seen with
  | nil => simp [verify_payments]
  | cons task rest ih =>
    unfold verify_payments
    dsimp only
    split
    · exact (ih _).cons_cons task
    · exact (ih _).cons task

/-- Track the tasks in their sessions. `uuid n` is the id of a session that
the `n`-th task opens. -/
def track_sessions (now : UInt64) (uuid : Nat → String) :
    Nat → (AList fun _ : String => ChatSession) → List Task → AList fun _ : String => ChatSession
  | _, sessions, [] => sessions
  | n, sessions, task :: rest =>
    match task.session_id with
    | none => track_sessions now uuid (n + 1) sessions rest
    | some sid =>
      let session := (sessions.lookup sid).getD (ChatSession.new (uuid n) now task.sender)
      track_sessions now uuid (n + 1) (sessions.insert sid (session.push_task now task.id)) rest

/-! ## The call -/

/-- What a call of `poll_tasks` leaves: the node, the ACKs that it published
and its answer. -/
structure Polled (L : Libs) (F : Type) where
  after : LmaoNode L F
  acks : List MessageId
  result : Except Stop (List Task)

/-- Poll for incoming tasks. `rx` is what the subscription to the task topic
gave, or the error of the first subscription. -/
def poll_tasks (B : Build) (node : LmaoNode L F) (rx : Except TransportError (List Bytes))
    (now : UInt64) (uuid : Nat → String) : Polled L F :=
  match rx with
  | .error e => { after := node, acks := [], result := .error (.error (.Transport e)) }
  | .ok raw_messages =>
    let r := node.turns B node.channel raw_messages
    match r.result with
    | .error stop =>
      { after := { node with channel := r.channel }, acks := r.acks, result := .error stop }
    | .ok tasks =>
      let (seen, tasks) := node.verify_payments node.seen_tx_hashes tasks
      { after := { node with
          channel := r.channel
          seen_tx_hashes := seen
          sessions := track_sessions now uuid 0 node.sessions tasks }
        acks := r.acks
        result := .ok tasks }

/-- What the loop leaves is what the call leaves in the channel and on the
network. -/
theorem poll_tasks_turns (B : Build) (node : LmaoNode L F) (msgs : List Bytes) (now : UInt64)
    (uuid : Nat → String) :
    (node.poll_tasks B (.ok msgs) now uuid).after.channel =
      (node.turns B node.channel msgs).channel ∧
    (node.poll_tasks B (.ok msgs) now uuid).acks = (node.turns B node.channel msgs).acks := by
  unfold poll_tasks
  simp only
  split
  · exact ⟨rfl, rfl⟩
  · exact ⟨rfl, rfl⟩

end LmaoNode

/-- A call of `poll_tasks`: what the subscription gives, and what the storage
and the chain answer while it runs. -/
structure PollCall where
  rx : Except TransportError (List Bytes)
  now : UInt64
  uuid : Nat → String
  download : String → Except StorageError Bytes
  verify_transfer : String → Except ExecutionError TransferDetails

/-- The node with the answers of the call. -/
def PollCall.at (call : PollCall) (node : LmaoNode L F) : LmaoNode L F :=
  { node with
    storage_offload := node.storage_offload.map fun o => { o with download := call.download }
    payment := node.payment.map fun c => { c with verify_transfer := call.verify_transfer } }

/-- The call on the node. -/
def PollCall.poll_tasks (B : Build) (call : PollCall) (node : LmaoNode L F) :
    LmaoNode.Polled L F :=
  (call.at node).poll_tasks B call.rx call.now call.uuid

end lmao.node
