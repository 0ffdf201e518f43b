-- Many nodes that send tasks to each other. Each node has one channel, whose
-- causal history mixes the messages for all recipients, and reads only its own
-- task topic. So a task arrives if the recipient comes to know all that its
-- sender had in its history, and else it waits.
import Mathlib.Data.Finset.Lattice.Lemmas
import Lmao.Poll
import Lmao.ExactlyOnce

set_option linter.unusedSectionVars false
set_option linter.dupNamespace false

namespace lmao.node

open machine sds crypto sds.MessageChannel

variable {L : Libs} {enc : Finset MessageId → Bytes}

/-! ## The machine -/

/-- The nonce of an encryption: 12 bytes. -/
def Nonce : Type := { nonce_bytes : Bytes // nonce_bytes.length = 12 }

/-- What `LmaoNode::new` and its siblings are given. -/
structure Profile (L : Libs) where
  name : String
  description : String
  capabilities : List String
  identity : Option (AgentIdentity L.prims)
  config : ChannelConfig
  now_ms : UInt64

/-- A node, its sends that wait for an ACK, with the recipient of each, the
messages that were published on its task topic, and how many of them it has
read. -/
structure Agent (L : Libs) (enc : Finset MessageId → Bytes) where
  node : LmaoNode L (IdSet enc)
  in_flight : List (String × ContentMessage)
  topic : List ContentMessage
  read : Nat

namespace Agent

def new (public_key : String) (p : Profile L) : Agent L enc :=
  { node := .new public_key p.name p.description p.capabilities p.identity p.config p.now_ms
    in_flight := []
    topic := []
    read := 0 }

def unread (a : Agent L enc) : List ContentMessage := a.topic.drop a.read

/-- The ids of the sends in flight. -/
def flying (a : Agent L enc) : List MessageId := idsOf (a.in_flight.map Prod.snd)

/-- The agent has the id in its filter, or will have it there once its sends
are over and its topic is read. -/
def Knows (a : Agent L enc) (id : MessageId) : Prop :=
  id ∈ a.node.channel.bloom.ids ∨ id ∈ a.flying ∨ id ∈ idsOf a.topic

instance (a : Agent L enc) (id : MessageId) : Decidable (a.Knows id) :=
  inferInstanceAs (Decidable (_ ∨ _))

end Agent

/-- The agents, by their public keys. -/
abbrev World (L : Libs) (enc : Finset MessageId → Bytes) := String → Agent L enc

/-- `start`, `resend` and `finish` are the parts of a call of `send_task_to`: it
prepares the task and publishes its first copy, publishes further copies
while no ACK comes, and ends. Other calls may run in between. `with_card` says
that the call is given the card of the recipient, so that it can encrypt. -/
inductive WorldOp
  | start (sender : String) (task : Task) (with_card : Bool) (nonces : Nonce × Nonce)
  | resend (sender : String) (k : Nat)
  | finish (sender : String) (k : Nat)
  | poll (recipient : String) (now : UInt64) (uuid : Nat → String)

inductive Delivery
  | sent (task : Task)
  | returned (recipient : String) (task : Task)
deriving DecidableEq

namespace World

def new (profiles : String → Profile L) : World L enc := fun p => .new p (profiles p)

def card (w : World L enc) (task : Task) (with_card : Bool) : Option AgentCard :=
  if with_card then some (w task.recipient).node.card else none

/-- The first part of `send_task_to`: the task with its payment, the channel of
the sender and the message. -/
def prepare (w : World L enc) (sender : String) (task : Task) (with_card : Bool)
    (nonces : Nonce × Nonce) : Option (Task × MessageChannel (IdSet enc) × ContentMessage) :=
  match (w sender).node.maybe_auto_pay task with
  | .error _ => none
  | .ok task =>
    match (w sender).node.prepare_payload task (w.card task with_card)
      (nonces.1.1, nonces.2.1) with
    | .error _ => none
    | .ok payload => some (task, (w sender).node.channel.content_message L.wire payload)

def put (w : World L enc) (p : String) (a : Agent L enc) : World L enc := Function.update w p a

def publish (w : World L enc) (recipient : String) (m : ContentMessage) : World L enc :=
  w.put recipient { w recipient with topic := (w recipient).topic ++ [m] }

def step (dec : Bytes → Option (Finset MessageId)) (w : World L enc) :
    WorldOp → Except Panic (World L enc × List Delivery)
  | .start sender task with_card nonces =>
    match w.prepare sender task with_card nonces with
    | none => .ok (w, [])
    | some (task, ch, m) =>
      let w' := w.put sender { w sender with
        node := { (w sender).node with channel := ch }
        in_flight := (w sender).in_flight ++ [(task.recipient, m)] }
      .ok (w'.publish task.recipient m, [.sent task])
  | .resend sender k =>
    match (w sender).in_flight[k]? with
    | none => .ok (w, [])
    | some (recipient, m) => .ok (w.publish recipient m, [])
  | .finish sender k =>
    match (w sender).in_flight[k]? with
    | none => .ok (w, [])
    | some (_, m) =>
      .ok (w.put sender { w sender with
        node := { (w sender).node with
          channel := (w sender).node.channel.mark m.message_id m.lamport_timestamp }
        in_flight := (w sender).in_flight.eraseIdx k }, [])
  | .poll recipient now uuid =>
    let a := w recipient
    let p := a.node.poll_tasks (exactBlooms dec)
      (.ok (a.unread.map fun m => SdsMessage.to_vec (.Content m))) now uuid
    .ok (w.put recipient { a with node := p.after, read := a.topic.length },
      match p.result with
      | .ok tasks => tasks.map (.returned recipient)
      | .error _ => [])

end World

/-- When a recipient has read all of its topic, it has returned every task that
was sent to it. -/
def Complete (w : World L enc) (log : List Delivery) : Prop :=
  ∀ task, Delivery.sent task ∈ log → (w task.recipient).unread = [] →
    Delivery.returned task.recipient task ∈ log

/-! ## The conditions -/

/-- The `serde_json` readers read back the texts that the call writes. -/
def ReadsBack (_ : List Delivery) (w : World L enc) : WorldOp → Prop
  | .start sender task with_card nonces =>
    L.task_from_slice task.to_vec = some task ∧
    (∀ e ∈ ((w sender).node.maybe_encrypt_task task (w.card task with_card) nonces.1.1).toOption,
      L.envelope_from_slice e.to_vec = some e) ∧
    ∀ r ∈ w.prepare sender task with_card nonces,
      L.wire.sds_from_slice (SdsMessage.to_vec (.Content r.2.2)) = some (.Content r.2.2) ∧
      L.envelope_from_slice (SdsMessage.to_vec (.Content r.2.2)) = none
  | _ => True

instance (log : List Delivery) (w : World L enc) (op : WorldOp) :
    Decidable (ReadsBack log w op) := by
  cases op <;> dsimp only [ReadsBack] <;> infer_instance

/-- A send: the recipient knows all ids of the causal history of the sender. A
poll: what the node has not read yet it did not send itself, and depends on
no send of its own that is not over. -/
def Reaches (_ : List Delivery) (w : World L enc) : WorldOp → Prop
  | .start sender task _ _ =>
    ∀ entry ∈ (w sender).node.channel.build_causal_history,
      (w task.recipient).Knows entry.message_id
  | .poll recipient _ _ =>
    ∀ m ∈ (w recipient).unread,
      (m.message_id ∈ (w recipient).node.channel.bloom.ids →
        m.message_id ∈ idsOf ((w recipient).topic.take (w recipient).read)) ∧
      ∀ id ∈ deps m, id ∈ (w recipient).flying → id ∈ (w recipient).node.channel.bloom.ids
  | _ => True

instance (log : List Delivery) (w : World L enc) (op : WorldOp) :
    Decidable (Reaches log w op) := by
  cases op <;> dsimp only [Reaches] <;> infer_instance

/-! ## From a task to its payload and back -/

variable {identity identity' : Option (AgentIdentity L.prims)} {node node' : LmaoNode L (IdSet enc)}

/-- The node neither pays nor filters nor offloads, and its card tells the key
of its identity. -/
structure Settings (identity : Option (AgentIdentity L.prims)) (node : LmaoNode L (IdSet enc)) :
    Prop where
  bundle : node.card.intro_bundle = identity.map fun i => IntroBundle.new i.public_key_hex
  identity : node.identity = identity
  payment : node.payment = none
  storage : node.storage_offload = none
  trust : node.trust_list.mode = .Off

/-- A node with this identity has the task from the payload. -/
inductive Opens (L : Libs) (identity : Option (AgentIdentity L.prims)) (payload : Bytes)
    (task : Task) : Prop
  | plain : L.envelope_from_slice payload = some (.Task task) → Opens L identity payload task
  | encrypted {own : AgentIdentity L.prims} {encrypted : EncryptedPayload}
      {sender_pubkey : String} :
      L.envelope_from_slice payload = some (.EncryptedTask encrypted sender_pubkey) →
      identity = some own → LmaoNode.decrypt_task own sender_pubkey encrypted = .ok (.ok task) →
      Opens L identity payload task

theorem Settings.fetch (h : Settings identity node) (task : Task) :
    node.maybe_fetch_offloaded task = .ok (some task) := by
  unfold LmaoNode.maybe_fetch_offloaded
  rw [h.storage]
  cases task.payload_cid with
  | none => rfl
  | some cid => rfl

theorem Settings.extract (h : Settings identity node) {payload : Bytes} {task : Task}
    (hopens : Opens L identity payload task) : node.extract_task payload = .ok (some task) := by
  unfold LmaoNode.extract_task
  cases hopens with
  | plain henv =>
    rw [henv]
    simp only [LmaoNode.extract_task_from_envelope, h.fetch, Stop.lift]
  | encrypted henv hown hdec =>
    rw [henv]
    simp only [LmaoNode.extract_task_from_envelope, h.identity, hown, hdec, h.fetch, Stop.lift]

theorem Settings.accepts (h : Settings identity node) (task : Task) :
    node.accept_or_drop task = true := by
  simp [LmaoNode.accept_or_drop, TrustList.is_trusted, h.trust]

theorem Settings.verify (h : Settings identity node) (seen : Finset String) (tasks : List Task) :
    node.verify_payments seen tasks = (seen, tasks) := by
  induction tasks with
  | nil => rfl
  | cons task tasks ih => simp [LmaoNode.verify_payments, LmaoNode.verify_payment, h.payment, ih]

theorem Settings.auto_pay (h : Settings identity node) (task : Task) :
    node.maybe_auto_pay task = .ok task := by
  simp [LmaoNode.maybe_auto_pay, h.payment]

theorem Settings.payload (h : Settings identity node) {task : Task} {card : Option AgentCard}
    {nonces : Bytes × Bytes} {payload : Bytes}
    (hp : node.prepare_payload task card nonces = .ok payload) :
    ∃ e, node.maybe_encrypt_task task card nonces.1 = .ok e ∧ payload = e.to_vec := by
  unfold LmaoNode.prepare_payload at hp
  rcases he : node.maybe_encrypt_task task card nonces.1 with err | e
  · simp [he, bind, Except.bind] at hp
  · simp only [he, h.storage, bind, Except.bind, pure, Except.pure, Except.ok.injEq] at hp
    exact ⟨e, rfl, hp.symm⟩

/-- What a node encrypts with the key of another, or does not encrypt, the
other opens. -/
theorem opens_of_matching {F : Type} (hlaw : L.prims.Lawful) {sender : LmaoNode L F}
    {task : Task} {card : Option AgentCard}
    (hkeys : ∀ own bundle, sender.identity = some own →
      card.bind AgentCard.intro_bundle = some bundle → ∃ theirs, identity' = some theirs ∧
        AgentIdentity.parse_public_key bundle.agent_pubkey = .ok theirs.public_key)
    {nonce : Bytes} (hnonce : nonce.length = 12) {e : A2AEnvelope}
    (he : sender.maybe_encrypt_task task card nonce = .ok e)
    (henv : L.envelope_from_slice e.to_vec = some e)
    (htask : L.task_from_slice task.to_vec = some task) : Opens L identity' e.to_vec task := by
  unfold LmaoNode.maybe_encrypt_task at he
  split at he
  · rename_i own bundle hown hbundle
    obtain ⟨theirs, htheirs, hparse⟩ := hkeys own bundle hown hbundle
    simp only [hparse] at he
    split at he
    · cases he
    · rename_i payload hseal
      cases he
      refine .encrypted henv htheirs ?_
      have hopen := decrypt_encrypt hlaw own theirs hnonce hseal
      simp only [LmaoNode.decrypt_task, parse_public_key_hex hlaw, hopen, htask]
  · cases he
    exact .plain henv

/-- What a node prepares for another, with or without the card of the other,
the other opens. -/
theorem opens_of_encrypt (hlaw : L.prims.Lawful) (hr : Settings identity' node') {task : Task}
    {card : Option AgentCard} (hcard : card = none ∨ card = some node'.card) {nonce : Nonce}
    {e : A2AEnvelope}
    (he : node.maybe_encrypt_task task card nonce.1 = .ok e)
    (henv : L.envelope_from_slice e.to_vec = some e)
    (htask : L.task_from_slice task.to_vec = some task) : Opens L identity' e.to_vec task := by
  refine opens_of_matching hlaw ?_ nonce.2 he henv htask
  intro own bundle _ hbundle
  rcases hcard with rfl | rfl
  · cases hbundle
  · rw [Option.bind_some, hr.bundle] at hbundle
    obtain ⟨theirs, rfl, rfl⟩ := Option.map_eq_some_iff.mp hbundle
    exact ⟨theirs, rfl, parse_public_key_hex hlaw theirs⟩

/-! ## Reading a topic -/

/-- A published message: its id is its hash, its text is read back, and the
recipient has a task from it. -/
structure Wellsent (L : Libs) (identity : Option (AgentIdentity L.prims)) (m : ContentMessage) :
    Prop where
  hashed : m.message_id = L.wire.compute_message_id m.content
  reads : L.wire.sds_from_slice (SdsMessage.to_vec (.Content m)) = some (.Content m)
  no_envelope : L.envelope_from_slice (SdsMessage.to_vec (.Content m)) = none
  opens : ∃ task, Opens L identity m.content task

/-- Each message finds its dependencies in `K` or among the messages before
it. -/
def InOrder (K : Set MessageId) : List ContentMessage → Prop
  | [] => True
  | m :: rest => (∀ id ∈ deps m, id ∈ K) ∧ InOrder (insert m.message_id K) rest

theorem InOrder.mono {K K' : Set MessageId} {ms : List ContentMessage} (h : InOrder K ms)
    (hsub : ∀ m ∈ ms, ∀ id ∈ deps m, id ∈ K → id ∈ K') : InOrder K' ms := by
  induction ms generalizing K K' with
  | nil => trivial
  | cons m rest ih =>
    refine ⟨fun id hid => hsub m (by simp) id hid (h.1 id hid), ih h.2 ?_⟩
    intro x hx id hid hmem
    rcases Set.mem_insert_iff.mp hmem with rfl | hmem
    · exact Set.mem_insert _ _
    · exact Set.mem_insert_of_mem _ (hsub x (List.mem_cons_of_mem m hx) id hid hmem)

theorem InOrder.snoc {K : Set MessageId} {ms : List ContentMessage} (h : InOrder K ms)
    {m : ContentMessage} (hm : ∀ id ∈ deps m, id ∈ K ∨ id ∈ idsOf ms) : InOrder K (ms ++ [m]) := by
  induction ms generalizing K with
  | nil => exact ⟨fun id hid => by simpa using hm id hid, trivial⟩
  | cons x rest ih =>
    refine ⟨h.1, ih h.2 ?_⟩
    intro id hid
    rcases hm id hid with hmem | hmem
    · exact Or.inl (Set.mem_insert_of_mem _ hmem)
    · rcases List.mem_cons.mp hmem with rfl | hmem
      · exact Or.inl (Set.mem_insert _ _)
      · exact Or.inr hmem

section Reading

variable (dec : Bytes → Option (Finset MessageId)) {ch : MessageChannel (IdSet enc)}
  {m : ContentMessage}

theorem turn_known (node : LmaoNode L (IdSet enc)) (hm : Wellsent L identity m)
    (hknown : m.message_id ∈ ch.bloom.ids) :
    node.turn (exactBlooms dec) ch (SdsMessage.to_vec (.Content m)) =
      { channel := ch, acks := [], result := .ok [] } := by
  have hcheck : check ch.bloom (SdsMessage.Content m).message_id = true :=
    (check_idSet _ _).mpr hknown
  have hr :
      ch.receive (exactBlooms dec) L.wire (SdsMessage.to_vec (.Content m)) = .ok (ch, []) := by
    unfold receive
    simp only [hm.reads, hcheck, if_true]
  rw [LmaoNode.turn_of_receive node hm.no_envelope hr]
  rfl

/-- With nothing in the buffer, a new message that has its dependencies gives
its task. -/
theorem turn_new (hset : Settings identity node) (hm : Wellsent L identity m)
    (hbuf : ch.incoming_buffer = []) (hnew : m.message_id ∉ ch.bloom.ids)
    (hdeps : ∀ id ∈ deps m, id ∈ ch.bloom.ids) {task : Task}
    (hopens : Opens L identity m.content task) :
    ∃ ch', (node.turn (exactBlooms dec) ch (SdsMessage.to_vec (.Content m))).channel = ch' ∧
      (node.turn (exactBlooms dec) ch (SdsMessage.to_vec (.Content m))).result = .ok [task] ∧
      ch'.bloom.ids = insert m.message_id ch.bloom.ids ∧ ch'.incoming_buffer = [] := by
  obtain ⟨⟨ch', out⟩, hr⟩ := receive_exact_returns dec L.wire ch (SdsMessage.to_vec (.Content m))
  rw [LmaoNode.turn_of_receive node hm.no_envelope hr]
  refine ⟨ch', rfl, ?_⟩
  rcases receive_received hr with ⟨-, -, hdrop⟩ | ⟨msg, hmsg, -, hrec⟩
  · exact absurd ((check_idSet _ _).mp (hdrop _ hm.reads)) hnew
  · rw [hm.reads, Option.some.injEq] at hmsg
    subst hmsg
    rw [hbuf] at hrec
    obtain ⟨hout, hbuf', hbloom⟩ := hrec.alone fun id hid => (check_idSet _ _).mpr (hdeps id hid)
    refine ⟨?_, by rw [hbloom, set_idSet], hbuf'⟩
    simp only [hout, List.map_cons, List.map_nil, LmaoNode.take_arrivals, LmaoNode.extract_arrival,
      hset.extract hopens, Except.map, Option.filter, hset.accepts, if_true, Option.toList,
      List.append_nil]

/-- A node that reads messages in order knows them all afterwards, and each one
that it did not know before gives its task. -/
theorem turns_in_order (hset : Settings identity node)
    (hinj : Function.Injective L.wire.compute_message_id) (ms : List ContentMessage)
    (hms : ∀ m ∈ ms, Wellsent L identity m) (hbuf : ch.incoming_buffer = [])
    (horder : InOrder ch.bloom.ids ms) :
    ∃ tasks ch', (node.turns (exactBlooms dec) ch
        (ms.map fun m => SdsMessage.to_vec (.Content m))).result = .ok tasks ∧
      (node.turns (exactBlooms dec) ch
        (ms.map fun m => SdsMessage.to_vec (.Content m))).channel = ch' ∧
      ch'.incoming_buffer = [] ∧ ch'.bloom.ids = ch.bloom.ids ∪ (idsOf ms).toFinset ∧
      ∀ m ∈ ms, m.message_id ∈ ch.bloom.ids ∨
        ∀ task, Opens L identity m.content task → task ∈ tasks := by
  induction ms generalizing ch with
  | nil => exact ⟨[], ch, rfl, rfl, hbuf, by simp, by simp⟩
  | cons m rest ih =>
    have hm := hms m (by simp)
    have hrest : ∀ x ∈ rest, Wellsent L identity x := fun x hx => hms x (List.mem_cons_of_mem m hx)
    by_cases hknown : m.message_id ∈ ch.bloom.ids
    · have hturn := turn_known dec node hm hknown
      have horder' : InOrder ch.bloom.ids rest := by
        rw [← Set.insert_eq_of_mem (Finset.mem_coe.mpr hknown)]
        exact horder.2
      obtain ⟨tasks, ch', hres, hch, hbuf', hids, htasks⟩ := ih hrest hbuf horder'
      refine ⟨tasks, ch', ?_, ?_, hbuf', ?_, ?_⟩
      · simp [LmaoNode.turns, hturn, hres, Except.map]
      · simp [LmaoNode.turns, hturn, hch]
      · rw [hids, idsOf_cons, List.toFinset_cons, Finset.union_insert,
          Finset.insert_eq_of_mem (Finset.mem_union_left _ hknown)]
      · intro x hx
        rcases List.mem_cons.mp hx with rfl | hx
        · exact Or.inl hknown
        · exact htasks x hx
    · obtain ⟨task, hopens⟩ := hm.opens
      obtain ⟨ch₁, hch₁, hres₁, hids₁, hbuf₁⟩ :=
        turn_new dec hset hm hbuf hknown horder.1 hopens
      have horder' : InOrder ch₁.bloom.ids rest := by
        rw [hids₁, Finset.coe_insert]
        exact horder.2
      obtain ⟨tasks, ch', hres, hch, hbuf', hids, htasks⟩ := ih hrest hbuf₁ horder'
      have hown : ∀ t, Opens L identity m.content t → t ∈ task :: tasks := by
        intro t ht
        have heq := (hset.extract ht).symm.trans (hset.extract hopens)
        cases heq
        exact List.mem_cons_self
      refine ⟨task :: tasks, ch', ?_, ?_, hbuf', ?_, ?_⟩
      · simp [LmaoNode.turns, hres₁, hch₁, hres, Except.map]
      · simp [LmaoNode.turns, hres₁, hch₁, hch]
      · rw [hids, hids₁, idsOf_cons, List.toFinset_cons, Finset.insert_union, Finset.union_insert]
      · intro x hx
        rcases List.mem_cons.mp hx with rfl | hx
        · exact Or.inr hown
        · rcases htasks x hx with hmem | htask
          · rw [hids₁, Finset.mem_insert] at hmem
            rcases hmem with heq | hmem
            · -- The same id means the same payload.
              have hcontent : x.content = m.content := by
                apply hinj
                rw [← (hrest x hx).hashed, ← hm.hashed, heq]
              rw [hcontent]
              exact Or.inr hown
            · exact Or.inl hmem
          · exact Or.inr fun t ht => List.mem_cons_of_mem task (htask t ht)

end Reading

/-! ## The invariant -/

/-- The ids that the agent has, or has once its sends are over. -/
def Agent.known (a : Agent L enc) : Set MessageId :=
  (a.node.channel.bloom.ids : Set MessageId) ∪ { id | id ∈ a.flying }

theorem Agent.knows_iff {a : Agent L enc} {id : MessageId} :
    a.Knows id ↔ id ∈ a.known ∨ id ∈ idsOf a.topic :=
  (or_assoc (a := id ∈ a.node.channel.bloom.ids)).symm

/-- What holds of each agent of a run: nothing waits, the unread messages are
in order, and what is read is known and gave its task. -/
structure AgentSound (p : String) (identity : Option (AgentIdentity L.prims)) (a : Agent L enc)
    (log : List Delivery) : Prop where
  settings : Settings identity a.node
  empty : a.node.channel.incoming_buffer = []
  wellsent : ∀ m ∈ a.topic, Wellsent L identity m
  read_le : a.read ≤ a.topic.length
  order : InOrder a.known a.unread
  done : ∀ m ∈ a.topic.take a.read, m.message_id ∈ a.node.channel.bloom.ids ∧
    ∀ task, Opens L identity m.content task → Delivery.returned p task ∈ log

/-- What holds of all agents together: a message in flight is one that its
recipient can read, and a task that was sent is on the topic of its
recipient. -/
structure Sound (identities : String → Option (AgentIdentity L.prims)) (w : World L enc)
    (log : List Delivery) : Prop where
  agents : ∀ p, AgentSound p (identities p) (w p) log
  flying : ∀ s, ∀ x ∈ (w s).in_flight, Wellsent L (identities x.1) x.2 ∧
    ∀ id ∈ deps x.2, (w x.1).Knows id
  sent : ∀ task, Delivery.sent task ∈ log →
    ∃ m ∈ (w task.recipient).topic, Opens L (identities task.recipient) m.content task

/-- The ids of a topic are known once those of its unread part are. -/
theorem AgentSound.knows {p : String} {a : Agent L enc} {log : List Delivery}
    (h : AgentSound p identity a log) {id : MessageId} (hid : a.Knows id) :
    id ∈ a.known ∨ id ∈ idsOf a.unread := by
  rcases Agent.knows_iff.mp hid with hid | hid
  · exact Or.inl hid
  · rw [← List.take_append_drop a.read a.topic, idsOf_append] at hid
    rcases List.mem_append.mp hid with hid | hid
    · obtain ⟨m, hm, rfl⟩ := List.mem_map.mp hid
      exact Or.inl (Or.inl (h.done m hm).1)
    · exact Or.inr hid

theorem AgentSound.extend {p : String} {a : Agent L enc} {log : List Delivery}
    (h : AgentSound p identity a log) (more : List Delivery) :
    AgentSound p identity a (log ++ more) := by
  refine ⟨h.settings, h.empty, h.wellsent, h.read_le, h.order, ?_⟩
  intro m hm
  exact ⟨(h.done m hm).1, fun task ht => List.mem_append_left _ ((h.done m hm).2 task ht)⟩

/-- A message whose dependencies the agent knows keeps its topic in order. -/
theorem AgentSound.published {p : String} {a : Agent L enc} {log : List Delivery}
    (h : AgentSound p identity a log) {m : ContentMessage} (hm : Wellsent L identity m)
    (hdeps : ∀ id ∈ deps m, a.Knows id) :
    AgentSound p identity { a with topic := a.topic ++ [m] } log := by
  refine ⟨h.settings, h.empty, ?_, ?_, ?_, ?_⟩
  · intro x hx
    rcases List.mem_append.mp hx with hx | hx
    · exact h.wellsent x hx
    · cases List.mem_singleton.mp hx
      exact hm
  · have hread := h.read_le
    simp only [List.length_append]
    omega
  · have hunread : Agent.unread { a with topic := a.topic ++ [m] } = a.unread ++ [m] :=
      List.drop_append_of_le_length h.read_le
    rw [hunread]
    exact h.order.snoc fun id hid => h.knows (hdeps id hid)
  · intro x hx
    rw [List.take_append_of_le_length h.read_le] at hx
    exact h.done x hx

section Steps

variable {identities : String → Option (AgentIdentity L.prims)} {w w' : World L enc}
  {log : List Delivery}

theorem Sound.extend (h : Sound identities w log) {more : List Delivery}
    (hmore : ∀ task, Delivery.sent task ∈ more →
      ∃ m ∈ (w task.recipient).topic, Opens L (identities task.recipient) m.content task) :
    Sound identities w (log ++ more) := by
  refine ⟨fun p => (h.agents p).extend more, h.flying, ?_⟩
  intro task ht
  rcases List.mem_append.mp ht with ht | ht
  · exact h.sent task ht
  · exact hmore task ht

/-- An agent is replaced by one that knows no less. -/
theorem Sound.put (h : Sound identities w log) {p : String} {a : Agent L enc}
    (ha : AgentSound p (identities p) a log) (hknows : ∀ id, (w p).Knows id → a.Knows id)
    (htopic : ∀ m ∈ (w p).topic, m ∈ a.topic)
    (hflying : ∀ x ∈ a.in_flight, x ∈ (w p).in_flight ∨
      Wellsent L (identities x.1) x.2 ∧ ∀ id ∈ deps x.2, (w x.1).Knows id) :
    Sound identities (w.put p a) log := by
  have hself : w.put p a p = a := by simp [World.put]
  have hother : ∀ q, q ≠ p → w.put p a q = w q := by
    intro q hq
    simp [World.put, hq]
  have hmono : ∀ q id, (w q).Knows id → (w.put p a q).Knows id := by
    intro q id hid
    by_cases hq : q = p
    · subst hq
      rw [hself]
      exact hknows id hid
    · rw [hother q hq]
      exact hid
  have hold : ∀ s, ∀ x ∈ (w s).in_flight, Wellsent L (identities x.1) x.2 ∧
      ∀ id ∈ deps x.2, (w.put p a x.1).Knows id := by
    intro s x hx
    obtain ⟨hsent, hdeps⟩ := h.flying s x hx
    exact ⟨hsent, fun id hid => hmono _ id (hdeps id hid)⟩
  refine ⟨?_, ?_, ?_⟩
  · intro q
    by_cases hq : q = p
    · subst hq
      rw [hself]
      exact ha
    · rw [hother q hq]
      exact h.agents q
  · intro s x hx
    by_cases hs : s = p
    · subst hs
      rw [hself] at hx
      rcases hflying x hx with hx | ⟨hsent, hdeps⟩
      · exact hold s x hx
      · exact ⟨hsent, fun id hid => hmono _ id (hdeps id hid)⟩
    · rw [hother s hs] at hx
      exact hold s x hx
  · intro task ht
    obtain ⟨m, hm, hopens⟩ := h.sent task ht
    refine ⟨m, ?_, hopens⟩
    by_cases hr : task.recipient = p
    · rw [hr] at hm ⊢
      rw [hself]
      exact htopic m hm
    · rw [hother _ hr]
      exact hm

theorem Sound.publish (h : Sound identities w log) {p : String} {m : ContentMessage}
    (hm : Wellsent L (identities p) m) (hdeps : ∀ id ∈ deps m, (w p).Knows id) :
    Sound identities (w.publish p m) log := by
  apply h.put ((h.agents p).published hm hdeps)
  · intro id hid
    rcases hid with hid | hid | hid
    · exact Or.inl hid
    · exact Or.inr (Or.inl hid)
    · refine Or.inr (Or.inr ?_)
      rw [idsOf_append]
      exact List.mem_append_left _ hid
  · intro x hx
    exact List.mem_append_left _ hx
  · intro x hx
    exact Or.inl hx

/-- A send gets on its way: only the clock of the channel changes, and the id
of the message is in flight. -/
theorem Sound.depart (h : Sound identities w log) (s : String) (payload : Bytes) {r : String}
    {m : ContentMessage} (hm : Wellsent L (identities r) m)
    (hdeps : ∀ id ∈ deps m, (w r).Knows id) :
    Sound identities (w.put s { w s with
      node := { (w s).node with
        channel := ((w s).node.channel.content_message L.wire payload).1 }
      in_flight := (w s).in_flight ++ [(r, m)] }) log := by
  have hs := h.agents s
  have hgrow : ∀ id, id ∈ (w s).flying →
      id ∈ idsOf (((w s).in_flight ++ [(r, m)]).map Prod.snd) := by
    intro id hid
    rw [List.map_append, idsOf_append]
    exact List.mem_append_left _ hid
  apply h.put
  · refine ⟨⟨hs.settings.bundle, hs.settings.identity, hs.settings.payment, hs.settings.storage,
      hs.settings.trust⟩, hs.empty, hs.wellsent, hs.read_le, ?_, hs.done⟩
    apply hs.order.mono
    intro x _ id _ hid
    rcases hid with hid | hid
    · exact Or.inl hid
    · exact Or.inr (hgrow id hid)
  · intro id hid
    rcases hid with hid | hid | hid
    · exact Or.inl hid
    · exact Or.inr (Or.inl (hgrow id hid))
    · exact Or.inr (Or.inr hid)
  · intro x hx
    exact hx
  · intro x hx
    rcases List.mem_append.mp hx with hx | hx
    · exact Or.inl hx
    · cases List.mem_singleton.mp hx
      exact Or.inr ⟨hm, hdeps⟩

/-- A send ends: its id goes from the sends in flight to the filter. -/
theorem Sound.arrive (h : Sound identities w log) {s r : String} {k : Nat} {m : ContentMessage}
    (hk : (w s).in_flight[k]? = some (r, m)) :
    Sound identities (w.put s { w s with
      node := { (w s).node with
        channel := (w s).node.channel.mark m.message_id m.lamport_timestamp }
      in_flight := (w s).in_flight.eraseIdx k }) log := by
  have hs := h.agents s
  have hmove : ∀ id, id ∈ (w s).flying →
      id ∈ (set (w s).node.channel.bloom m.message_id).ids ∨
        id ∈ idsOf (((w s).in_flight.eraseIdx k).map Prod.snd) := by
    intro id hid
    rw [set_idSet, Finset.mem_insert]
    obtain ⟨c, hc, rfl⟩ := List.mem_map.mp hid
    obtain ⟨x, hx, rfl⟩ := List.mem_map.mp hc
    obtain ⟨i, hi⟩ := List.mem_iff_getElem?.mp hx
    by_cases hik : i = k
    · subst hik
      rw [hk, Option.some.injEq] at hi
      rw [← hi]
      exact Or.inl (Or.inl rfl)
    · refine Or.inr (List.mem_map_of_mem (List.mem_map_of_mem ?_))
      rw [List.mem_eraseIdx_iff_getElem?]
      exact ⟨i, hik, hi⟩
  have hstay : ∀ id, id ∈ (w s).node.channel.bloom.ids →
      id ∈ (set (w s).node.channel.bloom m.message_id).ids := by
    intro id hid
    rw [set_idSet]
    exact Finset.mem_insert_of_mem hid
  apply h.put
  · refine ⟨⟨hs.settings.bundle, hs.settings.identity, hs.settings.payment, hs.settings.storage,
      hs.settings.trust⟩, hs.empty, hs.wellsent, hs.read_le, ?_, ?_⟩
    · apply hs.order.mono
      intro x _ id _ hid
      rcases hid with hid | hid
      · exact Or.inl (hstay id hid)
      · exact hmove id hid
    · intro x hx
      exact ⟨hstay _ (hs.done x hx).1, (hs.done x hx).2⟩
  · intro id hid
    rcases hid with hid | hid | hid
    · exact Or.inl (hstay id hid)
    · rcases hmove id hid with hid | hid
      · exact Or.inl hid
      · exact Or.inr (Or.inl hid)
    · exact Or.inr (Or.inr hid)
  · intro x hx
    exact hx
  · intro x hx
    exact Or.inl (List.mem_of_mem_eraseIdx hx)

theorem Settings.poll_tasks (hset : Settings identity node) {B : Build} {msgs : List Bytes}
    {tasks : List Task} (hres : (node.turns B node.channel msgs).result = .ok tasks) (now : UInt64)
    (uuid : Nat → String) :
    (node.poll_tasks B (.ok msgs) now uuid).result = .ok tasks ∧
      Settings identity (node.poll_tasks B (.ok msgs) now uuid).after := by
  unfold LmaoNode.poll_tasks
  simp only [hres, hset.verify]
  exact ⟨trivial, hset.bundle, hset.identity, hset.payment, hset.storage, hset.trust⟩

/-- A poll reads all of the topic. What it reads is in order, so all of it is
known afterwards, and each task comes out. -/
theorem Sound.poll (dec : Bytes → Option (Finset MessageId))
    (hinj : Function.Injective L.wire.compute_message_id) (h : Sound identities w log) {r : String}
    {now : UInt64} {uuid : Nat → String} (hreach : Reaches log w (.poll r now uuid))
    {out : List Delivery} (hstep : w.step dec (.poll r now uuid) = .ok (w', out)) :
    Sound identities w' (log ++ out) := by
  have hr := h.agents r
  have hsplit : (w r).topic.take (w r).read ++ (w r).unread = (w r).topic :=
    List.take_append_drop _ _
  have hunread : ∀ m ∈ (w r).unread, m ∈ (w r).topic := fun m hm => List.mem_of_mem_drop hm
  have horder : InOrder (w r).node.channel.bloom.ids (w r).unread := by
    apply hr.order.mono
    intro m hm id hid hmem
    rcases hmem with hmem | hmem
    · exact hmem
    · exact (hreach m hm).2 id hid hmem
  obtain ⟨tasks, ch', hres, hch, hbuf, hids, htasks⟩ := turns_in_order dec hr.settings hinj
    (w r).unread (fun m hm => hr.wellsent m (hunread m hm)) hr.empty horder
  obtain ⟨hresult, hsettings⟩ := hr.settings.poll_tasks hres now uuid
  obtain ⟨hafter, -⟩ := LmaoNode.poll_tasks_turns (exactBlooms dec) (w r).node
    ((w r).unread.map fun m => SdsMessage.to_vec (.Content m)) now uuid
  rw [hch] at hafter
  simp only [World.step, hresult, Except.ok.injEq, Prod.mk.injEq] at hstep
  obtain ⟨rfl, rfl⟩ := hstep
  have hgrow : ∀ id, id ∈ (w r).node.channel.bloom.ids → id ∈ ch'.bloom.ids := by
    intro id hid
    rw [hids]
    exact Finset.mem_union_left _ hid
  have hextend : Sound identities w (log ++ tasks.map (.returned r)) := by
    apply h.extend
    intro task ht
    simp at ht
  -- The tasks of the read part came out before, those of the rest come out now.
  have hdone : ∀ m ∈ (w r).topic, m.message_id ∈ ch'.bloom.ids ∧
      ∀ task, Opens L (identities r) m.content task →
        Delivery.returned r task ∈ log ++ tasks.map (.returned r) := by
    intro m hm
    rw [← hsplit] at hm
    rcases List.mem_append.mp hm with hm | hm
    · obtain ⟨hknown, hreturned⟩ := (hextend.agents r).done m hm
      exact ⟨hgrow _ hknown, hreturned⟩
    · refine ⟨?_, ?_⟩
      · rw [hids, Finset.mem_union, List.mem_toFinset]
        exact Or.inr (List.mem_map_of_mem hm)
      · intro task hopens
        rcases htasks m hm with hknown | hnew
        · obtain ⟨m', hm', heq⟩ := List.mem_map.mp ((hreach m hm).1 hknown)
          have hcontent : m'.content = m.content := by
            apply hinj
            rw [← (hr.wellsent m' (List.mem_of_mem_take hm')).hashed,
              ← (hr.wellsent m (hunread m hm)).hashed, heq]
          rw [← hcontent] at hopens
          exact ((hextend.agents r).done m' hm').2 task hopens
        · exact List.mem_append_right _ (List.mem_map_of_mem (hnew task hopens))
  apply hextend.put
  · refine ⟨hsettings, ?_, hr.wellsent, le_rfl, ?_, ?_⟩
    · rw [hafter]
      exact hbuf
    · simp only [Agent.unread, List.drop_length]
      trivial
    · intro m hm
      rw [hafter]
      exact hdone m (List.mem_of_mem_take hm)
  · intro id hid
    rcases hid with hid | hid
    · apply Or.inl
      rw [hafter]
      exact hgrow id hid
    · exact Or.inr hid
  · intro m hm
    exact hm
  · intro x hx
    exact Or.inl hx

/-- What a send prepares, its recipient can read. -/
theorem Sound.prepared (hlaw : L.prims.Lawful) (h : Sound identities w log) {sender : String}
    {task task' : Task} {with_card : Bool} {nonces : Nonce × Nonce}
    {ch : MessageChannel (IdSet enc)} {m : ContentMessage}
    (hreads : ReadsBack log w (.start sender task with_card nonces))
    (hprep : w.prepare sender task with_card nonces = some (task', ch, m)) :
    task' = task ∧ (∃ payload, ch = ((w sender).node.channel.content_message L.wire payload).1) ∧
      m.causal_history = (w sender).node.channel.build_causal_history ∧
      Opens L (identities task.recipient) m.content task ∧
      Wellsent L (identities task.recipient) m := by
  obtain ⟨htask, henv, hsds⟩ := hreads
  obtain ⟨hread, hnone⟩ := hsds _ hprep
  have hs := (h.agents sender).settings
  simp only [World.prepare, hs.auto_pay] at hprep
  split at hprep
  · cases hprep
  · rename_i payload hpayload
    cases hprep
    obtain ⟨e, he, rfl⟩ := hs.payload hpayload
    have hcard : w.card task with_card = none ∨
        w.card task with_card = some (w task.recipient).node.card := by
      unfold World.card
      cases with_card with
      | false => exact Or.inl rfl
      | true => exact Or.inr rfl
    have hopens := opens_of_encrypt hlaw (h.agents task.recipient).settings hcard he
      (henv e (by rw [he]; rfl)) htask
    exact ⟨rfl, ⟨e.to_vec, rfl⟩, rfl, hopens, rfl, hread, hnone, task, hopens⟩

theorem Sound.step (dec : Bytes → Option (Finset MessageId)) (hlaw : L.prims.Lawful)
    (hinj : Function.Injective L.wire.compute_message_id) (h : Sound identities w log)
    {op : WorldOp} (hreads : ReadsBack log w op) (hreach : Reaches log w op) {out : List Delivery}
    (hstep : w.step dec op = .ok (w', out)) : Sound identities w' (log ++ out) := by
  cases op with
  | start sender task with_card nonces =>
    simp only [World.step] at hstep
    split at hstep
    · cases hstep
      rw [List.append_nil]
      exact h
    · rename_i task' ch m hprep
      cases hstep
      obtain ⟨rfl, ⟨payload, rfl⟩, hhistory, hopens, hm⟩ := h.prepared hlaw hreads hprep
      have hdeps : ∀ id ∈ deps m, (w task'.recipient).Knows id := by
        intro id hid
        obtain ⟨entry, hentry, rfl⟩ := List.mem_map.mp hid
        rw [hhistory] at hentry
        exact hreach entry hentry
      have hdepart := h.depart sender payload hm hdeps
      have hflying := hdepart.flying sender (task'.recipient, m) (by simp [World.put])
      have hpublish := hdepart.publish hflying.1 hflying.2
      apply hpublish.extend
      intro task ht
      cases List.mem_singleton.mp ht
      exact ⟨m, by simp [World.publish, World.put], hopens⟩
  | resend sender k =>
    simp only [World.step] at hstep
    split at hstep
    · cases hstep
      rw [List.append_nil]
      exact h
    · rename_i r m hk
      cases hstep
      rw [List.append_nil]
      obtain ⟨hm, hdeps⟩ := h.flying sender (r, m) (List.mem_of_getElem? hk)
      exact h.publish hm hdeps
  | finish sender k =>
    simp only [World.step] at hstep
    split at hstep
    · cases hstep
      rw [List.append_nil]
      exact h
    · rename_i r m hk
      cases hstep
      rw [List.append_nil]
      exact h.arrive hk
  | poll r now uuid => exact h.poll dec hinj hreach hstep

end Steps

/-! ## The law -/

theorem Sound.new (profiles : String → Profile L) :
    Sound (fun p => (profiles p).identity) (World.new profiles : World L enc) [] := by
  refine ⟨?_, ?_, ?_⟩
  · intro p
    exact ⟨⟨rfl, rfl, rfl, rfl, rfl⟩, rfl, by simp [World.new, Agent.new], le_rfl, trivial,
      by simp [World.new, Agent.new]⟩
  · intro s x hx
    cases hx
  · intro task ht
    cases ht

theorem World.step_returns (dec : Bytes → Option (Finset MessageId)) (w : World L enc)
    (op : WorldOp) : ∃ r, w.step dec op = .ok r := by
  cases op with
  | start sender task with_card nonces =>
    simp only [World.step]
    split
    · exact ⟨_, rfl⟩
    · exact ⟨_, rfl⟩
  | resend sender k =>
    simp only [World.step]
    split
    · exact ⟨_, rfl⟩
    · exact ⟨_, rfl⟩
  | finish sender k =>
    simp only [World.step]
    split
    · exact ⟨_, rfl⟩
    · exact ⟨_, rfl⟩
  | poll r now uuid => exact ⟨_, rfl⟩

/-- In a run where each recipient comes to know all that the sender has in its
history, a recipient that has read its topic has returned every task that was
sent to it, in every state of the run. -/
theorem every_task_is_returned (dec : Bytes → Option (Finset MessageId)) (L : Libs)
    (hlaw : L.prims.Lawful) (hinj : Function.Injective L.wire.compute_message_id)
    (profiles : String → Profile L) (ops : List WorldOp)
    (hreads : Meets (World.step dec) ReadsBack (World.new profiles : World L enc) ops)
    (hreach : Meets (World.step dec) Reaches (World.new profiles : World L enc) ops) :
    ∀ before after, ops = before ++ after →
      Returns (run (World.step dec) (World.new profiles : World L enc) before)
        fun r => Complete r.1 r.2 := by
  rintro before after rfl
  obtain ⟨⟨w, log⟩, hrun⟩ := run_total (World.step_returns dec) (World.new profiles) before
  refine ⟨(w, log), hrun, ?_⟩
  have hsound : Sound (fun p => (profiles p).identity) w log := by
    apply run_invariant_of_meets (I := fun log w => Sound (fun p => (profiles p).identity) w log)
      (Sound.new profiles) _ (hreads.of_append.and hreach.of_append) hrun
    rintro log w op w' out h ⟨hread, hreach⟩ hstep
    exact h.step dec hlaw hinj hread hreach hstep
  intro task ht hunread
  obtain ⟨m, hm, hopens⟩ := hsound.sent task ht
  have hsplit := List.take_append_drop (w task.recipient).read (w task.recipient).topic
  unfold Agent.unread at hunread
  rw [hunread, List.append_nil] at hsplit
  rw [← hsplit] at hm
  exact ((hsound.agents task.recipient).done m hm).2 task hopens

/-! ## Calls of send_task_to -/

theorem attempt_loop_returns (wire : Wire) {t : AckTransport} (topic : String) (id : MessageId)
    (encoded : Bytes) (hpub : ∀ n topic encoded, t.publish n topic encoded = .ok ())
    (n attempt : Nat) :
    ∃ acked published, attempt_loop wire t topic id encoded n attempt = (.ok acked, published) := by
  induction n generalizing attempt with
  | zero => exact ⟨false, attempt, rfl⟩
  | succ n ih =>
    unfold attempt_loop
    rw [hpub]
    simp only
    split
    · split
      · exact ⟨true, attempt + 1, rfl⟩
      · exact ih (attempt + 1)
    · exact ih (attempt + 1)

theorem send_reliable_returns (wire : Wire) (ch : MessageChannel (IdSet enc)) (topic : String)
    (payload : Bytes) {t : AckTransport} (hsub : ∀ topic, t.subscribe topic = .ok ())
    (hpub : ∀ n topic encoded, t.publish n topic encoded = .ok ()) :
    ∃ acked, (ch.send_reliable wire topic payload t).channel =
        (ch.content_message wire payload).1.mark (ch.content_message wire payload).2.message_id
          (ch.content_message wire payload).2.lamport_timestamp ∧
      (ch.send_reliable wire topic payload t).result =
        .ok ((ch.content_message wire payload).2, acked) := by
  obtain ⟨acked, published, hloop⟩ := attempt_loop_returns wire topic
    (ch.content_message wire payload).2.message_id
    (SdsMessage.to_vec (.Content (ch.content_message wire payload).2)) hpub
    ((ch.content_message wire payload).1.config.max_retries + 1) 0
  refine ⟨acked, ?_, ?_⟩
  · simp [send_reliable, hsub, hloop]
  · simp [send_reliable, hsub, hloop]

theorem send_task_to_returns {task paid : Task} {card : Option AgentCard}
    {nonces : Bytes × Bytes} {payload : Bytes} (hpay : node.maybe_auto_pay task = .ok paid)
    (hpayload : node.prepare_payload paid card nonces = .ok payload) {t : Nat → AckTransport}
    (hsub : ∀ k topic, (t k).subscribe topic = .ok ())
    (hpub : ∀ k n topic encoded, (t k).publish n topic encoded = .ok ())
    (hretry : node.retry_config ≠ some 0) :
    ∃ acked, node.send_task_to task card nonces t = ({ node with
      channel := (node.channel.content_message L.wire payload).1.mark
        (node.channel.content_message L.wire payload).2.message_id
        (node.channel.content_message L.wire payload).2.lamport_timestamp }, .ok acked) := by
  unfold LmaoNode.send_task_to
  simp only [hpay, hpayload]
  rcases hcfg : node.retry_config with _ | (_ | n)
  · obtain ⟨acked, hch, hres⟩ := send_reliable_returns L.wire node.channel
      (task_topic paid.recipient) payload (hsub 0) (hpub 0)
    exact ⟨acked, by simp [hch, hres]⟩
  · exact absurd hcfg hretry
  · obtain ⟨acked, hch, hres⟩ := send_reliable_returns L.wire node.channel
      (task_topic paid.recipient) payload (hsub 0) (hpub 0)
    exact ⟨acked, by simp [LmaoNode.retry_send_reliable, hch, hres, Except.map]⟩

theorem start_then_finish (dec : Bytes → Option (Finset MessageId)) {w : World L enc}
    {sender : String} {task task' : Task} {with_card : Bool} {nonces : Nonce × Nonce}
    {ch : MessageChannel (IdSet enc)} {m : ContentMessage}
    (hprep : w.prepare sender task with_card nonces = some (task', ch, m)) :
    ∃ w', run (World.step dec) w [.start sender task with_card nonces,
        .finish sender (w sender).in_flight.length] = .ok (w', [.sent task']) ∧
      (w' sender).node =
        { (w sender).node with channel := ch.mark m.message_id m.lamport_timestamp } := by
  by_cases hself : task'.recipient = sender
  · simp [run, World.step, hprep, World.publish, World.put, hself, bind, Except.bind]
  · have hother : sender ≠ task'.recipient := fun h => hself h.symm
    simp [run, World.step, hprep, World.publish, World.put, hother, bind, Except.bind]

/-- Over a transport without errors, a call of `send_task_to` is a `start` and a
`finish`, with any number of copies in between. -/
theorem a_send_is_a_start_and_a_finish (dec : Bytes → Option (Finset MessageId)) (w : World L enc)
    (sender : String) (task task' : Task) (with_card : Bool) (nonces : Nonce × Nonce)
    (ch : MessageChannel (IdSet enc)) (m : ContentMessage)
    (hprep : w.prepare sender task with_card nonces = some (task', ch, m)) (t : Nat → AckTransport)
    (hsub : ∀ k topic, (t k).subscribe topic = .ok ())
    (hpub : ∀ k n topic encoded, (t k).publish n topic encoded = .ok ())
    (hretry : (w sender).node.retry_config ≠ some 0) :
    ∃ w' acked, run (World.step dec) w [.start sender task with_card nonces,
        .finish sender (w sender).in_flight.length] = .ok (w', [.sent task']) ∧
      (w sender).node.send_task_to task (w.card task' with_card) (nonces.1.1, nonces.2.1) t =
        ((w' sender).node, .ok acked) := by
  obtain ⟨w', hrun, hnode⟩ := start_then_finish dec hprep
  unfold World.prepare at hprep
  split at hprep
  · cases hprep
  · rename_i paid hpay
    split at hprep
    · cases hprep
    · rename_i payload hpayload
      cases hprep
      obtain ⟨acked, hsend⟩ := send_task_to_returns hpay hpayload hsub hpub hretry
      exact ⟨w', acked, hrun, hsend.trans (Prod.ext hnode.symm rfl)⟩

/-! ## Two runs -/

namespace Sample

def to_bob : Task := .new "task-1" "02alice" "02bob" "hi"

def to_alice : Task := .new "task-2" "02bob" "02alice" "hi"

def to_carol : Task := .new "task-3" "02alice" "02carol" "hi"

def payload (task : Task) : Bytes := (A2AEnvelope.Task task).to_vec

/-- Alice's message to bob, bob's answer, and alice's message to carol. The two
later ones have the first one in their causal history. -/
def first : ContentMessage :=
  { message_id := "01", channel_id := "node-02alice", sender_id := "02alice"
    lamport_timestamp := 1, causal_history := [], bloom_filter := some []
    content := payload to_bob, repair_request := [] }

def first_entry : HistoryEntry :=
  { message_id := "01", lamport_timestamp := 1, retrieval_hint := none }

def answer : ContentMessage :=
  { message_id := "02", channel_id := "node-02bob", sender_id := "02bob"
    lamport_timestamp := 3, causal_history := [first_entry], bloom_filter := some []
    content := payload to_alice, repair_request := [] }

def second : ContentMessage :=
  { message_id := "03", channel_id := "node-02alice", sender_id := "02alice"
    lamport_timestamp := 2, causal_history := [first_entry], bloom_filter := some []
    content := payload to_carol, repair_request := [] }

def world_libs : Libs :=
  .ofTables
    (.ofTable [(payload to_bob, "01"), (payload to_alice, "02"), (payload to_carol, "03")]
      [.Content first, .Content answer, .Content second])
    { public_key := fun _ => List.replicate 32 0
      diffie_hellman := fun _ _ => []
      aead_encrypt := fun _ _ plaintext => some plaintext
      aead_decrypt := fun _ _ ciphertext => some ciphertext }
    [.Task to_bob, .Task to_alice, .Task to_carol] [to_bob, to_alice, to_carol]

theorem world_libs_lawful : world_libs.prims.Lawful := by
  refine ⟨fun _ => rfl, fun _ _ => rfl, ?_⟩
  intro key nonce plaintext ciphertext h
  cases h
  rfl

theorem world_libs_injective : Function.Injective world_libs.wire.compute_message_id :=
  Wire.ofTable_injective (by decide +kernel) (by decide +kernel)

def world : World world_libs (fun _ => []) :=
  .new fun _ =>
    { name := "", description := "", capabilities := [], identity := none, config := .default
      now_ms := 0 }

abbrev world_step (w : World world_libs (fun _ => [])) (op : WorldOp) :=
  w.step (fun _ => none) op

def nonces : Nonce × Nonce := (⟨List.replicate 12 0, rfl⟩, ⟨List.replicate 12 0, rfl⟩)

/-- Alice sends bob a task, and bob answers with one. -/
def exchange : List WorldOp :=
  [.start "02alice" to_bob false nonces, .poll "02bob" 0 (fun _ => ""), .resend "02alice" 0,
    .finish "02alice" 0, .start "02bob" to_alice true nonces, .poll "02alice" 0 fun _ => ""]

end Sample

theorem alice_and_bob_get_their_tasks :
    Returns (run Sample.world_step Sample.world Sample.exchange) fun r => Complete r.1 r.2 := by
  have hmeets : Meets Sample.world_step ReadsBack Sample.world Sample.exchange ∧
      Meets Sample.world_step Reaches Sample.world Sample.exchange := by
    decide +kernel
  exact every_task_is_returned _ _ Sample.world_libs_lawful Sample.world_libs_injective _ _
    hmeets.1 hmeets.2 Sample.exchange [] (List.append_nil _).symm

/-- Alice sends a task to bob and one to carol, and both read their topics. -/
def Sample.two_recipients : List WorldOp :=
  [.start "02alice" to_bob false nonces, .finish "02alice" 0,
    .start "02alice" to_carol false nonces, .finish "02alice" 0,
    .poll "02bob" 0 (fun _ => ""), .poll "02carol" 0 fun _ => ""]

theorem a_second_recipient_gets_no_task :
    ¬ Returns (run Sample.world_step Sample.world Sample.two_recipients)
      fun r => Complete r.1 r.2 := by
  have hrun : Returns (run Sample.world_step Sample.world Sample.two_recipients) fun r =>
      r.2 = [.sent Sample.to_bob, .sent Sample.to_carol, .returned "02bob" Sample.to_bob] ∧
        (r.1 "02carol").unread = [] := by
    decide +kernel
  obtain ⟨⟨w, log⟩, hr, hlog, hunread⟩ := hrun
  simp only at hlog hunread
  subst hlog
  rintro ⟨⟨w', log'⟩, hr', hcomplete⟩
  rw [hr] at hr'
  cases hr'
  have hreturned : Delivery.returned "02carol" Sample.to_carol ∈
      [.sent Sample.to_bob, .sent Sample.to_carol, .returned "02bob" Sample.to_bob] :=
    hcomplete Sample.to_carol (by simp) hunread
  exact absurd hreturned (by decide +kernel)

end lmao.node
