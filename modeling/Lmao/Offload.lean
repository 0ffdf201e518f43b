-- Encryption and storage offload together (tasks/helpers.rs, tasks/poll.rs).
-- A task comes back from every envelope that `prepare_payload` can make of it:
-- plain, encrypted, slim, or slim and encrypted. What leaves the node on the
-- way hides the text of the task, except for what goes to the storage.
import Mathlib.Data.UInt
import Lmao.JsonReading
import Lmao.TaskCompleteness

namespace lmao.node

open sds crypto

/-! ## Readers -/

/-- `serde_json` reads what it wrote. -/
structure Libs.RoundTrips (L : Libs) : Prop where
  envelope : ∀ e : A2AEnvelope, L.envelope_from_slice e.to_vec = some e
  task : ∀ t : Task, L.task_from_slice t.to_vec = some t

/-- Readers that know the texts that `serde_json` writes and no other. -/
noncomputable def Libs.strict (wire : Wire) (prims : Primitives) : Libs where
  wire
  prims
  envelope_from_slice := Function.partialInv A2AEnvelope.to_vec
  task_from_slice := Function.partialInv Task.to_vec
  to_lowercase s := s.map Char.toLower

theorem Libs.strict_roundTrips (wire : Wire) (prims : Primitives) :
    (Libs.strict wire prims).RoundTrips where
  envelope := Function.partialInv_left A2AEnvelope.to_vec_injective
  task := Function.partialInv_left Task.to_vec_injective

/-! ## What a payload is made of -/

variable {L : Libs} {F : Type} {node sender receiver : LmaoNode L F} {task : Task}
  {card : Option AgentCard} {nonces : Bytes × Bytes} {payload : Bytes}

/-- The envelope of the task is too long to be sent as it is. -/
def Offloads (node : LmaoNode L F) (e : A2AEnvelope) (offload : StorageOffloadConfig) : Prop :=
  node.storage_offload = some offload ∧ e.to_vec.length > offload.threshold_bytes

/-- A payload is the envelope of the task, or of the slim task once the task is
uploaded. -/
theorem prepare_payload_cases (h : node.prepare_payload task card nonces = .ok payload) :
    ∃ e, node.maybe_encrypt_task task card nonces.1 = .ok e ∧
      ((payload = e.to_vec ∧ ∀ offload, ¬ Offloads node e offload) ∨
        ∃ offload cid slim, Offloads node e offload ∧ offload.upload task.to_vec = .ok cid ∧
          node.maybe_encrypt_task (LmaoNode.slim_task task cid) card nonces.2 = .ok slim ∧
          payload = slim.to_vec) := by
  unfold LmaoNode.prepare_payload at h
  rcases he : node.maybe_encrypt_task task card nonces.1 with err | e
  · simp [he, bind, Except.bind] at h
  refine ⟨e, rfl, ?_⟩
  simp only [he, bind, Except.bind, pure, Except.pure] at h
  rcases hs : node.storage_offload with _ | offload
  · simp only [hs, Except.ok.injEq] at h
    exact .inl ⟨h.symm, fun offload ho => absurd ho.1 (by simp [hs])⟩
  simp only [hs] at h
  by_cases hlen : e.to_vec.length > offload.threshold_bytes
  · simp only [hlen, if_true] at h
    rcases hup : offload.upload task.to_vec with err | cid
    · simp [hup] at h
    simp only [hup] at h
    rcases hslim : node.maybe_encrypt_task (LmaoNode.slim_task task cid) card nonces.2
      with err | slim
    · simp [hslim] at h
    simp only [hslim, Except.ok.injEq] at h
    exact .inr ⟨offload, cid, slim, ⟨hs, hlen⟩, hup, hslim, h.symm⟩
  · simp only [hlen, if_false, Except.ok.injEq] at h
    refine .inl ⟨h.symm, ?_⟩
    rintro offload' ⟨ho, hlong⟩
    rw [hs] at ho
    cases ho
    exact hlen hlong

/-! ## A task comes back -/

/-- Either nothing is encrypted, or the receiver holds the identity that the
card of the recipient tells. -/
def Matching (sender receiver : LmaoNode L F) (card : Option AgentCard) : Prop :=
  ∀ own bundle, sender.identity = some own → card.bind AgentCard.intro_bundle = some bundle →
    ∃ theirs, receiver.identity = some theirs ∧
      AgentIdentity.parse_public_key bundle.agent_pubkey = .ok theirs.public_key

/-- What the sender uploads the receiver downloads. The two thresholds can be
any. -/
def SharedStorage (sender receiver : LmaoNode L F) : Prop :=
  ∀ offload, sender.storage_offload = some offload →
    ∃ offload', receiver.storage_offload = some offload' ∧
      ∀ x cid, offload.upload x = .ok cid → offload'.download cid = .ok x

theorem extract_of_opens (hopens : Opens L receiver.identity payload task) :
    receiver.extract_task payload = Stop.lift (receiver.maybe_fetch_offloaded task) := by
  cases hopens with
  | plain henv => simp only [LmaoNode.extract_task, henv, LmaoNode.extract_task_from_envelope]
  | encrypted henv hown hdec =>
    simp only [LmaoNode.extract_task, henv, LmaoNode.extract_task_from_envelope, hown, hdec]

theorem fetch_inline (hcid : task.payload_cid = none) :
    receiver.maybe_fetch_offloaded task = .ok (some task) := by
  simp only [LmaoNode.maybe_fetch_offloaded, hcid]

theorem fetch_slim (hserde : L.RoundTrips) {offload : StorageOffloadConfig} {cid : String}
    (hs : receiver.storage_offload = some offload)
    (hdown : offload.download cid = .ok task.to_vec) :
    receiver.maybe_fetch_offloaded (LmaoNode.slim_task task cid) = .ok (some task) := by
  simp only [LmaoNode.maybe_fetch_offloaded, LmaoNode.slim_task, hs, hdown, hserde.task]

/-- The sender can encrypt for the recipient of the card, and can upload. -/
structure CanSend (sender : LmaoNode L F) : Prop where
  encrypts : ∀ key nonce plaintext, (L.prims.aead_encrypt key nonce plaintext).isSome
  uploads : ∀ offload, sender.storage_offload = some offload →
    ∀ x, ∃ cid, offload.upload x = .ok cid

theorem maybe_encrypt_task_ok (hcan : CanSend sender) (hkeys : Matching sender receiver card)
    (task : Task) (nonce : Bytes) : ∃ e, sender.maybe_encrypt_task task card nonce = .ok e := by
  unfold LmaoNode.maybe_encrypt_task
  rcases hown : sender.identity with _ | own
  · exact ⟨_, rfl⟩
  rcases hbundle : card.bind AgentCard.intro_bundle with _ | bundle
  · exact ⟨_, rfl⟩
  obtain ⟨theirs, -, hparse⟩ := hkeys own bundle hown hbundle
  have hsome := hcan.encrypts (own.shared_key theirs.public_key) nonce task.to_vec
  obtain ⟨ciphertext, hseal⟩ := Option.isSome_iff_exists.1 hsome
  simp only [hparse, SessionKey.encrypt, hseal]
  exact ⟨_, rfl⟩

theorem prepare_payload_ok (hcan : CanSend sender) (hkeys : Matching sender receiver card)
    (task : Task) (nonces : Bytes × Bytes) :
    ∃ payload, sender.prepare_payload task card nonces = .ok payload := by
  obtain ⟨e, he⟩ := maybe_encrypt_task_ok hcan hkeys task nonces.1
  unfold LmaoNode.prepare_payload
  simp only [he, bind, Except.bind, pure, Except.pure]
  rcases hs : sender.storage_offload with _ | offload
  · exact ⟨_, rfl⟩
  by_cases hlen : e.to_vec.length > offload.threshold_bytes
  · obtain ⟨cid, hup⟩ := hcan.uploads offload hs task.to_vec
    obtain ⟨slim, hslim⟩ := maybe_encrypt_task_ok hcan hkeys (LmaoNode.slim_task task cid) nonces.2
    simp only [hlen, if_true, hup, hslim]
    exact ⟨_, rfl⟩
  · simp only [hlen, if_false]
    exact ⟨_, rfl⟩

/-- The receiver extracts the task that the sender prepared, with all of its
fields, from each of the four envelopes. -/
theorem a_prepared_task_comes_back (hlaw : L.prims.Lawful) (hserde : L.RoundTrips)
    (hnonces : nonces.1.length = 12 ∧ nonces.2.length = 12) (hcid : task.payload_cid = none)
    (hkeys : Matching sender receiver card) (hstorage : SharedStorage sender receiver) :
    (∀ payload, sender.prepare_payload task card nonces = .ok payload →
      receiver.extract_task payload = .ok (some task)) ∧
    (CanSend sender → ∃ payload, sender.prepare_payload task card nonces = .ok payload) := by
  refine ⟨?_, fun hcan => prepare_payload_ok hcan hkeys task nonces⟩
  intro payload hp
  obtain ⟨e, he, ⟨rfl, -⟩ | ⟨offload, cid, slim, hoff, hup, hslim, rfl⟩⟩ := prepare_payload_cases hp
  · have hopens := opens_of_matching hlaw hkeys hnonces.1 he (hserde.envelope e) (hserde.task task)
    rw [extract_of_opens hopens, fetch_inline hcid, Stop.lift]
  · obtain ⟨offload', hs', hdown⟩ := hstorage offload hoff.1
    have hopens := opens_of_matching hlaw hkeys hnonces.2 hslim (hserde.envelope slim)
      (hserde.task _)
    rw [extract_of_opens hopens, fetch_slim hserde hs' (hdown _ _ hup), Stop.lift]

namespace Sample

/-- Both sides of a key agreement get the sum of the two secrets, and a cipher
text begins with the key and the nonce. -/
def tagging : Primitives where
  public_key secret := List.replicate 32 secret.sum
  diffie_hellman secret their_key := [secret.sum + their_key.headD 0]
  aead_encrypt key nonce plaintext := some (key ++ nonce ++ plaintext)
  aead_decrypt key nonce ciphertext :=
    if key ++ nonce <+: ciphertext then some (ciphertext.drop (key ++ nonce).length) else none

theorem tagging_lawful : tagging.Lawful := by
  refine ⟨fun _ => rfl, ?_, ?_⟩
  · intro a b
    simp [tagging, List.replicate_succ, UInt8.add_comm]
  · intro key nonce plaintext ciphertext h
    cases h
    simp [tagging]

noncomputable def strict_libs : Libs := .strict (.ofTable [] []) tagging

/-- A storage whose CID is the hex text of the bytes. -/
def hex_storage (threshold_bytes : Nat) : StorageOffloadConfig where
  upload x := .ok (hex_encode x)
  download cid := (hex_decode cid).elim (.error (.Api 404 cid)) .ok
  threshold_bytes

/-- A node with an identity, whose storage is the shared one. -/
noncomputable def secret_node (name : String) (secret : Bytes) (threshold_bytes : Nat) :
    LmaoNode strict_libs (IdSet fun _ => []) :=
  { LmaoNode.new name name "" [] (some ⟨secret⟩) .default 0 with
    storage_offload := some (hex_storage threshold_bytes) }

/-- A nonce of one byte, repeated. -/
def twelve (b : UInt8) : Bytes := List.replicate 12 b

def two_nonces : Bytes × Bytes := (twelve 0, twelve 1)

/-- A paid task with a result, in a session. -/
def whole_task : Task :=
  { Task.new "task-1" "02alice" "02bob" "hi" with
    result := some { role := "agent", parts := [.Text "hello"] }
    session_id := some "s"
    payment_tx := some "0xabc"
    payment_amount := some 5 }

end Sample

/-- Alice offloads every task and encrypts for bob, who offloads none. -/
theorem bob_gets_the_whole_task :
    ∃ payload,
      (Sample.secret_node "alice" [1] 0).prepare_payload Sample.whole_task
        (some (Sample.secret_node "bob" [2] 65536).card) Sample.two_nonces = .ok payload ∧
      (Sample.secret_node "bob" [2] 65536).extract_task payload = .ok (some Sample.whole_task) := by
  have hkeys : Matching (Sample.secret_node "alice" [1] 0) (Sample.secret_node "bob" [2] 65536)
      (some (Sample.secret_node "bob" [2] 65536).card) := by
    intro own bundle _ hbundle
    cases hbundle
    exact ⟨⟨[2]⟩, rfl, parse_public_key_hex Sample.tagging_lawful ⟨[2]⟩⟩
  have hstorage : SharedStorage (Sample.secret_node "alice" [1] 0)
      (Sample.secret_node "bob" [2] 65536) := by
    intro offload ho
    cases ho
    refine ⟨_, rfl, ?_⟩
    intro x cid hup
    cases hup
    simp [Sample.hex_storage, hex_decode_encode]
  have hcan : CanSend (Sample.secret_node "alice" [1] 0) := by
    refine ⟨fun _ _ _ => rfl, ?_⟩
    intro offload ho x
    cases ho
    exact ⟨_, rfl⟩
  have hnonces : Sample.two_nonces.1.length = 12 ∧ Sample.two_nonces.2.length = 12 := ⟨rfl, rfl⟩
  have hcid : Sample.whole_task.payload_cid = none := rfl
  have hserde := Libs.strict_roundTrips (.ofTable [] []) Sample.tagging
  have hlaw := a_prepared_task_comes_back Sample.tagging_lawful hserde hnonces hcid hkeys hstorage
  obtain ⟨payload, hp⟩ := hlaw.2 hcan
  exact ⟨payload, hp, hlaw.1 payload hp⟩

/-! ## What leaves the node -/

/-- `prepare_payload` with a record of what it hands to the storage. -/
def LmaoNode.prepare_payload_recorded (node : LmaoNode L F) (task : Task)
    (recipient_card : Option AgentCard) (nonces : Bytes × Bytes) :
    List Bytes × Except NodeError Bytes :=
  match node.maybe_encrypt_task task recipient_card nonces.1 with
  | .error e => ([], .error e)
  | .ok envelope =>
    match node.storage_offload with
    | none => ([], .ok envelope.to_vec)
    | some offload =>
      if envelope.to_vec.length > offload.threshold_bytes then
        match offload.upload task.to_vec with
        | .error e =>
          ([task.to_vec], .error (.Other ("storage offload upload failed: " ++ e.display)))
        | .ok cid =>
          ([task.to_vec],
            (node.maybe_encrypt_task (slim_task task cid) recipient_card nonces.2).map
              A2AEnvelope.to_vec)
      else ([], .ok envelope.to_vec)

theorem prepare_payload_recorded_result (node : LmaoNode L F) (task : Task)
    (card : Option AgentCard) (nonces : Bytes × Bytes) :
    (node.prepare_payload_recorded task card nonces).2 =
      node.prepare_payload task card nonces := by
  unfold LmaoNode.prepare_payload_recorded LmaoNode.prepare_payload
  rcases node.maybe_encrypt_task task card nonces.1 with err | e
  · simp [bind, Except.bind]
  simp only [bind, Except.bind, pure, Except.pure]
  rcases node.storage_offload with _ | offload
  · rfl
  by_cases hlen : e.to_vec.length > offload.threshold_bytes
  · simp only [hlen, if_true]
    rcases offload.upload task.to_vec with err | cid
    · rfl
    · rcases node.maybe_encrypt_task (LmaoNode.slim_task task cid) card nonces.2 with err | slim
      · simp [Except.map]
      · simp [Except.map]
  · simp only [hlen, if_false]

/-- The byte strings that the preparation of a task hands to the storage and to
the transport. -/
structure Handed where
  storage : List Bytes
  transport : List Bytes
deriving DecidableEq

def LmaoNode.handed (node : LmaoNode L F) (task : Task) (card : Option AgentCard)
    (nonces : Bytes × Bytes) : Handed :=
  let r := node.prepare_payload_recorded task card nonces
  { storage := r.1, transport := r.2.toOption.toList }

/-- A message with the text of its parts taken out. -/
def Message.erase_text (m : Message) : Message :=
  { m with parts := m.parts.map fun | .Text _ => .Text "" }

/-- A task with the text of its message and result parts taken out. -/
def Task.erase_text (t : Task) : Task :=
  { t with
    message := Message.erase_text t.message
    result := t.result.map Message.erase_text }

/-- The tasks differ only in the text of their parts, and their JSON texts are
equally long. -/
structure Alike (t u : Task) : Prop where
  erased : Task.erase_text t = Task.erase_text u
  length : t.to_vec.length = u.to_vec.length

/-- Encryption tells of a text no more than its length. -/
def LengthOnly (P : Primitives) : Prop :=
  ∀ key nonce p q, p.length = q.length → P.aead_encrypt key nonce p = P.aead_encrypt key nonce q

/-! ## Lengths of texts -/

theorem to_vec_append (a b : json.Text) : json.to_vec (a ++ b) = json.to_vec a ++ json.to_vec b :=
  List.flatMap_append

/-- Two fields of one name, with equally long texts. -/
def FieldAlike (f g : String × json.Text) : Prop :=
  f.1 = g.1 ∧ (json.to_vec f.2).length = (json.to_vec g.2).length

theorem comma_separated_length {as bs : List json.Text}
    (h : List.Forall₂ (fun a b => (json.to_vec a).length = (json.to_vec b).length) as bs) :
    (json.to_vec (json.comma_separated as)).length =
      (json.to_vec (json.comma_separated bs)).length := by
  unfold json.comma_separated
  induction h with
  | nil => rfl
  | @cons a b as bs hab htail ih =>
    cases htail with
    | nil => simpa [List.intersperse] using hab
    | cons hab' htail' =>
      simp only [List.intersperse_cons_cons, List.flatten_cons, to_vec_append, List.length_append,
        hab] at ih ⊢
      omega

theorem object_length {fs gs : List (String × json.Text)} (h : List.Forall₂ FieldAlike fs gs) :
    (json.to_vec (json.object fs)).length = (json.to_vec (json.object gs)).length := by
  have htexts : List.Forall₂ (fun a b => (json.to_vec a).length = (json.to_vec b).length)
      (fs.map fun f => json.str f.1 ++ ':' :: f.2)
      (gs.map fun g => json.str g.1 ++ ':' :: g.2) := by
    rw [List.forall₂_map_left_iff, List.forall₂_map_right_iff]
    apply h.imp
    rintro ⟨name, a⟩ ⟨name', b⟩ ⟨rfl, hab⟩
    simp only [json.to_vec, List.flatMap_append, List.flatMap_cons, List.length_append] at hab ⊢
    omega
  have hitems := comma_separated_length htexts
  simp only [json.to_vec, json.object, List.cons_append, List.flatMap_cons, List.flatMap_append,
    List.length_append] at hitems ⊢
  omega

/-- The JSON texts of the two CIDs are equally long. -/
def SameLength (cid cid' : String) : Prop :=
  (json.to_vec (json.str cid)).length = (json.to_vec (json.str cid')).length

theorem slim_task_of_erased {t u : Task} (h : Task.erase_text t = Task.erase_text u)
    (cid : String) : LmaoNode.slim_task t cid = LmaoNode.slim_task u cid := by
  have hslim : ∀ v : Task,
      LmaoNode.slim_task v cid = LmaoNode.slim_task (Task.erase_text v) cid := by
    intro v
    rcases v with ⟨id, sender, recipient, state, message, _ | result⟩ <;> rfl
  rw [hslim t, hslim u, h]

theorem slim_task_length (t : Task) {cid cid' : String} (h : SameLength cid cid') :
    (LmaoNode.slim_task t cid).to_vec.length = (LmaoNode.slim_task t cid').to_vec.length := by
  unfold Task.to_vec
  apply object_length
  have hrefl : ∀ fs : List (String × json.Text), List.Forall₂ FieldAlike fs fs :=
    fun fs => List.forall₂_same.2 fun _ _ => ⟨rfl, rfl⟩
  have hcid : List.Forall₂ FieldAlike [("payload_cid", json.str cid)]
      [("payload_cid", json.str cid')] := .cons ⟨rfl, h⟩ .nil
  simp only [Task.fields, LmaoNode.slim_task, List.append_assoc]
  refine List.rel_append (hrefl _) (List.rel_append (hrefl _) (List.rel_append (hrefl _) ?_))
  exact List.rel_append hcid (hrefl _)

/-! ## The text of an encrypted task -/

/-- Encryption makes one envelope of equally long tasks. -/
theorem maybe_encrypt_task_alike (hlen : LengthOnly L.prims) {own : AgentIdentity L.prims}
    {bundle : IntroBundle} (hown : node.identity = some own)
    (hbundle : card.bind AgentCard.intro_bundle = some bundle) {t u : Task}
    (h : t.to_vec.length = u.to_vec.length) (nonce : Bytes) :
    node.maybe_encrypt_task t card nonce = node.maybe_encrypt_task u card nonce := by
  unfold LmaoNode.maybe_encrypt_task
  simp only [hown, hbundle, SessionKey.encrypt]
  rcases AgentIdentity.parse_public_key bundle.agent_pubkey with err | their_pubkey
  · rfl
  · simp only [hlen (own.shared_key their_pubkey) nonce _ _ h]

/-- The encrypted envelope of the task is longer than the threshold. -/
def TooLong (node : LmaoNode L F) (task : Task) (card : Option AgentCard)
    (nonces : Bytes × Bytes) : Prop :=
  ∃ e offload, node.maybe_encrypt_task task card nonces.1 = .ok e ∧ Offloads node e offload

/-- The storage answers both uploads with an error, or both with CIDs of one
length. -/
def AnswersAlike : Except StorageError String → Except StorageError String → Prop
  | .error _, .error _ => True
  | .ok cid, .ok cid' => SameLength cid cid'
  | _, _ => False

theorem recorded_inline (h : ¬ TooLong node task card nonces) :
    node.prepare_payload_recorded task card nonces =
      ([], (node.maybe_encrypt_task task card nonces.1).map A2AEnvelope.to_vec) := by
  unfold LmaoNode.prepare_payload_recorded
  rcases he : node.maybe_encrypt_task task card nonces.1 with err | e
  · rfl
  rcases hs : node.storage_offload with _ | offload
  · rfl
  have hshort : ¬ e.to_vec.length > offload.threshold_bytes :=
    fun hlong => h ⟨e, offload, he, hs, hlong⟩
  simp only [hshort, if_false, Except.map]

theorem recorded_offload {e : A2AEnvelope} {offload : StorageOffloadConfig}
    (he : node.maybe_encrypt_task task card nonces.1 = .ok e) (hoff : Offloads node e offload) :
    (node.prepare_payload_recorded task card nonces).1 = [task.to_vec] ∧
    (node.prepare_payload_recorded task card nonces).2.toOption =
      (offload.upload task.to_vec).toOption.bind fun cid =>
        ((node.maybe_encrypt_task (LmaoNode.slim_task task cid) card nonces.2).map
          A2AEnvelope.to_vec).toOption := by
  unfold LmaoNode.prepare_payload_recorded
  simp only [he, hoff.1, hoff.2, if_true]
  rcases offload.upload task.to_vec with err | cid
  · simp [Except.toOption]
  · simp [Except.toOption]

/-- The transport gets nothing that tells one text from another, and the
storage gets nothing at all, unless the encrypted envelope is longer than the
threshold. Then the storage gets the JSON text of the task as it is. -/
theorem text_leaves_encrypted_or_to_the_storage (hlen : LengthOnly L.prims)
    {own : AgentIdentity L.prims} {bundle : IntroBundle} (hown : node.identity = some own)
    (hbundle : card.bind AgentCard.intro_bundle = some bundle) {t u : Task} (halike : Alike t u)
    (nonces : Bytes × Bytes) :
    (¬ TooLong node t card nonces →
      node.handed t card nonces = node.handed u card nonces ∧
      (node.handed t card nonces).storage = []) ∧
    (TooLong node t card nonces →
      (node.handed t card nonces).storage = [t.to_vec] ∧
      (node.handed u card nonces).storage = [u.to_vec] ∧
      ∀ offload, node.storage_offload = some offload →
        AnswersAlike (offload.upload t.to_vec) (offload.upload u.to_vec) →
        (node.handed t card nonces).transport = (node.handed u card nonces).transport) := by
  have hsame := maybe_encrypt_task_alike hlen hown hbundle halike.length
  constructor
  · intro hshort
    have hshort' : ¬ TooLong node u card nonces := by
      rintro ⟨e, offload, he, hoff⟩
      exact hshort ⟨e, offload, (hsame nonces.1).trans he, hoff⟩
    simp only [LmaoNode.handed, recorded_inline hshort, recorded_inline hshort', hsame]
    exact ⟨trivial, trivial⟩
  · rintro ⟨e, offload, he, hoff⟩
    obtain ⟨hstored, hsent⟩ := recorded_offload he hoff
    obtain ⟨hstored', hsent'⟩ := recorded_offload ((hsame nonces.1).symm.trans he) hoff
    refine ⟨hstored, hstored', ?_⟩
    intro offload' ho hanswers
    cases hoff.1.symm.trans ho
    simp only [LmaoNode.handed, hsent, hsent']
    rcases hup : offload.upload t.to_vec with err | cid <;>
      rcases hup' : offload.upload u.to_vec with err' | cid' <;> rw [hup, hup'] at hanswers
    · simp only [Except.toOption, Option.bind_none]
    · exact hanswers.elim
    · exact hanswers.elim
    · -- Both slim tasks have lost the text, so only the CIDs tell them apart.
      have hslim : (LmaoNode.slim_task t cid).to_vec.length =
          (LmaoNode.slim_task u cid').to_vec.length := by
        rw [slim_task_of_erased halike.erased cid, slim_task_length u hanswers]
      simp only [Except.toOption, Option.bind_some,
        maybe_encrypt_task_alike hlen hown hbundle hslim]

theorem envelope_length_pos (e : A2AEnvelope) : 0 < e.to_vec.length := by
  rw [A2AEnvelope.to_vec_eq, json.Value.render_object, to_vec_append, List.length_append]
  exact Nat.add_pos_left (by decide) _

namespace Sample

/-- A cipher text of zeros. -/
def blinding : Primitives :=
  { tagging with aead_encrypt := fun _ _ plaintext => some (List.replicate plaintext.length 0) }

theorem blinding_lengthOnly : LengthOnly blinding := by
  intro key nonce p q h
  simp only [blinding, h]

noncomputable def blinding_libs : Libs := .strict (.ofTable [] []) blinding

def yes : Task := .new "task-1" "02alice" "02bob" "yes"

def nay : Task := .new "task-1" "02alice" "02bob" "nay"

theorem yes_nay_alike : Alike yes nay := ⟨rfl, by decide +kernel⟩

/-- A storage with a CID for one task and another for the rest. -/
def two_cids (threshold_bytes : Nat) : StorageOffloadConfig where
  upload x := .ok (if x = yes.to_vec then "z1" else "z2")
  download cid := .error (.Api 404 cid)
  threshold_bytes

noncomputable def blinding_node (threshold_bytes : Nat) :
    LmaoNode blinding_libs (IdSet fun _ => []) :=
  { LmaoNode.new "alice" "alice" "" [] (some ⟨[1]⟩) .default 0 with
    storage_offload := some (two_cids threshold_bytes) }

noncomputable def blinded_bob : LmaoNode blinding_libs (IdSet fun _ => []) :=
  .new "bob" "bob" "" [] (some ⟨[2]⟩) .default 0

theorem blinding_node_encrypts (threshold_bytes : Nat) (task : Task) (nonce : Bytes) :
    ∃ e, (blinding_node threshold_bytes).maybe_encrypt_task task (some blinded_bob.card) nonce =
      .ok e := by
  have hcan : CanSend (blinding_node threshold_bytes) := by
    refine ⟨fun _ _ _ => rfl, ?_⟩
    intro offload ho x
    cases ho
    exact ⟨_, rfl⟩
  have hkeys : Matching (blinding_node threshold_bytes) blinded_bob (some blinded_bob.card) := by
    intro own bundle _ hbundle
    cases hbundle
    refine ⟨⟨[2]⟩, rfl, ?_⟩
    simp only [AgentIdentity.parse_public_key, IntroBundle.new, AgentIdentity.public_key_hex,
      hex_decode_encode]
    exact if_pos rfl
  exact maybe_encrypt_task_ok hcan hkeys task nonce

/-- What the preparation of the task for bob hands out, with a threshold of 0. -/
noncomputable def blinded (task : Task) : Handed :=
  (blinding_node 0).handed task (some blinded_bob.card) two_nonces

theorem blinded_storage (task : Task) : (blinded task).storage = [task.to_vec] := by
  obtain ⟨e, he⟩ := blinding_node_encrypts 0 task two_nonces.1
  exact (recorded_offload he ⟨rfl, envelope_length_pos e⟩).1

end Sample

/-- With an identity on both sides, a threshold of 0 and a cipher that tells no
more than a length, two texts of one length are told apart by what the storage
gets. -/
theorem the_storage_tells_yes_from_nay :
    LengthOnly Sample.blinding_libs.prims ∧ (Sample.blinding_node 0).identity = some ⟨[1]⟩ ∧
    (∃ bundle, Sample.blinded_bob.card.intro_bundle = some bundle) ∧
    Alike Sample.yes Sample.nay ∧
    (Sample.blinding_node 0).handed Sample.yes (some Sample.blinded_bob.card) Sample.two_nonces ≠
      (Sample.blinding_node 0).handed Sample.nay (some Sample.blinded_bob.card)
        Sample.two_nonces := by
  refine ⟨Sample.blinding_lengthOnly, rfl, ⟨_, rfl⟩, Sample.yes_nay_alike, ?_⟩
  intro hsame
  have hstored : (Sample.blinded Sample.yes).storage = (Sample.blinded Sample.nay).storage :=
    congrArg Handed.storage hsame
  rw [Sample.blinded_storage, Sample.blinded_storage, List.cons.injEq] at hstored
  exact absurd (Task.to_vec_injective hstored.1) (by decide)

/-- The transport gets the same bytes for both. -/
theorem the_transport_does_not_tell_yes_from_nay :
    TooLong (Sample.blinding_node 0) Sample.yes (some Sample.blinded_bob.card)
      Sample.two_nonces ∧
    (Sample.blinded Sample.yes).storage = [Sample.yes.to_vec] ∧
    (Sample.blinded Sample.yes).transport = (Sample.blinded Sample.nay).transport := by
  obtain ⟨e, he⟩ := Sample.blinding_node_encrypts 0 Sample.yes Sample.two_nonces.1
  have hlong : TooLong (Sample.blinding_node 0) Sample.yes (some Sample.blinded_bob.card)
      Sample.two_nonces := ⟨e, Sample.two_cids 0, he, rfl, envelope_length_pos e⟩
  have hown : (Sample.blinding_node 0).identity = some ⟨[1]⟩ := rfl
  have hbundle : (some Sample.blinded_bob.card).bind AgentCard.intro_bundle =
      some (IntroBundle.new (AgentIdentity.public_key_hex (P := Sample.blinding) ⟨[2]⟩)) := rfl
  have hlaw := text_leaves_encrypted_or_to_the_storage Sample.blinding_lengthOnly hown hbundle
    Sample.yes_nay_alike Sample.two_nonces
  obtain ⟨hstored, -, hsent⟩ := hlaw.2 hlong
  refine ⟨hlong, hstored, hsent (Sample.two_cids 0) rfl ?_⟩
  simp only [Sample.two_cids, AnswersAlike, SameLength]
  split_ifs <;> decide

end lmao.node
