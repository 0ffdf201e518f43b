-- Panics that a peer can reach from the task topic: a filter in a message
-- tests a bit that it does not have, an encrypted task carries a nonce that is
-- not 12 bytes long, and, in a build with overflow checks, a timestamp is at the
-- end of its range.
import Lmao.ExactlyOnce
import Lmao.Poll

set_option linter.unusedSectionVars false

namespace lmao.node

open sds crypto sds.MessageChannel

variable {L : Libs} {F : Type} [IdFilter F]

/-! ## The filter of a message -/

theorem retain_unacked_panics_iff (contains : MessageId → Except Panic Bool) (threshold : Nat)
    (ms : List ContentMessage) (acks : AList fun _ : MessageId => Nat) :
    (∃ p, retain_unacked contains threshold ms acks = .error p) ↔
      ∃ m ∈ ms, ∃ p, contains m.message_id = .error p := by
  induction ms generalizing acks with
  | nil => simp [retain_unacked]
  | cons m ms ih =>
    unfold retain_unacked
    rcases hc : contains m.message_id with p | b
    · simp [hc, bind, Except.bind]
    · have hhead : ¬ ∃ p, contains m.message_id = .error p := by simp [hc]
      simp only [List.exists_mem_cons_iff, hhead, false_or]
      cases b with
      | true =>
        simp only [bind, Except.bind, if_true]
        split
        · exact ih _
        · rw [← ih (acks.insert m.message_id ((acks.lookup m.message_id).getD 0 + 1))]
          rcases retain_unacked contains threshold ms
            (acks.insert m.message_id ((acks.lookup m.message_id).getD 0 + 1)) with p | r
          · simp
          · simp [pure, Except.pure]
      | false =>
        rw [← ih acks]
        rcases retain_unacked contains threshold ms acks with p | r
        · simp [bind, Except.bind]
        · simp [bind, Except.bind, pure, Except.pure]

theorem check_outgoing_acks_panics_iff (B : Build) (ch : MessageChannel F) (bytes : Bytes) :
    (∃ p, ch.check_outgoing_acks B bytes = .error p) ↔
      ∃ remote_bloom, B.from_bytes bytes = some remote_bloom ∧
        ∃ out ∈ ch.outgoing_buffer,
          ∃ p, B.probably_contains remote_bloom out.message_id = .error p := by
  unfold check_outgoing_acks
  rcases B.from_bytes bytes with _ | remote_bloom
  · simp
  · simp only [Option.some.injEq, exists_eq_left']
    rw [← retain_unacked_panics_iff _ ch.config.possible_acks_threshold _ ch.possible_acks]
    rcases retain_unacked (B.probably_contains remote_bloom) ch.config.possible_acks_threshold
      ch.outgoing_buffer ch.possible_acks with p | r
    · simp [bind, Except.bind]
    · simp [bind, Except.bind, pure, Except.pure]

/-- The filter in the message tests a bit that it does not have, on the id of a
message in the outgoing buffer. -/
def BadFilter (sip : Bloom.SipHash) (ch : MessageChannel F) (msg : SdsMessage) : Prop :=
  ∃ bytes bloom, msg.bloom_filter_bytes = some bytes ∧ Bloom.from_bytes bytes = some bloom ∧
    ∃ out ∈ ch.outgoing_buffer, bloom.TestsMissingBit sip out.message_id

/-- The message is one that the channel does not know, and it has a bad filter,
or, with overflow checks, a timestamp at the end of its range. -/
def BadSds (sip : Bloom.SipHash) (overflow_checks : Bool) (w : Wire) (ch : MessageChannel F)
    (raw : Bytes) : Prop :=
  ∃ msg, w.sds_from_slice raw = some msg ∧ check ch.bloom msg.message_id = false ∧
    (BadFilter sip ch msg ∨ overflow_checks = true ∧ ch.clock_overflows msg = true)

theorem clock_overflows_acks (ch : MessageChannel F) (outgoing : List ContentMessage)
    (acks : AList fun _ : MessageId => Nat) (msg : SdsMessage) :
    clock_overflows { ch with outgoing_buffer := outgoing, possible_acks := acks } msg =
      ch.clock_overflows msg := by
  cases msg <;> rfl

theorem overflow_panics_iff (checks : Bool) (ch : MessageChannel F) (msg : SdsMessage) :
    (∃ p, (if checks && ch.clock_overflows msg then Except.error Panic.add_overflow
        else Except.ok (ch.receive_message msg)) = Except.error p) ↔
      checks = true ∧ ch.clock_overflows msg = true := by
  rw [← Bool.and_eq_true]
  by_cases h : (checks && ch.clock_overflows msg) = true
  · simp [h]
  · simp [h]

theorem receive_panics_iff {sip : Bloom.SipHash} {checks : Bool} {w : Wire}
    {ch : MessageChannel F} {raw : Bytes} :
    (∃ p, ch.receive (wireBlooms sip checks) w raw = .error p) ↔ BadSds sip checks w ch raw := by
  unfold receive BadSds
  rcases w.sds_from_slice raw with _ | msg
  · simp
  · by_cases hdup : check ch.bloom msg.message_id = true
    · simp [hdup]
    · rw [Bool.not_eq_true] at hdup
      simp only [hdup, Bool.false_eq_true, if_false, Option.some.injEq, exists_eq_left', true_and,
        bind, Except.bind, pure, Except.pure]
      rcases hb : msg.bloom_filter_bytes with _ | bytes
      · have hfilter : ¬ BadFilter sip ch msg := by
          rintro ⟨bytes, bloom, hbytes, -⟩
          rw [hb] at hbytes
          cases hbytes
        simp only [hfilter, false_or]
        exact overflow_panics_iff checks ch msg
      · have hfilter : BadFilter sip ch msg ↔
            ∃ p, ch.check_outgoing_acks (wireBlooms sip checks) bytes = .error p := by
          rw [check_outgoing_acks_panics_iff]
          simp only [BadFilter, hb, Option.some.injEq, exists_and_left, exists_eq_left', wireBlooms,
            Bloom.check_panics_iff]
        rw [hfilter]
        rcases hacks : ch.check_outgoing_acks (wireBlooms sip checks) bytes with p | ch'
        · simp [hacks]
        · obtain ⟨outgoing, acks, rfl⟩ := check_outgoing_acks_frame hacks
          simp only [hacks, reduceCtorEq, exists_false, false_or]
          rw [← clock_overflows_acks ch outgoing acks]
          exact overflow_panics_iff checks _ msg

theorem take_message_panics_iff {sip : Bloom.SipHash} {checks : Bool} {ch : MessageChannel F}
    {msg : Bytes} :
    (∃ p, LmaoNode.take_message L (wireBlooms sip checks) ch msg = .error p) ↔
      BadSds sip checks L.wire ch msg := by
  rw [← receive_panics_iff]
  unfold LmaoNode.take_message
  rcases ch.receive (wireBlooms sip checks) L.wire msg with p | ⟨ch', delivered⟩
  · simp [bind, Except.bind]
  · simp only [bind, Except.bind, pure, Except.pure]
    refine iff_of_false ?_ (by simp)
    rintro ⟨p, hp⟩
    split at hp
    · split at hp
      · cases hp
      · split at hp <;> cases hp
    · cases hp

/-! ## The nonce of an encrypted task -/

/-- An encrypted task that reaches the decryption with a nonce of the wrong
length: the node has an identity, and the key of the sender is well formed. -/
def BadEnvelope (node : LmaoNode L F) : A2AEnvelope → Prop
  | .EncryptedTask encrypted sender_pubkey =>
    node.identity.isSome ∧ (∃ key, AgentIdentity.parse_public_key sender_pubkey = .ok key) ∧
      SessionKey.BadNonce encrypted
  | _ => False

/-- The payload that arrives holds such a task. -/
def BadArrival (node : LmaoNode L F) : LmaoNode.Arrival → Prop
  | .content m => ∃ e, L.envelope_from_slice m.content = some e ∧ BadEnvelope node e
  | .envelope e => BadEnvelope node e

theorem fetch_never_panics (node : LmaoNode L F) (task : Task) (p : Panic) :
    Stop.lift (node.maybe_fetch_offloaded task) ≠ .error (.panic p) := by
  rcases node.maybe_fetch_offloaded task with e | extracted
  · rintro ⟨⟩
  · rintro ⟨⟩

theorem decrypt_task_panics_iff (identity : AgentIdentity L.prims) (sender_pubkey : String)
    (encrypted : EncryptedPayload) :
    (∃ p, LmaoNode.decrypt_task identity sender_pubkey encrypted = .error p) ↔
      (∃ key, AgentIdentity.parse_public_key sender_pubkey = .ok key) ∧
        SessionKey.BadNonce encrypted := by
  unfold LmaoNode.decrypt_task
  rcases AgentIdentity.parse_public_key sender_pubkey with e | key
  · simp
  · have hiff := SessionKey.decrypt_panics_iff L.prims (identity.shared_key key) encrypted
    simp only [Except.ok.injEq, exists_eq', true_and]
    rw [← hiff]
    rcases SessionKey.decrypt L.prims (identity.shared_key key) encrypted with p | (e | plaintext)
    · simp
    · simp
    · refine iff_of_false ?_ (by simp)
      rintro ⟨p, hp⟩
      rcases ht : L.task_from_slice plaintext with _ | task
      · simp [ht] at hp
      · simp [ht] at hp

theorem envelope_panics_iff (node : LmaoNode L F) (e : A2AEnvelope) :
    (∃ p, node.extract_task_from_envelope e = .error (.panic p)) ↔ BadEnvelope node e := by
  cases e with
  | EncryptedTask encrypted sender_pubkey =>
    unfold LmaoNode.extract_task_from_envelope BadEnvelope
    rcases hid : node.identity with _ | identity
    · simp
    · have hiff := decrypt_task_panics_iff identity sender_pubkey encrypted
      simp only [Option.isSome_some, true_and]
      rw [← hiff]
      rcases LmaoNode.decrypt_task identity sender_pubkey encrypted with p | (e | task)
      · simp
      · simp
      · refine iff_of_false ?_ (by simp)
        rintro ⟨p, hp⟩
        exact fetch_never_panics node task p hp
  | Task task =>
    refine iff_of_false ?_ id
    rintro ⟨p, hp⟩
    exact fetch_never_panics node task p hp
  | AgentCard card => simp [LmaoNode.extract_task_from_envelope, BadEnvelope]
  | Ack message_id => simp [LmaoNode.extract_task_from_envelope, BadEnvelope]
  | Presence announcement => simp [LmaoNode.extract_task_from_envelope, BadEnvelope]
  | StreamChunk chunk => simp [LmaoNode.extract_task_from_envelope, BadEnvelope]

theorem arrival_panics_iff (node : LmaoNode L F) (a : LmaoNode.Arrival) :
    (∃ p, node.extract_arrival a = .error (.panic p)) ↔ BadArrival node a := by
  cases a with
  | content m =>
    unfold LmaoNode.extract_arrival LmaoNode.extract_task BadArrival
    simp only
    rcases L.envelope_from_slice m.content with _ | e
    · simp
    · simpa using envelope_panics_iff node e
  | envelope e => exact envelope_panics_iff node e

/-- A cut of a list is in front of its head, or it cuts the tail. -/
theorem exists_cut_cons {α : Type} {Q : List α → α → Prop} {a : α} {l : List α} :
    (∃ before x after, a :: l = before ++ x :: after ∧ Q before x) ↔
      Q [] a ∨ ∃ before x after, l = before ++ x :: after ∧ Q (a :: before) x := by
  constructor
  · rintro ⟨before, x, after, hcut, hq⟩
    cases before with
    | nil =>
      cases hcut
      exact Or.inl hq
    | cons b before =>
      cases hcut
      exact Or.inr ⟨before, x, after, rfl, hq⟩
  · rintro (hq | ⟨before, x, after, rfl, hq⟩)
    · exact ⟨[], a, l, rfl, hq⟩
    · exact ⟨a :: before, x, after, rfl, hq⟩

theorem except_map_panics {α β : Type} {f : α → β} {x : Except Stop α} :
    (∃ p, x.map f = .error (.panic p)) ↔ ∃ p, x = .error (.panic p) := by
  cases x with
  | error stop => simp [Except.map]
  | ok a => simp [Except.map]

theorem except_map_returns {α β : Type} {f : α → β} {x : Except Stop α} :
    (∃ b, x.map f = .ok b) ↔ ∃ a, x = .ok a := by
  cases x with
  | error stop => simp [Except.map]
  | ok a => simp [Except.map]

/-- The first of the arrivals that stops the call stops it with a panic. -/
def BadArrivals (node : LmaoNode L F) (arrivals : List LmaoNode.Arrival) : Prop :=
  ∃ before a after, arrivals = before ++ a :: after ∧
    (∀ b ∈ before, ∃ extracted, node.extract_arrival b = .ok extracted) ∧ BadArrival node a

theorem arrivals_panic_iff (node : LmaoNode L F) (arrivals : List LmaoNode.Arrival) :
    (∃ p, (node.take_arrivals arrivals).2 = .error (.panic p)) ↔ BadArrivals node arrivals := by
  induction arrivals with
  | nil => simp [LmaoNode.take_arrivals, BadArrivals]
  | cons a rest ih =>
    have ha := arrival_panics_iff node a
    unfold BadArrivals
    rw [exists_cut_cons]
    unfold LmaoNode.take_arrivals
    rcases hx : node.extract_arrival a with stop | extracted
    · rw [hx] at ha
      simp only [Except.error.injEq] at ha ⊢
      simp [ha, hx]
    · have hgood : ¬ BadArrival node a := by
        rw [← ha, hx]
        rintro ⟨p, hp⟩
        cases hp
      simp only
      rw [except_map_panics, ih]
      simp [BadArrivals, hgood, hx]

/-! ## The call -/

/-- The message makes its turn panic, from the channel as it is then: by the
filter in it, or by a payload that comes out with it. -/
def BadMessage (sip : Bloom.SipHash) (checks : Bool) (node : LmaoNode L F)
    (ch : MessageChannel F) (msg : Bytes) : Prop :=
  BadSds sip checks L.wire ch msg ∨
    ∃ ch' arrivals, LmaoNode.take_message L (wireBlooms sip checks) ch msg = .ok (ch', arrivals) ∧
      BadArrivals node arrivals

theorem turn_panics_iff (sip : Bloom.SipHash) (checks : Bool) (node : LmaoNode L F)
    (ch : MessageChannel F) (msg : Bytes) :
    (∃ p, (node.turn (wireBlooms sip checks) ch msg).result = .error (.panic p)) ↔
      BadMessage sip checks node ch msg := by
  unfold LmaoNode.turn BadMessage
  rw [← take_message_panics_iff]
  rcases LmaoNode.take_message L (wireBlooms sip checks) ch msg with p | ⟨ch', arrivals⟩
  · simp
  · simpa using arrivals_panic_iff node arrivals

theorem turns_panic_iff (sip : Bloom.SipHash) (checks : Bool) (node : LmaoNode L F)
    (ch : MessageChannel F) (msgs : List Bytes) :
    (∃ p, (node.turns (wireBlooms sip checks) ch msgs).result = .error (.panic p)) ↔
      ∃ before msg after, msgs = before ++ msg :: after ∧
        (∃ tasks, (node.turns (wireBlooms sip checks) ch before).result = .ok tasks) ∧
        BadMessage sip checks node (node.turns (wireBlooms sip checks) ch before).channel msg := by
  induction msgs generalizing ch with
  | nil => simp [LmaoNode.turns]
  | cons m rest ih =>
    have hturn := turn_panics_iff sip checks node ch m
    rw [exists_cut_cons (Q := fun before msg =>
      (∃ tasks, (node.turns (wireBlooms sip checks) ch before).result = .ok tasks) ∧
        BadMessage sip checks node (node.turns (wireBlooms sip checks) ch before).channel msg)]
    rcases hm : (node.turn (wireBlooms sip checks) ch m).result with stop | tasks
    · rw [hm] at hturn
      simp only [Except.error.injEq] at hturn
      simp [hm, LmaoNode.turns, hturn]
    · have hgood : ¬ BadMessage sip checks node ch m := by
        rw [← hturn, hm]
        rintro ⟨p, hp⟩
        cases hp
      simp only [LmaoNode.turns_cons_ok hm]
      have hnil : (node.turns (wireBlooms sip checks) ch []).channel = ch := rfl
      rw [hnil]
      simp only [hgood, and_false, false_or, except_map_panics, except_map_returns]
      exact ih _

/-- An encrypted task from anyone, with a nonce of three bytes. -/
def Sample.short_nonce : A2AEnvelope :=
  .EncryptedTask { nonce := "AAAA", ciphertext := "" } (hex_encode (List.replicate 32 0))

/-- A sync message whose filter declares one round and a bitmap of no bits. -/
def Sample.no_bits : SyncMessage :=
  { message_id := "02", channel_id := "lmao-alice", sender_id := "alice"
    lamport_timestamp := 1, causal_history := []
    bloom_filter := some (List.replicate 8 0 ++ [1] ++ List.replicate 35 0), repair_request := [] }

def Sample.panic_libs : Libs :=
  .ofTables (.ofTable Sample.hashes [.Sync Sample.no_bits])
    { public_key := fun _ => []
      diffie_hellman := fun _ _ => []
      aead_encrypt := fun _ _ _ => none
      aead_decrypt := fun _ _ _ => none } [Sample.short_nonce] []

/-- A node with an identity. -/
def Sample.encrypted_node : LmaoNode Sample.panic_libs (IdSet fun _ => []) :=
  .new "02bob" "bob" "" [] (some ⟨[]⟩) .default 0

/-- The node after its channel has sent "hello". -/
def Sample.sending_node : LmaoNode Sample.panic_libs (IdSet fun _ => []) :=
  { Sample.encrypted_node with
    channel := (Sample.encrypted_node.channel.send Sample.panic_libs.wire "topic" (utf8 "hello")
      fun _ _ => .ok ()).1 }

end lmao.node
