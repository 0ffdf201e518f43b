-- Messages that wait although nothing is missing. Six places of the code put an
-- id in the filter. Three of them look at the incoming buffer afterwards, and
-- the sends, the ephemeral messages and the raw envelopes do not.
import Lmao.ExactlyOnce
import Lmao.Poll

set_option linter.unusedSectionVars false

namespace lmao.node

open machine sds sds.MessageChannel

variable {L : Libs} {F : Type} [IdFilter F]

/-! ## The machine -/

/-- A call on the channel of a node, or the turn of `poll_tasks` for one
message. -/
inductive NodeOp
  | call (op : ChannelOp)
  | poll (msg : Bytes)

/-- What a turn of `poll_tasks` does to the channel is done before its
payloads are looked at. -/
def nodeStep (L : Libs) (B : Build) (s : Session L.wire F) :
    NodeOp → Except Panic (Session L.wire F × List Event)
  | .call op => s.step B op
  | .poll msg => do
    let r ← LmaoNode.take_message L B s.channel msg
    return ({ s with channel := r.1 }, [])

/-- The message misses an id of its causal history. -/
def Stuck (f : F) : SdsMessage → Prop
  | .Content m => ¬ Satisfied f m
  | _ => True

instance (f : F) (msg : SdsMessage) : Decidable (Stuck f msg) := by
  cases msg <;> dsimp only [Stuck] <;> infer_instance

/-- No message waits that has all its dependencies in the filter. -/
def NoStranded (s : Session L.wire F) : Prop :=
  ∀ msg ∈ s.channel.incoming_buffer, Stuck s.channel.bloom msg

instance (s : Session L.wire F) : Decidable (NoStranded s) :=
  inferInstanceAs (Decidable (∀ msg ∈ _, _))

/-! ## The condition -/

/-- The id that a call puts in the filter without a look at the buffer. -/
def bareInsert (L : Libs) (s : Session L.wire F) : NodeOp → Option MessageId
  | .call (.send topic payload publish) =>
    (s.channel.send L.wire topic payload publish).2.toOption.map (·.message_id)
  | .call (.send_reliable topic payload t) =>
    (s.channel.send_reliable L.wire topic payload t).result.toOption.map (·.1.message_id)
  | .call (.end_send k) => s.in_flight[k]?.map (·.1.message_id)
  | .call (.end_reliable k) => s.in_flight[k]?.map (·.1.message_id)
  | .call (.receive raw) =>
    match L.wire.sds_from_slice raw with
    | some (.Ephemeral e) => if check s.channel.bloom e.message_id then none else some e.message_id
    | _ => none
  | .call _ => none
  | .poll msg =>
    match L.wire.sds_from_slice msg, L.envelope_from_slice msg with
    | some (.Ephemeral e), _ =>
      if check s.channel.bloom e.message_id then none else some e.message_id
    | none, some _ =>
      if check s.channel.bloom (L.wire.compute_message_id msg) then none
      else some (L.wire.compute_message_id msg)
    | _, _ => none

/-- The id that the call puts in the filter, if it does not look at the buffer
afterwards, is not the last one that a waiting message misses. -/
def LeavesNothingReady (L : Libs) (s : Session L.wire F) (op : NodeOp) : Prop :=
  ∀ id ∈ bareInsert L s op, ∀ msg ∈ s.channel.incoming_buffer, Stuck (set s.channel.bloom id) msg

instance (s : Session L.wire F) (op : NodeOp) : Decidable (LeavesNothingReady L s op) :=
  inferInstanceAs (Decidable (∀ id ∈ bareInsert L s op, _))

/-- An `SdsMessage` and an `A2AEnvelope` have no `type` tag in common, so no
text is both. -/
def TagsApart (L : Libs) : Prop :=
  ∀ raw msg, L.wire.sds_from_slice raw = some msg → L.envelope_from_slice raw = none

/-! ## One call -/

theorem resolved_stuck {f : F} {buf rest : List SdsMessage} {ds : List ContentMessage}
    (h : Resolved f buf ds rest) : ∀ msg ∈ rest, Stuck (setAll f (idsOf ds)) msg := by
  intro msg hmsg
  cases msg with
  | Content m => exact h.stuck m hmsg
  | Sync m => trivial
  | Ephemeral m => trivial

/-- After a content or a sync message nothing is left that is ready. -/
theorem received_stuck {f f' : F} {buf buf' : List SdsMessage} {msg : SdsMessage}
    {out : List ContentMessage} (h : Received f buf msg f' buf' out)
    (hmsg : ∀ e, msg ≠ .Ephemeral e) : ∀ msg ∈ buf', Stuck f' msg := by
  cases h with
  | direct _ hres =>
    have hstuck := resolved_stuck hres
    exact hstuck
  | parked _ hres => exact resolved_stuck hres
  | sync hres => exact resolved_stuck hres
  | ephemeral => exact absurd rfl (hmsg _)

/-- What a call of `receive` leaves is ready only through an ephemeral
message. -/
theorem receive_stuck_iff {B : Build} {ch ch' : MessageChannel F} {raw : Bytes}
    {out : List ContentMessage} (h : ch.receive B L.wire raw = .ok (ch', out))
    (hbefore : ∀ msg ∈ ch.incoming_buffer, Stuck ch.bloom msg) :
    (∀ msg ∈ ch'.incoming_buffer, Stuck ch'.bloom msg) ↔
      ∀ e, L.wire.sds_from_slice raw = some (.Ephemeral e) →
        check ch.bloom e.message_id = false →
        ∀ msg ∈ ch.incoming_buffer, Stuck (set ch.bloom e.message_id) msg := by
  rcases receive_received h with ⟨rfl, -, hdrop⟩ | ⟨msg, hmsg, hnew, hrec⟩
  · apply iff_of_true hbefore
    intro e he hnew
    have hknown := hdrop _ he
    rw [show SdsMessage.message_id (.Ephemeral e) = e.message_id from rfl, hnew] at hknown
    cases hknown
  · by_cases heph : ∃ e, msg = .Ephemeral e
    · obtain ⟨e, rfl⟩ := heph
      generalize hbloom : ch'.bloom = f', hbuf : ch'.incoming_buffer = buf' at hrec ⊢
      cases hrec
      constructor
      · intro hafter e' he' _
        rw [hmsg, Option.some.injEq, SdsMessage.Ephemeral.injEq] at he'
        rw [← he']
        exact hafter
      · intro hcond
        exact hcond e hmsg hnew
    · push Not at heph
      apply iff_of_true (received_stuck hrec heph)
      intro e he
      rw [hmsg, Option.some.injEq] at he
      exact absurd he (heph e)

/-- The condition of a `receive` in terms of its message. -/
theorem leaves_receive_iff (s : Session L.wire F) (raw : Bytes) :
    LeavesNothingReady L s (.call (.receive raw)) ↔
      ∀ e, L.wire.sds_from_slice raw = some (.Ephemeral e) →
        check s.channel.bloom e.message_id = false →
        ∀ msg ∈ s.channel.incoming_buffer, Stuck (set s.channel.bloom e.message_id) msg := by
  unfold LeavesNothingReady bareInsert
  simp only
  split
  · rename_i e he
    by_cases hknown : check s.channel.bloom e.message_id = true
    · simp [he, hknown]
    · simp [he, hknown]
  · rename_i hother
    simp only [Option.not_mem_none, false_implies, implies_true, true_iff]
    intro e he
    exact absurd he (hother e)

/-- An SDS message is the same to a poll and to a call of `receive`. -/
theorem bareInsert_poll {s : Session L.wire F} {msg : Bytes} {sm : SdsMessage}
    (h : L.wire.sds_from_slice msg = some sm) :
    bareInsert L s (.poll msg) = bareInsert L s (.call (.receive msg)) := by
  simp only [bareInsert, h]
  cases sm with
  | Content m => rcases L.envelope_from_slice msg with _ | e <;> rfl
  | Sync m => rcases L.envelope_from_slice msg with _ | e <;> rfl
  | Ephemeral m => rfl

/-- What a call other than a `receive` puts in the filter is the id of its
event. -/
theorem bareInsert_call {B : Build} {s s' : Session L.wire F} {op : ChannelOp} {ev : List Event}
    (hop : ∀ raw, op ≠ .receive raw) (h : s.step B op = .ok (s', ev)) :
    bareInsert L s (.call op) = (logIds ev).head? := by
  cases op with
  | send topic payload publish =>
    cases h
    simp only [bareInsert]
    rcases (s.channel.send L.wire topic payload publish).2 with e | m
    · rfl
    · rfl
  | send_reliable topic payload t =>
    cases h
    simp only [bareInsert]
    rcases (s.channel.send_reliable L.wire topic payload t).result with e | m
    · rfl
    · rfl
  | send_sync topic publish =>
    cases h
    rfl
  | send_ephemeral topic payload publish =>
    cases h
    rfl
  | receive raw => exact absurd rfl (hop raw)
  | start payload =>
    cases h
    rfl
  | end_send k =>
    simp only [Session.step] at h
    simp only [bareInsert]
    rcases hk : s.in_flight[k]? with _ | m
    · rw [hk] at h
      cases h
      rfl
    · rw [hk] at h
      cases h
      rfl
  | end_reliable k =>
    simp only [Session.step] at h
    simp only [bareInsert]
    rcases hk : s.in_flight[k]? with _ | m
    · rw [hk] at h
      cases h
      rfl
    · rw [hk] at h
      cases h
      rfl

theorem call_stranded_iff {B : Build} {s s' : Session L.wire F} {op : ChannelOp}
    {ev : List Event} (h : s.step B op = .ok (s', ev)) (hs : NoStranded s) :
    NoStranded s' ↔ LeavesNothingReady L s (.call op) := by
  by_cases hop : ∃ raw, op = .receive raw
  · obtain ⟨raw, rfl⟩ := hop
    simp only [Session.step] at h
    rcases hr : s.channel.receive B L.wire raw with e | ⟨ch', out⟩
    · simp [hr, bind, Except.bind] at h
    · simp only [hr, bind, Except.bind, pure, Except.pure, Except.ok.injEq, Prod.mk.injEq] at h
      obtain ⟨rfl, -⟩ := h
      rw [leaves_receive_iff]
      exact receive_stuck_iff hr hs
  · have hbare := bareInsert_call (fun raw heq => hop ⟨raw, heq⟩) h
    have heff := Session.step_effect h
    unfold NoStranded LeavesNothingReady
    rw [hbare]
    generalize s'.channel.bloom = f' at heff ⊢
    generalize s'.channel.incoming_buffer = buf' at heff ⊢
    cases heff with
    | quiet _ => exact iff_of_true hs (by simp)
    | sent _ _ => simp [logIds, Event.id]
    | received _ _ _ => exact absurd ⟨_, rfl⟩ hop

theorem poll_stranded_iff {B : Build} (htags : TagsApart L) {s s' : Session L.wire F}
    {msg : Bytes} {ev : List Event} (h : nodeStep L B s (.poll msg) = .ok (s', ev))
    (hs : NoStranded s) : NoStranded s' ↔ LeavesNothingReady L s (.poll msg) := by
  simp only [nodeStep] at h
  rcases hsds : L.wire.sds_from_slice msg with _ | sm
  · -- No SDS message: only a raw envelope can touch the filter.
    rw [LmaoNode.take_message_raw hsds] at h
    simp only [LeavesNothingReady, bareInsert, hsds]
    rcases henv : L.envelope_from_slice msg with _ | envelope
    · rw [henv] at h
      cases h
      exact iff_of_true hs (by simp)
    · by_cases hdup : check s.channel.bloom (L.wire.compute_message_id msg) = true
      · simp only [henv, hdup, if_true] at h
        cases h
        exact iff_of_true hs (by simp [hdup])
      · simp only [henv, hdup, Bool.false_eq_true, if_false] at h
        cases h
        simp only [hdup, Bool.false_eq_true, if_false, Option.mem_def, Option.some.injEq,
          forall_eq']
        exact Iff.rfl
  · have henv := htags msg sm hsds
    rw [LmaoNode.take_message_channel henv] at h
    rcases hr : s.channel.receive B L.wire msg with e | ⟨ch', out⟩
    · simp [hr, bind, Except.bind, Except.map] at h
    · simp only [hr, Except.map, bind, Except.bind, pure, Except.pure, Except.ok.injEq,
        Prod.mk.injEq] at h
      obtain ⟨rfl, -⟩ := h
      unfold LeavesNothingReady
      rw [bareInsert_poll hsds]
      exact (receive_stuck_iff hr hs).trans (leaves_receive_iff s msg).symm

theorem step_stranded_iff {B : Build} (htags : TagsApart L) {s s' : Session L.wire F}
    {op : NodeOp} {ev : List Event} (h : nodeStep L B s op = .ok (s', ev)) (hs : NoStranded s) :
    NoStranded s' ↔ LeavesNothingReady L s op := by
  cases op with
  | call op => exact call_stranded_iff h hs
  | poll msg => exact poll_stranded_iff htags h hs

theorem nodeStep_returns (dec : Bytes → Option (Finset MessageId)) (s : Session L.wire F)
    (op : NodeOp) : ∃ s' ev, nodeStep L (exactBlooms dec) s op = .ok (s', ev) := by
  cases op with
  | call op =>
    obtain ⟨⟨s', ev⟩, h⟩ := Session.step_exact_returns dec s op
    exact ⟨s', ev, h⟩
  | poll msg =>
    obtain ⟨⟨ch', arrivals⟩, h⟩ := LmaoNode.take_message_returns dec L s.channel msg
    simp only [nodeStep, h]
    exact ⟨_, _, rfl⟩

/-! ## The law -/

/-- No message is stranded in any state of a run exactly if every id that a
call puts in the filter without a look at the buffer leaves nothing ready
there. -/
theorem nothing_is_stranded_iff {enc : Finset MessageId → Bytes}
    (dec : Bytes → Option (Finset MessageId)) (L : Libs) (htags : TagsApart L)
    (channel_id : ChannelId) (sender_id : ParticipantId) (config : ChannelConfig)
    (now_ms : UInt64) (ops : List NodeOp) :
    Always (nodeStep L (exactBlooms dec)) NoStranded
      (Session.new L.wire (with_config channel_id sender_id config now_ms :
        MessageChannel (IdSet enc))) ops ↔
    Meets (nodeStep L (exactBlooms dec)) (fun _ s op => LeavesNothingReady L s op)
      (Session.new L.wire (with_config channel_id sender_id config now_ms :
        MessageChannel (IdSet enc))) ops := by
  apply always_iff_meets (J := fun _ => True) trivial
  · intro msg hmsg
    cases hmsg
  · intro s op _
    obtain ⟨s', ev, h⟩ := nodeStep_returns dec s op
    exact ⟨s', ev, h, trivial⟩
  · intro s op s' ev _ hs h
    exact step_stranded_iff htags h hs

/-! ## Two runs -/

theorem tagsApart_ofTables {hashes : List (Bytes × MessageId)} {msgs : List SdsMessage}
    {prims : crypto.Primitives} {envelopes : List A2AEnvelope} {tasks : List Task}
    (h : ∀ m ∈ msgs, ∀ e ∈ envelopes, e.to_vec ≠ m.to_vec) :
    TagsApart (Libs.ofTables (.ofTable hashes msgs) prims envelopes tasks) := by
  intro raw msg hmsg
  simp only [Libs.ofTables, Wire.ofTable] at hmsg ⊢
  have hmem := List.mem_of_find?_eq_some hmsg
  have heq := List.find?_some hmsg
  rw [decide_eq_true_eq] at heq
  rw [List.find?_eq_none]
  intro e he
  rw [decide_eq_true_eq, ← heq]
  exact h msg hmem e he

/-- An ACK envelope, as a node without SDS would send it on the topic. -/
def Sample.ack : A2AEnvelope := .Ack Sample.hello_id

def Sample.libs : Libs :=
  .ofTables Sample.wire
    { public_key := fun _ => []
      diffie_hellman := fun _ _ => []
      aead_encrypt := fun _ _ _ => none
      aead_decrypt := fun _ _ _ => none } [Sample.ack] []

theorem Sample.libs_tagsApart : TagsApart Sample.libs := tagsApart_ofTables (by decide +kernel)

abbrev Sample.node_step (s : Session Sample.libs.wire (IdSet fun _ => [])) (op : NodeOp) :=
  nodeStep Sample.libs (exactBlooms fun _ => none) s op

/-- "world" waits while a raw envelope comes in, and then comes "hello". -/
def Sample.envelope_while_waiting : List NodeOp :=
  [.call (.receive (SdsMessage.to_vec (.Content Sample.world))), .poll Sample.ack.to_vec,
    .call (.receive (SdsMessage.to_vec (.Content Sample.hello)))]

theorem an_envelope_strands_nothing :
    TagsApart Sample.libs ∧
    (Always Sample.node_step NoStranded (Session.new Sample.libs.wire Sample.bob)
        Sample.envelope_while_waiting ↔
      Meets Sample.node_step (fun _ s op => LeavesNothingReady Sample.libs s op)
        (Session.new Sample.libs.wire Sample.bob) Sample.envelope_while_waiting) ∧
    Meets Sample.node_step (fun _ s op => LeavesNothingReady Sample.libs s op)
      (Session.new Sample.libs.wire Sample.bob) Sample.envelope_while_waiting :=
  ⟨Sample.libs_tagsApart, nothing_is_stranded_iff _ _ Sample.libs_tagsApart _ _ _ _ _,
    by decide +kernel⟩

/-- "world" waits for "hello", and the channel itself sends "hello". -/
def Sample.send_while_waiting : List NodeOp :=
  [.call (.receive (SdsMessage.to_vec (.Content Sample.world))),
    .call (.send "/lmao/1/task-02dave/proto" (utf8 "hello") fun _ _ => .ok ())]

theorem a_send_strands_a_message :
    ¬ Always Sample.node_step NoStranded (Session.new Sample.libs.wire Sample.bob)
      Sample.send_while_waiting := by
  have hrun : Returns (run Sample.node_step (Session.new Sample.libs.wire Sample.bob)
      Sample.send_while_waiting) fun r => ¬ NoStranded r.1 := by
    decide +kernel
  obtain ⟨⟨s, log⟩, hr, hstranded⟩ := hrun
  intro halways
  exact hstranded (halways Sample.send_while_waiting [] rfl s log hr)

end lmao.node
