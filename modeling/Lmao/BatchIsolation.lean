-- Bad messages in a batch. `poll_tasks` takes the messages of a batch one by
-- one, through one channel. The laws below compare the call on a batch with the
-- call on the batch without its bad messages: a simulation that holds while
-- no message is stranded and the buffer has room.
import Lmao.Stranded
import Lmao.Suppression

set_option linter.unusedSectionVars false

namespace lmao.node

open machine greedy sds sds.MessageChannel

variable {L : Libs} {F : Type} [IdFilter F] {enc : Finset MessageId → Bytes}

/-! ## Bad messages -/

/-- The id under which the filter remembers a message that can be read. -/
def idOf (L : Libs) (raw : Bytes) : Option MessageId :=
  match L.wire.sds_from_slice raw with
  | some msg => some msg.message_id
  | none => (L.envelope_from_slice raw).map fun _ => L.wire.compute_message_id raw

/-- What a message carries. -/
def carried (L : Libs) (raw : Bytes) : Option LmaoNode.Arrival :=
  match L.wire.sds_from_slice raw with
  | some (.Content m) => some (.content m)
  | some _ => none
  | none => (L.envelope_from_slice raw).map .envelope

/-- The message cannot be read, or no task can be had from what it carries, as
from a payload that does not decrypt. -/
def Bad (node : LmaoNode L F) (raw : Bytes) : Prop :=
  idOf L raw = none ∨ ∃ a ∈ carried L raw, node.extract_arrival a = .ok none

instance (node : LmaoNode L F) (raw : Bytes) : Decidable (Bad node raw) :=
  inferInstanceAs (Decidable (_ ∨ _))

/-- What the message carries is read to the end: no fetch from the storage
fails, and no nonce has a wrong length. -/
def Readable (node : LmaoNode L F) (raw : Bytes) : Prop :=
  ∀ a ∈ carried L raw, Returns (node.extract_arrival a) fun _ => True

instance (node : LmaoNode L F) (raw : Bytes) : Decidable (Readable node raw) :=
  inferInstanceAs (Decidable (∀ a ∈ carried L raw, _))

/-- The ids of the bad messages of a batch. -/
def badIds (L : Libs) (bad : Bytes → Bool) (msgs : List Bytes) : List MessageId :=
  (msgs.filter bad).filterMap (idOf L)

/-- No other message has or needs the id of a bad one. -/
structure Separate (node : LmaoNode L F) (bad : Bytes → Bool) (msgs : List Bytes) : Prop where
  ids : ∀ raw ∈ msgs, bad raw = false → ∀ id ∈ idOf L raw, id ∉ badIds L bad msgs
  needs : ∀ raw ∈ msgs, bad raw = false → ∀ m ∈ contentOf L.wire (.receive raw),
    ∀ id ∈ deps m, id ∉ badIds L bad msgs
  waiting : ∀ msg ∈ node.channel.incoming_buffer, msg.message_id ∉ badIds L bad msgs
  waiting_needs : ∀ m, SdsMessage.Content m ∈ node.channel.incoming_buffer →
    ∀ id ∈ deps m, id ∉ badIds L bad msgs

/-- The buffer has room, and no message in it is ready. -/
def Calm (ch : MessageChannel F) : Prop :=
  ch.incoming_buffer.length < INCOMING_BUFFER_MAX ∧ ∀ msg ∈ ch.incoming_buffer, Stuck ch.bloom msg

instance (ch : MessageChannel F) : Decidable (Calm ch) := inferInstanceAs (Decidable (_ ∧ _))

/-- The channel is calm whenever the loop comes to a message. -/
def CalmTurns (B : Build) (node : LmaoNode L F) : MessageChannel F → List Bytes → Prop
  | _, [] => True
  | ch, msg :: rest => Calm ch ∧ CalmTurns B node (node.turn B ch msg).channel rest

instance CalmTurns.decidable (B : Build) (node : LmaoNode L F) :
    ∀ (ch : MessageChannel F) (msgs : List Bytes), Decidable (CalmTurns B node ch msgs)
  | _, [] => isTrue trivial
  | ch, msg :: rest =>
    @instDecidableAnd _ _ inferInstance
      (CalmTurns.decidable B node (node.turn B ch msg).channel rest)

/-! ## The simulation -/

variable {X : List MessageId} {node : LmaoNode L (IdSet enc)}
  {ch ch' c c' : MessageChannel (IdSet enc)}

/-- The message is bad and gives no task, or it needs no bad one. -/
structure Fine (X : List MessageId) (node : LmaoNode L F) (m : ContentMessage) : Prop where
  readable : Returns (node.extract_task m.content) fun _ => True
  bad : m.message_id ∈ X → node.extract_task m.content = .ok none
  needs : m.message_id ∉ X → ∀ id ∈ deps m, id ∉ X

/-- The filters agree outside of the bad ids `X`. -/
def Agree (X : List MessageId) (ch ch' : MessageChannel (IdSet enc)) : Prop :=
  ∀ id, id ∉ X → (id ∈ ch.bloom.ids ↔ id ∈ ch'.bloom.ids)

def keeps (X : List MessageId) (msg : SdsMessage) : Bool := decide (msg.message_id ∉ X)

def keepsContent (X : List MessageId) (m : ContentMessage) : Bool := decide (m.message_id ∉ X)

/-- The second channel is the first one without the bad messages. -/
structure Tracks (X : List MessageId) (node : LmaoNode L (IdSet enc))
    (ch ch' : MessageChannel (IdSet enc)) : Prop where
  agree : Agree X ch ch'
  buffer : ch'.incoming_buffer = ch.incoming_buffer.filter (keeps X)
  fine : ∀ m, SdsMessage.Content m ∈ ch.incoming_buffer → Fine X node m

theorem Agree.satisfied (h : Agree X ch ch') {m : ContentMessage} (hm : ∀ id ∈ deps m, id ∉ X) :
    Satisfied ch.bloom m ↔ Satisfied ch'.bloom m := by
  unfold Satisfied
  apply forall₂_congr
  intro id hid
  rw [check_idSet, check_idSet]
  exact h id (hm id hid)

theorem Agree.mark_both (h : Agree X ch ch') (id : MessageId) (ts ts' : UInt64) :
    Agree X (ch.mark id ts) (ch'.mark id ts') := by
  intro x hx
  simp only [mark_bloom, set_idSet, Finset.mem_insert]
  rw [h x hx]

theorem Agree.mark_bad (h : Agree X ch ch') {id : MessageId} (hid : id ∈ X) (ts : UInt64) :
    Agree X (ch.mark id ts) ch' := by
  intro x hx
  simp only [mark_bloom, set_idSet, Finset.mem_insert]
  rw [h x hx]
  constructor
  · rintro (rfl | hmem)
    · exact absurd hid hx
    · exact hmem
  · exact Or.inr

/-- The bad messages do not matter to the loop over the buffer. -/
theorem resolve_ignores (X : List MessageId) (node : LmaoNode L (IdSet enc)) :
    (resolveRule : Rule (MessageChannel (IdSet enc)) SdsMessage ContentMessage).Ignores (Agree X)
      (fun msg => ∀ m, msg = .Content m → Fine X node m) (keeps X) (keepsContent X) where
  ready s t msg hagree hfine hkeep := by
    cases msg with
    | Content m =>
      have hid : m.message_id ∉ X := of_decide_eq_true hkeep
      have hsat := hagree.satisfied ((hfine m rfl).needs hid)
      rw [← dependencies_satisfied_iff, ← dependencies_satisfied_iff] at hsat
      have hdeps : s.dependencies_satisfied m.causal_history =
          t.dependencies_satisfied m.causal_history := Bool.eq_iff_iff.mpr hsat
      simp only [resolveRule, hdeps]
    | Sync m => rfl
    | Ephemeral m => rfl
  sort s msg m hready := by
    obtain ⟨rfl, -⟩ := ready_eq_some.mp hready
    rfl
  take s t msg m hagree hready _ := hagree.mark_both m.message_id _ _
  skip s t msg m hagree hready hkeep := by
    obtain ⟨rfl, -⟩ := ready_eq_some.mp hready
    have hid : m.message_id ∈ X := not_not.mp (of_decide_eq_false hkeep)
    exact hagree.mark_bad hid _

theorem Tracks.resolve (h : Tracks X node ch ch') :
    Tracks X node ch.resolve_buffered.1 ch'.resolve_buffered.1 ∧
      ch'.resolve_buffered.2 = ch.resolve_buffered.2.filter (keepsContent X) ∧
      ∀ m ∈ ch.resolve_buffered.2, Fine X node m := by
  obtain ⟨hres, -, -⟩ := resolve_buffered_spec ch
  have hfine : ∀ msg ∈ ch.incoming_buffer, ∀ m, msg = .Content m → Fine X node m := by
    rintro msg hmsg m rfl
    exact h.fine m hmsg
  have hdrain := (resolve_ignores X node).drain h.agree hfine
    (Nat.lt_succ_self ch.incoming_buffer.length)
    (Nat.lt_succ_self (ch.incoming_buffer.filter (keeps X)).length)
  rw [← h.buffer] at hdrain
  obtain ⟨h1, h2, h3⟩ := hdrain
  refine ⟨⟨h1, h3, ?_⟩, h2, ?_⟩
  · intro m hm
    exact h.fine m (hres.mem (Or.inr hm))
  · intro m hm
    exact h.fine m (hres.mem (Or.inl hm))

theorem resolve_of_stuck {ch : MessageChannel F}
    (h : ∀ msg ∈ ch.incoming_buffer, Stuck ch.bloom msg) :
    ch.resolve_buffered = (ch, []) := by
  have hready : ∀ msg ∈ ch.incoming_buffer, resolveRule.ready ch msg = none := by
    intro msg hmsg
    rcases hr : resolveRule.ready ch msg with _ | m
    · rfl
    · obtain ⟨rfl, hsat⟩ := ready_eq_some.mp hr
      exact absurd hsat (h _ hmsg)
  unfold resolve_buffered
  rw [resolveRule.drain_stuck _ hready]

/-- What is stuck in the first channel is stuck in the second one. -/
theorem Tracks.stuck (h : Tracks X node ch ch')
    (hstuck : ∀ msg ∈ ch.incoming_buffer, Stuck ch.bloom msg) :
    ∀ msg ∈ ch'.incoming_buffer, Stuck ch'.bloom msg := by
  intro msg hmsg
  rw [h.buffer, List.mem_filter] at hmsg
  cases msg with
  | Content m =>
    have hid : m.message_id ∉ X := of_decide_eq_true hmsg.2
    have hsat := h.agree.satisfied ((h.fine m hmsg.1).needs hid)
    intro hsat'
    exact hstuck _ hmsg.1 (hsat.mpr hsat')
  | Sync m => trivial
  | Ephemeral m => trivial

/-! ## One message -/

/-- What the two channels give for one message: the second one gives what the
first one gives, without the bad messages. -/
structure Parallel (X : List MessageId) (node : LmaoNode L (IdSet enc))
    (r r' : MessageChannel (IdSet enc) × List ContentMessage) : Prop where
  tracks : Tracks X node r.1 r'.1
  out : r'.2 = r.2.filter (keepsContent X)
  fine : ∀ m ∈ r.2, Fine X node m

theorem park_room {buf : List SdsMessage} (h : buf.length < INCOMING_BUFFER_MAX)
    (m : ContentMessage) : park buf m = buf ++ [.Content m] := by
  unfold park
  rw [if_neg (by omega)]

theorem Tracks.room (h : Tracks X node ch ch')
    (hroom : ch.incoming_buffer.length < INCOMING_BUFFER_MAX) :
    ch'.incoming_buffer.length < INCOMING_BUFFER_MAX := by
  rw [h.buffer]
  have := List.length_filter_le (keeps X) ch.incoming_buffer
  omega

/-- The waiting message in the first buffer, and in the second one if it is
good. -/
theorem Tracks.park (h : Tracks X node ch ch')
    (hroom : ch.incoming_buffer.length < INCOMING_BUFFER_MAX) {m : ContentMessage}
    (hm : Fine X node m) (buf : List SdsMessage)
    (hbuf : buf = ch'.incoming_buffer ++ [SdsMessage.Content m].filter (keeps X)) :
    Tracks X node { ch with incoming_buffer := park ch.incoming_buffer m }
      { ch' with incoming_buffer := buf } := by
  rw [park_room hroom]
  refine ⟨h.agree, ?_, ?_⟩
  · simp only [hbuf, h.buffer, List.filter_append]
  · intro m' hm'
    rcases List.mem_append.mp hm' with hm' | hm'
    · exact h.fine m' hm'
    · cases List.mem_singleton.mp hm'
      exact hm

theorem Tracks.good_message (h : Tracks X node ch ch')
    (hroom : ch.incoming_buffer.length < INCOMING_BUFFER_MAX) {msg : SdsMessage}
    (hid : msg.message_id ∉ X) (hfine : ∀ m, msg = .Content m → Fine X node m) :
    Parallel X node (ch.receive_message msg) (ch'.receive_message msg) := by
  cases msg with
  | Content m =>
    have hm := hfine m rfl
    have hkeep : keepsContent X m = true := decide_eq_true hid
    have hagree := h.agree.satisfied (hm.needs hid)
    have hiff : (ch.update_timestamp m.lamport_timestamp).dependencies_satisfied m.causal_history =
        (ch'.update_timestamp m.lamport_timestamp).dependencies_satisfied m.causal_history := by
      rw [Bool.eq_iff_iff, dependencies_satisfied_iff, dependencies_satisfied_iff]
      exact hagree
    unfold receive_message
    simp only [hiff]
    split
    · have hmark : Tracks X node
          ((ch.update_timestamp m.lamport_timestamp).mark m.message_id m.lamport_timestamp)
          ((ch'.update_timestamp m.lamport_timestamp).mark m.message_id m.lamport_timestamp) :=
        ⟨h.agree.mark_both _ m.lamport_timestamp m.lamport_timestamp, h.buffer, h.fine⟩
      obtain ⟨h1, h2, h3⟩ := hmark.resolve
      refine ⟨h1, ?_, ?_⟩
      · simp only
        rw [h2, List.filter_cons_of_pos hkeep]
      · intro m' hm'
        rcases List.mem_cons.mp hm' with rfl | hm'
        · exact hm
        · exact h3 m' hm'
    · have hupdate : Tracks X node (ch.update_timestamp m.lamport_timestamp)
          (ch'.update_timestamp m.lamport_timestamp) := ⟨h.agree, h.buffer, h.fine⟩
      have hone : [SdsMessage.Content m].filter (keeps X) = [.Content m] :=
        List.filter_cons_of_pos hkeep
      have hpark := hupdate.park hroom hm
        (MessageChannel.park ch'.incoming_buffer m) (by rw [hone, park_room (h.room hroom)]; rfl)
      obtain ⟨h1, h2, h3⟩ := hpark.resolve
      exact ⟨h1, h2, h3⟩
  | Sync m =>
    have hset : Tracks X node
        ({ ch with bloom := set ch.bloom m.message_id }.update_timestamp m.lamport_timestamp)
        ({ ch' with bloom := set ch'.bloom m.message_id }.update_timestamp m.lamport_timestamp) :=
      ⟨h.agree.mark_both m.message_id 0 0, h.buffer, h.fine⟩
    obtain ⟨h1, h2, h3⟩ := hset.resolve
    exact ⟨h1, h2, h3⟩
  | Ephemeral m =>
    exact ⟨⟨h.agree.mark_both m.message_id 0 0, h.buffer, h.fine⟩, rfl, by simp [receive_message]⟩

/-- A bad message changes nothing in the second channel. Nothing that waits is
ready, so nothing good comes out with it. -/
theorem Tracks.bad_message (h : Tracks X node ch ch') (hcalm : Calm ch) {m : ContentMessage}
    (hid : m.message_id ∈ X) (hm : Fine X node m) :
    Parallel X node (ch.receive_message (.Content m)) (ch', []) := by
  have hstay := resolve_of_stuck (h.stuck hcalm.2)
  have hdrop : keepsContent X m = false := decide_eq_false (not_not.mpr hid)
  unfold receive_message
  simp only
  split
  · have hmark : Tracks X node
        ((ch.update_timestamp m.lamport_timestamp).mark m.message_id m.lamport_timestamp) ch' :=
      ⟨h.agree.mark_bad hid m.lamport_timestamp, h.buffer, h.fine⟩
    obtain ⟨h1, h2, h3⟩ := hmark.resolve
    rw [hstay] at h1 h2
    refine ⟨h1, ?_, ?_⟩
    · simp only
      rw [List.filter_cons_of_neg (by simp [hdrop]), ← h2]
    · intro m' hm'
      rcases List.mem_cons.mp hm' with rfl | hm'
      · exact hm
      · exact h3 m' hm'
  · have hupdate : Tracks X node (ch.update_timestamp m.lamport_timestamp) ch' :=
      ⟨h.agree, h.buffer, h.fine⟩
    have hnone : [SdsMessage.Content m].filter (keeps X) = [] :=
      List.filter_cons_of_neg (Bool.eq_false_iff.mp hdrop)
    have hpark := hupdate.park hcalm.1 hm ch'.incoming_buffer (by rw [hnone, List.append_nil])
    obtain ⟨h1, h2, h3⟩ := hpark.resolve
    rw [hstay] at h1 h2
    exact ⟨h1, h2, h3⟩

theorem Tracks.known (h : Tracks X node ch ch') {id : MessageId} (hid : id ∉ X) :
    check ch.bloom id = check ch'.bloom id := by
  rw [Bool.eq_iff_iff, check_idSet, check_idSet]
  exact h.agree id hid

theorem Tracks.receive_good (dec : Bytes → Option (Finset MessageId)) (h : Tracks X node ch ch')
    (hcalm : Calm ch) {raw : Bytes} {msg : SdsMessage}
    (hmsg : L.wire.sds_from_slice raw = some msg) (hid : msg.message_id ∉ X)
    (hfine : ∀ m, msg = .Content m → Fine X node m) :
    ∃ r r', ch.receive (exactBlooms dec) L.wire raw = .ok r ∧
      ch'.receive (exactBlooms dec) L.wire raw = .ok r' ∧ Parallel X node r r' := by
  obtain ⟨⟨c, out⟩, hr⟩ := receive_exact_returns dec L.wire ch raw
  obtain ⟨⟨c', out'⟩, hr'⟩ := receive_exact_returns dec L.wire ch' raw
  refine ⟨(c, out), (c', out'), hr, hr', ?_⟩
  have hknown := h.known hid
  rcases receive_cases hr with ⟨rfl, rfl, hdrop⟩ | ⟨m, outgoing, acks, hm, hnew, heq⟩
  · rcases receive_cases hr' with ⟨rfl, rfl, -⟩ | ⟨m', _, _, hm', hnew', -⟩
    · exact ⟨h, rfl, by simp⟩
    · rw [hmsg, Option.some.injEq] at hm'
      rw [← hm', ← hknown, hdrop msg hmsg] at hnew'
      cases hnew'
  · rw [hmsg, Option.some.injEq] at hm
    subst hm
    rcases receive_cases hr' with ⟨-, -, hdrop'⟩ | ⟨m', outgoing', acks', hm', -, heq'⟩
    · rw [hknown, hdrop' msg hmsg] at hnew
      cases hnew
    · rw [hmsg, Option.some.injEq] at hm'
      subst hm'
      have hframe : Tracks X node { ch with outgoing_buffer := outgoing, possible_acks := acks }
          { ch' with outgoing_buffer := outgoing', possible_acks := acks' } :=
        ⟨h.agree, h.buffer, h.fine⟩
      rw [heq, heq']
      exact hframe.good_message hcalm.1 hid hfine

theorem Tracks.receive_bad (dec : Bytes → Option (Finset MessageId)) (h : Tracks X node ch ch')
    (hcalm : Calm ch) {raw : Bytes} {m : ContentMessage}
    (hmsg : L.wire.sds_from_slice raw = some (.Content m)) (hid : m.message_id ∈ X)
    (hfine : Fine X node m) :
    ∃ r, ch.receive (exactBlooms dec) L.wire raw = .ok r ∧ Parallel X node r (ch', []) := by
  obtain ⟨⟨c, out⟩, hr⟩ := receive_exact_returns dec L.wire ch raw
  refine ⟨(c, out), hr, ?_⟩
  rcases receive_cases hr with ⟨rfl, rfl, -⟩ | ⟨msg, outgoing, acks, hm, -, heq⟩
  · exact ⟨h, rfl, by simp⟩
  · rw [hmsg, Option.some.injEq] at hm
    subst hm
    have hframe :
        Tracks X node { ch with outgoing_buffer := outgoing, possible_acks := acks } ch' :=
      ⟨h.agree, h.buffer, h.fine⟩
    rw [heq]
    exact hframe.bad_message hcalm hid hfine

/-! ## One turn -/

/-- Contents that give no task can be left out. -/
theorem take_contents_filter (node : LmaoNode L F) (keep : ContentMessage → Bool)
    (contents : List ContentMessage)
    (h : ∀ m ∈ contents, ∃ extracted, node.extract_arrival (.content m) = .ok extracted ∧
      (keep m = false → extracted = none)) :
    ∃ tasks, (node.take_arrivals (contents.map .content)).2 = .ok tasks ∧
      (node.take_arrivals ((contents.filter keep).map .content)).2 = .ok tasks := by
  induction contents with
  | nil => exact ⟨[], rfl, rfl⟩
  | cons m rest ih =>
    obtain ⟨extracted, hex, hnone⟩ := h m (by simp)
    obtain ⟨tasks, hall, hkept⟩ := ih fun b hb => h b (List.mem_cons_of_mem m hb)
    refine ⟨(extracted.filter node.accept_or_drop).toList ++ tasks, ?_, ?_⟩
    · simp only [List.map_cons, LmaoNode.take_arrivals, hex, hall, Except.map]
    · by_cases hk : keep m = true
      · rw [List.filter_cons_of_pos hk]
        simp only [List.map_cons, LmaoNode.take_arrivals, hex, hkept, Except.map]
      · rw [List.filter_cons_of_neg hk, hkept, hnone (Bool.eq_false_iff.mpr hk)]
        rfl

/-- The tasks of two channels that run in parallel are the same. -/
theorem Parallel.tasks {r r' : MessageChannel (IdSet enc) × List ContentMessage}
    (h : Parallel X node r r') :
    ∃ tasks, (node.take_arrivals (r.2.map .content)).2 = .ok tasks ∧
      (node.take_arrivals (r'.2.map .content)).2 = .ok tasks := by
  rw [h.out]
  apply take_contents_filter
  intro m hm
  obtain ⟨extracted, hex, -⟩ := (h.fine m hm).readable
  refine ⟨extracted, hex, ?_⟩
  intro hdrop
  have hbad := (h.fine m hm).bad (not_not.mp (of_decide_eq_false hdrop))
  rw [hex, Except.ok.injEq] at hbad
  exact hbad

/-- What the laws ask of a message of the batch. -/
structure Fits (X : List MessageId) (node : LmaoNode L F) (bad : Bytes → Bool) (raw : Bytes) :
    Prop where
  readable : Readable node raw
  none : bad raw = true → Bad node raw ∧ ∀ id ∈ idOf L raw, id ∈ X
  ids : bad raw = false → ∀ id ∈ idOf L raw, id ∉ X
  needs : bad raw = false → ∀ m ∈ contentOf L.wire (.receive raw), ∀ id ∈ deps m, id ∉ X

theorem turn_of_envelope {B : Build} {ch : MessageChannel F} {node : LmaoNode L F} {raw : Bytes}
    (hsds : L.wire.sds_from_slice raw = none) {e : A2AEnvelope}
    (henv : L.envelope_from_slice raw = some e) {extracted : Option Task}
    (hex : node.extract_task_from_envelope e = .ok extracted) :
    node.turn B ch raw =
      if check ch.bloom (L.wire.compute_message_id raw) then
        { channel := ch, acks := [], result := .ok [] }
      else
        { channel := { ch with bloom := set ch.bloom (L.wire.compute_message_id raw) }
          acks := []
          result := .ok (extracted.filter node.accept_or_drop).toList } := by
  unfold LmaoNode.turn
  rw [LmaoNode.take_message_raw hsds, henv]
  by_cases hdup : check ch.bloom (L.wire.compute_message_id raw) = true
  · simp [hdup, LmaoNode.take_arrivals]
  · simp [hdup, LmaoNode.take_arrivals, LmaoNode.extract_arrival, hex, LmaoNode.Arrival.acks,
      Except.map]

theorem turn_of_nothing {B : Build} {ch : MessageChannel F} {node : LmaoNode L F} {raw : Bytes}
    (hsds : L.wire.sds_from_slice raw = none) (henv : L.envelope_from_slice raw = none) :
    node.turn B ch raw = { channel := ch, acks := [], result := .ok [] } := by
  unfold LmaoNode.turn
  rw [LmaoNode.take_message_raw hsds, henv]
  rfl

theorem Tracks.turn_good (dec : Bytes → Option (Finset MessageId)) (htags : TagsApart L)
    (h : Tracks X node ch ch') (hcalm : Calm ch) {bad : Bytes → Bool} {raw : Bytes}
    (hfits : Fits X node bad raw) (hgood : bad raw = false) :
    ∃ tasks, (node.turn (exactBlooms dec) ch raw).result = .ok tasks ∧
      (node.turn (exactBlooms dec) ch' raw).result = .ok tasks ∧
      Tracks X node (node.turn (exactBlooms dec) ch raw).channel
        (node.turn (exactBlooms dec) ch' raw).channel := by
  have hids := hfits.ids hgood
  rcases hsds : L.wire.sds_from_slice raw with _ | msg
  · rcases henv : L.envelope_from_slice raw with _ | e
    · rw [turn_of_nothing hsds henv, turn_of_nothing hsds henv]
      exact ⟨[], rfl, rfl, h⟩
    · have hread := hfits.readable (.envelope e) (by simp [carried, hsds, henv])
      obtain ⟨extracted, hex, -⟩ := hread
      have hid : L.wire.compute_message_id raw ∉ X := hids _ (by simp [idOf, hsds, henv])
      rw [turn_of_envelope hsds henv hex, turn_of_envelope hsds henv hex, h.known hid]
      split
      · exact ⟨[], rfl, rfl, h⟩
      · exact ⟨_, rfl, rfl, h.agree.mark_both _ 0 0, h.buffer, h.fine⟩
  · have henv := htags raw msg hsds
    have hid : msg.message_id ∉ X := hids _ (by simp [idOf, hsds])
    have hfine : ∀ m, msg = .Content m → Fine X node m := by
      rintro m rfl
      refine ⟨hfits.readable (.content m) (by simp [carried, hsds]), ?_, ?_⟩
      · intro hmem
        exact absurd hmem hid
      · intro _
        exact hfits.needs hgood m (contentOf_receive.mpr hsds)
    obtain ⟨r, r', hr, hr', hpar⟩ := h.receive_good dec hcalm hsds hid hfine
    obtain ⟨tasks, ht, ht'⟩ := hpar.tasks
    rw [LmaoNode.turn_of_receive node henv hr, LmaoNode.turn_of_receive node henv hr']
    exact ⟨tasks, ht, ht', hpar.tracks⟩

theorem Tracks.turn_bad (dec : Bytes → Option (Finset MessageId)) (htags : TagsApart L)
    (h : Tracks X node ch ch') (hcalm : Calm ch) {bad : Bytes → Bool} {raw : Bytes}
    (hfits : Fits X node bad raw) (hraw : bad raw = true) :
    (node.turn (exactBlooms dec) ch raw).result = .ok [] ∧
      Tracks X node (node.turn (exactBlooms dec) ch raw).channel ch' := by
  obtain ⟨hbad, hids⟩ := hfits.none hraw
  rcases hsds : L.wire.sds_from_slice raw with _ | msg
  · rcases henv : L.envelope_from_slice raw with _ | e
    · rw [turn_of_nothing hsds henv]
      exact ⟨rfl, h⟩
    · have hnone : node.extract_task_from_envelope e = .ok none := by
        rcases hbad with hbad | ⟨a, ha, hex⟩
        · simp [idOf, hsds, henv] at hbad
        · simp only [carried, hsds, henv, Option.map_some, Option.mem_def,
            Option.some.injEq] at ha
          rw [← ha] at hex
          exact hex
      have hid : L.wire.compute_message_id raw ∈ X := hids _ (by simp [idOf, hsds, henv])
      rw [turn_of_envelope hsds henv hnone]
      split
      · exact ⟨rfl, h⟩
      · exact ⟨rfl, h.agree.mark_bad hid 0, h.buffer, h.fine⟩
  · have henv := htags raw msg hsds
    have hid : msg.message_id ∈ X := hids _ (by simp [idOf, hsds])
    obtain ⟨m, rfl, hnone⟩ : ∃ m, msg = .Content m ∧ node.extract_task m.content = .ok none := by
      rcases hbad with hbad | ⟨a, ha, hex⟩
      · simp [idOf, hsds] at hbad
      · cases msg with
        | Content m =>
          simp only [carried, hsds, Option.mem_def, Option.some.injEq] at ha
          rw [← ha] at hex
          exact ⟨m, rfl, hex⟩
        | Sync m => simp [carried, hsds] at ha
        | Ephemeral m => simp [carried, hsds] at ha
    have hfine : Fine X node m :=
      ⟨⟨none, hnone, trivial⟩, fun _ => hnone, fun hnot => absurd hid hnot⟩
    obtain ⟨r, hr, hpar⟩ := h.receive_bad dec hcalm hsds hid hfine
    obtain ⟨tasks, ht, ht'⟩ := hpar.tasks
    cases ht'
    rw [LmaoNode.turn_of_receive node henv hr]
    exact ⟨ht, hpar.tracks⟩

/-! ## The call -/

theorem Tracks.turns (dec : Bytes → Option (Finset MessageId)) (htags : TagsApart L)
    {bad : Bytes → Bool} {msgs : List Bytes} (h : Tracks X node ch ch')
    (hfits : ∀ raw ∈ msgs, Fits X node bad raw)
    (hcalm : CalmTurns (exactBlooms dec) node ch msgs) :
    ∃ tasks, (node.turns (exactBlooms dec) ch msgs).result = .ok tasks ∧
      (node.turns (exactBlooms dec) ch' (msgs.filter (!bad ·))).result = .ok tasks := by
  induction msgs generalizing ch ch' with
  | nil => exact ⟨[], rfl, rfl⟩
  | cons raw rest ih =>
    obtain ⟨hnow, hlater⟩ := hcalm
    have hrest : ∀ x ∈ rest, Fits X node bad x := fun x hx => hfits x (List.mem_cons_of_mem raw hx)
    have hraw := hfits raw (by simp)
    rcases hb : bad raw with _ | _
    · obtain ⟨tasks, ht, ht', htracks⟩ := h.turn_good dec htags hnow hraw hb
      obtain ⟨more, hm, hm'⟩ := ih htracks hrest hlater
      rw [List.filter_cons_of_pos (by simp [hb])]
      refine ⟨tasks ++ more, ?_, ?_⟩
      · simp only [LmaoNode.turns, ht, hm, Except.map]
      · simp only [LmaoNode.turns, ht', hm', Except.map]
    · obtain ⟨ht, htracks⟩ := h.turn_bad dec htags hnow hraw hb
      obtain ⟨more, hm, hm'⟩ := ih htracks hrest hlater
      rw [List.filter_cons_of_neg (by simp [hb])]
      refine ⟨more, ?_, hm'⟩
      simp only [LmaoNode.turns, ht, hm, Except.map, List.nil_append]

/-- Bad messages change no task of a call: with them and without them, it
returns the same tasks. -/
theorem bad_messages_change_no_task (dec : Bytes → Option (Finset MessageId)) (L : Libs)
    (htags : TagsApart L) (node : LmaoNode L (IdSet enc)) (bad : Bytes → Bool) (msgs : List Bytes)
    (hbad : ∀ raw ∈ msgs, bad raw = true → Bad node raw)
    (hread : ∀ raw ∈ msgs, Readable node raw)
    (hwaiting : ∀ m, SdsMessage.Content m ∈ node.channel.incoming_buffer →
      Returns (node.extract_task m.content) fun _ => True)
    (hseparate : Separate node bad msgs)
    (hcalm : CalmTurns (exactBlooms dec) node node.channel msgs) (now : UInt64)
    (uuid : Nat → String) :
    ∃ tasks, (node.poll_tasks (exactBlooms dec) (.ok msgs) now uuid).result = .ok tasks ∧
      (node.poll_tasks (exactBlooms dec) (.ok (msgs.filter (!bad ·))) now uuid).result =
        .ok tasks := by
  have hfits : ∀ raw ∈ msgs, Fits (badIds L bad msgs) node bad raw := by
    intro raw hraw
    refine ⟨hread raw hraw, ?_, hseparate.ids raw hraw, hseparate.needs raw hraw⟩
    intro hb
    refine ⟨hbad raw hraw hb, ?_⟩
    intro id hid
    exact List.mem_filterMap.mpr ⟨raw, List.mem_filter.mpr ⟨hraw, hb⟩, hid⟩
  have hbuffer : node.channel.incoming_buffer.filter (keeps (badIds L bad msgs)) =
      node.channel.incoming_buffer :=
    List.filter_eq_self.mpr fun msg hmsg => decide_eq_true (hseparate.waiting msg hmsg)
  have htracks : Tracks (badIds L bad msgs) node node.channel node.channel := by
    refine ⟨fun _ _ => Iff.rfl, hbuffer.symm, ?_⟩
    intro m hm
    have hid : m.message_id ∉ badIds L bad msgs := hseparate.waiting (.Content m) hm
    exact ⟨hwaiting m hm, fun hmem => absurd hmem hid, fun _ => hseparate.waiting_needs m hm⟩
  obtain ⟨tasks, ht, ht'⟩ := htracks.turns dec htags hfits hcalm
  refine ⟨(node.verify_payments node.seen_tx_hashes tasks).2, ?_, ?_⟩
  · simp only [LmaoNode.poll_tasks, ht]
  · simp only [LmaoNode.poll_tasks, ht']

/-! ## Five batches -/

namespace Sample

def task : Task := .new "task-1" "02alice" "02bob" "hi"

/-- The task as a raw envelope. -/
def task_text : Bytes := (A2AEnvelope.Task task).to_vec

/-- The same with its payload in the storage. -/
def offloaded : A2AEnvelope := .Task { task with payload_cid := some "cid-1" }

/-- An encrypted task that does not decrypt. -/
def undecryptable : A2AEnvelope :=
  .EncryptedTask { nonce := "AAAAAAAAAAAAAAAA", ciphertext := "" }
    (hex_encode (List.replicate 32 0))

/-- A content message with the task, and one that depends on "hello". -/
def single : ContentMessage := { Sample.hello with message_id := "01", content := task_text }

def reply : ContentMessage := { Sample.world with content := task_text }

/-- No task is in these: one has the id of `single`, and one waits forever. -/
def forged : ContentMessage := { single with content := utf8 "hello" }

def endless : ContentMessage :=
  { Sample.hello with
    message_id := "02"
    causal_history := [{ message_id := "03", lamport_timestamp := 1, retrieval_hint := none }] }

def batch_libs : Libs :=
  .ofTables
    (.ofTable Sample.hashes ([Sample.hello, single, reply, forged, endless].map .Content))
    { public_key := fun _ => []
      diffie_hellman := fun _ _ => []
      aead_encrypt := fun _ _ _ => none
      aead_decrypt := fun _ _ _ => none } [.Task task, offloaded, undecryptable] []

theorem batch_libs_tagsApart : TagsApart batch_libs := tagsApart_ofTables (by decide +kernel)

/-- A node with an identity and with a storage that is down. -/
def batch_node : LmaoNode batch_libs (IdSet fun _ => []) :=
  { LmaoNode.new "02bob" "bob" "" [] (some ⟨[]⟩) .default 0 with
    storage_offload := some {
      upload := fun _ => .error (.Http "down")
      download := fun _ => .error (.Http "down")
      threshold_bytes := 1024 } }

/-- The node with a full buffer, where `reply` is the oldest message. -/
def full_node : LmaoNode batch_libs (IdSet fun _ => []) :=
  { batch_node with
    channel := { batch_node.channel with
      incoming_buffer := .Content reply ::
        List.replicate 255 (.Content { endless with message_id := "04" }) } }

abbrev poll (node : LmaoNode batch_libs (IdSet fun _ => [])) (msgs : List Bytes) :
    Except Stop (List Task) :=
  (node.poll_tasks (exactBlooms fun _ => none) (.ok msgs) 0 fun _ => "").result

end Sample

/-- An unreadable message and one that does not decrypt, ahead of two tasks. -/
def Sample.isolated_batch : List Bytes :=
  [[0], Sample.undecryptable.to_vec, Sample.task_text, SdsMessage.to_vec (.Content Sample.single)]

def Sample.isolated_bad (raw : Bytes) : Bool := raw = [0] || raw = Sample.undecryptable.to_vec

theorem two_bad_messages_change_no_task :
    ∃ tasks, Sample.poll Sample.batch_node Sample.isolated_batch = .ok tasks ∧
      Sample.poll Sample.batch_node (Sample.isolated_batch.filter (!Sample.isolated_bad ·)) =
        .ok tasks := by
  have hnone : ∀ m, SdsMessage.Content m ∉ Sample.batch_node.channel.incoming_buffer := by
    intro m hm
    cases hm
  have hbatch :
      (∀ raw ∈ Sample.isolated_batch, Sample.isolated_bad raw = true → Bad Sample.batch_node raw) ∧
      (∀ raw ∈ Sample.isolated_batch, Readable Sample.batch_node raw) ∧
      (∀ raw ∈ Sample.isolated_batch, Sample.isolated_bad raw = false →
        ∀ id ∈ idOf Sample.batch_libs raw,
          id ∉ badIds Sample.batch_libs Sample.isolated_bad Sample.isolated_batch) ∧
      (∀ raw ∈ Sample.isolated_batch, Sample.isolated_bad raw = false →
        ∀ m ∈ contentOf Sample.batch_libs.wire (.receive raw), ∀ id ∈ deps m,
          id ∉ badIds Sample.batch_libs Sample.isolated_bad Sample.isolated_batch) ∧
      CalmTurns (exactBlooms fun _ => none) Sample.batch_node Sample.batch_node.channel
        Sample.isolated_batch := by
    decide +kernel
  obtain ⟨hbad, hread, hids, hneeds, hcalm⟩ := hbatch
  apply bad_messages_change_no_task _ _ Sample.batch_libs_tagsApart
  · exact hbad
  · exact hread
  · exact fun m hm => absurd hm (hnone m)
  · exact ⟨hids, hneeds, by simp [Sample.batch_node, LmaoNode.new, with_config],
      fun m hm => absurd hm (hnone m)⟩
  · exact hcalm

/-- What a bad message can do: a fetch that fails ends the call, another message
depends on the bad one, the bad one has the id of another, or it takes the
last place in the buffer. -/
theorem bad_messages_can_change_tasks :
    (Sample.poll Sample.batch_node [Sample.offloaded.to_vec, Sample.task_text] =
        .error (.error (.Other "storage fetch by CID failed: storage HTTP error: down")) ∧
      Sample.poll Sample.batch_node [Sample.task_text] = .ok [Sample.task]) ∧
    (Sample.poll Sample.batch_node
        [SdsMessage.to_vec (.Content Sample.hello), SdsMessage.to_vec (.Content Sample.reply)] =
          .ok [Sample.task] ∧
      Sample.poll Sample.batch_node [SdsMessage.to_vec (.Content Sample.reply)] = .ok []) ∧
    (Sample.poll Sample.batch_node
        [SdsMessage.to_vec (.Content Sample.forged), SdsMessage.to_vec (.Content Sample.single)] =
          .ok [] ∧
      Sample.poll Sample.batch_node [SdsMessage.to_vec (.Content Sample.single)] =
        .ok [Sample.task]) ∧
    (Sample.poll Sample.full_node
        [SdsMessage.to_vec (.Content Sample.endless), SdsMessage.to_vec (.Content Sample.hello)] =
          .ok [] ∧
      Sample.poll Sample.full_node [SdsMessage.to_vec (.Content Sample.hello)] =
        .ok [Sample.task]) := by
  decide +kernel

end lmao.node
