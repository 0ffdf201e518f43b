-- Lost ACKs. `send_reliable` publishes its message again until an ACK comes,
-- and `poll_tasks` sends an ACK for each message that its channel delivers. A
-- copy of a message that was delivered before is dropped ahead of the ACK.
import Lmao.Stranded
import Lmao.Suppression

set_option linter.unusedSectionVars false
set_option linter.dupNamespace false

namespace lmao.node

open machine sds sds.MessageChannel

variable {L : Libs} {F : Type} [IdFilter F]

/-! ## The machine -/

/-- A sender, the copies that it published on the task topic of a receiver,
the receiver, and the ACKs that the receiver published. -/
structure Link (L : Libs) (F : Type) where
  sender : Session L.wire F
  frames : List Bytes
  node : LmaoNode L F
  acks : List MessageId

/-- `start`, `attempt` and `finish` are the parts of a call of `send_reliable`:
it builds its message, publishes a copy of it any number of times, and ends
with or without an ACK. `turn` is the turn of `poll_tasks` for the copy at
index `k`, so a run that never takes a copy loses it, and a run that takes it
twice duplicates it. -/
inductive LinkOp
  | start (payload : Bytes)
  | attempt (k : Nat)
  | finish (k : Nat)
  | turn (k : Nat)

namespace Link

/-- A new link to a receiver with a new channel. -/
def new (sender : MessageChannel F) (node : LmaoNode L F) (channel_id : ChannelId)
    (sender_id : ParticipantId) (config : ChannelConfig) (now_ms : UInt64) : Link L F :=
  { sender := Session.new L.wire sender
    frames := []
    node := { node with channel := with_config channel_id sender_id config now_ms }
    acks := [] }

/-- The receiver takes the message. -/
def take (B : Build) (s : Link L F) (raw : Bytes) : Link L F :=
  let r := s.node.turn B s.node.channel raw
  { s with node := { s.node with channel := r.channel }, acks := s.acks ++ r.acks }

/-- The outputs are the ids that the receiver delivers. -/
def step (B : Build) (s : Link L F) : LinkOp → Except Panic (Link L F × List MessageId)
  | .start payload => do
    let r ← s.sender.step B (.start payload)
    return ({ s with sender := r.1 }, [])
  | .attempt k =>
    match s.sender.in_flight[k]? with
    | none => .ok (s, [])
    | some m => .ok ({ s with frames := s.frames ++ [SdsMessage.to_vec (.Content m.1)] }, [])
  | .finish k => do
    let r ← s.sender.step B (.end_reliable k)
    return ({ s with sender := r.1 }, [])
  | .turn k =>
    match s.frames[k]? with
    | none => .ok (s, [])
    | some raw => do
      let (_, delivered) ← s.node.channel.receive B L.wire raw
      return (s.take B raw, idsOf delivered)

end Link

/-- When the turn takes a copy of a message that was delivered before, it sends
an ACK for that message. -/
def Reacks (B : Build) (delivered : List MessageId) (s : Link L F) : LinkOp → Prop
  | .turn k => ∀ raw ∈ s.frames[k]?, ∀ m ∈ contentOf L.wire (.receive raw),
    m.message_id ∈ delivered → m.message_id ∈ (s.node.turn B s.node.channel raw).acks
  | _ => True

instance (B : Build) (delivered : List MessageId) (s : Link L F) (op : LinkOp) :
    Decidable (Reacks B delivered s op) := by
  cases op <;> dsimp only [Reacks] <;> infer_instance

/-- When the turn takes a copy of a message that was delivered before, the
filter of the receiver no longer knows the message, and knows all its
dependencies. -/
def Forgotten (delivered : List MessageId) (s : Link L F) : LinkOp → Prop
  | .turn k => ∀ raw ∈ s.frames[k]?, ∀ m ∈ contentOf L.wire (.receive raw),
    m.message_id ∈ delivered →
      check s.node.channel.bloom m.message_id = false ∧ Satisfied s.node.channel.bloom m
  | _ => True

instance (delivered : List MessageId) (s : Link L F) (op : LinkOp) :
    Decidable (Forgotten delivered s op) := by
  cases op <;> dsimp only [Forgotten] <;> infer_instance

/-- The `type` tag of a content message says that it is one: its text is read
as a content message or not at all, and is no envelope. -/
structure ContentTexts (L : Libs) : Prop where
  content : ∀ m msg, L.wire.sds_from_slice (SdsMessage.to_vec (.Content m)) = some msg →
    ∃ m', msg = .Content m'
  no_envelope : ∀ m, L.envelope_from_slice (SdsMessage.to_vec (.Content m)) = none

/-! ## One turn -/

/-- With nothing ready in the buffer, a content message that misses a
dependency brings nothing out. -/
theorem received_parked {f f' : F} {buf buf' : List SdsMessage} {m : ContentMessage}
    {out : List ContentMessage} (h : Received f buf (.Content m) f' buf' out)
    (hready : ∀ msg ∈ buf, Stuck f msg) (hnot : ¬ Satisfied f m) : out = [] := by
  cases h with
  | direct hsat _ => exact absurd hsat hnot
  | parked _ hres =>
    apply hres.nil_of_stuck
    intro m' hm'
    rcases mem_park hm' with hm' | hm'
    · exact hready _ hm'
    · cases hm'
      exact hnot

/-- The ACK of the first arrival goes out whatever becomes of its payload. -/
theorem first_arrival_acked (node : LmaoNode L F) (a : LmaoNode.Arrival)
    (rest : List LmaoNode.Arrival) {id : MessageId} (hid : id ∈ a.acks) :
    id ∈ (node.take_arrivals (a :: rest)).1 := by
  unfold LmaoNode.take_arrivals
  rcases node.extract_arrival a with stop | extracted
  · exact hid
  · exact List.mem_append_left _ hid

/-- The turn for a content message sends an ACK for it exactly if the filter
does not know the message, and knows its dependencies. -/
theorem turn_acks_iff (dec : Bytes → Option (Finset MessageId)) (node : LmaoNode L F)
    {ch : MessageChannel F} {raw : Bytes} {m : ContentMessage}
    (hraw : L.wire.sds_from_slice raw = some (.Content m)) (henv : L.envelope_from_slice raw = none)
    (hready : ∀ msg ∈ ch.incoming_buffer, Stuck ch.bloom msg) :
    m.message_id ∈ (node.turn (exactBlooms dec) ch raw).acks ↔
      check ch.bloom m.message_id = false ∧ Satisfied ch.bloom m := by
  obtain ⟨⟨ch', out⟩, hr⟩ := receive_exact_returns dec L.wire ch raw
  rw [LmaoNode.turn_of_receive node henv hr]
  rcases receive_received hr with ⟨-, rfl, hdrop⟩ | ⟨msg, hmsg, hnew, hrec⟩
  · apply iff_of_false (by simp [LmaoNode.take_arrivals])
    rintro ⟨hnew, -⟩
    have hknown := hdrop _ hraw
    rw [show SdsMessage.message_id (.Content m) = m.message_id from rfl, hnew] at hknown
    cases hknown
  · rw [hraw, Option.some.injEq] at hmsg
    subst hmsg
    by_cases hsat : Satisfied ch.bloom m
    · refine iff_of_true ?_ ⟨hnew, hsat⟩
      generalize ch'.bloom = f', ch'.incoming_buffer = buf' at hrec
      cases hrec with
      | direct _ _ => exact first_arrival_acked node _ _ (by simp [LmaoNode.Arrival.acks])
      | parked hnot _ => exact absurd hsat hnot
    · have hout := received_parked hrec hready hsat
      subst hout
      exact iff_of_false (by simp [LmaoNode.take_arrivals]) fun h => hsat h.2

/-! ## Runs -/

/-- Only content messages are published, and no message that waits at the
receiver is ready. -/
structure Linked (s : Link L F) : Prop where
  frames : ∀ raw ∈ s.frames, ∃ m, raw = SdsMessage.to_vec (.Content m)
  stuck : ∀ msg ∈ s.node.channel.incoming_buffer, Stuck s.node.channel.bloom msg

theorem Linked.step {B : Build} (htexts : ContentTexts L) {s s' : Link L F} {op : LinkOp}
    {out : List MessageId} (hs : Linked s) (h : s.step B op = .ok (s', out)) : Linked s' := by
  cases op with
  | start payload =>
    cases h
    exact ⟨hs.frames, hs.stuck⟩
  | attempt k =>
    simp only [Link.step] at h
    split at h
    · cases h
      exact hs
    · rename_i m _
      cases h
      refine ⟨?_, hs.stuck⟩
      intro raw hraw
      rcases List.mem_append.mp hraw with hraw | hraw
      · exact hs.frames raw hraw
      · exact ⟨m.1, List.mem_singleton.mp hraw⟩
  | finish k =>
    simp only [Link.step, Session.step] at h
    split at h
    · cases h
      exact ⟨hs.frames, hs.stuck⟩
    · cases h
      exact ⟨hs.frames, hs.stuck⟩
  | turn k =>
    simp only [Link.step] at h
    split at h
    · cases h
      exact hs
    · rename_i raw hraw
      obtain ⟨m, rfl⟩ := hs.frames raw (List.mem_of_getElem? hraw)
      have henv := htexts.no_envelope m
      rcases hr : s.node.channel.receive B L.wire (SdsMessage.to_vec (.Content m)) with
        e | ⟨ch', delivered⟩
      · simp [hr, bind, Except.bind] at h
      · simp only [hr, bind, Except.bind, pure, Except.pure, Except.ok.injEq, Prod.mk.injEq] at h
        obtain ⟨rfl, -⟩ := h
        refine ⟨hs.frames, ?_⟩
        simp only [Link.take]
        rw [LmaoNode.turn_of_receive s.node henv hr]
        rcases receive_received hr with ⟨rfl, -, -⟩ | ⟨msg, hmsg, -, hrec⟩
        · exact hs.stuck
        · obtain ⟨m', rfl⟩ := htexts.content m msg hmsg
          apply received_stuck hrec
          intro e he
          cases he

/-- In a run of a sender and a receiver, every copy of a delivered message gets
an ACK again exactly if the receiver has forgotten the message each time. -/
theorem a_copy_gets_an_ack_iff_forgotten (dec : Bytes → Option (Finset MessageId)) (L : Libs)
    (htexts : ContentTexts L) (sender : MessageChannel F) (node : LmaoNode L F)
    (channel_id : ChannelId) (sender_id : ParticipantId) (config : ChannelConfig) (now_ms : UInt64)
    (ops : List LinkOp) :
    Meets (Link.step (exactBlooms dec)) (Reacks (exactBlooms dec))
      (Link.new sender node channel_id sender_id config now_ms) ops ↔
    Meets (Link.step (exactBlooms dec)) Forgotten
      (Link.new sender node channel_id sender_id config now_ms) ops := by
  apply meets_congr (I := fun _ s => Linked s)
  · exact ⟨by simp [Link.new], by simp [Link.new, with_config]⟩
  · intro log s op s' out hs h
    exact hs.step htexts h
  · intro log s op hs
    cases op with
    | turn k =>
      apply forall₂_congr
      intro raw hraw
      apply forall₂_congr
      intro m hm
      obtain ⟨c, rfl⟩ := hs.frames raw (List.mem_of_getElem? hraw)
      rw [turn_acks_iff dec s.node (contentOf_receive.mp hm) (htexts.no_envelope c) hs.stuck]
    | start payload => exact Iff.rfl
    | attempt k => exact Iff.rfl
    | finish k => exact Iff.rfl

/-! ## An exact filter -/

section Exact

variable {enc : Finset MessageId → Bytes}

theorem turn_keeps_delivered {dec : Bytes → Option (Finset MessageId)}
    (htexts : ContentTexts L) {s s' : Link L (IdSet enc)} {op : LinkOp} {log out : List MessageId}
    (hs : Linked s) (hlog : ∀ id ∈ log, check s.node.channel.bloom id = true)
    (h : s.step (exactBlooms dec) op = .ok (s', out)) :
    ∀ id ∈ log ++ out, check s'.node.channel.bloom id = true := by
  cases op with
  | start payload =>
    cases h
    simpa using hlog
  | attempt k =>
    simp only [Link.step] at h
    split at h
    · cases h
      simpa using hlog
    · cases h
      simpa using hlog
  | finish k =>
    simp only [Link.step, Session.step] at h
    split at h
    · cases h
      simpa using hlog
    · cases h
      simpa using hlog
  | turn k =>
    simp only [Link.step] at h
    split at h
    · cases h
      simpa using hlog
    · rename_i raw hraw
      obtain ⟨m, rfl⟩ := hs.frames raw (List.mem_of_getElem? hraw)
      obtain ⟨⟨ch', delivered⟩, hr⟩ := receive_exact_returns dec L.wire s.node.channel
        (SdsMessage.to_vec (.Content m))
      simp only [hr, bind, Except.bind, pure, Except.pure, Except.ok.injEq, Prod.mk.injEq] at h
      obtain ⟨rfl, rfl⟩ := h
      have hch :
          (s.take (exactBlooms dec) (SdsMessage.to_vec (.Content m))).node.channel = ch' := by
        simp only [Link.take]
        rw [LmaoNode.turn_of_receive s.node (htexts.no_envelope m) hr]
      rw [hch]
      intro id hid
      apply receive_known hr
      rcases List.mem_append.mp hid with hid | hid
      · exact Or.inr (hlog id hid)
      · exact Or.inl hid

/-- An exact filter never forgets, so no copy of a delivered message ever gets
an ACK. -/
theorem an_exact_filter_acks_no_copy (dec : Bytes → Option (Finset MessageId))
    (htexts : ContentTexts L) (sender : MessageChannel (IdSet enc)) (node : LmaoNode L (IdSet enc))
    (channel_id : ChannelId) (sender_id : ParticipantId) (config : ChannelConfig) (now_ms : UInt64)
    (ops : List LinkOp) :
    Meets (Link.step (exactBlooms dec))
      (fun delivered s op => ∀ k, op = .turn k → ∀ raw ∈ s.frames[k]?,
        ∀ m ∈ contentOf L.wire (.receive raw), m.message_id ∈ delivered →
          m.message_id ∉ (s.node.turn (exactBlooms dec) s.node.channel raw).acks)
      (Link.new sender node channel_id sender_id config now_ms) ops := by
  intro before op after _ s log hr
  have hinv : Linked s ∧ ∀ id ∈ log, check s.node.channel.bloom id = true := by
    apply run_invariant
      (I := fun log (s : Link L (IdSet enc)) =>
        Linked s ∧ ∀ id ∈ log, check s.node.channel.bloom id = true) _ _ hr
    · exact ⟨⟨by simp [Link.new], by simp [Link.new, with_config]⟩, by simp⟩
    · rintro log s op s' out ⟨hs, hlog⟩ h
      exact ⟨hs.step htexts h, turn_keeps_delivered htexts hs hlog h⟩
  obtain ⟨hs, hlog⟩ := hinv
  rintro k rfl raw hraw m hm hdelivered hack
  obtain ⟨c, rfl⟩ := hs.frames raw (List.mem_of_getElem? hraw)
  rw [turn_acks_iff dec s.node (contentOf_receive.mp hm) (htexts.no_envelope c) hs.stuck] at hack
  have hknown := hlog _ hdelivered
  rw [hack.1] at hknown
  cases hknown

end Exact

/-! ## Calls of poll_tasks -/

theorem turns_are_a_run (dec : Bytes → Option (Finset MessageId)) (ks : List Nat)
    (raws : List Bytes) (s : Link L F) (hks : ks.map (s.frames[·]?) = raws.map some) :
    ∃ n s' log, run (Link.step (exactBlooms dec)) s ((ks.take n).map .turn) = .ok (s', log) ∧
      s'.node.channel = (s.node.turns (exactBlooms dec) s.node.channel raws).channel ∧
      s'.acks = s.acks ++ (s.node.turns (exactBlooms dec) s.node.channel raws).acks := by
  induction ks generalizing raws s with
  | nil =>
    have hnil : raws = [] := by simpa using hks.symm
    subst hnil
    exact ⟨0, s, [], rfl, rfl, by simp [LmaoNode.turns]⟩
  | cons k ks ih =>
    cases raws with
    | nil => simp at hks
    | cons raw raws =>
      simp only [List.map_cons, List.cons.injEq] at hks
      obtain ⟨hk, hks⟩ := hks
      obtain ⟨⟨ch', out⟩, hr⟩ := receive_exact_returns dec L.wire s.node.channel raw
      have hstep : s.step (exactBlooms dec) (.turn k) =
          .ok (s.take (exactBlooms dec) raw, idsOf out) := by
        simp [Link.step, hk, hr, bind, Except.bind, pure, Except.pure]
      rcases hres : (s.node.turn (exactBlooms dec) s.node.channel raw).result with stop | tasks
      · refine ⟨1, s.take (exactBlooms dec) raw, idsOf out, ?_, ?_, ?_⟩
        · simp [run, hstep, bind, Except.bind]
        · simp [LmaoNode.turns, hres, Link.take]
        · simp [LmaoNode.turns, hres, Link.take]
      · obtain ⟨n, s', log, hrun, hch, hacks⟩ := ih raws (s.take (exactBlooms dec) raw) hks
        refine ⟨n + 1, s', idsOf out ++ log, ?_, ?_, ?_⟩
        · simp only [List.take_succ_cons, List.map_cons, run, hstep, hrun, bind, Except.bind]
        · rw [hch]
          simp [LmaoNode.turns, hres, Link.take, LmaoNode.turns_frame]
        · rw [hacks]
          simp [LmaoNode.turns, hres, Link.take, LmaoNode.turns_frame]

/-- A call of `poll_tasks` on copies from the topic is a run of its turns, up to
the first one that fails. -/
theorem a_call_is_a_run_of_turns (dec : Bytes → Option (Finset MessageId)) (s : Link L F)
    (ks : List Nat) (raws : List Bytes) (hks : ks.map (s.frames[·]?) = raws.map some) (now : UInt64)
    (uuid : Nat → String) :
    ∃ n s' log, run (Link.step (exactBlooms dec)) s ((ks.take n).map .turn) = .ok (s', log) ∧
      s'.node.channel =
        (s.node.poll_tasks (exactBlooms dec) (.ok raws) now uuid).after.channel ∧
      s'.acks = s.acks ++ (s.node.poll_tasks (exactBlooms dec) (.ok raws) now uuid).acks := by
  obtain ⟨n, s', log, hrun, hch, hacks⟩ := turns_are_a_run dec ks raws s hks
  obtain ⟨hafter, hpolled⟩ := LmaoNode.poll_tasks_turns (exactBlooms dec) s.node raws now uuid
  rw [← hafter] at hch
  rw [← hpolled] at hacks
  exact ⟨n, s', log, hrun, hch, hacks⟩

/-! ## Two runs -/

/-- "hello" as alice's channel builds it, and "world" while "hello" is on its way. -/
def Sample.sent_hello : ContentMessage := { Sample.hello with bloom_filter := some [] }

def Sample.sent_world : ContentMessage :=
  { Sample.sent_hello with
    message_id := Sample.world_id, lamport_timestamp := 2, content := utf8 "world" }

def Sample.link_libs : Libs :=
  .ofTables (.ofTable Sample.hashes [.Content Sample.sent_hello, .Content Sample.sent_world])
    { public_key := fun _ => []
      diffie_hellman := fun _ _ => []
      aead_encrypt := fun _ _ _ => none
      aead_decrypt := fun _ _ _ => none } [] []

theorem Sample.link_texts : ContentTexts Sample.link_libs := by
  constructor
  · intro m msg hmsg
    have hmem : msg ∈ [SdsMessage.Content Sample.sent_hello, .Content Sample.sent_world] :=
      Wire.ofTable_mem hmsg
    rcases List.mem_cons.mp hmem with rfl | hmem
    · exact ⟨_, rfl⟩
    · exact ⟨_, List.mem_singleton.mp hmem⟩
  · intro m
    rfl

def Sample.alice : MessageChannel (IdSet fun _ => []) :=
  with_config "lmao-alice" "alice" ChannelConfig.default 0

def Sample.link_node : LmaoNode Sample.link_libs (IdSet fun _ => []) :=
  .new "02bob" "bob" "" [] none .default 0

def Sample.link : Link Sample.link_libs (IdSet fun _ => []) :=
  .new Sample.alice Sample.link_node "node-02bob" "02bob" .default 0

/-- The filter of the channel, with room for two ids. -/
structure Sample.SmallFilter where
  filter : SdsBloomFilter (IdSet fun _ => [])

instance : IdFilter Sample.SmallFilter where
  with_params _ := ⟨IdFilter.with_params 2⟩
  check f message_id := check f.filter message_id
  set f message_id := ⟨set f.filter message_id⟩
  to_bytes f := IdFilter.to_bytes f.filter

def Sample.small_alice : MessageChannel Sample.SmallFilter :=
  with_config "lmao-alice" "alice" ChannelConfig.default 0

def Sample.small_node : LmaoNode Sample.link_libs Sample.SmallFilter :=
  .new "02bob" "bob" "" [] none .default 0

def Sample.small_link : Link Sample.link_libs Sample.SmallFilter :=
  .new Sample.small_alice Sample.small_node "node-02bob" "02bob" .default 0

/-- Bob takes "hello" and "world", which resets his filter, and then a copy of "hello". -/
def Sample.forgotten_copy : List LinkOp :=
  [.start (utf8 "hello"), .start (utf8 "world"), .attempt 0, .attempt 1, .turn 0, .turn 1,
    .attempt 0, .turn 2]

/-- The copy of "hello" that comes after the reset gets its ACK. -/
theorem a_forgotten_copy_gets_an_ack :
    ContentTexts Sample.link_libs ∧
    Meets (Link.step (exactBlooms fun _ => none)) Forgotten Sample.small_link
      Sample.forgotten_copy ∧
    Meets (Link.step (exactBlooms fun _ => none)) (Reacks (exactBlooms fun _ => none))
      Sample.small_link Sample.forgotten_copy ∧
    Returns (run (Link.step (exactBlooms fun _ => none)) Sample.small_link Sample.forgotten_copy)
      fun r => r.1.acks = [Sample.hello_id, Sample.world_id, Sample.hello_id] := by
  have hforgotten : Meets (Link.step (exactBlooms fun _ => none)) Forgotten Sample.small_link
      Sample.forgotten_copy := by decide +kernel
  have hreacks := (a_copy_gets_an_ack_iff_forgotten _ _ Sample.link_texts _ _ _ _ _ _ _).mpr
    hforgotten
  exact ⟨Sample.link_texts, hforgotten, hreacks, by decide +kernel⟩

/-- The ACK for "hello" is lost, alice publishes it again, and bob takes the
second copy: he sends no ACK. -/
def Sample.lost_ack : List LinkOp :=
  [.start (utf8 "hello"), .attempt 0, .turn 0, .attempt 0, .turn 1]

theorem a_lost_ack_is_not_repaired :
    ¬ Meets (Link.step (exactBlooms fun _ => none)) (Reacks (exactBlooms fun _ => none)) Sample.link
      Sample.lost_ack ∧
    Returns (run (Link.step (exactBlooms fun _ => none)) Sample.link Sample.lost_ack) fun r =>
      r.2 = [Sample.hello_id] ∧ r.1.acks = [Sample.hello_id] := by
  decide +kernel

end lmao.node
