-- Runs of a channel: any calls, in any order. A run leaves a log with one
-- event for each id that the channel put in its filter, so the filter is a
-- function of the log, and the laws of the channel are laws of its logs.
import Lmao.ChannelSpecs
import Lmao.Machine

set_option linter.unusedSectionVars false

namespace lmao.sds

open machine MessageChannel

variable {F : Type} [IdFilter F] {w : Wire}

/-! ## The machine -/

/-- A message that `send` or `send_reliable` built: its id is the hash of its
content. -/
def Prepared (w : Wire) : Type :=
  { m : ContentMessage // m.message_id = w.compute_message_id m.content }

def MessageChannel.prepare (w : Wire) (ch : MessageChannel F) (payload : Bytes) : Prepared w :=
  ⟨(ch.content_message w payload).2, rfl⟩

/-- A channel, and the messages of the sends that still wait for the
transport. -/
structure Session (w : Wire) (F : Type) where
  channel : MessageChannel F
  in_flight : List (Prepared w)

def Session.new (w : Wire) (ch : MessageChannel F) : Session w F :=
  { channel := ch, in_flight := [] }

/-- A call on the channel. `send` and `send_reliable` await the transport, so
other calls can run inside of them: such a call is a `start`, and later one
of the two ends, for the message at index `k` in flight. A call that fails
on the way never ends. -/
inductive ChannelOp
  | send (topic : String) (payload : Bytes) (publish : String → Bytes → Except TransportError Unit)
  | send_reliable (topic : String) (payload : Bytes) (t : AckTransport)
  | send_sync (topic : String) (publish : String → Bytes → Except TransportError Unit)
  | send_ephemeral (topic : String) (payload : Bytes)
      (publish : String → Bytes → Except TransportError Unit)
  | receive (raw : Bytes)
  | start (payload : Bytes)
  | end_send (k : Nat)
  | end_reliable (k : Nat)

/-- What puts an id in the filter: the end of a send, a delivery, and a sync
or ephemeral message. -/
inductive Event
  | sent (m : ContentMessage)
  | delivered (m : ContentMessage)
  | heard (id : MessageId)
deriving DecidableEq, Repr

def Event.id : Event → MessageId
  | .sent m => m.message_id
  | .delivered m => m.message_id
  | .heard id => id

/-- The events of a message that the filter does not know. -/
def eventsOf (msg : SdsMessage) (out : List ContentMessage) : List Event :=
  match msg with
  | .Content _ => out.map .delivered
  | .Sync s => .heard s.message_id :: out.map .delivered
  | .Ephemeral e => .heard e.message_id :: out.map .delivered

/-- The events of a call of `receive` that returned `out`. -/
def receiveEvents (w : Wire) (ch : MessageChannel F) (raw : Bytes) (out : List ContentMessage) :
    List Event :=
  match w.sds_from_slice raw with
  | none => []
  | some msg => if check ch.bloom msg.message_id then [] else eventsOf msg out

namespace Session

def step (B : Build) (s : Session w F) : ChannelOp → Except Panic (Session w F × List Event)
  | .send topic payload publish =>
    let r := s.channel.send w topic payload publish
    .ok ({ s with channel := r.1 }, match r.2 with | .ok m => [.sent m] | .error _ => [])
  | .send_reliable topic payload t =>
    let r := s.channel.send_reliable w topic payload t
    .ok ({ s with channel := r.channel },
      match r.result with | .ok m => [.sent m.1] | .error _ => [])
  | .send_sync topic publish =>
    .ok ({ s with channel := (s.channel.send_sync w topic publish).1 }, [])
  | .send_ephemeral topic payload publish =>
    .ok ({ s with channel := (s.channel.send_ephemeral w topic payload publish).1 }, [])
  | .receive raw => do
    let r ← s.channel.receive B w raw
    return ({ s with channel := r.1 }, receiveEvents w s.channel raw r.2)
  | .start payload =>
    .ok ({ channel := (s.channel.content_message w payload).1
           in_flight := s.in_flight ++ [s.channel.prepare w payload] }, [])
  | .end_send k =>
    match s.in_flight[k]? with
    | none => .ok (s, [])
    | some m =>
      .ok ({ channel := (s.channel.mark m.1.message_id m.1.lamport_timestamp).push_outgoing m.1
             in_flight := s.in_flight.eraseIdx k }, [.sent m.1])
  | .end_reliable k =>
    match s.in_flight[k]? with
    | none => .ok (s, [])
    | some m =>
      .ok ({ channel := s.channel.mark m.1.message_id m.1.lamport_timestamp
             in_flight := s.in_flight.eraseIdx k }, [.sent m.1])

end Session

/-! ## What one call does -/

/-- The call takes a timestamp. -/
def ChannelOp.ticks : ChannelOp → Bool
  | .send _ _ _ | .send_reliable _ _ _ | .send_sync _ _ | .start _ => true
  | .send_ephemeral _ _ _ | .receive _ | .end_send _ | .end_reliable _ => false

/-- The message that a call pushes, if it is a send that ends. -/
def Session.pushing (s : Session w F) : ChannelOp → Option ContentMessage
  | .send topic payload publish =>
    match publish topic (SdsMessage.to_vec (.Content (s.channel.content_message w payload).2)) with
    | .ok () => some (s.channel.content_message w payload).2
    | .error _ => none
  | .end_send k => s.in_flight[k]?.map (·.1)
  | _ => none

/-- The channel of a session once a call has its timestamp. -/
def Session.started (s : Session w F) (op : ChannelOp) : MessageChannel F :=
  if op.ticks then s.channel.next_timestamp.1 else s.channel

/-- All that a call can do to the channel. A call ends no send, or the end of a
send marks its message, and pushes it if the send is a plain one, or the call
is a `receive`. -/
inductive Outcome (B : Build) (s : Session w F) (op : ChannelOp) :
    MessageChannel F → List Event → Prop
  | quiet : (∀ raw, op ≠ .receive raw) → Outcome B s op (s.started op) []
  | reliable {m : ContentMessage} :
      (∃ topic payload t, op = .send_reliable topic payload t) ∨ (∃ k, op = .end_reliable k) →
      m.message_id = w.compute_message_id m.content →
      Outcome B s op ((s.started op).mark m.message_id m.lamport_timestamp) [.sent m]
  | plain {m : ContentMessage} : s.pushing op = some m →
      m.message_id = w.compute_message_id m.content →
      Outcome B s op (((s.started op).mark m.message_id m.lamport_timestamp).push_outgoing m)
        [.sent m]
  | received {raw : Bytes} {ch' : MessageChannel F} {out : List ContentMessage} :
      op = .receive raw → s.channel.receive B w raw = .ok (ch', out) →
      Outcome B s op ch' (receiveEvents w s.channel raw out)

/-- A call of `send` is a `start`, with an end once the message is
published. -/
theorem send_cases (ch : MessageChannel F) (topic : String) (payload : Bytes)
    (publish : String → Bytes → Except TransportError Unit) :
    (∃ e, ch.send w topic payload publish = ((ch.content_message w payload).1, .error e)) ∨
    (publish topic (SdsMessage.to_vec (.Content (ch.content_message w payload).2)) = .ok () ∧
      ch.send w topic payload publish =
        (((ch.content_message w payload).1.mark (ch.content_message w payload).2.message_id
          (ch.content_message w payload).2.lamport_timestamp).push_outgoing
            (ch.content_message w payload).2, .ok (ch.content_message w payload).2)) := by
  unfold send
  simp only
  split
  · exact Or.inl ⟨_, rfl⟩
  · rename_i hpub
    exact Or.inr ⟨hpub, rfl⟩

/-- A call of `send_reliable` is a `start`, with an end once the attempts are
over, with or without an ACK. -/
theorem send_reliable_cases (ch : MessageChannel F) (topic : String) (payload : Bytes)
    (t : AckTransport) :
    ((ch.send_reliable w topic payload t).channel = (ch.content_message w payload).1 ∧
      ∃ e, (ch.send_reliable w topic payload t).result = .error e) ∨
    ((ch.send_reliable w topic payload t).channel =
        (ch.content_message w payload).1.mark (ch.content_message w payload).2.message_id
          (ch.content_message w payload).2.lamport_timestamp ∧
      ∃ acked, (ch.send_reliable w topic payload t).result =
        .ok ((ch.content_message w payload).2, acked)) := by
  unfold send_reliable
  simp only
  split
  · exact Or.inl ⟨rfl, _, rfl⟩
  · split
    · exact Or.inl ⟨rfl, _, rfl⟩
    · exact Or.inr ⟨rfl, _, rfl⟩

theorem send_sync_channel (ch : MessageChannel F) (topic : String)
    (publish : String → Bytes → Except TransportError Unit) :
    (ch.send_sync w topic publish).1 = ch.next_timestamp.1 := by
  unfold send_sync
  simp only
  split <;> rfl

theorem send_ephemeral_channel (ch : MessageChannel F) (topic : String) (payload : Bytes)
    (publish : String → Bytes → Except TransportError Unit) :
    (ch.send_ephemeral w topic payload publish).1 = ch := by
  unfold send_ephemeral
  simp only
  split <;> rfl

namespace Session

theorem step_outcome {B : Build} {s s' : Session w F} {op : ChannelOp} {ev : List Event}
    (h : s.step B op = .ok (s', ev)) : Outcome B s op s'.channel ev := by
  cases op with
  | send topic payload publish =>
    simp only [step] at h
    rcases send_cases (w := w) s.channel topic payload publish with ⟨e, he⟩ | ⟨hpub, he⟩
    · rw [he] at h
      cases h
      exact .quiet (by rintro _ ⟨⟩)
    · have hpush : s.pushing (.send topic payload publish) =
          some (s.channel.content_message w payload).2 := by
        simp only [pushing, hpub]
      rw [he] at h
      cases h
      exact .plain hpush rfl
  | send_reliable topic payload t =>
    simp only [step] at h
    rcases send_reliable_cases (w := w) s.channel topic payload t with ⟨hc, e, he⟩ | ⟨hc, a, he⟩
    · rw [hc, he] at h
      cases h
      exact .quiet (by rintro _ ⟨⟩)
    · rw [hc, he] at h
      cases h
      exact .reliable (.inl ⟨topic, payload, t, rfl⟩) rfl
  | send_sync topic publish =>
    simp only [step, send_sync_channel] at h
    cases h
    exact .quiet (by rintro _ ⟨⟩)
  | send_ephemeral topic payload publish =>
    simp only [step, send_ephemeral_channel] at h
    cases h
    exact .quiet (by rintro _ ⟨⟩)
  | receive raw =>
    simp only [step] at h
    rcases hr : s.channel.receive B w raw with e | ⟨ch', out⟩
    · simp [hr, bind, Except.bind] at h
    · simp only [hr, bind, Except.bind, pure, Except.pure, Except.ok.injEq, Prod.mk.injEq] at h
      obtain ⟨rfl, rfl⟩ := h
      exact .received rfl hr
  | start payload =>
    cases h
    exact .quiet (by rintro _ ⟨⟩)
  | end_send k =>
    simp only [step] at h
    split at h
    · cases h
      exact .quiet (by rintro _ ⟨⟩)
    · rename_i m hm
      have hpush : s.pushing (.end_send k) = some m.1 := by
        simp only [pushing, hm, Option.map_some]
      cases h
      exact .plain hpush m.2
  | end_reliable k =>
    simp only [step] at h
    split at h
    · cases h
      exact .quiet (by rintro _ ⟨⟩)
    · rename_i m _
      cases h
      exact .reliable (.inr ⟨k, rfl⟩) m.2

/-- Only a `receive` can panic. -/
theorem step_returns_of_ne (B : Build) (s : Session w F) {op : ChannelOp}
    (hop : ∀ raw, op ≠ .receive raw) : ∃ r, s.step B op = .ok r := by
  cases op with
  | receive raw => exact absurd rfl (hop raw)
  | send topic payload publish => exact ⟨_, rfl⟩
  | send_reliable topic payload t => exact ⟨_, rfl⟩
  | send_sync topic publish => exact ⟨_, rfl⟩
  | send_ephemeral topic payload publish => exact ⟨_, rfl⟩
  | start payload => exact ⟨_, rfl⟩
  | end_send k =>
    simp only [step]
    split
    · exact ⟨_, rfl⟩
    · exact ⟨_, rfl⟩
  | end_reliable k =>
    simp only [step]
    split
    · exact ⟨_, rfl⟩
    · exact ⟨_, rfl⟩

theorem pushing_ne_receive {s : Session w F} {op : ChannelOp} {m : ContentMessage}
    (h : s.pushing op = some m) (raw : Bytes) : op ≠ .receive raw := by
  rintro rfl
  cases h

end Session

/-- What a call does to the filter and to the incoming buffer, and the events
that it leaves. -/
inductive Effect (w : Wire) (f : F) (buf : List SdsMessage) :
    ChannelOp → F → List SdsMessage → List Event → Prop
  | quiet {op : ChannelOp} :
      (∀ raw msg, op = .receive raw → w.sds_from_slice raw = some msg →
        check f msg.message_id = true) →
      Effect w f buf op f buf []
  | sent {op : ChannelOp} {m : ContentMessage} : (∀ raw, op ≠ .receive raw) →
      m.message_id = w.compute_message_id m.content →
      Effect w f buf op (set f m.message_id) buf [.sent m]
  | received {raw : Bytes} {msg : SdsMessage} {f' : F} {buf' : List SdsMessage}
      {out : List ContentMessage} :
      w.sds_from_slice raw = some msg → check f msg.message_id = false →
      Received f buf msg f' buf' out → Effect w f buf (.receive raw) f' buf' (eventsOf msg out)

/-! ## The log of a run -/

/-- The ids of a log, oldest first. -/
def logIds (log : List Event) : List MessageId := log.map Event.id

@[simp] theorem logIds_nil : logIds [] = [] := rfl

@[simp] theorem logIds_cons (e : Event) (log : List Event) :
    logIds (e :: log) = e.id :: logIds log := rfl

@[simp] theorem logIds_append (log log' : List Event) :
    logIds (log ++ log') = logIds log ++ logIds log' := List.map_append

@[simp] theorem logIds_delivered (ms : List ContentMessage) :
    logIds (ms.map .delivered) = idsOf ms := by
  simp [logIds, idsOf, Event.id]

/-- The ids that a log puts in the local history: those of the messages sent
and delivered. -/
def recordedIds (log : List Event) : List MessageId :=
  log.filterMap fun
    | .sent m => some m.message_id
    | .delivered m => some m.message_id
    | .heard _ => none

@[simp] theorem recordedIds_nil : recordedIds [] = [] := rfl

@[simp] theorem recordedIds_append (log log' : List Event) :
    recordedIds (log ++ log') = recordedIds log ++ recordedIds log' := List.filterMap_append

@[simp] theorem recordedIds_delivered (ms : List ContentMessage) :
    recordedIds (ms.map .delivered) = idsOf ms := by
  induction ms with
  | nil => rfl
  | cons m ms ih => simpa [recordedIds] using ih

/-- Each delivery of a log has its dependencies in the filter, as the events
before it left the filter. -/
def Ordered (f : F) (log : List Event) : Prop :=
  ∀ before m after, log = before ++ .delivered m :: after → Satisfied (setAll f (logIds before)) m

theorem ordered_append {f : F} {log log' : List Event} (h : Ordered f log)
    (h' : Ordered (setAll f (logIds log)) log') : Ordered f (log ++ log') := by
  intro before m after heq
  rcases append_eq_split heq with ⟨mid, hlog⟩ | ⟨mid, rfl, hmid⟩
  · exact h before m mid hlog
  · rw [logIds_append, setAll_append]
    exact h' mid m after hmid

theorem ordered_delivered {f : F} {buf rest : List SdsMessage} {ds : List ContentMessage}
    (h : Resolved f buf ds rest) : Ordered f (ds.map .delivered) := by
  intro before m after heq
  obtain ⟨ds₁, ds₂, rfl, rfl, htail⟩ := List.map_eq_append_iff.mp heq
  obtain ⟨m', ds₃, rfl, hm, rfl⟩ := List.map_eq_cons_iff.mp htail
  cases hm
  rw [logIds_delivered]
  exact h.order ds₁ m ds₃ rfl

/-- A delivery comes first in the events of the call that gets a message
whose dependencies are there. -/
theorem ordered_cons {f : F} {e : Event} {log : List Event}
    (he : ∀ m, e = .delivered m → Satisfied f m) (h : Ordered (set f e.id) log) :
    Ordered f (e :: log) := by
  intro before m after heq
  cases before with
  | nil =>
    simp only [List.nil_append, List.cons.injEq] at heq
    exact he m heq.1
  | cons b bs =>
    simp only [List.cons_append, List.cons.injEq] at heq
    obtain ⟨rfl, rfl⟩ := heq
    exact h bs m after rfl

theorem ordered_nil (f : F) : Ordered f [] := by
  intro before m after heq
  simp at heq

section Effects

variable {f f' : F} {buf buf' : List SdsMessage} {op : ChannelOp} {ev : List Event}

/-- Each event is one insertion. -/
theorem Effect.bloom (h : Effect w f buf op f' buf' ev) : f' = setAll f (logIds ev) := by
  cases h with
  | quiet _ => rfl
  | sent _ _ => rfl
  | received _ _ hrec =>
    cases hrec with
    | direct _ _ => rw [eventsOf, logIds_delivered]
    | parked _ _ => rw [eventsOf, logIds_delivered]
    | sync _ => rw [eventsOf, logIds_cons, logIds_delivered, Event.id]
    | ephemeral => rfl

theorem Effect.ordered (h : Effect w f buf op f' buf' ev) : Ordered f ev := by
  cases h with
  | quiet _ => exact ordered_nil f
  | sent _ _ => exact ordered_cons (by rintro _ ⟨⟩) (ordered_nil _)
  | received _ _ hrec =>
    cases hrec with
    | direct hsat hres =>
      refine ordered_cons ?_ (ordered_delivered hres)
      rintro _ ⟨⟩
      exact hsat
    | parked _ hres => exact ordered_delivered hres
    | sync hres => exact ordered_cons (by rintro _ ⟨⟩) (ordered_delivered hres)
    | ephemeral => exact ordered_cons (by rintro _ ⟨⟩) (ordered_nil _)

end Effects

theorem receiveEvents_dropped {ch : MessageChannel F} {raw : Bytes} {out : List ContentMessage}
    (h : ∀ msg, w.sds_from_slice raw = some msg → check ch.bloom msg.message_id = true) :
    receiveEvents w ch raw out = [] := by
  unfold receiveEvents
  split
  · rfl
  · rename_i msg hmsg
    rw [h msg hmsg, if_pos rfl]

theorem receiveEvents_new {ch : MessageChannel F} {raw : Bytes} {out : List ContentMessage}
    {msg : SdsMessage} (hmsg : w.sds_from_slice raw = some msg)
    (hnew : check ch.bloom msg.message_id = false) :
    receiveEvents w ch raw out = eventsOf msg out := by
  simp [receiveEvents, hmsg, hnew]

theorem recordedIds_eventsOf (msg : SdsMessage) (out : List ContentMessage) :
    recordedIds (eventsOf msg out) = idsOf out := by
  rw [← recordedIds_delivered]
  cases msg <;> rfl

namespace Session

theorem step_effect {B : Build} {s s' : Session w F} {op : ChannelOp} {ev : List Event}
    (h : s.step B op = .ok (s', ev)) :
    Effect w s.channel.bloom s.channel.incoming_buffer op s'.channel.bloom
      s'.channel.incoming_buffer ev := by
  have hstart : (s.started op).bloom = s.channel.bloom ∧
      (s.started op).incoming_buffer = s.channel.incoming_buffer := by
    unfold started
    split <;> exact ⟨rfl, rfl⟩
  have hout := step_outcome h
  generalize s'.channel = ch' at hout ⊢
  cases hout with
  | quiet hop =>
    rw [hstart.1, hstart.2]
    exact .quiet fun raw _ hraw => absurd hraw (hop raw)
  | reliable hop hid =>
    rw [← hstart.1, ← hstart.2]
    refine .sent ?_ hid
    rcases hop with ⟨topic, payload, t, rfl⟩ | ⟨k, rfl⟩
    · rintro _ ⟨⟩
    · rintro _ ⟨⟩
  | plain hpush hid =>
    rw [← hstart.1, ← hstart.2]
    exact .sent (pushing_ne_receive hpush) hid
  | received hop hr =>
    subst hop
    rcases receive_received hr with ⟨hch, rfl, hdrop⟩ | ⟨msg, hmsg, hnew, hrec⟩
    · rw [receiveEvents_dropped hdrop, hch]
      refine .quiet ?_
      rintro raw' msg ⟨⟩ hmsg
      exact hdrop msg hmsg
    · rw [receiveEvents_new hmsg hnew]
      exact .received hmsg hnew hrec

theorem step_records {B : Build} {s s' : Session w F} {op : ChannelOp} {ev : List Event}
    (h : s.step B op = .ok (s', ev)) {size : Nat} {ids : List MessageId}
    (hids : s.channel.Records size ids) : s'.channel.Records size (ids ++ recordedIds ev) := by
  have hstart : (s.started op).Records size ids := by
    unfold started
    split
    · exact hids.frame rfl rfl
    · exact hids
  have hout := step_outcome h
  generalize s'.channel = ch' at hout ⊢
  cases hout with
  | quiet _ =>
    rw [recordedIds_nil, List.append_nil]
    exact hstart
  | @reliable m _ _ => exact hstart.mark m.message_id m.lamport_timestamp
  | @plain m _ _ => exact (hstart.mark m.message_id m.lamport_timestamp).frame rfl rfl
  | received _ hr =>
    rcases receive_cases hr with ⟨hch, rfl, hdrop⟩ | ⟨msg, outgoing, acks, hmsg, hnew, heq⟩
    · rw [receiveEvents_dropped hdrop, recordedIds_nil, List.append_nil, hch]
      exact hids
    · rw [receiveEvents_new hmsg hnew, recordedIds_eventsOf]
      have hframe : MessageChannel.Records
          { s.channel with outgoing_buffer := outgoing, possible_acks := acks } size ids :=
        hids.frame rfl rfl
      have hrec := receive_message_records hframe msg
      rwa [← heq] at hrec

/-! ## Whole runs -/

section Runs

variable {B : Build} {s s' : Session w F} {ops : List ChannelOp} {log : List Event}

/-- The filter after a run is the filter before it, with the ids of the log. -/
theorem run_bloom (h : run (step B) s ops = .ok (s', log)) :
    s'.channel.bloom = setAll s.channel.bloom (logIds log) := by
  refine run_invariant (I := fun log t => t.channel.bloom = setAll s.channel.bloom (logIds log))
    rfl ?_ h
  intro log t op t' ev ht hstep
  rw [(step_effect hstep).bloom, ht, logIds_append, setAll_append]

theorem run_ordered (h : run (step B) s ops = .ok (s', log)) : Ordered s.channel.bloom log := by
  have hinv := run_invariant
    (I := fun log t => t.channel.bloom = setAll s.channel.bloom (logIds log) ∧
      Ordered s.channel.bloom log) ⟨rfl, ordered_nil _⟩ ?_ h
  · exact hinv.2
  · rintro log t op t' ev ⟨ht, hord⟩ hstep
    have heff := step_effect hstep
    refine ⟨?_, ordered_append hord ?_⟩
    · rw [heff.bloom, ht, logIds_append, setAll_append]
    · rw [← ht]
      exact heff.ordered

/-- The local history after a run holds the newest ids that the run recorded. -/
theorem run_records {size : Nat} (h0 : s.channel.Records size [])
    (h : run (step B) s ops = .ok (s', log)) : s'.channel.Records size (recordedIds log) := by
  refine run_invariant (I := fun log t => t.channel.Records size (recordedIds log)) h0 ?_ h
  intro log t op t' ev ht hstep
  rw [recordedIds_append]
  exact step_records hstep ht

end Runs

/-- With the filters of the peers as exact sets, every call ends. -/
theorem step_exact_returns (dec : Bytes → Option (Finset MessageId)) (s : Session w F)
    (op : ChannelOp) : ∃ r, s.step (exactBlooms dec) op = .ok r := by
  by_cases hop : ∃ raw, op = .receive raw
  · obtain ⟨raw, rfl⟩ := hop
    obtain ⟨r, hr⟩ := receive_exact_returns dec w s.channel raw
    simp only [step, hr]
    exact ⟨_, rfl⟩
  · exact step_returns_of_ne _ s fun raw hraw => hop ⟨raw, hraw⟩

end Session

/-! ## Causal order -/

/-- An exact filter keeps every id. -/
theorem check_setAll_idSet {enc : Finset MessageId → Bytes} (f : IdSet enc) (ids : List MessageId)
    (x : MessageId) : check (setAll f ids) x = true ↔ x ∈ ids ∨ check f x = true := by
  rw [check_idSet, setAll_idSet, check_idSet]
  simp [or_comm]

/-- A delivered message has all its dependencies before it in the log: each
was sent or delivered, or came as the id of a sync or ephemeral message. -/
theorem a_delivery_comes_after_its_dependencies {enc : Finset MessageId → Bytes}
    (dec : Bytes → Option (Finset MessageId)) (w : Wire) (channel_id : ChannelId)
    (sender_id : ParticipantId) (config : ChannelConfig) (now_ms : UInt64)
    (ops : List ChannelOp) :
    Returns (run (Session.step (exactBlooms dec))
      (Session.new w (with_config channel_id sender_id config now_ms :
        MessageChannel (IdSet enc))) ops)
      fun r => ∀ before m after, r.2 = before ++ .delivered m :: after →
        ∀ id ∈ deps m, ∃ e ∈ before, e.id = id := by
  obtain ⟨⟨s, log⟩, hr⟩ := run_total (Session.step_exact_returns dec)
    (Session.new w (with_config channel_id sender_id config now_ms : MessageChannel (IdSet enc)))
    ops
  refine ⟨_, hr, ?_⟩
  intro before m after hlog id hid
  have hsat := Session.run_ordered hr before m after hlog id hid
  rw [check_setAll_idSet] at hsat
  rcases hsat with hsat | hsat
  · exact List.mem_map.mp hsat
  · rw [check_idSet] at hsat
    exact absurd hsat (Finset.notMem_empty id)

end lmao.sds
