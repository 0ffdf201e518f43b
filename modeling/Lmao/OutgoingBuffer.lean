-- The outgoing buffer of a channel. A run leaves a second log: what enters the
-- buffer, what leaves it and why, and the messages that came in between.
import Lmao.ChannelRuns

set_option linter.unusedSectionVars false

namespace lmao.sds

open machine MessageChannel

variable {F : Type} [IdFilter F] {w : Wire}

/-! ## What a delivery leaves alone -/

namespace MessageChannel

/-- The parts of a channel that a delivery does not touch. -/
structure SameOutgoing (ch ch' : MessageChannel F) : Prop where
  channel_id : ch'.channel_id = ch.channel_id
  sender_id : ch'.sender_id = ch.sender_id
  config : ch'.config = ch.config
  outgoing_buffer : ch'.outgoing_buffer = ch.outgoing_buffer
  possible_acks : ch'.possible_acks = ch.possible_acks

theorem SameOutgoing.refl (ch : MessageChannel F) : SameOutgoing ch ch :=
  ⟨rfl, rfl, rfl, rfl, rfl⟩

theorem SameOutgoing.trans {a b c : MessageChannel F} (h : SameOutgoing a b)
    (h' : SameOutgoing b c) : SameOutgoing a c :=
  ⟨h'.channel_id.trans h.channel_id, h'.sender_id.trans h.sender_id, h'.config.trans h.config,
    h'.outgoing_buffer.trans h.outgoing_buffer, h'.possible_acks.trans h.possible_acks⟩

theorem marks_same (ch : MessageChannel F) (ms : List ContentMessage) :
    SameOutgoing ch (ch.marks ms) ∧ (ch.marks ms).lamport_timestamp = ch.lamport_timestamp := by
  induction ms generalizing ch with
  | nil => exact ⟨.refl ch, rfl⟩
  | cons m ms ih =>
    obtain ⟨hsame, hclock⟩ := ih (ch.mark m.message_id m.lamport_timestamp)
    have hmark : SameOutgoing ch (ch.mark m.message_id m.lamport_timestamp) :=
      ⟨rfl, rfl, rfl, rfl, rfl⟩
    exact ⟨hmark.trans hsame, hclock⟩

theorem resolve_buffered_same (ch : MessageChannel F) :
    SameOutgoing ch ch.resolve_buffered.1 ∧
      ch.resolve_buffered.1.lamport_timestamp = ch.lamport_timestamp := by
  unfold resolve_buffered
  obtain ⟨ps, hd, -⟩ := resolveRule.drain_spec (Nat.lt_succ_self ch.incoming_buffer.length) ch
  obtain ⟨h1, -, -⟩ := takes_marks hd.takes
  obtain ⟨hsame, hclock⟩ := marks_same ch (ps.map Prod.snd)
  rw [← h1] at hsame hclock
  exact ⟨hsame.trans ⟨rfl, rfl, rfl, rfl, rfl⟩, hclock⟩

theorem receive_message_same (ch : MessageChannel F) (msg : SdsMessage) :
    SameOutgoing ch (ch.receive_message msg).1 := by
  cases msg with
  | Content m =>
    unfold receive_message
    simp only
    split
    · obtain ⟨h1, h2, h3, h4, h5⟩ := (resolve_buffered_same
        ((ch.update_timestamp m.lamport_timestamp).mark m.message_id m.lamport_timestamp)).1
      exact ⟨h1, h2, h3, h4, h5⟩
    · obtain ⟨h1, h2, h3, h4, h5⟩ := (resolve_buffered_same
        { ch.update_timestamp m.lamport_timestamp with
          incoming_buffer := park ch.incoming_buffer m }).1
      exact ⟨h1, h2, h3, h4, h5⟩
  | Sync s =>
    obtain ⟨h1, h2, h3, h4, h5⟩ := (resolve_buffered_same
      (update_timestamp { ch with bloom := set ch.bloom s.message_id } s.lamport_timestamp)).1
    exact ⟨h1, h2, h3, h4, h5⟩
  | Ephemeral e => exact ⟨rfl, rfl, rfl, rfl, rfl⟩

theorem retain_unacked_sublist {contains : MessageId → Except Panic Bool} {threshold : Nat}
    {out out' : List ContentMessage} {acks acks' : AList fun _ : MessageId => Nat}
    (h : retain_unacked contains threshold out acks = .ok (out', acks')) : out'.Sublist out := by
  induction out generalizing acks out' acks' with
  | nil =>
    cases h
    exact List.Sublist.refl _
  | cons m out ih =>
    unfold retain_unacked at h
    rcases hc : contains m.message_id with p | b
    · simp [hc, bind, Except.bind] at h
    · simp only [hc, bind, Except.bind, pure, Except.pure] at h
      split at h
      · split at h
        · exact (ih h).cons m
        · rcases hr : retain_unacked contains threshold out
            (acks.insert m.message_id ((acks.lookup m.message_id).getD 0 + 1)) with p | r
          · simp [hr] at h
          · simp only [hr, Except.ok.injEq, Prod.mk.injEq] at h
            obtain ⟨rfl, rfl⟩ := h
            exact (ih hr).cons_cons m
      · rcases hr : retain_unacked contains threshold out acks with p | r
        · simp [hr] at h
        · simp only [hr, Except.ok.injEq, Prod.mk.injEq] at h
          obtain ⟨rfl, rfl⟩ := h
          exact (ih hr).cons_cons m

end MessageChannel

/-! ## The log -/

/-- What happens to the buffer: a `send` ends and pushes its message, a
`send_reliable` ends, which pushes nothing, a message comes in, and an entry
leaves as acknowledged or as the oldest of a full buffer. -/
inductive BufferEvent
  | pushed (m : ContentMessage)
  | reliable (m : ContentMessage)
  | heard (msg : SdsMessage)
  | acked (m : ContentMessage)
  | evicted (m : ContentMessage)
deriving DecidableEq, Repr

namespace MessageChannel

/-- The entry that a push drops. -/
def oldest_of_full (ch : MessageChannel F) : List ContentMessage :=
  if ch.outgoing_buffer.length ≥ OUTGOING_BUFFER_MAX then ch.outgoing_buffer.take 1 else []

/-- The entries that stay at a push. -/
def kept_outgoing (ch : MessageChannel F) : List ContentMessage :=
  if ch.outgoing_buffer.length ≥ OUTGOING_BUFFER_MAX then ch.outgoing_buffer.drop 1
  else ch.outgoing_buffer

theorem oldest_append_kept (ch : MessageChannel F) :
    ch.oldest_of_full ++ ch.kept_outgoing = ch.outgoing_buffer := by
  unfold oldest_of_full kept_outgoing
  split
  · exact List.take_append_drop 1 _
  · rfl

end MessageChannel

/-- The messages that a call ended the sending of. -/
def sentOf (ev : List Event) : List ContentMessage :=
  ev.filterMap fun
    | .sent m => some m
    | _ => none

/-- The events of a call, from the sessions before and after it. -/
def bufferEvents (w : Wire) (s : Session w F) (op : ChannelOp) (ev : List Event)
    (s' : Session w F) : List BufferEvent :=
  match op with
  | .receive raw =>
    match w.sds_from_slice raw with
    | none => []
    | some msg =>
      .heard msg ::
        (s.channel.outgoing_buffer.diff s'.channel.outgoing_buffer).map .acked
  | .send _ _ _ | .end_send _ =>
    (sentOf ev).flatMap fun m => s.channel.oldest_of_full.map .evicted ++ [.pushed m]
  | .send_reliable _ _ _ | .end_reliable _ => (sentOf ev).map .reliable
  | _ => []

/-- A call of the channel, with the log of the buffer. -/
def Session.bufferStep (B : Build) (s : Session w F) (op : ChannelOp) :
    Except Panic (Session w F × List BufferEvent) :=
  match s.step B op with
  | .error p => .error p
  | .ok r => .ok (r.1, bufferEvents w s op r.2 r.1)

/-! ## What one call does to the buffer -/

/-- The ids in the filter of a message, none without a filter. -/
def remote_ids (dec : Bytes → Option (Finset MessageId)) (msg : SdsMessage) : Finset MessageId :=
  (msg.bloom_filter_bytes.bind dec).getD ∅

/-- What a call does to the buffer and to the counts, and its events. -/
inductive BufferChange (dec : Bytes → Option (Finset MessageId)) (s : Session w F)
    (op : ChannelOp) :
    List ContentMessage → AList (fun _ : MessageId => Nat) → List BufferEvent → Prop
  | quiet {ev : List BufferEvent} :
      (∀ e ∈ ev, (∃ m, e = .reliable m) ∨ ∃ msg, e = .heard msg) →
      BufferChange dec s op s.channel.outgoing_buffer s.channel.possible_acks ev
  | push {m : ContentMessage} : s.pushing op = some m →
      BufferChange dec s op (s.channel.kept_outgoing ++ [m]) s.channel.possible_acks
        (s.channel.oldest_of_full.map .evicted ++ [.pushed m])
  | check {raw : Bytes} {msg : SdsMessage} {out : List ContentMessage}
      {acks : AList (fun _ : MessageId => Nat)} : op = .receive raw →
      w.sds_from_slice raw = some msg → check s.channel.bloom msg.message_id = false →
      retain_unacked (fun id => .ok (decide (id ∈ remote_ids dec msg)))
        s.channel.config.possible_acks_threshold s.channel.outgoing_buffer
        s.channel.possible_acks = .ok (out, acks) →
      BufferChange dec s op out (if acks.entries.length > POSSIBLE_ACKS_MAX then ∅ else acks)
        (.heard msg :: (s.channel.outgoing_buffer.diff out).map .acked)

/-- What a call of `receive` does to the buffer: nothing, or the walk over it
with the filter of a message that is new. -/
theorem receive_outgoing {dec : Bytes → Option (Finset MessageId)} {ch ch' : MessageChannel F}
    {raw : Bytes} {out : List ContentMessage}
    (h : ch.receive (exactBlooms dec) w raw = .ok (ch', out)) :
    SameOutgoing ch ch' ∨
    ∃ msg outgoing acks, w.sds_from_slice raw = some msg ∧
      check ch.bloom msg.message_id = false ∧
      retain_unacked (fun id => .ok (decide (id ∈ remote_ids dec msg)))
        ch.config.possible_acks_threshold ch.outgoing_buffer ch.possible_acks =
          .ok (outgoing, acks) ∧
      SameOutgoing { ch with
        outgoing_buffer := outgoing
        possible_acks := if acks.entries.length > POSSIBLE_ACKS_MAX then ∅ else acks } ch' := by
  unfold receive at h
  split at h
  · cases h
    exact .inl (.refl _)
  · rename_i msg hmsg
    split at h
    · cases h
      exact .inl (.refl _)
    · rename_i hdup
      rw [Bool.not_eq_true] at hdup
      rcases hb : msg.bloom_filter_bytes with _ | bytes
      · simp only [hb, exactBlooms, bind, Except.bind, pure, Except.pure, Bool.false_and,
          Bool.false_eq_true, if_false, Except.ok.injEq] at h
        have hsame := receive_message_same ch msg
        rw [h] at hsame
        exact .inl hsame
      · rcases hd : dec bytes with _ | ids
        · simp only [hb, check_outgoing_acks, exactBlooms, hd, bind, Except.bind, pure, Except.pure,
            Bool.false_and, Bool.false_eq_true, if_false, Except.ok.injEq] at h
          have hsame := receive_message_same ch msg
          rw [h] at hsame
          exact .inl hsame
        · have hids : remote_ids dec msg = ids := by
            unfold remote_ids
            rw [hb, Option.bind_some, hd, Option.getD_some]
          have hexact : ∀ id, ∃ b, (.ok (decide (id ∈ ids)) : Except Panic Bool) = .ok b :=
            fun id => ⟨_, rfl⟩
          obtain ⟨⟨outgoing, acks⟩, hr⟩ := retain_unacked_returns hexact
            ch.config.possible_acks_threshold ch.outgoing_buffer ch.possible_acks
          simp only [hb, check_outgoing_acks, exactBlooms, hd, hr, bind, Except.bind, pure,
            Except.pure, Bool.false_and, Bool.false_eq_true, if_false, Except.ok.injEq] at h
          have hsame := receive_message_same { ch with
            outgoing_buffer := outgoing
            possible_acks := if acks.entries.length > POSSIBLE_ACKS_MAX then ∅ else acks } msg
          rw [h] at hsame
          exact .inr ⟨msg, outgoing, acks, hmsg, hdup, by rw [hids, hr], hsame⟩

theorem bufferEvents_nil {s s' : Session w F} {op : ChannelOp} (hop : ∀ raw, op ≠ .receive raw) :
    bufferEvents w s op [] s' = [] := by
  cases op with
  | receive raw => exact absurd rfl (hop raw)
  | _ => rfl

theorem bufferEvents_reliable {s s' : Session w F} {op : ChannelOp} {m : ContentMessage}
    (hop : (∃ topic payload t, op = .send_reliable topic payload t) ∨
      (∃ k, op = .end_reliable k)) :
    bufferEvents w s op [.sent m] s' = [.reliable m] := by
  rcases hop with ⟨topic, payload, t, rfl⟩ | ⟨k, rfl⟩
  · rfl
  · rfl

theorem bufferEvents_pushing {s s' : Session w F} {op : ChannelOp} {m : ContentMessage}
    (hop : s.pushing op = some m) :
    bufferEvents w s op [.sent m] s' = s.channel.oldest_of_full.map .evicted ++ [.pushed m] := by
  have hone : bufferEvents w s op [.sent m] s' =
      [m].flatMap fun m => s.channel.oldest_of_full.map .evicted ++ [.pushed m] := by
    cases op with
    | send topic payload publish => rfl
    | end_send k => rfl
    | _ => cases hop
  rw [hone, List.flatMap_singleton]

theorem diff_self (l : List ContentMessage) : l.diff l = [] := by
  induction l with
  | nil => rfl
  | cons m ms ih => rw [List.diff_cons, List.erase_cons_head, ih]

namespace Session

/-- What a call leaves alone, and what it does to the buffer. -/
theorem bufferStep_change {dec : Bytes → Option (Finset MessageId)} {s s' : Session w F}
    {op : ChannelOp} {ev : List BufferEvent}
    (h : s.bufferStep (exactBlooms dec) op = .ok (s', ev)) :
    s'.channel.sender_id = s.channel.sender_id ∧ s'.channel.config = s.channel.config ∧
      BufferChange dec s op s'.channel.outgoing_buffer s'.channel.possible_acks ev := by
  unfold bufferStep at h
  rcases hs : s.step (exactBlooms dec) op with p | ⟨t, log⟩
  · rw [hs] at h
    cases h
  rw [hs] at h
  cases h
  have hstart : (s.started op).sender_id = s.channel.sender_id ∧
      (s.started op).config = s.channel.config ∧
      (s.started op).outgoing_buffer = s.channel.outgoing_buffer ∧
      (s.started op).possible_acks = s.channel.possible_acks := by
    unfold started
    split <;> exact ⟨rfl, rfl, rfl, rfl⟩
  obtain ⟨hsender, hconfig, hbuffer, hacks⟩ := hstart
  have hout := step_outcome hs
  obtain ⟨ch', in_flight⟩ := t
  dsimp only at hout ⊢
  cases hout with
  | quiet hop =>
    refine ⟨hsender, hconfig, ?_⟩
    rw [hbuffer, hacks, bufferEvents_nil hop]
    exact .quiet (by simp)
  | @reliable m hop _ =>
    refine ⟨hsender, hconfig, ?_⟩
    have hquiet : BufferChange dec s op s.channel.outgoing_buffer s.channel.possible_acks
        [.reliable m] := .quiet (by simp)
    rw [← hbuffer, ← hacks] at hquiet
    rw [bufferEvents_reliable hop]
    exact hquiet
  | @plain m hpush _ =>
    refine ⟨hsender, hconfig, ?_⟩
    have hkept : (s.started op).kept_outgoing = s.channel.kept_outgoing := by
      unfold kept_outgoing
      rw [hbuffer]
    rw [bufferEvents_pushing hpush]
    have hpush' : BufferChange dec s op (s.channel.kept_outgoing ++ [m]) s.channel.possible_acks
        (s.channel.oldest_of_full.map .evicted ++ [.pushed m]) := .push hpush
    rw [← hkept, ← hacks] at hpush'
    exact hpush'
  | @received raw _ out hop hr =>
    subst hop
    rcases receive_outgoing hr with hsame | ⟨msg, outgoing, acks, hmsg, hnew, hretain, hsame⟩
    · refine ⟨hsame.sender_id, hsame.config, ?_⟩
      rw [hsame.outgoing_buffer, hsame.possible_acks]
      refine .quiet ?_
      unfold bufferEvents
      dsimp only
      rw [hsame.outgoing_buffer, diff_self]
      split
      · simp
      · simp
    · refine ⟨hsame.sender_id, hsame.config, ?_⟩
      rw [hsame.outgoing_buffer, hsame.possible_acks]
      have hev : bufferEvents w s (.receive raw) (receiveEvents w s.channel raw out)
          ⟨ch', in_flight⟩ =
            .heard msg :: (s.channel.outgoing_buffer.diff outgoing).map .acked := by
        unfold bufferEvents
        simp only [hmsg, hsame.outgoing_buffer]
      rw [hev]
      exact .check rfl hmsg hnew hretain

end Session

theorem Session.bufferStep_returns (dec : Bytes → Option (Finset MessageId)) (s : Session w F)
    (op : ChannelOp) : ∃ r, s.bufferStep (exactBlooms dec) op = .ok r := by
  obtain ⟨r, hr⟩ := Session.step_exact_returns dec s op
  unfold Session.bufferStep
  rw [hr]
  exact ⟨_, rfl⟩

end lmao.sds
