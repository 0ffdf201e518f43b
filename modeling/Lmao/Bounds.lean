-- What a channel holds (sds/channel.rs): the two buffers, the counts of the
-- possible ACKs and the local history have limits that no peer can push them
-- over, and the causal history of a message is the newest part of all that was
-- recorded. The limit of the local history is a product of machine words.
import Lmao.Repair

set_option linter.unusedSectionVars false

namespace lmao.sds

open machine MessageChannel

variable {F : Type} [IdFilter F] {w : Wire}

/-! ## The limits -/

namespace MessageChannel

structure Small (ch : MessageChannel F) : Prop where
  incoming : ch.incoming_buffer.length ≤ INCOMING_BUFFER_MAX
  outgoing : ch.outgoing_buffer.length ≤ OUTGOING_BUFFER_MAX
  acks : ch.possible_acks.entries.length ≤ POSSIBLE_ACKS_MAX

/-- A full list drops its oldest element for a new one. -/
theorem drop_oldest_length {α : Type} {l : List α} {cap : Nat} (hcap : 0 < cap)
    (h : l.length ≤ cap) (a : α) :
    ((if l.length ≥ cap then l.drop 1 else l) ++ [a]).length ≤ cap := by
  rw [List.length_append, List.length_singleton]
  by_cases hfull : l.length ≥ cap
  · rw [if_pos hfull, List.length_drop]
    omega
  · rw [if_neg hfull]
    omega

theorem Small.push_outgoing {ch : MessageChannel F} (h : ch.Small) (msg : ContentMessage) :
    (ch.push_outgoing msg).Small :=
  ⟨h.incoming, drop_oldest_length (by decide) h.outgoing msg, h.acks⟩

theorem park_length {buf : List SdsMessage} (h : buf.length ≤ INCOMING_BUFFER_MAX)
    (m : ContentMessage) : (park buf m).length ≤ INCOMING_BUFFER_MAX :=
  drop_oldest_length (by decide) h (.Content m)

theorem received_length {f f' : F} {buf buf' : List SdsMessage} {msg : SdsMessage}
    {out : List ContentMessage} (h : Received f buf msg f' buf' out)
    (hbuf : buf.length ≤ INCOMING_BUFFER_MAX) : buf'.length ≤ INCOMING_BUFFER_MAX := by
  cases h with
  | direct _ hres => exact hres.sublist.length_le.trans hbuf
  | parked _ hres => exact hres.sublist.length_le.trans (park_length hbuf _)
  | sync hres => exact hres.sublist.length_le.trans hbuf
  | ephemeral => exact hbuf

theorem Small.receive_message {ch : MessageChannel F} (h : ch.Small) (msg : SdsMessage) :
    (ch.receive_message msg).1.Small := by
  have hsame := receive_message_same ch msg
  refine ⟨received_length (receive_message_received ch msg) h.incoming, ?_, ?_⟩
  · rw [hsame.outgoing_buffer]
    exact h.outgoing
  · rw [hsame.possible_acks]
    exact h.acks

/-- The walk over the outgoing buffer only takes messages out, and too many
counts are all dropped. -/
theorem Small.check_outgoing_acks {B : Build} {ch ch' : MessageChannel F} {bytes : Bytes}
    (h : ch.Small) (hc : ch.check_outgoing_acks B bytes = .ok ch') : ch'.Small := by
  unfold MessageChannel.check_outgoing_acks at hc
  split at hc
  · cases hc
    exact h
  · rename_i remote_bloom _
    rcases hr : retain_unacked (B.probably_contains remote_bloom)
      ch.config.possible_acks_threshold ch.outgoing_buffer ch.possible_acks with e | r
    · simp [hr, bind, Except.bind] at hc
    · simp only [hr, bind, Except.bind, pure, Except.pure, Except.ok.injEq] at hc
      subst hc
      refine ⟨h.incoming, (retain_unacked_sublist hr).length_le.trans h.outgoing, ?_⟩
      dsimp only
      split
      · exact Nat.zero_le _
      · rename_i hlen
        exact Nat.le_of_not_lt hlen

theorem Small.receive {B : Build} {ch ch' : MessageChannel F} {raw : Bytes}
    {out : List ContentMessage} (h : ch.Small) (hr : ch.receive B w raw = .ok (ch', out)) :
    ch'.Small := by
  rcases receive_stages hr with ⟨rfl, -, -⟩ | ⟨msg, mid, -, -, hmid, heq⟩
  · exact h
  · have hsmall : mid.Small := by
      unfold AcksChecked at hmid
      split at hmid
      · exact hmid ▸ h
      · exact h.check_outgoing_acks hmid
    have htaken := hsmall.receive_message msg
    rw [← heq] at htaken
    exact htaken

/-- What a `receive` delivers is recorded, in the order of the deliveries. -/
theorem receive_records {B : Build} {ch ch' : MessageChannel F} {raw : Bytes}
    {out : List ContentMessage} (hr : ch.receive B w raw = .ok (ch', out)) {size : Nat}
    {ids : List MessageId} (h : ch.Records size ids) : ch'.Records size (ids ++ idsOf out) := by
  rcases receive_cases hr with ⟨rfl, rfl, -⟩ | ⟨msg, outgoing, acks, -, -, heq⟩
  · rw [idsOf_nil, List.append_nil]
    exact h
  · have hframe : MessageChannel.Records
        { ch with outgoing_buffer := outgoing, possible_acks := acks } size ids :=
      h.frame rfl rfl
    have hrec := receive_message_records hframe msg
    rwa [← heq] at hrec

/-- The ids of the causal history, from all the ids that were recorded. -/
theorem Records.causal_history {ch : MessageChannel F} {size : Nat} {ids : List MessageId}
    (h : ch.Records size ids) :
    ch.build_causal_history.map (·.message_id) =
      ids.reverse.take (min size ch.config.history_max) := by
  have hrecent : ch.historyIds.reverse = ids.reverse.take ch.config.history_max := by
    rw [h.ids_eq, recent, List.reverse_drop]
    rcases Nat.le_total ch.config.history_max ids.length with hle | hle
    · congr 1
      omega
    · rw [Nat.sub_eq_zero_of_le hle, Nat.sub_zero, List.take_of_length_le (by simp),
        List.take_of_length_le (by simpa using hle)]
  unfold build_causal_history
  rw [List.map_take, List.map_reverse, h.size_eq]
  have hmap : ch.local_history.map (·.message_id) = ch.historyIds := rfl
  rw [hmap, hrecent, List.take_take]

end MessageChannel

/-! ## The machine -/

/-- A call on a channel, with the calls of the repair among them. -/
inductive FullOp
  | call (op : ChannelOp)
  | send_repair_request (topic : String) (missing : List HistoryEntry)
      (publish : String → Bytes → Except TransportError Unit)
  | receive_and_repair (topic : String) (raw : Bytes)
      (publish : Nat → String → Bytes → Except TransportError Unit)

/-- A message is built with a causal history, and an id is recorded: that of a
message that was sent or delivered. -/
inductive RecordEvent
  | created (causal_history : List MessageId)
  | recorded (id : MessageId)
deriving DecidableEq, Repr

def recordedOf (log : List RecordEvent) : List MessageId :=
  log.filterMap fun
    | .created _ => none
    | .recorded id => some id

namespace Session

/-- The causal histories of the messages that a call builds, whatever the
transport answers to them. -/
def built (s : Session w F) : ChannelOp → List (List HistoryEntry)
  | .send _ payload _ | .send_reliable _ payload _ | .start payload =>
    [(s.channel.content_message w payload).2.causal_history]
  | .send_sync topic _ =>
    ((s.channel.send_sync w topic fun _ _ => .ok ()).2.toOption.map (·.causal_history)).toList
  | _ => []

/-- The product in `record_in_history` overflows, in a build that checks it. -/
def record_guard (B : Build) (s : Session w F) (ids : List MessageId) : Except Panic Unit :=
  if B.overflow_checks && decide (s.channel.config.causal_history_size * 2 ≥ 2 ^ 64) &&
      !ids.isEmpty then .error .mul_overflow
  else .ok ()

/-- The events of a call that builds messages and then records ids. -/
def recordEvents (histories : List (List HistoryEntry)) (ids : List MessageId) :
    List RecordEvent :=
  histories.map (fun h => .created (h.map (·.message_id))) ++ ids.map .recorded

def fullStep (B : Build) (s : Session w F) :
    FullOp → Except Panic (Session w F × List RecordEvent)
  | .call op => do
    let r ← s.step B op
    s.record_guard B (recordedIds r.2)
    return (r.1, recordEvents (s.built op) (recordedIds r.2))
  | .send_repair_request topic missing publish =>
    let r := s.channel.send_repair_request w topic missing publish
    let created := (s.channel.send_repair_request w topic missing fun _ _ => .ok ()).2
    .ok ({ s with channel := r.1 },
      recordEvents (created.toOption.map (·.causal_history)).toList [])
  | .receive_and_repair topic raw publish => do
    let r ← (s.channel.receive_and_repair B w topic raw publish).2
    let ids := idsOf (r.2.toOption.getD [])
    s.record_guard B ids
    return ({ s with channel := r.1 }, recordEvents [] ids)

end Session

/-! ## What one call does -/

/-- A call keeps the limits, its messages carry the causal history of the
channel before it, and then it records its ids. -/
structure Keeps (B : Build) (s s' : Session w F) (histories : List (List HistoryEntry))
    (ids : List MessageId) : Prop where
  small : s.channel.Small → s'.channel.Small
  records : ∀ size recorded, s.channel.Records size recorded →
    s'.channel.Records size (recorded ++ ids)
  histories : ∀ h ∈ histories, h = s.channel.build_causal_history
  unchecked : ids = [] ∨ B.overflow_checks = false ∨
    s.channel.config.causal_history_size * 2 < 2 ^ 64

theorem record_guard_ok {B : Build} {s : Session w F} {ids : List MessageId} {u : Unit}
    (h : s.record_guard B ids = .ok u) :
    ids = [] ∨ B.overflow_checks = false ∨ s.channel.config.causal_history_size * 2 < 2 ^ 64 := by
  unfold Session.record_guard at h
  split at h
  · cases h
  · rename_i hno
    rcases hids : ids.isEmpty with _ | _
    · rcases hchecks : B.overflow_checks with _ | _
      · exact .inr (.inl rfl)
      · simp only [hids, hchecks, Bool.true_and, Bool.not_false, Bool.and_true,
          decide_eq_true_eq] at hno
        exact .inr (.inr (Nat.lt_of_not_le hno))
    · exact .inl (List.isEmpty_iff.mp hids)

theorem Session.built_histories (s : Session w F) (op : ChannelOp) :
    ∀ h ∈ s.built op, h = s.channel.build_causal_history := by
  cases op with
  | send topic payload publish =>
    simp [built, content_message, next_timestamp, build_causal_history]
  | send_reliable topic payload t =>
    simp [built, content_message, next_timestamp, build_causal_history]
  | start payload => simp [built, content_message, next_timestamp, build_causal_history]
  | send_sync topic publish =>
    simp [built, send_sync, next_timestamp, build_causal_history, Except.toOption]
  | _ => simp [built]

theorem Session.step_small {B : Build} {s s' : Session w F} {op : ChannelOp} {ev : List Event}
    (h : s.step B op = .ok (s', ev)) (hs : s.channel.Small) : s'.channel.Small := by
  have hstart : (s.started op).Small := by
    unfold started
    split
    · exact ⟨hs.incoming, hs.outgoing, hs.acks⟩
    · exact hs
  have hout := step_outcome h
  generalize s'.channel = ch' at hout ⊢
  cases hout with
  | quiet _ => exact hstart
  | reliable _ _ => exact ⟨hstart.incoming, hstart.outgoing, hstart.acks⟩
  | @plain m _ _ =>
    have hmark : ((s.started op).mark m.message_id m.lamport_timestamp).Small :=
      ⟨hstart.incoming, hstart.outgoing, hstart.acks⟩
    exact hmark.push_outgoing m
  | received _ hr => exact hs.receive hr

theorem receive_and_repair_cases {B : Build} {ch ch' : MessageChannel F} {topic : String}
    {raw : Bytes} {publish : Nat → String → Bytes → Except TransportError Unit}
    {r : Except TransportError (List ContentMessage)}
    (h : (ch.receive_and_repair B w topic raw publish).2 = .ok (ch', r)) :
    (ch' = ch ∧ r.toOption.getD [] = []) ∨
      ∃ out, ch.receive B w raw = .ok (ch', out) ∧ r = .ok out := by
  unfold receive_and_repair at h
  split at h
  · cases h
    exact .inl ⟨rfl, rfl⟩
  · dsimp only at h
    split at h
    · cases h
      exact .inl ⟨rfl, rfl⟩
    · rcases hr : ch.receive B w raw with p | ⟨ch₁, out⟩
      · simp [hr, Except.map] at h
      · simp only [hr, Except.map, Except.ok.injEq, Prod.mk.injEq] at h
        obtain ⟨rfl, rfl⟩ := h
        exact .inr ⟨out, rfl, rfl⟩

theorem Session.fullStep_keeps {B : Build} {s s' : Session w F} {op : FullOp}
    {ev : List RecordEvent} (h : s.fullStep B op = .ok (s', ev)) :
    ∃ histories ids, ev = recordEvents histories ids ∧ Keeps B s s' histories ids := by
  cases op with
  | call op =>
    simp only [fullStep, bind, Except.bind] at h
    rcases hs : s.step B op with p | ⟨t, log⟩
    · simp [hs] at h
    simp only [hs] at h
    rcases hg : s.record_guard B (recordedIds log) with p | u
    · simp [hg] at h
    simp only [hg, pure, Except.pure, Except.ok.injEq, Prod.mk.injEq] at h
    obtain ⟨rfl, rfl⟩ := h
    exact ⟨_, _, rfl, step_small hs, fun size recorded hrec => step_records hs hrec,
      s.built_histories op, record_guard_ok hg⟩
  | send_repair_request topic missing publish =>
    have hch : (s.channel.send_repair_request w topic missing publish).1 =
        s.channel.next_timestamp.1 := by
      unfold send_repair_request
      dsimp only
      split <;> rfl
    cases h
    refine ⟨_, _, rfl, ?_, ?_, ?_, .inl rfl⟩
    · intro hsmall
      rw [hch]
      exact ⟨hsmall.incoming, hsmall.outgoing, hsmall.acks⟩
    · intro size recorded hrec
      rw [hch, List.append_nil]
      exact hrec.frame rfl rfl
    · simp [send_repair_request, next_timestamp, build_causal_history, Except.toOption]
  | receive_and_repair topic raw publish =>
    simp only [fullStep, bind, Except.bind] at h
    rcases hr : (s.channel.receive_and_repair B w topic raw publish).2 with p | ⟨ch', r⟩
    · simp [hr] at h
    simp only [hr] at h
    rcases hg : s.record_guard B (idsOf (r.toOption.getD [])) with p | u
    · simp [hg] at h
    simp only [hg, pure, Except.pure, Except.ok.injEq, Prod.mk.injEq] at h
    obtain ⟨rfl, rfl⟩ := h
    refine ⟨_, _, rfl, ?_, ?_, by simp, record_guard_ok hg⟩
    · intro hsmall
      rcases receive_and_repair_cases hr with ⟨rfl, -⟩ | ⟨out, hrec, -⟩
      · exact hsmall
      · exact hsmall.receive hrec
    · intro size recorded hrecorded
      rcases receive_and_repair_cases hr with ⟨rfl, hnone⟩ | ⟨out, hrec, rfl⟩
      · rw [hnone, idsOf_nil, List.append_nil]
        exact hrecorded
      · exact receive_records hrec hrecorded

/-! ## The law -/

/-- The channel after a run: its limits, the local history as the end of all
that was recorded, and the messages of the run, each with the newest ids of
what was recorded before it, newest first. -/
structure Tidy (size : Nat) (log : List RecordEvent) (ch : MessageChannel F) : Prop where
  small : ch.Small
  history_length : ch.local_history.length ≤ 2 * size
  history : ch.historyIds = recent (2 * size) (recordedOf log)
  created : ∀ before ids after, log = before ++ .created ids :: after →
    ids = (recordedOf before).reverse.take size

theorem recordedOf_append (log log' : List RecordEvent) :
    recordedOf (log ++ log') = recordedOf log ++ recordedOf log' := List.filterMap_append

theorem recordedOf_events (histories : List (List HistoryEntry)) (ids : List MessageId) :
    recordedOf (Session.recordEvents histories ids) = ids := by
  unfold Session.recordEvents
  rw [recordedOf_append]
  have hcreated : recordedOf (histories.map fun h => .created (h.map (·.message_id))) = [] := by
    simp [recordedOf]
  have hids : recordedOf (ids.map .recorded) = ids := by
    simp [recordedOf, List.filterMap_map]
  rw [hcreated, hids, List.nil_append]

/-- A message of a call comes before all that the call records. -/
theorem created_of_events {histories : List (List HistoryEntry)} {ids hist : List MessageId}
    {before after : List RecordEvent}
    (h : Session.recordEvents histories ids = before ++ .created hist :: after) :
    recordedOf before = [] ∧ ∃ entries ∈ histories, hist = entries.map (·.message_id) := by
  rcases append_eq_split h with ⟨mid, hmid⟩ | ⟨mid, rfl, hmid⟩
  · have hmem : RecordEvent.created hist ∈
        histories.map fun h => RecordEvent.created (h.map (·.message_id)) := by
      rw [hmid]
      simp
    obtain ⟨entries, hentries, heq⟩ := List.mem_map.mp hmem
    cases heq
    refine ⟨?_, entries, hentries, rfl⟩
    have hnone : recordedOf (histories.map fun h => .created (h.map (·.message_id))) = [] := by
      simp [recordedOf]
    rw [hmid, recordedOf_append] at hnone
    exact (List.append_eq_nil_iff.mp hnone).1
  · have hmem : RecordEvent.created hist ∈ ids.map RecordEvent.recorded := by
      rw [hmid]
      simp
    simp at hmem

/-- The word does not overflow. -/
theorem history_max_of_lt {config : ChannelConfig} (h : config.causal_history_size * 2 < 2 ^ 64) :
    config.history_max = 2 * config.causal_history_size := by
  unfold ChannelConfig.history_max
  rw [Nat.mod_eq_of_lt h, Nat.mul_comm]

/-- What a run keeps. Nothing is recorded where the product would overflow. -/
structure Kept (size : Nat) (log : List RecordEvent) (s : Session w F) : Prop where
  small : s.channel.Small
  records : s.channel.Records size (recordedOf log)
  created : ∀ before ids after, log = before ++ .created ids :: after →
    ids = (recordedOf before).reverse.take size
  exact : recordedOf log = [] ∨ size * 2 < 2 ^ 64

theorem Kept.tidy {size : Nat} {log : List RecordEvent} {s : Session w F} (h : Kept size log s) :
    Tidy size log s.channel := by
  have hids : s.channel.historyIds = recent (2 * size) (recordedOf log) := by
    rw [h.records.ids_eq]
    rcases h.exact with hnil | hlt
    · rw [hnil]
      simp [recent]
    · rw [← h.records.size_eq] at hlt ⊢
      rw [history_max_of_lt hlt]
  refine ⟨h.small, ?_, hids, h.created⟩
  have hlen : s.channel.local_history.length = s.channel.historyIds.length := by
    simp [historyIds]
  rw [hlen, hids, recent, List.length_drop]
  omega

theorem Kept.step {B : Build} {size : Nat} (hsize : B.overflow_checks = true ∨ size < 2 ^ 63)
    {log ev : List RecordEvent} {s s' : Session w F} {op : FullOp} (h : Kept size log s)
    (hs : s.fullStep B op = .ok (s', ev)) : Kept size (log ++ ev) s' := by
  obtain ⟨histories, ids, rfl, hkeeps⟩ := Session.fullStep_keeps hs
  have hexact : recordedOf (log ++ Session.recordEvents histories ids) = [] ∨
      size * 2 < 2 ^ 64 := by
    rcases hsize with hchecks | hlt
    · rcases hkeeps.unchecked with hnil | hno | hlt
      · rw [recordedOf_append, recordedOf_events, hnil, List.append_nil]
        exact h.exact
      · rw [hchecks] at hno
        cases hno
      · rw [h.records.size_eq] at hlt
        exact .inr hlt
    · exact .inr (by omega)
  refine ⟨hkeeps.small h.small, ?_, ?_, hexact⟩
  · rw [recordedOf_append, recordedOf_events]
    exact hkeeps.records size _ h.records
  · intro before hist after heq
    rcases append_eq_split heq with ⟨mid, hlog⟩ | ⟨mid, rfl, hmid⟩
    · exact h.created before hist mid hlog
    · obtain ⟨hnone, entries, hentries, rfl⟩ := created_of_events hmid
      rw [hkeeps.histories entries hentries, h.records.causal_history, recordedOf_append, hnone,
        List.append_nil]
      -- Without an overflow, the local history is long enough for a causal history.
      rcases h.exact with hnil | hlt
      · rw [hnil]
        simp
      · have hmax : s.channel.config.history_max = 2 * size := by
          rw [← h.records.size_eq] at hlt ⊢
          exact history_max_of_lt hlt
        rw [hmax, Nat.min_eq_left (by omega)]

/-- A send that the transport accepts, again and again. -/
def Sample.sends (n : Nat) : List FullOp :=
  List.replicate n (.call (.send "" [] fun _ _ => .ok ()))

theorem send_recorded {B : Build} (hrelease : B.overflow_checks = false) (s : Session w F) :
    ∃ s' ev, s.fullStep B (.call (.send "" [] fun _ _ => .ok ())) = .ok (s', ev) ∧
      (recordedOf ev).length = 1 := by
  rcases send_cases (w := w) s.channel "" [] (fun _ _ => .ok ()) with ⟨e, he⟩ | ⟨-, he⟩
  · exfalso
    unfold send at he
    simp at he
  · simp only [Session.fullStep, Session.step, he, bind, Except.bind, Session.record_guard,
      hrelease, Bool.false_and, Bool.false_eq_true, if_false, pure, Except.pure]
    exact ⟨_, _, rfl, by rw [recordedOf_events]; rfl⟩

theorem run_sends_recorded {B : Build} (hrelease : B.overflow_checks = false) (s : Session w F)
    (n : Nat) :
    ∃ s' log, run (Session.fullStep B) s (Sample.sends n) = .ok (s', log) ∧
      (recordedOf log).length = n := by
  induction n with
  | zero => exact ⟨s, [], rfl, rfl⟩
  | succ n ih =>
    obtain ⟨s₁, log, hrun, hlen⟩ := ih
    obtain ⟨s₂, ev, hstep, hone⟩ := send_recorded hrelease s₁
    refine ⟨s₂, log ++ ev, ?_, ?_⟩
    · rw [Sample.sends, List.replicate_succ', ← Sample.sends, run_snoc]
      simp [hrun, hstep, bind, Except.bind]
    · rw [recordedOf_append, List.length_append, hlen, hone]

/-- After every call of every run the channel is within its limits, and its
local history and its messages are as they should be, exactly when the limit of
the local history fits in a machine word, or the build checks for that. -/
theorem a_channel_stays_tidy_iff (B : Build) (channel_id : ChannelId) (sender_id : ParticipantId)
    (config : ChannelConfig) (now_ms : UInt64) :
    (∀ ops s log, run (Session.fullStep B)
        (.new w (with_config channel_id sender_id config now_ms : MessageChannel F)) ops =
          .ok (s, log) → Tidy config.causal_history_size log s.channel) ↔
      B.overflow_checks = true ∨ config.causal_history_size < 2 ^ 63 := by
  have h0 : Kept config.causal_history_size []
      (.new w (with_config channel_id sender_id config now_ms : MessageChannel F)) := by
    refine ⟨⟨Nat.zero_le _, Nat.zero_le _, Nat.zero_le _⟩, ⟨rfl, ?_⟩, ?_, .inl rfl⟩
    · simp [historyIds, recent, recordedOf, with_config, Session.new]
    intro before ids after heq
    simp at heq
  constructor
  · intro h
    by_contra hsize
    rw [not_or, Bool.not_eq_true] at hsize
    obtain ⟨hrelease, hlarge⟩ := hsize
    obtain ⟨s, log, hrun, hlen⟩ := run_sends_recorded hrelease
      (.new w (with_config channel_id sender_id config now_ms : MessageChannel F))
      (config.history_max + 1)
    have htidy := h _ s log hrun
    have hrecords : s.channel.Records config.causal_history_size (recordedOf log) := by
      refine run_invariant (I := fun log t =>
        t.channel.Records config.causal_history_size (recordedOf log)) h0.records ?_ hrun
      intro log t op t' ev ht hstep
      obtain ⟨histories, ids, rfl, hkeeps⟩ := Session.fullStep_keeps hstep
      rw [recordedOf_append, recordedOf_events]
      exact hkeeps.records _ _ ht
    -- One id too many for the word, and few enough for the product.
    have hmax : config.history_max < 2 ^ 64 := Nat.mod_lt _ (by decide)
    have hconfig : s.channel.config.history_max = config.history_max := by
      unfold ChannelConfig.history_max
      rw [hrecords.size_eq]
    have heq := congrArg List.length (hrecords.ids_eq.symm.trans htidy.history)
    rw [hconfig] at heq
    simp only [recent, List.length_drop, hlen] at heq
    omega
  · intro hsize ops s log hrun
    exact (run_invariant h0 (fun log t op t' ev ht hstep => ht.step hsize hstep) hrun).tidy

/-- Twice this size is just too large for a machine word. -/
def Sample.vast : ChannelConfig :=
  { ChannelConfig.default with causal_history_size := 2 ^ 63 }

def Sample.vast_session : Session Sample.repair_wire (IdSet fun _ => []) :=
  .new Sample.repair_wire (with_config "lmao-alice" "alice" Sample.vast 0)

/-- "hello" and "world" go out, and neither is in the history: "world" does not
name "hello", which it follows. -/
theorem a_vast_history_is_empty :
    Returns (run (Session.fullStep (exactBlooms fun _ => none)) Sample.vast_session
        [.call (.send "t" (utf8 "hello") fun _ _ => .ok ()),
          .call (.send "t" (utf8 "world") fun _ _ => .ok ())])
      fun r => r.2 = [.created [], .recorded "01", .created [], .recorded "02"] ∧
        r.1.channel.local_history = [] ∧
        ¬ Tidy Sample.vast.causal_history_size r.2 r.1.channel := by
  have hrun : Returns (run (Session.fullStep (exactBlooms fun _ => none)) Sample.vast_session
      [.call (.send "t" (utf8 "hello") fun _ _ => .ok ()),
        .call (.send "t" (utf8 "world") fun _ _ => .ok ())])
      fun r => r.2 = [.created [], .recorded "01", .created [], .recorded "02"] ∧
        r.1.channel.local_history = [] := by
    decide +kernel
  obtain ⟨r, hr, hlog, hempty⟩ := hrun
  refine ⟨r, hr, hlog, hempty, ?_⟩
  intro htidy
  have hcreated := htidy.created [.created [], .recorded "01"] [] [.recorded "02"] hlog
  simp [recordedOf, Sample.vast] at hcreated

end lmao.sds
