-- Implicit ACKs. A channel counts the filters of its peers that hold the id of
-- an outgoing message, and takes the message for acknowledged at the threshold.
-- The counts are kept by id and nothing but the filter is looked at, so the law
-- needs a run in which each filter that is counted is the first of a peer.
import Mathlib.Data.Finset.Card
import Lmao.OutgoingBuffer

set_option linter.unusedSectionVars false

namespace lmao.sds

open machine MessageChannel

variable {F : Type} [IdFilter F] {w : Wire}

/-! ## The walk over the buffer -/

/-- The possible ACKs that are counted for an id. -/
def count (acks : AList fun _ : MessageId => Nat) (id : MessageId) : Nat :=
  (acks.lookup id).getD 0

theorem count_insert_ne {acks : AList fun _ : MessageId => Nat} {id id' : MessageId} (n : Nat)
    (h : id ≠ id') : count (acks.insert id' n) id = count acks id := by
  unfold count
  rw [AList.lookup_insert_ne h]

theorem count_erase_ne {acks : AList fun _ : MessageId => Nat} {id id' : MessageId}
    (h : id ≠ id') : count (acks.erase id') id = count acks id := by
  unfold count
  rw [AList.lookup_erase_ne h]

/-- What the walk does when each id is in the buffer once: it drops only
messages that are in the filter and reach the threshold, and adds at most one to
a count. -/
structure Retained (ids : Finset MessageId) (threshold : Nat) (out : List ContentMessage)
    (acks : AList fun _ : MessageId => Nat) (out' : List ContentMessage)
    (acks' : AList fun _ : MessageId => Nat) : Prop where
  sublist : out'.Sublist out
  acked : ∀ m ∈ out, m ∉ out' →
    m.message_id ∈ ids ∧ threshold ≤ count acks m.message_id + 1
  counted : ∀ m ∈ out', count acks' m.message_id ≤
    count acks m.message_id + if m.message_id ∈ ids then 1 else 0
  others : ∀ id ∉ idsOf out, count acks' id = count acks id

/-- One more message, which the walk drops. -/
theorem Retained.drop {ids : Finset MessageId} {threshold : Nat} {m : ContentMessage}
    {out out' : List ContentMessage} {acks acks' : AList fun _ : MessageId => Nat}
    (h : Retained ids threshold out (acks.erase m.message_id) out' acks')
    (hfresh : m.message_id ∉ idsOf out) (hmem : m.message_id ∈ ids)
    (hcount : threshold ≤ count acks m.message_id + 1) :
    Retained ids threshold (m :: out) acks out' acks' := by
  have hne : ∀ m' ∈ out, m'.message_id ≠ m.message_id := by
    rintro m' hm' heq
    exact hfresh (heq ▸ List.mem_map_of_mem hm')
  refine ⟨h.sublist.cons m, ?_, ?_, ?_⟩
  · intro m' hm' hgone
    rcases List.mem_cons.mp hm' with rfl | hm'
    · exact ⟨hmem, hcount⟩
    · obtain ⟨hin, hle⟩ := h.acked m' hm' hgone
      rw [count_erase_ne (hne m' hm')] at hle
      exact ⟨hin, hle⟩
  · intro m' hm'
    have hle := h.counted m' hm'
    rwa [count_erase_ne (hne m' (h.sublist.subset hm'))] at hle
  · intro id hid
    rw [idsOf_cons, List.mem_cons, not_or] at hid
    rw [h.others id hid.2, count_erase_ne hid.1]

/-- One more message, which the walk keeps, with a count that grows by at most
one. -/
theorem Retained.keep {ids : Finset MessageId} {threshold : Nat} {m : ContentMessage}
    {out out' : List ContentMessage} {acks acks₁ acks' : AList fun _ : MessageId => Nat}
    (h : Retained ids threshold out acks₁ out' acks')
    (hfresh : m.message_id ∉ idsOf out)
    (hother : ∀ id, id ≠ m.message_id → count acks₁ id = count acks id)
    (hcount : count acks₁ m.message_id ≤
      count acks m.message_id + if m.message_id ∈ ids then 1 else 0) :
    Retained ids threshold (m :: out) acks (m :: out') acks' := by
  have hne : ∀ m' ∈ out, m'.message_id ≠ m.message_id := by
    rintro m' hm' heq
    exact hfresh (heq ▸ List.mem_map_of_mem hm')
  refine ⟨h.sublist.cons_cons m, ?_, ?_, ?_⟩
  · intro m' hm' hgone
    rw [List.mem_cons, not_or] at hgone
    have hm'' := (List.mem_cons.mp hm').resolve_left hgone.1
    obtain ⟨hin, hle⟩ := h.acked m' hm'' hgone.2
    rw [hother _ (hne m' hm'')] at hle
    exact ⟨hin, hle⟩
  · intro m' hm'
    rcases List.mem_cons.mp hm' with rfl | hm'
    · rwa [h.others _ hfresh]
    · have hle := h.counted m' hm'
      rwa [hother _ (hne m' (h.sublist.subset hm'))] at hle
  · intro id hid
    rw [idsOf_cons, List.mem_cons, not_or] at hid
    rw [h.others id hid.2, hother id hid.1]

theorem retain_unacked_retained {ids : Finset MessageId} {threshold : Nat}
    {out out' : List ContentMessage} {acks acks' : AList fun _ : MessageId => Nat}
    (hnodup : (idsOf out).Nodup)
    (h : retain_unacked (fun id => .ok (decide (id ∈ ids))) threshold out acks =
      .ok (out', acks')) :
    Retained ids threshold out acks out' acks' := by
  induction out generalizing acks out' acks' with
  | nil =>
    cases h
    exact ⟨List.Sublist.refl _, by simp, by simp, fun _ _ => rfl⟩
  | cons m out ih =>
    rw [idsOf_cons, List.nodup_cons] at hnodup
    unfold retain_unacked at h
    simp only [bind, Except.bind, pure, Except.pure, decide_eq_true_eq] at h
    split at h
    · rename_i hmem
      split at h
      · rename_i hcount
        exact (ih hnodup.2 h).drop hnodup.1 hmem hcount
      · rcases hr : retain_unacked (fun id => .ok (decide (id ∈ ids))) threshold out
          (acks.insert m.message_id ((acks.lookup m.message_id).getD 0 + 1)) with p | r
        · simp [hr] at h
        · simp only [hr, Except.ok.injEq, Prod.mk.injEq] at h
          obtain ⟨rfl, rfl⟩ := h
          apply (ih hnodup.2 hr).keep hnodup.1 (fun id hid => count_insert_ne _ hid)
          rw [if_pos hmem]
          unfold count
          rw [AList.lookup_insert]
          exact Nat.le_refl _
    · rcases hr : retain_unacked (fun id => .ok (decide (id ∈ ids))) threshold out acks with p | r
      · simp [hr] at h
      · simp only [hr, Except.ok.injEq, Prod.mk.injEq] at h
        obtain ⟨rfl, rfl⟩ := h
        exact (ih hnodup.2 hr).keep hnodup.1 (fun _ _ => rfl) (Nat.le_add_right _ _)

/-! ## The messages that speak for an entry -/

/-- The messages that came since the entry was last pushed. -/
def heardSince (m : ContentMessage) (log : List BufferEvent) : List SdsMessage :=
  log.foldl (fun heard e =>
    match e with
    | .pushed m' => if m' = m then [] else heard
    | .heard msg => heard ++ [msg]
    | _ => heard) []

/-- The messages of a piece of the log. -/
def heardOf (log : List BufferEvent) : List SdsMessage :=
  log.filterMap fun
    | .heard msg => some msg
    | _ => none

theorem heardSince_append {m : ContentMessage} (log : List BufferEvent) {ev : List BufferEvent}
    (h : .pushed m ∉ ev) : heardSince m (log ++ ev) = heardSince m log ++ heardOf ev := by
  unfold heardSince
  rw [List.foldl_append]
  generalize log.foldl _ [] = heard
  induction ev generalizing heard with
  | nil => exact (List.append_nil _).symm
  | cons e ev ih =>
    rw [List.mem_cons, not_or] at h
    rw [List.foldl_cons, ih h.2]
    cases e with
    | pushed m' =>
      have hne : m' ≠ m := fun heq => h.1 (heq ▸ rfl)
      simp only [if_neg hne]
      rfl
    | heard msg => exact List.append_assoc heard [msg] _
    | reliable m' => rfl
    | acked m' => rfl
    | evicted m' => rfl

/-- The message is of somebody else, and its filter holds the id. -/
def Acknowledges (own : ParticipantId) (dec : Bytes → Option (Finset MessageId))
    (id : MessageId) (msg : SdsMessage) : Prop :=
  msg.sender_id ≠ own ∧ id ∈ remote_ids dec msg

instance Acknowledges.decidable (own : ParticipantId) (dec : Bytes → Option (Finset MessageId))
    (id : MessageId) : DecidablePred (Acknowledges own dec id) :=
  fun _ => inferInstanceAs (Decidable (_ ∧ _))

/-- The different messages that acknowledge the entry since it was pushed. -/
def acknowledging (own : ParticipantId) (dec : Bytes → Option (Finset MessageId))
    (m : ContentMessage) (log : List BufferEvent) : Finset SdsMessage :=
  (heardSince m log).toFinset.filter (Acknowledges own dec m.message_id)

/-- An entry leaves the buffer as acknowledged only after enough of them. -/
def Sound (own : ParticipantId) (dec : Bytes → Option (Finset MessageId)) (threshold : Nat)
    (log : List BufferEvent) : Prop :=
  ∀ before m after, log = before ++ .acked m :: after →
    threshold ≤ (acknowledging own dec m before).card

section

variable {own : ParticipantId} {dec : Bytes → Option (Finset MessageId)} {threshold : Nat}

/-- Events other than a push of the entry only add messages. -/
theorem acknowledging_mono (own : ParticipantId) (dec : Bytes → Option (Finset MessageId))
    {m : ContentMessage} (log : List BufferEvent) {ev : List BufferEvent}
    (h : .pushed m ∉ ev) :
    (acknowledging own dec m log).card ≤ (acknowledging own dec m (log ++ ev)).card := by
  apply Finset.card_le_card
  intro msg hmsg
  simp only [acknowledging, Finset.mem_filter, List.mem_toFinset] at hmsg ⊢
  rw [heardSince_append log h]
  exact ⟨List.mem_append_left _ hmsg.1, hmsg.2⟩

/-- A new message that acknowledges the entry counts. -/
theorem acknowledging_heard {m : ContentMessage} {log : List BufferEvent} {msg : SdsMessage}
    (hack : Acknowledges own dec m.message_id msg) (hnew : msg ∉ heardSince m log) :
    (acknowledging own dec m log).card + 1 ≤
      (acknowledging own dec m (log ++ [.heard msg])).card := by
  have hsub : insert msg (acknowledging own dec m log) ⊆
      acknowledging own dec m (log ++ [.heard msg]) := by
    intro x hx
    simp only [acknowledging, Finset.mem_insert, Finset.mem_filter, List.mem_toFinset] at hx ⊢
    rw [heardSince_append log (by simp)]
    rcases hx with rfl | ⟨hx, hackx⟩
    · exact ⟨List.mem_append_right _ (by simp [heardOf]), hack⟩
    · exact ⟨List.mem_append_left _ hx, hackx⟩
  have hnotin : msg ∉ acknowledging own dec m log := by
    simp only [acknowledging, Finset.mem_filter, List.mem_toFinset, not_and]
    exact fun h => absurd h hnew
  rw [← Finset.card_insert_of_notMem hnotin]
  exact Finset.card_le_card hsub

theorem Sound.append {log ev : List BufferEvent} (h : Sound own dec threshold log)
    (hev : ∀ before m after, ev = before ++ .acked m :: after →
      threshold ≤ (acknowledging own dec m (log ++ before)).card) :
    Sound own dec threshold (log ++ ev) := by
  intro before m after heq
  rcases append_eq_split heq with ⟨mid, hlog⟩ | ⟨mid, rfl, hmid⟩
  · exact h before m mid hlog
  · exact hev mid m after hmid

end

/-! ## The law -/

/-- A push starts from nothing: no count is left for the id, and no other entry
has it. -/
def PushesFresh (s : Session w F) (op : ChannelOp) : Prop :=
  ∀ m ∈ s.pushing op, count s.channel.possible_acks m.message_id = 0 ∧
    m.message_id ∉ idsOf s.channel.kept_outgoing

instance PushesFresh.decidable (s : Session w F) (op : ChannelOp) :
    Decidable (PushesFresh s op) :=
  inferInstanceAs (Decidable (∀ m ∈ s.pushing op, _))

/-- A message whose filter holds the id of an entry is of somebody else, and did
not come before since the push of the entry. -/
def HearsNews (dec : Bytes → Option (Finset MessageId)) (log : List BufferEvent)
    (s : Session w F) : ChannelOp → Prop
  | .receive raw =>
    ∀ msg ∈ w.sds_from_slice raw, check s.channel.bloom msg.message_id = false →
      ∀ m ∈ s.channel.outgoing_buffer, m.message_id ∈ remote_ids dec msg →
        msg.sender_id ≠ s.channel.sender_id ∧ msg ∉ heardSince m log
  | _ => True

instance HearsNews.decidable (dec : Bytes → Option (Finset MessageId)) (log : List BufferEvent)
    (s : Session w F) : DecidablePred (HearsNews dec log s)
  | .receive raw => inferInstanceAs (Decidable (∀ msg ∈ w.sds_from_slice raw, _))
  | .send _ _ _ | .send_reliable _ _ _ | .send_sync _ _ | .send_ephemeral _ _ _ | .start _
  | .end_send _ | .end_reliable _ => isTrue trivial

/-- What a run keeps: each id is in the buffer once, and is counted at most as
often as messages acknowledge it. -/
structure Counted (own : ParticipantId) (dec : Bytes → Option (Finset MessageId))
    (threshold : Nat) (log : List BufferEvent) (s : Session w F) : Prop where
  sender_id : s.channel.sender_id = own
  limit : s.channel.config.possible_acks_threshold = threshold
  nodup : (idsOf s.channel.outgoing_buffer).Nodup
  counts : ∀ m ∈ s.channel.outgoing_buffer,
    count s.channel.possible_acks m.message_id ≤ (acknowledging own dec m log).card
  sound : Sound own dec threshold log

section

variable {own : ParticipantId} {dec : Bytes → Option (Finset MessageId)} {threshold : Nat}
  {log : List BufferEvent} {s : Session w F}

theorem Counted.quiet (h : Counted own dec threshold log s) {ev : List BufferEvent}
    (hev : ∀ e ∈ ev, (∃ m, e = .reliable m) ∨ ∃ msg, e = .heard msg) :
    (∀ m ∈ s.channel.outgoing_buffer,
      count s.channel.possible_acks m.message_id ≤ (acknowledging own dec m (log ++ ev)).card) ∧
    Sound own dec threshold (log ++ ev) := by
  refine ⟨fun m hm => (h.counts m hm).trans (acknowledging_mono own dec log fun hpush => ?_),
    h.sound.append ?_⟩
  · rcases hev _ hpush with ⟨m', hm'⟩ | ⟨msg, hmsg⟩
    · cases hm'
    · cases hmsg
  · rintro before m after rfl
    rcases hev (.acked m) (by simp) with ⟨m', hm'⟩ | ⟨msg, hmsg⟩
    · cases hm'
    · cases hmsg

theorem Counted.push (h : Counted own dec threshold log s) {m : ContentMessage}
    (hcount : count s.channel.possible_acks m.message_id = 0)
    (hid : m.message_id ∉ idsOf s.channel.kept_outgoing) :
    (idsOf (s.channel.kept_outgoing ++ [m])).Nodup ∧
    (∀ m' ∈ s.channel.kept_outgoing ++ [m],
      count s.channel.possible_acks m'.message_id ≤
        (acknowledging own dec m' (log ++ (s.channel.oldest_of_full.map BufferEvent.evicted ++
          [BufferEvent.pushed m]))).card) ∧
    Sound own dec threshold (log ++ (s.channel.oldest_of_full.map BufferEvent.evicted ++
      [BufferEvent.pushed m])) := by
  have hsplit := s.channel.oldest_append_kept
  have hnodup := h.nodup
  rw [← hsplit, idsOf_append] at hnodup
  refine ⟨?_, ?_, h.sound.append ?_⟩
  · rw [idsOf_append]
    refine List.Nodup.append hnodup.of_append_right (List.nodup_singleton _) ?_
    intro id hkept hnew
    rw [idsOf_cons, idsOf_nil, List.mem_singleton] at hnew
    exact hid (hnew ▸ hkept)
  · intro m' hm'
    rcases List.mem_append.mp hm' with hkept | hnew
    · have hne : m' ≠ m := by
        rintro rfl
        exact hid (List.mem_map_of_mem hkept)
      have hmem : m' ∈ s.channel.outgoing_buffer := by
        rw [← hsplit]
        exact List.mem_append_right _ hkept
      exact (h.counts m' hmem).trans (acknowledging_mono own dec log (by simp [hne]))
    · rw [List.mem_singleton.mp hnew, hcount]
      exact Nat.zero_le _
  · rintro before m' after heq
    have hmem : BufferEvent.acked m' ∈ s.channel.oldest_of_full.map .evicted ++ [.pushed m] := by
      rw [heq]
      simp
    simp at hmem

/-- The message counts for every entry whose id it holds. -/
theorem Counted.heard (h : Counted own dec threshold log s) {msg : SdsMessage}
    (hnews : ∀ m ∈ s.channel.outgoing_buffer, m.message_id ∈ remote_ids dec msg →
      msg.sender_id ≠ s.channel.sender_id ∧ msg ∉ heardSince m log)
    {m : ContentMessage} (hm : m ∈ s.channel.outgoing_buffer) :
    count s.channel.possible_acks m.message_id +
        (if m.message_id ∈ remote_ids dec msg then 1 else 0) ≤
      (acknowledging own dec m (log ++ [.heard msg])).card := by
  have hcount := h.counts m hm
  split
  · rename_i hin
    obtain ⟨hforeign, hnew⟩ := hnews m hm hin
    have hmore : (acknowledging own dec m log).card + 1 ≤
        (acknowledging own dec m (log ++ [.heard msg])).card :=
      acknowledging_heard ⟨h.sender_id ▸ hforeign, hin⟩ hnew
    exact (Nat.add_le_add_right hcount 1).trans hmore
  · exact hcount.trans (acknowledging_mono own dec log (by simp))

theorem Counted.check (h : Counted own dec threshold log s) {msg : SdsMessage}
    {out : List ContentMessage} {acks : AList fun _ : MessageId => Nat}
    (hnews : ∀ m ∈ s.channel.outgoing_buffer, m.message_id ∈ remote_ids dec msg →
      msg.sender_id ≠ s.channel.sender_id ∧ msg ∉ heardSince m log)
    (hr : retain_unacked (fun id => .ok (decide (id ∈ remote_ids dec msg)))
      s.channel.config.possible_acks_threshold s.channel.outgoing_buffer
      s.channel.possible_acks = .ok (out, acks)) :
    (idsOf out).Nodup ∧
    (∀ m ∈ out, count acks m.message_id ≤ (acknowledging own dec m
      (log ++ BufferEvent.heard msg ::
        (s.channel.outgoing_buffer.diff out).map BufferEvent.acked)).card) ∧
    Sound own dec threshold (log ++ BufferEvent.heard msg ::
      (s.channel.outgoing_buffer.diff out).map BufferEvent.acked) := by
  have hret := retain_unacked_retained h.nodup hr
  have hnopush : ∀ (m : ContentMessage) (l : List ContentMessage),
      BufferEvent.pushed m ∉ l.map BufferEvent.acked := by
    simp
  refine ⟨(List.Sublist.map _ hret.sublist).nodup h.nodup, ?_, h.sound.append ?_⟩
  · intro m hm
    have hmem := hret.sublist.subset hm
    have hlater : (acknowledging own dec m (log ++ [.heard msg])).card ≤
        (acknowledging own dec m
          (log ++ .heard msg :: (s.channel.outgoing_buffer.diff out).map .acked)).card := by
      have hmono := acknowledging_mono own dec (log ++ [.heard msg])
        (hnopush m (s.channel.outgoing_buffer.diff out))
      rwa [List.append_assoc] at hmono
    exact (hret.counted m hm).trans ((h.heard hnews hmem).trans hlater)
  · intro before m after heq
    cases before with
    | nil => simp at heq
    | cons e before =>
      simp only [List.cons_append, List.cons.injEq] at heq
      obtain ⟨rfl, heq⟩ := heq
      have hmem : m ∈ s.channel.outgoing_buffer.diff out := by
        have hacked : BufferEvent.acked m ∈ (s.channel.outgoing_buffer.diff out).map .acked := by
          rw [heq]
          simp
        simpa using hacked
      have hnodup : s.channel.outgoing_buffer.Nodup := h.nodup.of_map _
      rw [hnodup.mem_sdiff_iff] at hmem
      obtain ⟨hin, hle⟩ := hret.acked m hmem.1 hmem.2
      have hbefore : BufferEvent.pushed m ∉ before := by
        intro hpush
        apply hnopush m (s.channel.outgoing_buffer.diff out)
        rw [heq]
        exact List.mem_append_left _ hpush
      have hmono := acknowledging_mono own dec (log ++ [.heard msg]) hbefore
      rw [List.append_assoc] at hmono
      have hheard := h.heard hnews hmem.1
      rw [if_pos hin] at hheard
      have hlimit := h.limit
      have hlog : log ++ ([.heard msg] ++ before) = log ++ .heard msg :: before := rfl
      rw [hlog] at hmono
      omega

end

theorem Counted.step {own : ParticipantId} {dec : Bytes → Option (Finset MessageId)}
    {threshold : Nat} {log : List BufferEvent} {s s' : Session w F} {op : ChannelOp}
    {ev : List BufferEvent} (h : Counted own dec threshold log s) (hfresh : PushesFresh s op)
    (hnews : HearsNews dec log s op) (hs : s.bufferStep (exactBlooms dec) op = .ok (s', ev)) :
    Counted own dec threshold (log ++ ev) s' := by
  obtain ⟨hown, hconfig, hchange⟩ := Session.bufferStep_change hs
  have hlimit : s'.channel.config.possible_acks_threshold = threshold := by
    rw [hconfig, h.limit]
  generalize hbuf : s'.channel.outgoing_buffer = out' at hchange
  generalize hacks : s'.channel.possible_acks = acks' at hchange
  cases hchange with
  | quiet hev =>
    obtain ⟨hcounts, hsound⟩ := h.quiet hev
    exact ⟨hown.trans h.sender_id, hlimit, hbuf ▸ h.nodup, by rwa [hbuf, hacks], hsound⟩
  | push hpush =>
    obtain ⟨hcount, hid⟩ := hfresh _ hpush
    obtain ⟨hnodup, hcounts, hsound⟩ := h.push hcount hid
    exact ⟨hown.trans h.sender_id, hlimit, hbuf ▸ hnodup, by rwa [hbuf, hacks], hsound⟩
  | @check raw msg out acks hop hmsg hnew hr =>
    subst hop
    obtain ⟨hnodup, hcounts, hsound⟩ := h.check (hnews msg hmsg hnew) hr
    refine ⟨hown.trans h.sender_id, hlimit, hbuf ▸ hnodup, ?_, hsound⟩
    rw [hbuf, hacks]
    intro m hm
    -- A map of counts that is too large is cleared.
    split
    · exact Nat.zero_le _
    · exact hcounts m hm

/-- An entry leaves the buffer as acknowledged only after as many messages of
others as the threshold asks for, when each push starts from nothing and each
filter that is counted is the first of its message. -/
theorem implicit_acks_are_sound (dec : Bytes → Option (Finset MessageId)) (channel_id : ChannelId)
    (sender_id : ParticipantId) (config : ChannelConfig) (now_ms : UInt64) (ops : List ChannelOp)
    (hfresh : Meets (Session.bufferStep (exactBlooms dec)) (fun _ s op => PushesFresh s op)
      (.new w (with_config channel_id sender_id config now_ms : MessageChannel F)) ops)
    (hnews : Meets (Session.bufferStep (exactBlooms dec)) (HearsNews dec)
      (.new w (with_config channel_id sender_id config now_ms : MessageChannel F)) ops) :
    Returns (run (Session.bufferStep (exactBlooms dec))
        (.new w (with_config channel_id sender_id config now_ms : MessageChannel F)) ops)
      fun r => Sound sender_id dec config.possible_acks_threshold r.2 := by
  obtain ⟨⟨s, log⟩, hr⟩ := run_total (Session.bufferStep_returns dec)
    (.new w (with_config channel_id sender_id config now_ms : MessageChannel F)) ops
  refine ⟨(s, log), hr, ?_⟩
  have h0 : Counted sender_id dec config.possible_acks_threshold []
      (.new w (with_config channel_id sender_id config now_ms : MessageChannel F)) := by
    refine ⟨rfl, rfl, List.nodup_nil, by simp [Session.new, with_config], ?_⟩
    intro before m after heq
    simp at heq
  have hinv := run_invariant_of_meets h0
    (fun log s op s' ev h hcond hs => h.step hcond.1 hcond.2 hs) (hfresh.and hnews) hr
  exact hinv.sound

namespace Sample

/-- The filters of the sample as texts of one byte. -/
def enc_hello (ids : Finset MessageId) : Bytes := if "01" ∈ ids then [1] else [0]

def dec_hello : Bytes → Option (Finset MessageId)
  | [1] => some {"01"}
  | [0] => some ∅
  | _ => none

/-- A sync message that holds "hello" in its filter. -/
def hello_sync (message_id : MessageId) (sender_id : ParticipantId) (lamport_timestamp : UInt64) :
    SyncMessage :=
  { message_id, channel_id := "lmao-alice", sender_id, lamport_timestamp
    causal_history := [{ message_id := "01", lamport_timestamp := 1, retrieval_hint := none }]
    bloom_filter := some [1], repair_request := [] }

def ack_wire : Wire :=
  .ofTable ([(utf8 "hello", "01"), (to_le_bytes 2, "02"), (to_le_bytes 4, "04")])
    [.Sync (hello_sync "02" "alice" 2), .Sync (hello_sync "04" "alice" 4),
      .Sync (hello_sync "02" "bob" 2), .Sync (hello_sync "04" "carol" 4)]

def ack_session : Session ack_wire (IdSet enc_hello) :=
  .new ack_wire (with_config "lmao-alice" "alice" .default 0)

def send_hello : ChannelOp := .send "t" (utf8 "hello") fun _ _ => .ok ()

def hear (s : SyncMessage) : ChannelOp := .receive (SdsMessage.to_vec (.Sync s))

/-- "hello" as the channel sends it. -/
def sent_hello : ContentMessage := { hello with message_id := "01", bloom_filter := some [0] }

/-- The channel sends "hello" and two sync messages, and hears both of them. -/
def echoes : List ChannelOp :=
  [send_hello, .send_sync "t" fun _ _ => .ok (), hear (hello_sync "02" "alice" 2),
    .send_sync "t" fun _ _ => .ok (), hear (hello_sync "04" "alice" 4)]

end Sample

theorem two_peers_acknowledge_hello :
    Returns (run (Session.bufferStep (exactBlooms Sample.dec_hello)) Sample.ack_session
        [Sample.send_hello, Sample.hear (Sample.hello_sync "02" "bob" 2),
          Sample.hear (Sample.hello_sync "04" "carol" 4)])
      (fun r => .acked Sample.sent_hello ∈ r.2) ∧
    Returns (run (Session.bufferStep (exactBlooms Sample.dec_hello)) Sample.ack_session
        [Sample.send_hello, Sample.hear (Sample.hello_sync "02" "bob" 2),
          Sample.hear (Sample.hello_sync "04" "carol" 4)])
      fun r => Sound "alice" Sample.dec_hello 2 r.2 := by
  refine ⟨by decide +kernel, ?_⟩
  exact implicit_acks_are_sound Sample.dec_hello "lmao-alice" "alice" .default 0 _
    (by decide +kernel) (by decide +kernel)

/-- The echo of the channel's own sync messages acknowledges "hello". -/
theorem echoes_acknowledge_hello :
    Returns (run (Session.bufferStep (exactBlooms Sample.dec_hello)) Sample.ack_session
        (Sample.echoes.take 1))
      (fun r => (r.1.channel.send_sync Sample.ack_wire "t" fun _ _ => .ok ()).2.toOption =
        some (Sample.hello_sync "02" "alice" 2)) ∧
    Returns (run (Session.bufferStep (exactBlooms Sample.dec_hello)) Sample.ack_session
        Sample.echoes)
      (fun r => r.2 =
        [.pushed Sample.sent_hello, .heard (.Sync (Sample.hello_sync "02" "alice" 2)),
          .heard (.Sync (Sample.hello_sync "04" "alice" 4)), .acked Sample.sent_hello] ∧
        ¬ Sound "alice" Sample.dec_hello 2 r.2) := by
  have hlog : Returns (run (Session.bufferStep (exactBlooms Sample.dec_hello)) Sample.ack_session
      Sample.echoes) (fun r => r.2 =
        [.pushed Sample.sent_hello, .heard (.Sync (Sample.hello_sync "02" "alice" 2)),
          .heard (.Sync (Sample.hello_sync "04" "alice" 4)), .acked Sample.sent_hello]) := by
    decide +kernel
  refine ⟨by decide +kernel, ?_⟩
  obtain ⟨r, hr, heq⟩ := hlog
  refine ⟨r, hr, heq, fun hsound => ?_⟩
  have hfew := hsound
    [.pushed Sample.sent_hello, .heard (.Sync (Sample.hello_sync "02" "alice" 2)),
      .heard (.Sync (Sample.hello_sync "04" "alice" 4))] Sample.sent_hello [] heq
  exact absurd hfew (by decide +kernel)

end lmao.sds
