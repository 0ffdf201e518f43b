-- The law of one delivery: no id comes out of a channel twice, unless a copy
-- of a message arrives while the first copy still waits in the incoming
-- buffer. The filter learns an id only at the delivery, so it does not know
-- the waiting copy, and the loop over the buffer never asks it.
import Lmao.ChannelRuns

set_option linter.unusedSectionVars false

namespace lmao.sds

open machine MessageChannel

variable {F : Type} [IdFilter F]

/-- The ids of the messages in a buffer. -/
def waitingIds (buf : List SdsMessage) : List MessageId := buf.map SdsMessage.message_id

/-- The bytes are no content message that both misses in the filter and has
a copy in the incoming buffer. -/
def NotWaiting (w : Wire) (ch : MessageChannel F) (raw : Bytes) : Prop :=
  match w.sds_from_slice raw with
  | some (.Content m) =>
    check ch.bloom m.message_id = false → m.message_id ∉ waitingIds ch.incoming_buffer
  | _ => True

instance (w : Wire) (ch : MessageChannel F) (raw : Bytes) : Decidable (NotWaiting w ch raw) := by
  unfold NotWaiting
  split <;> infer_instance

/-! ## The invariant -/

/-- Nothing was delivered twice, and no message in the buffer is a copy of
another one or of a delivered one. -/
structure Once (delivered : List MessageId) (buf : List SdsMessage) : Prop where
  nodup : delivered.Nodup
  waiting : (waitingIds buf).Nodup
  apart : ∀ id ∈ waitingIds buf, id ∉ delivered

theorem waitingIds_perm {f : F} {buf rest : List SdsMessage} {ds : List ContentMessage}
    (h : Resolved f buf ds rest) : (idsOf ds ++ waitingIds rest).Perm (waitingIds buf) := by
  have hmap := h.perm.map SdsMessage.message_id
  rw [List.map_append, List.map_map] at hmap
  exact hmap

/-- The loop over the buffer keeps the invariant. -/
theorem Once.resolved {delivered : List MessageId} {f : F} {buf rest : List SdsMessage}
    {ds : List ContentMessage} (h : Once delivered buf) (hres : Resolved f buf ds rest) :
    Once (delivered ++ idsOf ds) rest := by
  have hperm := waitingIds_perm hres
  have hnodup : (idsOf ds ++ waitingIds rest).Nodup := hperm.nodup_iff.mpr h.waiting
  obtain ⟨hds, hrest, hdisj⟩ := List.nodup_append.mp hnodup
  refine ⟨?_, hrest, ?_⟩
  · rw [List.nodup_append]
    refine ⟨h.nodup, hds, ?_⟩
    rintro a ha b hb rfl
    exact h.apart a (hperm.subset (List.mem_append_left _ hb)) ha
  · intro id hid hmem
    rcases List.mem_append.mp hmem with hold | hnew
    · exact h.apart id (hperm.subset (List.mem_append_right _ hid)) hold
    · exact hdisj id hnew id hid rfl

theorem waitingIds_park_sublist (buf : List SdsMessage) (m : ContentMessage) :
    (waitingIds (park buf m)).Sublist (waitingIds buf ++ [m.message_id]) := by
  unfold park waitingIds
  rw [List.map_append]
  apply List.Sublist.append _ (List.Sublist.refl _)
  split
  · exact (List.drop_sublist 1 buf).map _
  · exact List.Sublist.refl _

/-- A content message that was not delivered and that does not wait keeps
the invariant, and so does every other message. -/
theorem Once.received {delivered : List MessageId} {f f' : F} {buf buf' : List SdsMessage}
    {msg : SdsMessage} {out : List ContentMessage} (h : Once delivered buf)
    (hrec : Received f buf msg f' buf' out) (hfresh : msg.message_id ∉ delivered)
    (hwait : ∀ m, msg = .Content m → m.message_id ∉ waitingIds buf) :
    Once (delivered ++ idsOf out) buf' := by
  cases hrec with
  | @direct m ds rest _ hres =>
    -- The message itself goes out first, so the loop starts with its id delivered.
    have hm : Once (delivered ++ [m.message_id]) buf := by
      refine ⟨?_, h.waiting, ?_⟩
      · rw [List.nodup_append]
        refine ⟨h.nodup, List.nodup_singleton _, ?_⟩
        rintro a ha b hb rfl
        rw [List.mem_singleton] at hb
        rw [hb] at ha
        exact hfresh ha
      · intro id hid hmem
        rcases List.mem_append.mp hmem with hmem | hmem
        · exact h.apart id hid hmem
        · rw [List.mem_singleton] at hmem
          exact hwait m rfl (hmem ▸ hid)
    have hsplit : delivered ++ idsOf (m :: ds) = (delivered ++ [m.message_id]) ++ idsOf ds := by
      simp
    rw [hsplit]
    exact hm.resolved hres
  | @parked m ds rest _ hres =>
    have hsub := waitingIds_park_sublist buf m
    have hm : Once delivered (park buf m) := by
      refine ⟨h.nodup, ?_, ?_⟩
      · apply hsub.nodup
        rw [List.nodup_append]
        refine ⟨h.waiting, List.nodup_singleton _, ?_⟩
        rintro a ha b hb rfl
        rw [List.mem_singleton] at hb
        exact hwait m rfl (hb ▸ ha)
      · intro id hid
        rcases List.mem_append.mp (hsub.subset hid) with hid | hid
        · exact h.apart id hid
        · rw [List.mem_singleton] at hid
          rw [hid]
          exact hfresh
    exact hm.resolved hres
  | sync hres => exact h.resolved hres
  | ephemeral =>
    rw [idsOf_nil, List.append_nil]
    exact h

theorem notWaiting_content {w : Wire} {ch : MessageChannel F} {raw : Bytes} {m : ContentMessage}
    (h : NotWaiting w ch raw) (hm : w.sds_from_slice raw = some (.Content m))
    (hnew : check ch.bloom m.message_id = false) :
    m.message_id ∉ waitingIds ch.incoming_buffer := by
  unfold NotWaiting at h
  rw [hm] at h
  exact h hnew

/-- One call of `receive` keeps the invariant, when the filter knows what was
delivered. -/
theorem Once.receive {B : Build} {w : Wire} {ch ch' : MessageChannel F} {raw : Bytes}
    {out : List ContentMessage} {delivered : List MessageId}
    (h : Once delivered ch.incoming_buffer)
    (hknown : ∀ id ∈ delivered, check ch.bloom id = true) (hwait : NotWaiting w ch raw)
    (hstep : ch.receive B w raw = .ok (ch', out)) :
    Once (delivered ++ idsOf out) ch'.incoming_buffer := by
  rcases receive_received hstep with ⟨rfl, rfl, -⟩ | ⟨msg, hmsg, hnew, hrec⟩
  · rw [idsOf_nil, List.append_nil]
    exact h
  · apply h.received hrec
    · intro hmem
      rw [hknown _ hmem] at hnew
      cases hnew
    · rintro m rfl
      exact notWaiting_content hwait hmsg hnew

/-! ## Runs of receive -/

section Exact

variable {enc : Finset MessageId → Bytes}

theorem received_known {f f' : IdSet enc} {buf buf' : List SdsMessage} {msg : SdsMessage}
    {out : List ContentMessage} (h : Received f buf msg f' buf' out) (x : MessageId)
    (hx : x ∈ idsOf out ∨ check f x = true) : check f' x = true := by
  cases h with
  | direct _ _ => exact (check_setAll_idSet _ _ _).mpr hx
  | parked _ _ => exact (check_setAll_idSet _ _ _).mpr hx
  | sync _ =>
    apply (check_setAll_idSet _ _ _).mpr
    rcases hx with hx | hx
    · exact Or.inl (List.mem_cons_of_mem _ hx)
    · exact Or.inr hx
  | @ephemeral e =>
    rcases hx with hx | hx
    · cases hx
    · exact (check_setAll_idSet f [e.message_id] x).mpr (Or.inr hx)

theorem receive_known {B : Build} {w : Wire} {ch ch' : MessageChannel (IdSet enc)}
    {raw : Bytes} {out : List ContentMessage} (h : ch.receive B w raw = .ok (ch', out))
    (x : MessageId) (hx : x ∈ idsOf out ∨ check ch.bloom x = true) : check ch'.bloom x = true := by
  rcases receive_received h with ⟨rfl, rfl, -⟩ | ⟨msg, -, -, hrec⟩
  · rcases hx with hx | hx
    · cases hx
    · exact hx
  · exact received_known hrec x hx

/-- No content message comes out twice, in any run of `receive` where no copy
arrives while the first one waits. -/
theorem a_content_message_comes_out_once (dec : Bytes → Option (Finset MessageId)) (w : Wire)
    (channel_id : ChannelId) (sender_id : ParticipantId) (config : ChannelConfig)
    (now_ms : UInt64) (raws : List Bytes)
    (hwait : Meets (receive (exactBlooms dec) w) (fun _ ch raw => NotWaiting w ch raw)
      (with_config channel_id sender_id config now_ms : MessageChannel (IdSet enc)) raws) :
    Returns (run (receive (exactBlooms dec) w)
      (with_config channel_id sender_id config now_ms : MessageChannel (IdSet enc)) raws)
      fun r => (idsOf r.2).Nodup := by
  obtain ⟨⟨ch, out⟩, hr⟩ := run_total (receive_exact_returns dec w)
    (with_config channel_id sender_id config now_ms : MessageChannel (IdSet enc)) raws
  refine ⟨(ch, out), hr, ?_⟩
  have hinv := run_invariant_of_meets
    (I := fun out (ch : MessageChannel (IdSet enc)) => Once (idsOf out) ch.incoming_buffer ∧
      ∀ id ∈ idsOf out, check ch.bloom id = true) ?_ ?_ hwait hr
  · exact hinv.1.nodup
  · exact ⟨⟨List.nodup_nil, List.nodup_nil, by simp [waitingIds, with_config]⟩, by simp⟩
  · rintro out ch raw ch' out' ⟨h, hknown⟩ hraw hstep
    rw [idsOf_append]
    refine ⟨h.receive hknown hraw hstep, ?_⟩
    intro id hid
    apply receive_known hstep
    rcases List.mem_append.mp hid with hid | hid
    · exact Or.inr (hknown id hid)
    · exact Or.inl hid

end Exact

/-! ## Two runs -/

/-- A new channel of bob's, with an exact filter. -/
def Sample.bob : MessageChannel (IdSet fun _ => []) :=
  with_config "lmao-bob" "bob" ChannelConfig.default 0

def Sample.wire : Wire := .ofTable Sample.hashes [.Content Sample.hello, .Content Sample.world]

abbrev Sample.receive (ch : MessageChannel (IdSet fun _ => [])) (raw : Bytes) :=
  ch.receive (exactBlooms fun _ => none) Sample.wire raw

/-- `world` waits for `hello`, and its second copy comes after the delivery. -/
def Sample.late_copy : List Bytes :=
  [SdsMessage.to_vec (.Content Sample.world), SdsMessage.to_vec (.Content Sample.hello),
    SdsMessage.to_vec (.Content Sample.world)]

/-- `world` waits for `hello`, and its second copy comes before the delivery. -/
def Sample.early_copy : List Bytes :=
  [SdsMessage.to_vec (.Content Sample.world), SdsMessage.to_vec (.Content Sample.world),
    SdsMessage.to_vec (.Content Sample.hello)]

theorem a_late_copy_comes_out_once :
    Meets Sample.receive (fun _ ch raw => NotWaiting Sample.wire ch raw) Sample.bob
      Sample.late_copy ∧
    Returns (run Sample.receive Sample.bob Sample.late_copy) fun r => (idsOf r.2).Nodup := by
  have hwait : Meets Sample.receive (fun _ ch raw => NotWaiting Sample.wire ch raw) Sample.bob
      Sample.late_copy := by decide +kernel
  exact ⟨hwait, a_content_message_comes_out_once _ _ _ _ _ _ _ hwait⟩

theorem an_early_copy_comes_out_twice :
    Returns (run Sample.receive Sample.bob Sample.early_copy)
      fun r => idsOf r.2 = [Sample.hello_id, Sample.world_id, Sample.world_id] ∧
        ¬ (idsOf r.2).Nodup := by
  decide +kernel

end lmao.sds
