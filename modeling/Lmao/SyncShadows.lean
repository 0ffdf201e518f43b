-- Sync messages of a group. The id of a sync message is the hash of its
-- timestamp alone, and the clocks of the members run towards each other, so
-- two members can issue sync messages with one id. The second one that comes
-- to a receiver is then taken for a duplicate.
import Lmao.OutgoingBuffer
import Lmao.Repair
import Lmao.SdsReading

set_option linter.unusedSectionVars false

namespace lmao.sds

open machine MessageChannel

variable {ι : Type} [DecidableEq ι] {w : Wire} {enc : Finset MessageId → Bytes}

/-! ## The group -/

/-- The channels of the members, and the sync messages that went out, which can
come to each member, late, again, or never. -/
structure Group (ι : Type) (F : Type) where
  channels : ι → MessageChannel F
  issued : List SyncMessage

/-- A member issues a sync message in one of the three ways, or receives the
message at index `k`. -/
inductive GroupOp (ι : Type)
  | send_sync (i : ι) (topic : String) (publish : String → Bytes → Except TransportError Unit)
  | send_batch_ack (i : ι) (topic : String)
      (publish : String → Bytes → Except TransportError Unit)
  | send_repair_request (i : ι) (topic : String) (missing : List HistoryEntry)
      (publish : String → Bytes → Except TransportError Unit)
  | receive (j : ι) (k : Nat)

inductive GroupEvent (ι : Type)
  | issued (i : ι) (s : SyncMessage)
  | received (j : ι) (s : SyncMessage)
deriving DecidableEq

namespace Group

variable {F : Type} [IdFilter F]

/-- The member `i` is done with a send. -/
def issue (g : Group ι F) (i : ι) (r : MessageChannel F × Except TransportError SyncMessage) :
    Group ι F × List (GroupEvent ι) :=
  match r.2 with
  | .ok s =>
    ({ channels := Function.update g.channels i r.1, issued := g.issued ++ [s] }, [.issued i s])
  | .error _ => ({ g with channels := Function.update g.channels i r.1 }, [])

def step (B : Build) (w : Wire) (g : Group ι F) :
    GroupOp ι → Except Panic (Group ι F × List (GroupEvent ι))
  | .send_sync i topic publish => .ok (g.issue i ((g.channels i).send_sync w topic publish))
  | .send_batch_ack i topic publish =>
    .ok (g.issue i ((g.channels i).send_batch_ack w topic publish))
  | .send_repair_request i topic missing publish =>
    .ok (g.issue i ((g.channels i).send_repair_request w topic missing publish))
  | .receive j k =>
    match g.issued[k]? with
    | none => .ok (g, [])
    | some s => do
      let r ← (g.channels j).receive B w (SdsMessage.to_vec (.Sync s))
      return ({ g with channels := Function.update g.channels j r.1 }, [.received j s])

end Group

/-! ## One message -/

/-- The id of the sync messages with the timestamp. -/
def sync_id (w : Wire) (ts : UInt64) : MessageId := w.compute_message_id (to_le_bytes ts)

/-- A number is known from its bytes. -/
theorem eq_of_bytes_eq {n a b : Nat} (ha : a < 256 ^ n) (hb : b < 256 ^ n)
    (h : ∀ i < n, a / 256 ^ i % 256 = b / 256 ^ i % 256) : a = b := by
  induction n generalizing a b with
  | zero => omega
  | succ n ih =>
    have hlow : a % 256 = b % 256 := by simpa using h 0 (Nat.succ_pos n)
    rw [pow_succ] at ha hb
    have hhigh : a / 256 = b / 256 := by
      apply ih
      · omega
      · omega
      · intro i hi
        have hi' := h (i + 1) (by omega)
        rwa [pow_succ', ← Nat.div_div_eq_div_mul, ← Nat.div_div_eq_div_mul] at hi'
    omega

theorem to_le_bytes_injective : Function.Injective to_le_bytes := by
  intro a b h
  have ha : a.toNat < 256 ^ 8 := a.toNat_lt
  have hb : b.toNat < 256 ^ 8 := b.toNat_lt
  refine UInt64.toNat_inj.mp (eq_of_bytes_eq ha hb fun i hi => ?_)
  have hi' := congrArg (fun l => l[i]?) h
  simp only [to_le_bytes, List.getElem?_map, List.getElem?_range hi, Option.map_some,
    Option.some.injEq] at hi'
  have hnat := congrArg UInt8.toNat hi'
  simpa [UInt8.toNat_ofNat'] using hnat

theorem sync_id_injective (hinj : Function.Injective w.compute_message_id) :
    Function.Injective (sync_id w) := hinj.comp to_le_bytes_injective

/-- What a member issues: the id is that of its timestamp, and there is a
filter. -/
structure IsSync (w : Wire) (s : SyncMessage) : Prop where
  id : s.message_id = sync_id w s.lamport_timestamp
  filter : ∃ bytes, s.bloom_filter = some bytes

section

variable {F : Type} [IdFilter F]

/-- The three sends only move the clock, and what goes out is a sync message. -/
structure Issues (w : Wire) (ch : MessageChannel F)
    (r : MessageChannel F × Except TransportError SyncMessage) : Prop where
  channel : r.1 = ch.next_timestamp.1
  sync : ∀ s, r.2 = .ok s → IsSync w s

theorem send_sync_issues (ch : MessageChannel F) (topic : String)
    (publish : String → Bytes → Except TransportError Unit) :
    Issues w ch (ch.send_sync w topic publish) := by
  unfold send_sync
  dsimp only
  split
  · exact ⟨rfl, by simp⟩
  · refine ⟨rfl, ?_⟩
    rintro s ⟨⟩
    exact ⟨rfl, _, rfl⟩

theorem send_batch_ack_issues (ch : MessageChannel F) (topic : String)
    (publish : String → Bytes → Except TransportError Unit) :
    Issues w ch (ch.send_batch_ack w topic publish) := send_sync_issues ch topic publish

theorem send_repair_request_issues (ch : MessageChannel F) (topic : String)
    (missing : List HistoryEntry) (publish : String → Bytes → Except TransportError Unit) :
    Issues w ch (ch.send_repair_request w topic missing publish) := by
  unfold send_repair_request
  dsimp only
  split
  · exact ⟨rfl, by simp⟩
  · refine ⟨rfl, ?_⟩
    rintro s ⟨⟩
    exact ⟨rfl, _, rfl⟩

/-- The message passes the dedup check, and its filter is used for the detection
of ACKs. -/
def Heeds (dec : Bytes → Option (Finset MessageId)) (w : Wire) (ch : MessageChannel F)
    (s : SyncMessage) : Prop :=
  check ch.bloom s.message_id = false ∧
    ∃ bytes ch', s.bloom_filter = some bytes ∧
      ch.check_outgoing_acks (exactBlooms dec) bytes = .ok ch' ∧
      ch.receive (exactBlooms dec) w (SdsMessage.to_vec (.Sync s)) =
        .ok (ch'.receive_message (.Sync s))

theorem heeds_of_new {dec : Bytes → Option (Finset MessageId)} {ch : MessageChannel F}
    {s : SyncMessage} (hs : IsSync w s)
    (hread : w.sds_from_slice (SdsMessage.to_vec (.Sync s)) = some (.Sync s))
    (hnew : check ch.bloom s.message_id = false) : Heeds dec w ch s := by
  obtain ⟨bytes, hbytes⟩ := hs.filter
  obtain ⟨r, hr⟩ := receive_exact_returns dec w ch (SdsMessage.to_vec (.Sync s))
  refine ⟨hnew, bytes, ?_⟩
  have hnew' : check ch.bloom (SdsMessage.Sync s).message_id = false := hnew
  have hbytes' : (SdsMessage.Sync s).bloom_filter_bytes = some bytes := hbytes
  unfold receive at hr ⊢
  simp only [hread, hnew', Bool.false_eq_true, if_false, hbytes'] at hr ⊢
  rcases hc : ch.check_outgoing_acks (exactBlooms dec) bytes with p | ch'
  · simp [hc, bind, Except.bind] at hr
  · exact ⟨ch', hbytes, rfl, rfl⟩

end

/-! ## The law -/

/-- No id of a sync message is in the filter or waits in the buffer. -/
structure NoSyncIds (w : Wire) (ch : MessageChannel (IdSet enc)) : Prop where
  filter : ∀ ts, check ch.bloom (sync_id w ts) = false
  buffer : ∀ m, .Content m ∈ ch.incoming_buffer → ∀ ts, m.message_id ≠ sync_id w ts

theorem noSyncIds_new (w : Wire) (channel_id : ChannelId) (sender_id : ParticipantId)
    (config : ChannelConfig) (now_ms : UInt64) :
    NoSyncIds w (with_config channel_id sender_id config now_ms : MessageChannel (IdSet enc)) := by
  refine ⟨fun ts => rfl, ?_⟩
  intro m hm
  cases hm

/-- What a run keeps: the ids of sync messages in the filter of a member are
those of the timestamps that it received. -/
structure Heard (w : Wire) (log : List (GroupEvent ι)) (g : Group ι (IdSet enc)) : Prop where
  issued : ∀ s ∈ g.issued, IsSync w s
  logged : ∀ i s, .issued i s ∈ log → s ∈ g.issued
  filter : ∀ j ts, check (g.channels j).bloom (sync_id w ts) = true ↔
    ∃ s, .received j s ∈ log ∧ s.lamport_timestamp = ts
  buffer : ∀ j m, .Content m ∈ (g.channels j).incoming_buffer → ∀ ts, m.message_id ≠ sync_id w ts

theorem Heard.issue {log : List (GroupEvent ι)} {g : Group ι (IdSet enc)} (h : Heard w log g)
    {i : ι} {r : MessageChannel (IdSet enc) × Except TransportError SyncMessage}
    (hr : Issues w (g.channels i) r) : Heard w (log ++ (g.issue i r).2) (g.issue i r).1 := by
  have hbloom : ∀ j, (Function.update g.channels i r.1 j).bloom = (g.channels j).bloom ∧
      (Function.update g.channels i r.1 j).incoming_buffer =
        (g.channels j).incoming_buffer := by
    intro j
    by_cases hj : j = i
    · subst hj
      rw [Function.update_self, hr.channel]
      exact ⟨rfl, rfl⟩
    · rw [Function.update_of_ne hj]
      exact ⟨rfl, rfl⟩
  unfold Group.issue
  rcases hres : r.2 with e | s
  · refine ⟨h.issued, ?_, ?_, ?_⟩
    · intro i' s hs
      rw [List.append_nil] at hs
      exact h.logged i' s hs
    · intro j ts
      rw [(hbloom j).1, List.append_nil]
      exact h.filter j ts
    · intro j m hm
      rw [(hbloom j).2] at hm
      exact h.buffer j m hm
  · refine ⟨?_, ?_, ?_, ?_⟩
    · intro s' hs'
      rcases List.mem_append.mp hs' with hs' | hs'
      · exact h.issued s' hs'
      · rw [List.mem_singleton.mp hs']
        exact hr.sync s hres
    · intro i' s' hs'
      rcases List.mem_append.mp hs' with hs' | hs'
      · exact List.mem_append_left _ (h.logged i' s' hs')
      · cases List.mem_singleton.mp hs'
        simp
    · intro j ts
      rw [(hbloom j).1, h.filter]
      simp
    · intro j m hm
      rw [(hbloom j).2] at hm
      exact h.buffer j m hm

/-- The filter of a receiver gains the timestamp of the message and no other. -/
theorem receive_gains {dec : Bytes → Option (Finset MessageId)}
    (hinj : Function.Injective w.compute_message_id) {ch : MessageChannel (IdSet enc)}
    (hbuffer : ∀ m, .Content m ∈ ch.incoming_buffer → ∀ ts, m.message_id ≠ sync_id w ts)
    {s : SyncMessage} (hid : s.message_id = sync_id w s.lamport_timestamp)
    (hread : w.sds_from_slice (SdsMessage.to_vec (.Sync s)) = some (.Sync s))
    {r : MessageChannel (IdSet enc) × List ContentMessage}
    (hr : ch.receive (exactBlooms dec) w (SdsMessage.to_vec (.Sync s)) = .ok r) :
    (∀ ts, check r.1.bloom (sync_id w ts) = true ↔
      check ch.bloom (sync_id w ts) = true ∨ s.lamport_timestamp = ts) ∧
    ∀ m, .Content m ∈ r.1.incoming_buffer → .Content m ∈ ch.incoming_buffer := by
  rcases receive_received hr with ⟨hsame, -, hdup⟩ | ⟨msg, hmsg, -, hrec⟩
  · rw [hsame]
    refine ⟨fun ts => ⟨.inl, ?_⟩, fun _ hm => hm⟩
    rintro (hts | rfl)
    · exact hts
    · rw [← hid]
      exact hdup _ hread
  · rw [hread, Option.some.injEq] at hmsg
    subst hmsg
    have hwaits := fun m (hm : SdsMessage.Content m ∈ r.1.incoming_buffer) =>
      (hrec.mem (.inr hm)).resolve_right (by simp)
    have hout := fun m (hm : m ∈ r.2) => (hrec.mem (.inl hm)).resolve_right (by simp)
    refine ⟨fun ts => ?_, hwaits⟩
    generalize r.1.bloom = f, r.1.incoming_buffer = buf at hrec
    cases hrec with
    | sync hres =>
      rw [check_setAll_idSet, List.mem_cons, hid, (sync_id_injective hinj).eq_iff]
      have hnot : sync_id w ts ∉ idsOf r.2 := by
        intro hmem
        obtain ⟨m, hm, heq⟩ := List.mem_map.mp hmem
        exact hbuffer m (hout m hm) ts heq
      constructor
      · rintro ((hts | hts) | hts)
        · exact .inr hts.symm
        · exact absurd hts hnot
        · exact .inl hts
      · rintro (hts | hts)
        · exact .inr hts
        · exact .inl (.inl hts.symm)

theorem Heard.receive {dec : Bytes → Option (Finset MessageId)}
    (hinj : Function.Injective w.compute_message_id) {log : List (GroupEvent ι)}
    {g : Group ι (IdSet enc)} (h : Heard w log g) {j : ι} {s : SyncMessage} (hs : s ∈ g.issued)
    (hread : w.sds_from_slice (SdsMessage.to_vec (.Sync s)) = some (.Sync s))
    {r : MessageChannel (IdSet enc) × List ContentMessage}
    (hr : (g.channels j).receive (exactBlooms dec) w (SdsMessage.to_vec (.Sync s)) = .ok r) :
    Heard w (log ++ [.received j s])
      { g with channels := Function.update g.channels j r.1 } := by
  obtain ⟨hgain, hwaits⟩ := receive_gains hinj (h.buffer j) (h.issued s hs).id hread hr
  refine ⟨h.issued, ?_, ?_, ?_⟩
  · intro i s' hs'
    rcases List.mem_append.mp hs' with hs' | hs'
    · exact h.logged i s' hs'
    · simp at hs'
  · intro j' ts
    dsimp only
    by_cases hj : j' = j
    · subst hj
      rw [Function.update_self, hgain, h.filter]
      constructor
      · rintro (⟨s', hs', hts⟩ | hts)
        · exact ⟨s', List.mem_append_left _ hs', hts⟩
        · exact ⟨s, by simp, hts⟩
      · rintro ⟨s', hs', hts⟩
        rcases List.mem_append.mp hs' with hs' | hs'
        · exact .inl ⟨s', hs', hts⟩
        · cases List.mem_singleton.mp hs'
          exact .inr hts
    · rw [Function.update_of_ne hj, h.filter]
      simp [hj]
  · intro j' m hm
    dsimp only at hm
    by_cases hj : j' = j
    · subst hj
      rw [Function.update_self] at hm
      exact h.buffer j' m (hwaits m hm)
    · rw [Function.update_of_ne hj] at hm
      exact h.buffer j' m hm

theorem Heard.step {dec : Bytes → Option (Finset MessageId)}
    (hinj : Function.Injective w.compute_message_id)
    (hread : ∀ s, w.sds_from_slice (SdsMessage.to_vec (.Sync s)) = some (.Sync s))
    {log : List (GroupEvent ι)} {g g' : Group ι (IdSet enc)} {op : GroupOp ι}
    {ev : List (GroupEvent ι)} (h : Heard w log g)
    (hs : g.step (exactBlooms dec) w op = .ok (g', ev)) : Heard w (log ++ ev) g' := by
  cases op with
  | send_sync i topic publish =>
    have hissue := h.issue (send_sync_issues (w := w) (g.channels i) topic publish)
    rwa [Except.ok.inj hs] at hissue
  | send_batch_ack i topic publish =>
    have hissue := h.issue (send_batch_ack_issues (w := w) (g.channels i) topic publish)
    rwa [Except.ok.inj hs] at hissue
  | send_repair_request i topic missing publish =>
    have hissue := h.issue
      (send_repair_request_issues (w := w) (g.channels i) topic missing publish)
    rwa [Except.ok.inj hs] at hissue
  | receive j k =>
    unfold Group.step at hs
    dsimp only at hs
    rcases hk : g.issued[k]? with _ | s
    · rw [hk] at hs
      cases hs
      rwa [List.append_nil]
    · rw [hk] at hs
      rcases hr : (g.channels j).receive (exactBlooms dec) w (SdsMessage.to_vec (.Sync s)) with
        p | r
      · simp [hr, bind, Except.bind] at hs
      · simp only [hr, bind, Except.bind, pure, Except.pure] at hs
        cases hs
        exact h.receive hinj (List.mem_of_getElem? hk) (hread s) hr

theorem Group.step_returns (dec : Bytes → Option (Finset MessageId)) (w : Wire)
    (g : Group ι (IdSet enc)) (op : GroupOp ι) : ∃ r, g.step (exactBlooms dec) w op = .ok r := by
  cases op with
  | send_sync i topic publish => exact ⟨_, rfl⟩
  | send_batch_ack i topic publish => exact ⟨_, rfl⟩
  | send_repair_request i topic missing publish => exact ⟨_, rfl⟩
  | receive j k =>
    unfold Group.step
    dsimp only
    split
    · exact ⟨_, rfl⟩
    · rename_i s _
      obtain ⟨r, hr⟩ := receive_exact_returns dec w (g.channels j) (SdsMessage.to_vec (.Sync s))
      rw [hr]
      exact ⟨_, rfl⟩

/-- In every state that a run of the group reaches, a sync message that a member
issued, and that another did not receive yet, is heeded by it exactly when it
received none with the same timestamp. -/
theorem a_sync_is_heeded_iff (dec : Bytes → Option (Finset MessageId))
    (hinj : Function.Injective w.compute_message_id)
    (hread : ∀ s, w.sds_from_slice (SdsMessage.to_vec (.Sync s)) = some (.Sync s))
    (channels : ι → MessageChannel (IdSet enc)) (hstart : ∀ i, NoSyncIds w (channels i))
    (ops : List (GroupOp ι)) :
    Returns (run (Group.step (exactBlooms dec) w) { channels, issued := [] } ops)
      fun r => ∀ i j s, .issued i s ∈ r.2 → .received j s ∉ r.2 →
        (Heeds dec w (r.1.channels j) s ↔
          ∀ s', .received j s' ∈ r.2 → s'.lamport_timestamp ≠ s.lamport_timestamp) := by
  obtain ⟨⟨g, log⟩, hr⟩ := run_total (Group.step_returns dec w) { channels, issued := [] } ops
  refine ⟨(g, log), hr, ?_⟩
  have h0 : Heard w [] ({ channels, issued := [] } : Group ι (IdSet enc)) := by
    refine ⟨by simp, by simp, fun j ts => ?_, fun j => (hstart j).buffer⟩
    simp [(hstart j).filter ts]
  have hinv := run_invariant h0 (fun log g op g' ev h hs => h.step hinj hread hs) hr
  intro i j s hissued _
  have hs := hinv.issued s (hinv.logged i s hissued)
  have hnew : check (g.channels j).bloom s.message_id = false ↔
      ∀ s', .received j s' ∈ log → s'.lamport_timestamp ≠ s.lamport_timestamp := by
    rw [← Bool.not_eq_true, hs.id, hinv.filter]
    simp only [not_exists, not_and, ne_eq]
  rw [← hnew]
  exact ⟨fun h => h.1, heeds_of_new hs (hread s)⟩

namespace Sample

def members : Fin 3 → ParticipantId
  | 0 => "alice"
  | 1 => "bob"
  | 2 => "carol"

/-- Three fresh channels that started at the same time. -/
def group : Group (Fin 3) (IdSet fun _ => []) :=
  { channels := fun i => with_config "lmao" (members i) .default 0, issued := [] }

/-- The first sync message of a member. -/
def first_sync (i : Fin 3) : SyncMessage :=
  { message_id := "01", channel_id := "lmao", sender_id := members i, lamport_timestamp := 1
    causal_history := [], bloom_filter := some [], repair_request := [] }

def group_wire : Wire :=
  .ofTable [(to_le_bytes 1, "01")] [.Sync (first_sync 0), .Sync (first_sync 1)]

end Sample

theorem a_first_sync_is_heeded :
    Function.Injective hex_encode ∧ (∀ i, NoSyncIds (Wire.strict hex_encode)
      (Sample.group.channels i)) ∧
    Returns (run (Group.step (exactBlooms fun _ => none) (Wire.strict hex_encode)) Sample.group
        [.send_sync 0 "t" fun _ _ => .ok (), .send_sync 1 "t" fun _ _ => .ok ()])
      fun r => ∃ s, s.sender_id = "bob" ∧ .issued 1 s ∈ r.2 ∧
        Heeds (fun _ => none) (Wire.strict hex_encode) (r.1.channels 2) s := by
  have hstart : ∀ i, NoSyncIds (Wire.strict hex_encode) (Sample.group.channels i) :=
    fun i => noSyncIds_new _ _ _ _ _
  refine ⟨hex_encode_injective, hstart, ?_⟩
  obtain ⟨r, hr, hlaw⟩ := a_sync_is_heeded_iff (fun _ => none) hex_encode_injective
    (fun s => Wire.strict_reads hex_encode (.Sync s)) Sample.group.channels hstart
    [.send_sync 0 "t" fun _ _ => .ok (), .send_sync 1 "t" fun _ _ => .ok ()]
  obtain ⟨g, alice, bob, hrun, hbob⟩ : ∃ g alice bob,
      run (Group.step (exactBlooms fun _ => none) (Wire.strict hex_encode)) Sample.group
        [.send_sync 0 "t" fun _ _ => .ok (), .send_sync 1 "t" fun _ _ => .ok ()] =
          .ok (g, [.issued 0 alice, .issued 1 bob]) ∧ bob.sender_id = "bob" :=
    ⟨_, _, _, rfl, rfl⟩
  obtain rfl : r = (g, [.issued 0 alice, .issued 1 bob]) := Except.ok.inj (hr.symm.trans hrun)
  refine ⟨_, hr, bob, hbob, by simp, ?_⟩
  exact (hlaw 1 2 bob (by simp) (by simp)).mpr (by simp)

/-- Two members issue sync messages with one timestamp, and the third takes the
second message for a duplicate of the first. -/
theorem a_sync_shadows_another :
    Function.Injective Sample.members ∧
    Function.Injective Sample.group_wire.compute_message_id ∧
    Returns (run (Group.step (exactBlooms fun _ => none) Sample.group_wire) Sample.group
        [.send_sync 0 "t" fun _ _ => .ok (), .send_sync 1 "t" fun _ _ => .ok (), .receive 2 0])
      fun r => r.2 = [.issued 0 (Sample.first_sync 0), .issued 1 (Sample.first_sync 1),
          .received 2 (Sample.first_sync 0)] ∧
        Sample.group_wire.sds_from_slice (SdsMessage.to_vec (.Sync (Sample.first_sync 1))) =
          some (.Sync (Sample.first_sync 1)) ∧
        check (r.1.channels 2).bloom (Sample.first_sync 1).message_id = true ∧
        ¬ Heeds (fun _ => none) Sample.group_wire (r.1.channels 2) (Sample.first_sync 1) := by
  have hrun : Returns (run (Group.step (exactBlooms fun _ => none) Sample.group_wire) Sample.group
      [.send_sync 0 "t" fun _ _ => .ok (), .send_sync 1 "t" fun _ _ => .ok (), .receive 2 0])
      fun r => r.2 = [.issued 0 (Sample.first_sync 0), .issued 1 (Sample.first_sync 1),
          .received 2 (Sample.first_sync 0)] ∧
        Sample.group_wire.sds_from_slice (SdsMessage.to_vec (.Sync (Sample.first_sync 1))) =
          some (.Sync (Sample.first_sync 1)) ∧
        check (r.1.channels 2).bloom (Sample.first_sync 1).message_id = true := by
    decide +kernel
  obtain ⟨r, hr, hlog, hread, hcheck⟩ := hrun
  have hmembers : Function.Injective Sample.members := by
    unfold Function.Injective
    decide
  refine ⟨hmembers, Wire.ofTable_injective (by decide) (by decide), r, hr, hlog, hread, hcheck,
    ?_⟩
  intro h
  rw [h.1] at hcheck
  cases hcheck

end lmao.sds
