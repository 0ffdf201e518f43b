-- The reset of the filter. A channel keeps order and drops copies as long as
-- its filter never reached its capacity. From the reset on, the filter has
-- forgotten what was sent and delivered, the local history still has it, and
-- nothing reads the local history.
import Lmao.Suppression
import Lmao.SdsReading

set_option linter.unusedSectionVars false

namespace lmao.sds

open machine MessageChannel

variable {w : Wire}

/-! ## The filter below its capacity -/

namespace SdsBloomFilter

variable {B : Type} [IdFilter B]

theorem set_room {f : SdsBloomFilter B} (id : MessageId) (h : f.item_count + 1 < f.capacity) :
    sds.set f id = { f with inner := sds.set f.inner id, item_count := f.item_count + 1 } := by
  have hroom : ¬ f.item_count + 1 ≥ f.capacity := by omega
  show SdsBloomFilter.set f id = _
  unfold SdsBloomFilter.set
  simp only [hroom, if_false]

/-- The id that fills the filter empties it. -/
theorem set_full {f : SdsBloomFilter B} (id : MessageId) (h : f.capacity ≤ f.item_count + 1) :
    sds.set f id = { f with inner := IdFilter.with_params f.capacity, item_count := 0 } := by
  show SdsBloomFilter.set f id = _
  unfold SdsBloomFilter.set
  simp only [ge_iff_le, h, if_true]

theorem setAll_room (f : SdsBloomFilter B) (ids : List MessageId)
    (h : f.item_count + ids.length < f.capacity) :
    setAll f ids =
      { f with inner := setAll f.inner ids, item_count := f.item_count + ids.length } := by
  induction ids generalizing f with
  | nil => rfl
  | cons id ids ih =>
    rw [List.length_cons] at h
    rw [setAll_cons, set_room id (by omega), ih _ (by simp only; omega)]
    simp only [setAll_cons, List.length_cons]
    congr 1
    omega

end SdsBloomFilter

section Room

variable {enc : Finset MessageId → Bytes} {channel_id : ChannelId} {sender_id : ParticipantId}
  {config : ChannelConfig} {now_ms : UInt64}

/-- Below its capacity, the filter of a channel is the set of the ids that it
took. -/
theorem check_setAll_room {log : List Event} (h : log.length < DEFAULT_CAPACITY) (x : MessageId) :
    check (setAll (with_config channel_id sender_id config now_ms :
      MessageChannel (SdsBloomFilter (IdSet enc))).bloom (logIds log)) x = true ↔
      x ∈ logIds log := by
  have hlen : (logIds log).length = log.length := List.length_map _
  have hroom : (0 : Nat) + (logIds log).length < DEFAULT_CAPACITY := by omega
  rw [SdsBloomFilter.setAll_room _ _ hroom]
  show check (setAll (⟨∅⟩ : IdSet enc) (logIds log)) x = true ↔ _
  rw [check_setAll_idSet, check_idSet]
  simp

end Room

/-! ## What the reset must not change -/

/-- The ids of the deliveries of a log. -/
def deliveredOf (log : List Event) : List MessageId :=
  log.filterMap fun
    | .delivered m => some m.message_id
    | _ => none

theorem deliveredOf_append (log log' : List Event) :
    deliveredOf (log ++ log') = deliveredOf log ++ deliveredOf log' := List.filterMap_append

theorem deliveredOf_eventsOf (msg : SdsMessage) (out : List ContentMessage) :
    deliveredOf (eventsOf msg out) = idsOf out := by
  have hmap : deliveredOf (out.map .delivered) = idsOf out := by
    induction out with
    | nil => rfl
    | cons m out ih => simpa [deliveredOf] using ih
  cases msg with
  | Content m => exact hmap
  | Sync m => exact hmap
  | Ephemeral m => exact hmap

theorem deliveredOf_sublist (log : List Event) : (deliveredOf log).Sublist (logIds log) := by
  induction log with
  | nil => exact List.Sublist.refl _
  | cons e log ih =>
    cases e with
    | sent m => exact ih.cons _
    | delivered m => exact ih.cons_cons _
    | heard id => exact ih.cons _

theorem recordedIds_sublist (log : List Event) : (recordedIds log).Sublist (logIds log) := by
  induction log with
  | nil => exact List.Sublist.refl _
  | cons e log ih =>
    cases e with
    | sent m => exact ih.cons_cons _
    | delivered m => exact ih.cons_cons _
    | heard id => exact ih.cons _

section Laws

variable {F : Type} [IdFilter F]

/-- A content message with a new id, and with dependencies that the channel
all sent or delivered, comes out first of the call that gets it, and the
call parks nothing. -/
def DeliversAtOnce (B : Build) (log : List Event) (s : Session w F) (op : ChannelOp) :
    Prop :=
  ∀ m ∈ contentOf w op, (∀ id ∈ deps m, id ∈ recordedIds log) → m.message_id ∉ logIds log →
    Returns (s.step B op) fun r => (∃ rest, r.2 = .delivered m :: rest) ∧
      r.1.channel.incoming_buffer.Sublist s.channel.incoming_buffer

/-- No delivery of the call repeats one whose id the local history still
holds when it comes up. `pre` is what the call did before it. -/
def NeverRedelivers (B : Build) (log : List Event) (s : Session w F) (op : ChannelOp) :
    Prop :=
  Returns (s.step B op) fun r => ∀ pre m post, r.2 = pre ++ Event.delivered m :: post →
    m.message_id ∈ recent (s.channel.config.causal_history_size * 2)
      (s.channel.historyIds ++ recordedIds pre) →
    m.message_id ∉ deliveredOf (log ++ pre)

/-- The filter was not reset yet, and the call hands in no copy of a message
that still waits. -/
def BeforeReset (w : Wire) (log : List Event) (s : Session w F) (op : ChannelOp) : Prop :=
  log.length < DEFAULT_CAPACITY ∧
    match op with
    | .receive raw => NotWaiting w s.channel raw
    | _ => True

instance (log : List Event) (s : Session w F) (op : ChannelOp) :
    Decidable (BeforeReset w log s op) :=
  @instDecidableAnd _ _ inferInstance (by cases op <;> dsimp only <;> infer_instance)

end Laws

/-! ## The law -/

section Law

variable {enc : Finset MessageId → Bytes} {B : Build}
  {s s' : Session w (SdsBloomFilter (IdSet enc))} {op : ChannelOp} {log ev : List Event}

/-- The invariant of one delivery, along the calls of a session. -/
theorem once_step (h : Once (deliveredOf log) s.channel.incoming_buffer)
    (hknown : ∀ id ∈ deliveredOf log, check s.channel.bloom id = true)
    (hop : BeforeReset w log s op) (hstep : s.step B op = .ok (s', ev)) :
    Once (deliveredOf (log ++ ev)) s'.channel.incoming_buffer := by
  have heff := Session.step_effect hstep
  rw [deliveredOf_append]
  generalize s'.channel.bloom = f', s'.channel.incoming_buffer = buf' at heff ⊢
  cases heff with
  | quiet _ => simpa [deliveredOf] using h
  | sent _ _ => simpa [deliveredOf] using h
  | @received raw msg _ _ out hmsg hnew hrec =>
    rw [deliveredOf_eventsOf]
    apply h.received hrec
    · intro hmem
      rw [hknown _ hmem] at hnew
      cases hnew
    · rintro m rfl
      exact notWaiting_content hop.2 hmsg hnew

theorem deliversAtOnce_of_exact (dec : Bytes → Option (Finset MessageId))
    (hfilter : ∀ x, check s.channel.bloom x = true ↔ x ∈ logIds log) :
    DeliversAtOnce (exactBlooms dec) log s op := by
  intro m hm hdeps hnew
  obtain ⟨⟨s', ev⟩, hstep⟩ := Session.step_exact_returns dec s op
  refine ⟨_, hstep, ?_⟩
  have hsat : Satisfied s.channel.bloom m := by
    intro id hid
    exact (hfilter id).mpr ((recordedIds_sublist log).subset (hdeps id hid))
  have heff := Session.step_effect hstep
  simp only
  generalize s'.channel.bloom = f', s'.channel.incoming_buffer = buf' at heff ⊢
  cases heff with
  | quiet hdrop =>
    cases op with
    | receive raw =>
      simp only [contentOf] at hm
      split at hm
      · rename_i m' hmsg
        rw [Option.mem_def, Option.some.injEq] at hm
        subst hm
        exact absurd ((hfilter _).mp (hdrop raw _ rfl hmsg)) hnew
      · cases hm
    | _ => cases hm
  | sent hop _ =>
    cases op with
    | receive raw => exact absurd rfl (hop raw)
    | _ => cases hm
  | @received raw msg _ _ out hmsg _ hrec =>
    simp only [contentOf, hmsg] at hm
    cases hrec with
    | direct _ hres =>
      cases hm
      exact ⟨⟨_, rfl⟩, hres.sublist⟩
    | parked hnot _ =>
      cases hm
      exact absurd hsat hnot
    | sync _ => cases hm
    | ephemeral => cases hm

/-- In every run that the filter takes without a reset, and where no copy
comes while the first one waits, order and dedup hold at each call. -/
theorem order_and_dedup_hold_before_the_reset (dec : Bytes → Option (Finset MessageId))
    (channel_id : ChannelId) (sender_id : ParticipantId) (config : ChannelConfig)
    (now_ms : UInt64) (ops : List ChannelOp)
    (hops : Meets (Session.step (exactBlooms dec)) (BeforeReset w)
      (Session.new w (with_config channel_id sender_id config now_ms :
        MessageChannel (SdsBloomFilter (IdSet enc)))) ops) :
    Meets (Session.step (exactBlooms dec))
      (fun log s op => DeliversAtOnce (exactBlooms dec) log s op ∧
        NeverRedelivers (exactBlooms dec) log s op)
      (Session.new w (with_config channel_id sender_id config now_ms :
        MessageChannel (SdsBloomFilter (IdSet enc)))) ops := by
  rintro before op after rfl s log hr
  have hexact : ∀ (log : List Event) (s : Session w (SdsBloomFilter (IdSet enc))),
      s.channel.bloom = setAll (with_config channel_id sender_id config now_ms :
        MessageChannel (SdsBloomFilter (IdSet enc))).bloom (logIds log) →
      log.length < DEFAULT_CAPACITY → ∀ x, check s.channel.bloom x = true ↔ x ∈ logIds log := by
    intro log s hbloom hlen x
    rw [hbloom]
    exact check_setAll_room hlen x
  have hop := hops before op after rfl s log hr
  have hfilter := hexact log s (Session.run_bloom hr) hop.1
  refine ⟨deliversAtOnce_of_exact dec hfilter, ?_⟩
  have honce : Once (deliveredOf log) s.channel.incoming_buffer := by
    refine (run_invariant_of_meets
      (I := fun log (s : Session w (SdsBloomFilter (IdSet enc))) =>
        s.channel.bloom = setAll (with_config channel_id sender_id config now_ms :
          MessageChannel (SdsBloomFilter (IdSet enc))).bloom (logIds log) ∧
        Once (deliveredOf log) s.channel.incoming_buffer) ?_ ?_ hops.of_append hr).2
    · exact ⟨rfl, List.nodup_nil, List.nodup_nil, by simp [waitingIds, Session.new, with_config]⟩
    · rintro log s op s' ev ⟨hbloom, h⟩ hop hstep
      refine ⟨?_, once_step h ?_ hop hstep⟩
      · rw [(Session.step_effect hstep).bloom, hbloom, logIds_append, setAll_append]
      · intro id hid
        exact (hexact log s hbloom hop.1 id).mpr ((deliveredOf_sublist log).subset hid)
  obtain ⟨⟨s', ev⟩, hstep⟩ := Session.step_exact_returns dec s op
  refine ⟨_, hstep, ?_⟩
  intro pre m post hev _
  have hafter := once_step honce
    (fun id hid => (hfilter id).mpr ((deliveredOf_sublist log).subset hid)) hop hstep
  have hnodup := hafter.nodup
  rw [show ev = pre ++ .delivered m :: post from hev, ← List.append_assoc, deliveredOf_append,
    List.nodup_append] at hnodup
  intro hmem
  exact hnodup.2.2 _ hmem m.message_id (by simp [deliveredOf]) rfl

end Law

/-! ## A run into the reset -/

/-- Each send of the same payload is one event. -/
theorem run_sends {F : Type} [IdFilter F] (B : Build) (s₀ : Session w F) (topic : String)
    (payload : Bytes) (n : Nat) :
    ∃ (s : Session w F) (ms : List ContentMessage), run (Session.step B) s₀
        (List.replicate n (.send topic payload fun _ _ => .ok ())) = .ok (s, ms.map .sent) ∧
      ms.length = n ∧ (∀ m ∈ ms, m.message_id = w.compute_message_id payload) ∧
      s.channel.incoming_buffer = s₀.channel.incoming_buffer := by
  induction n with
  | zero => exact ⟨s₀, [], rfl, rfl, by simp, rfl⟩
  | succ n ih =>
    obtain ⟨s, ms, hr, hlen, hids, hbuf⟩ := ih
    rw [List.replicate_succ']
    have hstep : s.step B (.send topic payload fun _ _ => .ok ()) =
        .ok ({ s with channel := (s.channel.send w topic payload fun _ _ => .ok ()).1 },
          [.sent (s.channel.content_message w payload).2]) := rfl
    refine ⟨{ s with channel := (s.channel.send w topic payload fun _ _ => .ok ()).1 },
      ms ++ [(s.channel.content_message w payload).2], ?_, ?_, ?_, ?_⟩
    · rw [List.map_append]
      exact run_snoc_ok hr hstep
    · rw [List.length_append, hlen, List.length_singleton]
    · intro m hm
      rcases List.mem_append.mp hm with hm | hm
      · exact hids m hm
      · rw [List.mem_singleton] at hm
        rw [hm]
        rfl
    · exact hbuf

theorem mem_recent_snoc {n : Nat} (h : 0 < n) (ids : List MessageId) (id : MessageId) :
    id ∈ recent n (ids ++ [id]) := by
  unfold recent
  rw [List.drop_append_of_le_length
    (by simp only [List.length_append, List.length_singleton]; omega)]
  simp

def Sample.again_id : MessageId :=
  "b4c9e14061c2fd453b36700e3b0da008db2189c711ac629f0f583089164e267d"

/-- Carol's channel, with the filter of the Rust code over exact sets. -/
def Sample.carol : MessageChannel (SdsBloomFilter (IdSet fun _ => [])) :=
  with_config "lmao-carol" "carol" ChannelConfig.default 0

def Sample.carol_wire : Wire :=
  .ofTable ((utf8 "again", Sample.again_id) :: Sample.hashes)
    [.Content Sample.hello, .Content Sample.world]

abbrev Sample.carol_step
    (s : Session Sample.carol_wire (SdsBloomFilter (IdSet fun _ => []))) (op : ChannelOp) :=
  s.step (exactBlooms fun _ => none) op

/-- One id less than the filter takes, and then "hello". -/
def Sample.fill : List ChannelOp :=
  List.replicate 9999 (.send "/lmao/1/task-02dave/proto" (utf8 "again") fun _ _ => .ok ()) ++
    [.receive (SdsMessage.to_vec (.Content Sample.hello))]

theorem Sample.hello_decodes :
    Sample.carol_wire.sds_from_slice (SdsMessage.to_vec (.Content Sample.hello)) =
      some (.Content Sample.hello) :=
  Wire.ofTable_reads (by simp)

theorem Sample.world_decodes :
    Sample.carol_wire.sds_from_slice (SdsMessage.to_vec (.Content Sample.world)) =
      some (.Content Sample.world) :=
  Wire.ofTable_reads (by simp)

/-- A channel with nothing in its buffer gets a content message. -/
theorem receive_alone {F : Type} [IdFilter F] (dec : Bytes → Option (Finset MessageId))
    {s : Session w F} {raw : Bytes} {m : ContentMessage} (hbuf : s.channel.incoming_buffer = [])
    (hraw : w.sds_from_slice raw = some (.Content m))
    (hnew : check s.channel.bloom m.message_id = false) :
    ∃ s' out, s.step (exactBlooms dec) (.receive raw) = .ok (s', out.map .delivered) ∧
      Received s.channel.bloom [] (.Content m) s'.channel.bloom s'.channel.incoming_buffer out := by
  obtain ⟨⟨s', ev⟩, hstep⟩ := Session.step_exact_returns dec s (.receive raw)
  have heff := Session.step_effect hstep
  rw [hbuf] at heff
  rw [hstep]
  generalize hbloom' : s'.channel.bloom = f', hbuf' : s'.channel.incoming_buffer = buf' at heff
  cases heff with
  | quiet hdrop =>
    have hknown := hdrop raw _ rfl hraw
    rw [show SdsMessage.message_id (.Content m) = m.message_id from rfl, hnew] at hknown
    cases hknown
  | sent hop _ => exact absurd rfl (hop raw)
  | received hmsg _ hrec =>
    rw [hraw, Option.some.injEq] at hmsg
    subst hmsg
    refine ⟨s', _, rfl, ?_⟩
    rw [hbloom', hbuf']
    exact hrec

/-- "hello" fills the filter: it comes out, and the filter is empty after it. -/
theorem Sample.fill_empties_the_filter :
    ∃ (s : Session Sample.carol_wire (SdsBloomFilter (IdSet fun _ => []))) (log : List Event),
      run Sample.carol_step (Session.new _ Sample.carol) Sample.fill =
        .ok (s, log ++ [.delivered Sample.hello]) ∧
      (∀ x, check s.channel.bloom x = false) ∧ s.channel.incoming_buffer = [] ∧
      ∀ id ∈ logIds log, id = Sample.again_id := by
  obtain ⟨s, ms, hr, hlen, hids, hbuf⟩ := run_sends (exactBlooms fun _ => none)
    (Session.new Sample.carol_wire Sample.carol) "/lmao/1/task-02dave/proto" (utf8 "again") 9999
  have hlog : ∀ id ∈ logIds (ms.map Event.sent), id = Sample.again_id := by
    intro id hid
    simp only [logIds, List.map_map, List.mem_map, Function.comp_apply] at hid
    obtain ⟨m, hm, rfl⟩ := hid
    rw [Event.id, hids m hm]
    decide +kernel
  have hbloom := Session.run_bloom hr
  have hcount : (logIds (ms.map Event.sent)).length = 9999 := by simp [logIds, hlen]
  have hnew : check s.channel.bloom Sample.hello_id = false := by
    rw [hbloom, ← Bool.not_eq_true]
    intro h
    have hmem := (check_setAll_room (by simp [hlen, DEFAULT_CAPACITY]) _).mp h
    exact absurd (hlog _ hmem) (by decide +kernel)
  obtain ⟨s', out, hstep, hrec⟩ := receive_alone (fun _ => none) hbuf
    Sample.hello_decodes hnew
  obtain ⟨rfl, hbuf', hbloom'⟩ := hrec.alone (by intro id hid; cases hid)
  refine ⟨s', ms.map .sent, run_snoc_ok hr hstep, ?_, hbuf', hlog⟩
  intro x
  have hroom : (0 : Nat) + (logIds (ms.map Event.sent)).length < DEFAULT_CAPACITY := by
    rw [hcount]
    decide
  rw [hbloom', hbloom, SdsBloomFilter.setAll_room _ _ hroom, SdsBloomFilter.set_full _ (by
    simp only [hcount]
    decide)]
  rfl

/-- After the reset, "world" waits for "hello", which was delivered, and a
second copy of "hello" is delivered again. -/
theorem the_reset_breaks_order_and_dedup :
    ¬ Meets Sample.carol_step (DeliversAtOnce (exactBlooms fun _ => none))
      (Session.new _ Sample.carol)
      (Sample.fill ++ [.receive (SdsMessage.to_vec (.Content Sample.world))]) ∧
    ¬ Meets Sample.carol_step (NeverRedelivers (exactBlooms fun _ => none))
      (Session.new _ Sample.carol)
      (Sample.fill ++ [.receive (SdsMessage.to_vec (.Content Sample.hello))]) := by
  obtain ⟨s, log, hr, hempty, hbuf, hlog⟩ := Sample.fill_empties_the_filter
  constructor
  · intro hmeets
    have hcall := hmeets Sample.fill _ [] rfl s _ hr Sample.world
      (by simp [contentOf, Sample.world_decodes]) ?_ ?_
    · obtain ⟨r, hstep, ⟨rest, hfirst⟩, -⟩ := hcall
      obtain ⟨s', out, hstep', hrec⟩ := receive_alone (fun _ => none) hbuf
        Sample.world_decodes (hempty _)
      obtain ⟨rfl, -⟩ := hrec.waits (by
        intro hsat
        have hknown := hsat Sample.hello_id (by decide +kernel)
        rw [hempty] at hknown
        cases hknown)
      rw [hstep'] at hstep
      cases hstep
      cases hfirst
    · intro id hid
      have : id = Sample.hello_id := by simpa [deps, Sample.world] using hid
      rw [this, recordedIds_append]
      exact List.mem_append_right _ (by simp [recordedIds, Sample.hello])
    · intro hmem
      rw [logIds_append] at hmem
      rcases List.mem_append.mp hmem with hmem | hmem
      · exact absurd (hlog _ hmem) (by decide +kernel)
      · exact absurd hmem (by decide +kernel)
  · intro hmeets
    obtain ⟨r, hstep, hnever⟩ := hmeets Sample.fill _ [] rfl s _ hr
    obtain ⟨s', out, hstep', hrec⟩ := receive_alone (fun _ => none) hbuf
      Sample.hello_decodes (hempty _)
    obtain ⟨rfl, -⟩ := hrec.alone (by intro id hid; cases hid)
    rw [hstep'] at hstep
    cases hstep
    have hrecords : s.channel.Records 200 _ := Session.run_records ⟨rfl, rfl⟩ hr
    apply hnever [] Sample.hello [] rfl
    · have hmax : s.channel.config.history_max = 200 * 2 := by
        unfold ChannelConfig.history_max
        rw [hrecords.size_eq]
        rfl
      rw [hrecords.size_eq, hrecords.ids_eq, hmax, recent_recent_append, recordedIds_nil,
        List.append_nil, recordedIds_append]
      exact mem_recent_snoc (n := 200 * 2) (by decide) (recordedIds log) Sample.hello_id
    · rw [List.append_nil, deliveredOf_append]
      exact List.mem_append_right _ (by simp [deliveredOf])

/-- Three calls, far from the reset. -/
def Sample.three_calls : List ChannelOp :=
  [.receive (SdsMessage.to_vec (.Content Sample.hello)),
    .receive (SdsMessage.to_vec (.Content Sample.world)),
    .receive (SdsMessage.to_vec (.Content Sample.hello))]

theorem three_calls_keep_order_and_dedup :
    Meets Sample.carol_step (BeforeReset Sample.carol_wire) (Session.new _ Sample.carol)
      Sample.three_calls ∧
    Meets Sample.carol_step (fun log s op => DeliversAtOnce (exactBlooms fun _ => none) log s op ∧
        NeverRedelivers (exactBlooms fun _ => none) log s op) (Session.new _ Sample.carol)
      Sample.three_calls := by
  have hops : Meets Sample.carol_step (BeforeReset Sample.carol_wire)
      (Session.new _ Sample.carol) Sample.three_calls := by
    decide +kernel
  exact ⟨hops, order_and_dedup_hold_before_the_reset _ _ _ _ _ _ hops⟩

end lmao.sds
