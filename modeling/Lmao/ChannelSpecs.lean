-- What the calls of a channel do to its filter and to its incoming buffer.
-- The laws of the channel read only these two and the messages that come
-- out, so `receive_cases` and `resolve_buffered_spec` are all that they need
-- of the code.
import Lmao.Channel

set_option linter.unusedSectionVars false

namespace lmao.sds

open greedy

variable {F : Type} [IdFilter F]

/-! ## The filter after a list of ids -/

/-- The filter after `set` on each id, the first id first. -/
def setAll (f : F) (ids : List MessageId) : F := ids.foldl set f

@[simp] theorem setAll_nil (f : F) : setAll f [] = f := rfl

@[simp] theorem setAll_cons (f : F) (id : MessageId) (ids : List MessageId) :
    setAll f (id :: ids) = setAll (set f id) ids := rfl

theorem setAll_append (f : F) (ids ids' : List MessageId) :
    setAll f (ids ++ ids') = setAll (setAll f ids) ids' := List.foldl_append

theorem setAll_idSet {enc : Finset MessageId → Bytes} (f : IdSet enc) (ids : List MessageId) :
    (setAll f ids).ids = f.ids ∪ ids.toFinset := by
  induction ids generalizing f with
  | nil => simp
  | cons id ids ih =>
    rw [setAll_cons, ih, set_idSet]
    ext x
    simp only [Finset.mem_union, Finset.mem_insert, List.mem_toFinset, List.mem_cons]
    rw [or_assoc, or_left_comm]

/-- All the dependencies of the message are in the filter. -/
def Satisfied (f : F) (m : ContentMessage) : Prop := ∀ id ∈ deps m, check f id = true

instance (f : F) (m : ContentMessage) : Decidable (Satisfied f m) :=
  inferInstanceAs (Decidable (∀ id ∈ deps m, check f id = true))

/-- The ids of a list of messages. -/
def idsOf (ms : List ContentMessage) : List MessageId := ms.map (·.message_id)

@[simp] theorem idsOf_nil : idsOf [] = [] := rfl

@[simp] theorem idsOf_cons (m : ContentMessage) (ms : List ContentMessage) :
    idsOf (m :: ms) = m.message_id :: idsOf ms := rfl

@[simp] theorem idsOf_append (ms ms' : List ContentMessage) :
    idsOf (ms ++ ms') = idsOf ms ++ idsOf ms' := List.map_append

namespace MessageChannel

theorem dependencies_satisfied_iff (ch : MessageChannel F) (m : ContentMessage) :
    ch.dependencies_satisfied m.causal_history = true ↔ Satisfied ch.bloom m := by
  simp [dependencies_satisfied, Satisfied, deps]

/-! ## The filter and the buffers under each update -/

section Updates

variable (ch : MessageChannel F) (id : MessageId) (ts : UInt64)

@[simp] theorem mark_bloom : (ch.mark id ts).bloom = set ch.bloom id := rfl
@[simp] theorem update_incoming : (ch.update_timestamp ts).incoming_buffer = ch.incoming_buffer :=
  rfl

end Updates

/-- A mark for each message, the first message first. -/
def marks (ch : MessageChannel F) (ms : List ContentMessage) : MessageChannel F :=
  ms.foldl (fun ch m => ch.mark m.message_id m.lamport_timestamp) ch

@[simp] theorem marks_bloom (ch : MessageChannel F) (ms : List ContentMessage) :
    (ch.marks ms).bloom = setAll ch.bloom (idsOf ms) := by
  induction ms generalizing ch with
  | nil => rfl
  | cons m ms ih => exact ih (ch.mark m.message_id m.lamport_timestamp)

/-! ## The local history -/

/-- The ids of the local history, oldest first. -/
def historyIds (ch : MessageChannel F) : List MessageId := ch.local_history.map (·.message_id)

end MessageChannel

/-- The last `n` ids. -/
def recent (n : Nat) (ids : List MessageId) : List MessageId := ids.drop (ids.length - n)

theorem recent_recent_append (n : Nat) (ids ids' : List MessageId) :
    recent n (recent n ids ++ ids') = recent n (ids ++ ids') := by
  unfold recent
  rw [← List.drop_append_of_le_length (Nat.sub_le ids.length n), List.drop_drop]
  congr 1
  simp only [List.length_drop, List.length_append]
  omega

namespace MessageChannel

/-- The local history is the newest part of the list `ids`, as much of it as
`record_in_history` keeps for a causal history of `size`. -/
structure Records (ch : MessageChannel F) (size : Nat) (ids : List MessageId) : Prop where
  size_eq : ch.config.causal_history_size = size
  ids_eq : ch.historyIds = recent ch.config.history_max ids

/-- Calls that leave the configuration and the local history leave the
record. -/
theorem Records.frame {ch ch' : MessageChannel F} {size : Nat} {ids : List MessageId}
    (h : ch.Records size ids) (hconfig : ch'.config = ch.config)
    (hhistory : ch'.local_history = ch.local_history) : ch'.Records size ids := by
  refine ⟨hconfig ▸ h.size_eq, ?_⟩
  unfold historyIds
  rw [hhistory, hconfig]
  exact h.ids_eq

theorem Records.mark {ch : MessageChannel F} {size : Nat} {ids : List MessageId}
    (h : ch.Records size ids) (id : MessageId) (ts : UInt64) :
    (ch.mark id ts).Records size (ids ++ [id]) := by
  refine ⟨h.size_eq, ?_⟩
  have hconfig : (ch.mark id ts).config = ch.config := rfl
  rw [hconfig, ← recent_recent_append, ← h.ids_eq]
  unfold recent historyIds MessageChannel.mark record_in_history
  simp [List.map_drop]

theorem Records.marks {ch : MessageChannel F} {size : Nat} {ids : List MessageId}
    (h : ch.Records size ids) (ms : List ContentMessage) :
    (ch.marks ms).Records size (ids ++ idsOf ms) := by
  induction ms generalizing ch ids with
  | nil => simpa [MessageChannel.marks] using h
  | cons m ms ih => simpa [MessageChannel.marks] using ih (h.mark m.message_id m.lamport_timestamp)

end MessageChannel

open MessageChannel

/-! ## The loop over the incoming buffer -/

/-- What `resolve_buffered` does, from the filter `f` and the buffer `buf`:
it delivers `ds` and leaves `rest`. -/
structure Resolved (f : F) (buf : List SdsMessage) (ds : List ContentMessage)
    (rest : List SdsMessage) : Prop where
  /-- Each message has its dependencies in the filter when it is delivered. -/
  order : ∀ before m after, ds = before ++ m :: after → Satisfied (setAll f (idsOf before)) m
  perm : (ds.map SdsMessage.Content ++ rest).Perm buf
  sublist : rest.Sublist buf
  stuck : ∀ m, SdsMessage.Content m ∈ rest → ¬ Satisfied (setAll f (idsOf ds)) m

theorem ready_eq_some {ch : MessageChannel F} {msg : SdsMessage} {m : ContentMessage} :
    resolveRule.ready ch msg = some m ↔ msg = .Content m ∧ Satisfied ch.bloom m := by
  rw [← dependencies_satisfied_iff]
  cases msg with
  | Content c =>
    simp only [resolveRule, SdsMessage.Content.injEq]
    split
    · rename_i hc
      constructor
      · rintro h
        cases h
        exact ⟨rfl, hc⟩
      · rintro ⟨rfl, -⟩
        rfl
    · rename_i hc
      constructor
      · intro h
        cases h
      · rintro ⟨rfl, h⟩
        exact absurd h hc
  | Sync s => simp [resolveRule]
  | Ephemeral e => simp [resolveRule]

theorem takes_marks {ch ch' : MessageChannel F} {ps : List (SdsMessage × ContentMessage)}
    (h : resolveRule.Takes ch ps ch') :
    ch' = ch.marks (ps.map Prod.snd) ∧ ps.map Prod.fst = (ps.map Prod.snd).map .Content ∧
      ∀ before m after, ps.map Prod.snd = before ++ m :: after →
        Satisfied (setAll ch.bloom (idsOf before)) m := by
  induction h with
  | nil => simp [marks]
  | @cons s s' msg m ps hr _ ih =>
    obtain ⟨h1, h2, h3⟩ := ih
    obtain ⟨rfl, hsat⟩ := ready_eq_some.mp hr
    refine ⟨h1, by simp [h2], ?_⟩
    intro before c after heq
    cases before with
    | nil =>
      simp only [List.map_cons, List.nil_append, List.cons.injEq] at heq
      obtain ⟨rfl, -⟩ := heq
      exact hsat
    | cons b bs =>
      simp only [List.map_cons, List.cons_append, List.cons.injEq] at heq
      obtain ⟨rfl, heq⟩ := heq
      exact h3 bs c after heq

theorem resolve_buffered_spec (ch : MessageChannel F) :
    Resolved ch.bloom ch.incoming_buffer ch.resolve_buffered.2
      ch.resolve_buffered.1.incoming_buffer ∧
    ch.resolve_buffered.1.bloom = setAll ch.bloom (idsOf ch.resolve_buffered.2) ∧
    ∀ size ids, ch.Records size ids →
      ch.resolve_buffered.1.Records size (ids ++ idsOf ch.resolve_buffered.2) := by
  unfold resolve_buffered
  obtain ⟨ps, hd, hout⟩ := resolveRule.drain_spec (Nat.lt_succ_self ch.incoming_buffer.length) ch
  generalize resolveRule.drain (ch.incoming_buffer.length + 1) ch ch.incoming_buffer = r at *
  obtain ⟨h1, h2, h3⟩ := takes_marks hd.takes
  simp only [hout]
  refine ⟨⟨h3, ?_, hd.sublist, ?_⟩, ?_, ?_⟩
  · rw [← h2]
    exact hd.perm
  · intro m hm hsat
    have hready := ready_eq_some.mpr (⟨rfl, by rwa [h1, marks_bloom]⟩ :
      SdsMessage.Content m = .Content m ∧ Satisfied r.1.bloom m)
    rw [hd.stuck _ hm] at hready
    cases hready
  · rw [h1, marks_bloom]
  · intro size ids hids
    have hmarks := hids.marks (ps.map Prod.snd)
    rw [← h1] at hmarks
    exact hmarks.frame rfl rfl

/-- A buffer with no message that is ready stays as it is. -/
theorem Resolved.nil_of_stuck {f : F} {buf rest : List SdsMessage} {ds : List ContentMessage}
    (h : Resolved f buf ds rest) (hstuck : ∀ m, SdsMessage.Content m ∈ buf → ¬ Satisfied f m) :
    ds = [] := by
  cases ds with
  | nil => rfl
  | cons m ds =>
    have hm : SdsMessage.Content m ∈ buf := h.perm.subset (by simp)
    exact absurd (h.order [] m ds rfl) (hstuck m hm)

/-! ## One call of receive -/

/-- What `receive` does with a message that the filter does not know: from
the filter and the buffer before, to the filter, the buffer and the
delivered messages after. -/
inductive Received (f : F) (buf : List SdsMessage) :
    SdsMessage → F → List SdsMessage → List ContentMessage → Prop
  | direct {m ds rest} : Satisfied f m → Resolved (set f m.message_id) buf ds rest →
      Received f buf (.Content m) (setAll f (idsOf (m :: ds))) rest (m :: ds)
  | parked {m ds rest} : ¬ Satisfied f m → Resolved f (park buf m) ds rest →
      Received f buf (.Content m) (setAll f (idsOf ds)) rest ds
  | sync {s : SyncMessage} {ds rest} : Resolved (set f s.message_id) buf ds rest →
      Received f buf (.Sync s) (setAll f (s.message_id :: idsOf ds)) rest ds
  | ephemeral {e : EphemeralMessage} : Received f buf (.Ephemeral e) (set f e.message_id) buf []

theorem mem_park {buf : List SdsMessage} {m : ContentMessage} {msg : SdsMessage}
    (h : msg ∈ park buf m) : msg ∈ buf ∨ msg = .Content m := by
  unfold park at h
  rcases List.mem_append.mp h with h | h
  · split at h
    · exact Or.inl (List.mem_of_mem_drop h)
    · exact Or.inl h
  · exact Or.inr (List.mem_singleton.mp h)

theorem Resolved.of_nil {f : F} {rest : List SdsMessage} {ds : List ContentMessage}
    (h : Resolved f [] ds rest) : ds = [] ∧ rest = [] := by
  have hnil := h.perm.eq_nil
  rw [List.append_eq_nil_iff, List.map_eq_nil_iff] at hnil
  exact hnil

/-- With nothing in the buffer, a message that has its dependencies comes
out alone. -/
theorem Received.alone {f f' : F} {buf' : List SdsMessage} {m : ContentMessage}
    {out : List ContentMessage} (h : Received f [] (.Content m) f' buf' out)
    (hsat : Satisfied f m) : out = [m] ∧ buf' = [] ∧ f' = set f m.message_id := by
  cases h with
  | direct _ hres =>
    obtain ⟨rfl, rfl⟩ := hres.of_nil
    exact ⟨rfl, rfl, rfl⟩
  | parked hnot _ => exact absurd hsat hnot

/-- With nothing in the buffer, a message that misses a dependency waits. -/
theorem Received.waits {f f' : F} {buf' : List SdsMessage} {m : ContentMessage}
    {out : List ContentMessage} (h : Received f [] (.Content m) f' buf' out)
    (hnot : ¬ Satisfied f m) : out = [] ∧ buf' = [.Content m] ∧ f' = f := by
  cases h with
  | direct hsat _ => exact absurd hsat hnot
  | parked _ hres =>
    have hout := hres.nil_of_stuck (by
      intro m' hm'
      rcases mem_park hm' with hm' | hm'
      · cases hm'
      · cases hm'
        exact hnot)
    subst hout
    have hperm : buf'.Perm [.Content m] := hres.perm
    exact ⟨rfl, List.perm_singleton.mp hperm, rfl⟩

/-- What the two ways of a content message, the direct one and the one
through the buffer, have in common. -/
structure ReceivedContent (f : F) (buf : List SdsMessage) (m : ContentMessage) (f' : F)
    (buf' : List SdsMessage) (out : List ContentMessage) : Prop where
  bloom : f' = setAll f (idsOf out)
  order : ∀ before m' after, out = before ++ m' :: after →
    Satisfied (setAll f (idsOf before)) m'
  stuck : ∀ m', SdsMessage.Content m' ∈ buf' → ¬ Satisfied f' m'
  /-- Nothing is lost while the buffer has room. -/
  perm : buf.length < INCOMING_BUFFER_MAX →
    (out.map SdsMessage.Content ++ buf').Perm (buf ++ [.Content m])

theorem Received.content {f f' : F} {buf buf' : List SdsMessage} {m : ContentMessage}
    {out : List ContentMessage} (h : Received f buf (.Content m) f' buf' out) :
    ReceivedContent f buf m f' buf' out := by
  cases h with
  | @direct _ ds _ hsat hres =>
    refine ⟨rfl, ?_, hres.stuck, ?_⟩
    · intro before m' after heq
      cases before with
      | nil =>
        simp only [List.nil_append, List.cons.injEq] at heq
        rw [← heq.1]
        exact hsat
      | cons b bs =>
        simp only [List.cons_append, List.cons.injEq] at heq
        obtain ⟨rfl, heq⟩ := heq
        exact hres.order bs m' after heq
    · intro _
      have hcons := hres.perm.cons (SdsMessage.Content m)
      exact hcons.trans (List.perm_append_singleton _ _).symm
  | parked hsat hres =>
    refine ⟨rfl, hres.order, hres.stuck, ?_⟩
    intro hroom
    have hperm := hres.perm
    unfold park at hperm
    rwa [if_neg (by omega)] at hperm

theorem Resolved.mem {f : F} {buf rest : List SdsMessage} {ds : List ContentMessage}
    (h : Resolved f buf ds rest) {m : ContentMessage}
    (hm : m ∈ ds ∨ SdsMessage.Content m ∈ rest) : SdsMessage.Content m ∈ buf := by
  apply h.perm.subset
  rcases hm with hm | hm
  · exact List.mem_append_left _ (List.mem_map_of_mem hm)
  · exact List.mem_append_right _ hm

/-- What comes out, and what waits after the call, waited before it or is
the message of the call. -/
theorem Received.mem {f f' : F} {buf buf' : List SdsMessage} {msg : SdsMessage}
    {out : List ContentMessage} (h : Received f buf msg f' buf' out) {m : ContentMessage}
    (hm : m ∈ out ∨ SdsMessage.Content m ∈ buf') :
    SdsMessage.Content m ∈ buf ∨ msg = .Content m := by
  cases h with
  | direct _ hres =>
    rcases hm with hm | hm
    · rcases List.mem_cons.mp hm with rfl | hm
      · exact Or.inr rfl
      · exact Or.inl (hres.mem (Or.inl hm))
    · exact Or.inl (hres.mem (Or.inr hm))
  | parked _ hres =>
    rcases mem_park (hres.mem hm) with h | h
    · exact Or.inl h
    · exact Or.inr h.symm
  | sync hres => exact Or.inl (hres.mem hm)
  | ephemeral =>
    rcases hm with hm | hm
    · cases hm
    · exact Or.inl hm

theorem receive_message_received (ch : MessageChannel F) (msg : SdsMessage) :
    Received ch.bloom ch.incoming_buffer msg (ch.receive_message msg).1.bloom
      (ch.receive_message msg).1.incoming_buffer (ch.receive_message msg).2 := by
  cases msg with
  | Content m =>
    unfold receive_message
    simp only
    split
    · rename_i hsat
      obtain ⟨hres, hbloom, -⟩ := resolve_buffered_spec
        ((ch.update_timestamp m.lamport_timestamp).mark m.message_id m.lamport_timestamp)
      simp only [hbloom]
      exact .direct ((dependencies_satisfied_iff _ m).mp hsat) hres
    · rename_i hsat
      obtain ⟨hres, hbloom, -⟩ := resolve_buffered_spec
        { ch.update_timestamp m.lamport_timestamp with
          incoming_buffer := park ch.incoming_buffer m }
      simp only [update_incoming, hbloom]
      exact .parked (fun h => hsat ((dependencies_satisfied_iff _ m).mpr h)) hres
  | Sync s =>
    unfold receive_message
    simp only
    obtain ⟨hres, hbloom, -⟩ := resolve_buffered_spec
      (update_timestamp { ch with bloom := set ch.bloom s.message_id } s.lamport_timestamp)
    rw [hbloom]
    exact .sync hres
  | Ephemeral e => exact .ephemeral

/-- A call records what it delivers, in the order of delivery. -/
theorem receive_message_records {ch : MessageChannel F} {size : Nat} {ids : List MessageId}
    (h : ch.Records size ids) (msg : SdsMessage) :
    (ch.receive_message msg).1.Records size (ids ++ idsOf (ch.receive_message msg).2) := by
  cases msg with
  | Content m =>
    unfold receive_message
    simp only
    split
    · have hmark : ((ch.update_timestamp m.lamport_timestamp).mark m.message_id
          m.lamport_timestamp).Records size (ids ++ [m.message_id]) :=
        Records.mark (show (ch.update_timestamp m.lamport_timestamp).Records size ids from
          h.frame rfl rfl) _ _
      have hres := (resolve_buffered_spec _).2.2 _ _ hmark
      rw [List.append_assoc] at hres
      exact hres
    · exact (resolve_buffered_spec { ch.update_timestamp m.lamport_timestamp with
        incoming_buffer := park ch.incoming_buffer m }).2.2 size ids (h.frame rfl rfl)
  | Sync s =>
    exact (resolve_buffered_spec (update_timestamp
      { ch with bloom := set ch.bloom s.message_id } s.lamport_timestamp)).2.2 size ids
        (h.frame rfl rfl)
  | Ephemeral e =>
    rw [show (ch.receive_message (.Ephemeral e)).2 = [] from rfl, idsOf_nil, List.append_nil]
    exact h.frame rfl rfl

/-- The detection of ACKs touches only the outgoing buffer and the counts. -/
theorem check_outgoing_acks_frame {B : Build} {ch ch' : MessageChannel F} {bytes : Bytes}
    (h : ch.check_outgoing_acks B bytes = .ok ch') :
    ∃ out acks, ch' = { ch with outgoing_buffer := out, possible_acks := acks } := by
  unfold check_outgoing_acks at h
  split at h
  · cases h
    exact ⟨ch.outgoing_buffer, ch.possible_acks, rfl⟩
  · rename_i remote_bloom _
    rcases hr : retain_unacked (B.probably_contains remote_bloom)
      ch.config.possible_acks_threshold ch.outgoing_buffer ch.possible_acks with e | r
    · simp [hr, bind, Except.bind] at h
    · simp only [hr, bind, Except.bind, pure, Except.pure, Except.ok.injEq] at h
      exact ⟨_, _, h.symm⟩

/-- The channel of a `receive` once the filter of the message is checked
against the outgoing buffer, if there is one. -/
def AcksChecked (B : Build) (ch mid : MessageChannel F) (msg : SdsMessage) : Prop :=
  match msg.bloom_filter_bytes with
  | none => mid = ch
  | some bytes => ch.check_outgoing_acks B bytes = .ok mid

/-- A call of `receive` that ends: it drops the message and changes nothing,
or it takes a message that the filter does not know, in two stages. -/
theorem receive_stages {B : Build} {w : Wire} {ch ch' : MessageChannel F} {raw : Bytes}
    {out : List ContentMessage} (h : ch.receive B w raw = .ok (ch', out)) :
    (ch' = ch ∧ out = [] ∧
      ∀ msg, w.sds_from_slice raw = some msg → check ch.bloom msg.message_id = true) ∨
    ∃ msg mid, w.sds_from_slice raw = some msg ∧ check ch.bloom msg.message_id = false ∧
      AcksChecked B ch mid msg ∧ (ch', out) = mid.receive_message msg := by
  unfold receive at h
  split at h
  · rename_i hnone
    cases h
    exact Or.inl ⟨rfl, rfl, fun msg hm => by rw [hnone] at hm; cases hm⟩
  · rename_i msg hmsg
    split at h
    · rename_i hdup
      cases h
      refine Or.inl ⟨rfl, rfl, fun m hm => ?_⟩
      rw [hmsg, Option.some.injEq] at hm
      exact hm ▸ hdup
    · rename_i hdup
      refine Or.inr ⟨msg, ?_⟩
      rw [Bool.not_eq_true] at hdup
      unfold AcksChecked
      rcases hb : msg.bloom_filter_bytes with _ | bytes
      · simp only [hb, bind, Except.bind, pure, Except.pure] at h
        split at h
        · cases h
        · rw [Except.ok.injEq] at h
          exact ⟨ch, hmsg, hdup, rfl, h.symm⟩
      · simp only [hb, bind, Except.bind, pure, Except.pure] at h
        rcases hc : ch.check_outgoing_acks B bytes with e | c
        · simp [hc] at h
        · simp only [hc] at h
          split at h
          · cases h
          · rw [Except.ok.injEq] at h
            exact ⟨c, hmsg, hdup, hc, h.symm⟩

/-- The same, with the channel between the stages as far as the rest of the
call reads it. -/
theorem receive_cases {B : Build} {w : Wire} {ch ch' : MessageChannel F} {raw : Bytes}
    {out : List ContentMessage} (h : ch.receive B w raw = .ok (ch', out)) :
    (ch' = ch ∧ out = [] ∧
      ∀ msg, w.sds_from_slice raw = some msg → check ch.bloom msg.message_id = true) ∨
    ∃ msg outgoing acks, w.sds_from_slice raw = some msg ∧
      check ch.bloom msg.message_id = false ∧
      (ch', out) = receive_message
        { ch with outgoing_buffer := outgoing, possible_acks := acks } msg := by
  rcases receive_stages h with h | ⟨msg, mid, hmsg, hnew, hmid, heq⟩
  · exact Or.inl h
  · unfold AcksChecked at hmid
    split at hmid
    · subst hmid
      exact Or.inr ⟨msg, mid.outgoing_buffer, mid.possible_acks, hmsg, hnew, heq⟩
    · obtain ⟨outgoing, acks, rfl⟩ := check_outgoing_acks_frame hmid
      exact Or.inr ⟨msg, outgoing, acks, hmsg, hnew, heq⟩

/-- The same, for the filter and the buffer alone. -/
theorem receive_received {B : Build} {w : Wire} {ch ch' : MessageChannel F} {raw : Bytes}
    {out : List ContentMessage} (h : ch.receive B w raw = .ok (ch', out)) :
    (ch' = ch ∧ out = [] ∧
      ∀ msg, w.sds_from_slice raw = some msg → check ch.bloom msg.message_id = true) ∨
    ∃ msg, w.sds_from_slice raw = some msg ∧ check ch.bloom msg.message_id = false ∧
      Received ch.bloom ch.incoming_buffer msg ch'.bloom ch'.incoming_buffer out := by
  rcases receive_cases h with h | ⟨msg, outgoing, acks, hmsg, hnew, heq⟩
  · exact Or.inl h
  · have hr := receive_message_received
      { ch with outgoing_buffer := outgoing, possible_acks := acks } msg
    rw [← heq] at hr
    exact Or.inr ⟨msg, hmsg, hnew, hr⟩

/-! ## Filters of the peers as exact sets: no call panics -/

theorem retain_unacked_returns {contains : MessageId → Except Panic Bool}
    (hc : ∀ id, ∃ b, contains id = .ok b) (threshold : Nat) (ms : List ContentMessage)
    (acks : AList (fun _ : MessageId => Nat)) :
    ∃ r, retain_unacked contains threshold ms acks = .ok r := by
  induction ms generalizing acks with
  | nil => exact ⟨_, rfl⟩
  | cons m ms ih =>
    obtain ⟨b, hb⟩ := hc m.message_id
    unfold retain_unacked
    simp only [hb, bind, Except.bind]
    cases b with
    | false =>
      obtain ⟨r, hr⟩ := ih acks
      simp [hr, pure, Except.pure]
    | true =>
      simp only [if_true]
      split
      · exact ih _
      · obtain ⟨r, hr⟩ := ih (acks.insert m.message_id ((acks.lookup m.message_id).getD 0 + 1))
        simp [hr, pure, Except.pure]

/-- In a release build, when no check of a peer's filter panics, no call of
`receive` does. -/
theorem receive_returns {B : Build} {w : Wire} {ch : MessageChannel F} {raw : Bytes}
    (hrelease : B.overflow_checks = false)
    (h : ∀ bytes f, B.from_bytes bytes = some f → ∀ id, ∃ b, B.probably_contains f id = .ok b) :
    ∃ r, ch.receive B w raw = .ok r := by
  unfold receive
  simp only [hrelease, Bool.false_and, Bool.false_eq_true, if_false]
  split
  · exact ⟨_, rfl⟩
  · rename_i msg _
    split
    · exact ⟨_, rfl⟩
    · rcases msg.bloom_filter_bytes with _ | bytes
      · exact ⟨_, rfl⟩
      · simp only [check_outgoing_acks]
        split
        · exact ⟨_, rfl⟩
        · rename_i f hf
          obtain ⟨r, hr⟩ := retain_unacked_returns (h bytes f hf)
            ch.config.possible_acks_threshold ch.outgoing_buffer ch.possible_acks
          simp [hr, bind, Except.bind, pure, Except.pure]

theorem receive_exact_returns (dec : Bytes → Option (Finset MessageId)) (w : Wire)
    (ch : MessageChannel F) (raw : Bytes) : ∃ r, ch.receive (exactBlooms dec) w raw = .ok r :=
  receive_returns rfl fun _ _ _ _ => ⟨_, rfl⟩

end lmao.sds
