-- The law of convergence: what a channel delivers of a set of content
-- messages, and what it leaves in the buffer, does not depend on the order in
-- which they arrive. The delivered ids are the least set that is closed
-- under the dependencies.
import Lmao.ExactlyOnce
import Lmao.SdsReading

set_option linter.unusedSectionVars false

namespace lmao.sds

open machine greedy MessageChannel

variable {enc : Finset MessageId → Bytes}

/-- The raw messages decode to these content messages, one by one. -/
def Feeds (w : Wire) (raws : List Bytes) (ms : List ContentMessage) : Prop :=
  raws.map w.sds_from_slice = ms.map fun m => some (.Content m)

instance (w : Wire) (raws : List Bytes) (ms : List ContentMessage) : Decidable (Feeds w raws ms) :=
  inferInstanceAs (Decidable (_ = _))

theorem feeds_snoc {w : Wire} {raws : List Bytes} {ms : List ContentMessage} {m : ContentMessage}
    (h : Feeds w raws (ms ++ [m])) :
    ∃ raws' raw, raws = raws' ++ [raw] ∧ Feeds w raws' ms ∧
      w.sds_from_slice raw = some (.Content m) := by
  unfold Feeds at h
  rw [List.map_append] at h
  obtain ⟨raws', tail, rfl, hraws', htail⟩ := List.map_eq_append_iff.mp h
  obtain ⟨raw, tail', rfl, hraw, htail'⟩ := List.map_eq_cons_iff.mp htail
  rw [List.map_nil, List.map_eq_nil_iff] at htail'
  subst htail'
  exact ⟨raws', raw, rfl, hraws', hraw⟩

/-! ## The delivered set -/

/-- The sets of ids that hold each message of `ms` whose dependencies were
all seen: in the filter at the start, or in the set. Messages whose own id
was in the filter at the start are left aside. -/
def Closures (f : IdSet enc) (ms : List ContentMessage) : Set (Set MessageId) :=
  { D | Closed (fun m : ContentMessage => m.message_id) deps { id | id ∈ f.ids }
    { m | m ∈ ms ∧ m.message_id ∉ f.ids } D }

theorem Closures.congr {f : IdSet enc} {ms ms' : List ContentMessage} (h : ms.Perm ms') :
    Closures f ms = Closures f ms' := by
  unfold Closures
  simp only [h.mem_iff]

/-- Messages that each had the dependencies in the filter at their turn are
in every closed set that holds what the filter knew. -/
theorem order_in_closure {f f₀ : IdSet enc} {ms ds : List ContentMessage} {D : Set MessageId}
    (hD : D ∈ Closures f₀ ms) (hf : ∀ x ∈ f.ids, x ∈ f₀.ids ∨ x ∈ D)
    (hmem : ∀ m ∈ ds, m ∈ ms ∧ m.message_id ∉ f₀.ids)
    (horder : ∀ before m after, ds = before ++ m :: after →
      Satisfied (setAll f (idsOf before)) m) : ∀ id ∈ idsOf ds, id ∈ D := by
  induction ds using List.reverseRecOn with
  | nil => simp
  | append_singleton ds m ih =>
    have hbefore : ∀ id ∈ idsOf ds, id ∈ D := by
      apply ih
      · intro m' hm'
        exact hmem m' (List.mem_append_left _ hm')
      · intro before m' after hds
        exact horder before m' (after ++ [m]) (by simp [hds])
    intro id hid
    rw [idsOf_append, List.mem_append] at hid
    rcases hid with hid | hid
    · exact hbefore id hid
    · simp only [idsOf_cons, idsOf_nil, List.mem_singleton] at hid
      rw [hid]
      apply hD m (hmem m (by simp))
      intro dep hdep
      have hsat := horder ds m [] rfl dep hdep
      rw [check_setAll_idSet, check_idSet] at hsat
      rcases hsat with hsat | hsat
      · exact Or.inr (hbefore dep hsat)
      · exact hf dep hsat

/-! ## The invariant -/

/-- What holds once `fed`, a part of `ms`, went through a channel whose
filter was `f₀` at the start. -/
structure Fed (f₀ : IdSet enc) (ms fed : List ContentMessage) (out : List ContentMessage)
    (ch : MessageChannel (IdSet enc)) : Prop where
  bloom : ch.bloom = setAll f₀ (idsOf out)
  parts : (out.map SdsMessage.Content ++ ch.incoming_buffer).Perm
    ((fed.filter fun m => m.message_id ∉ f₀.ids).map .Content)
  sound : ∀ D ∈ Closures f₀ ms, ∀ id ∈ idsOf out, id ∈ D
  stuck : ∀ m, SdsMessage.Content m ∈ ch.incoming_buffer → ¬ Satisfied ch.bloom m

section Fed

variable {f₀ : IdSet enc} {ms fed out : List ContentMessage} {ch ch' : MessageChannel (IdSet enc)}

theorem Fed.mem_ids (h : Fed f₀ ms fed out ch) (x : MessageId) :
    x ∈ ch.bloom.ids ↔ x ∈ idsOf out ∨ x ∈ f₀.ids := by
  rw [← check_idSet, h.bloom, check_setAll_idSet, check_idSet]

theorem Fed.delivered_mem (h : Fed f₀ ms fed out ch) {m : ContentMessage} (hm : m ∈ out) :
    m ∈ fed ∧ m.message_id ∉ f₀.ids := by
  have hmem := h.parts.subset (List.mem_append_left _ (List.mem_map_of_mem hm))
  simp only [List.mem_map, List.mem_filter, decide_eq_true_eq] at hmem
  obtain ⟨m', hm', heq⟩ := hmem
  cases heq
  exact hm'

theorem Fed.waiting_mem (h : Fed f₀ ms fed out ch) {msg : SdsMessage}
    (hm : msg ∈ ch.incoming_buffer) :
    ∃ m, msg = .Content m ∧ m ∈ fed ∧ m.message_id ∉ f₀.ids := by
  have hmem := h.parts.subset (List.mem_append_right _ hm)
  simp only [List.mem_map, List.mem_filter, decide_eq_true_eq] at hmem
  obtain ⟨m', hm', heq⟩ := hmem
  exact ⟨m', heq.symm, hm'⟩

theorem Fed.waiting_length (h : Fed f₀ ms fed out ch) : ch.incoming_buffer.length ≤ fed.length := by
  have hlen := h.parts.length_eq
  have hfilter := List.length_filter_le (fun m => decide (m.message_id ∉ f₀.ids)) fed
  simp only [List.length_append, List.length_map] at hlen
  omega

/-- The ids of what came out and of what waits are the ids of what was fed,
each once. -/
theorem Fed.ids_perm (h : Fed f₀ ms fed out ch) :
    (idsOf out ++ waitingIds ch.incoming_buffer).Perm
      (idsOf (fed.filter fun m => m.message_id ∉ f₀.ids)) := by
  have hmap := h.parts.map SdsMessage.message_id
  rw [List.map_append, List.map_map, List.map_map] at hmap
  exact hmap

/-- One more message, with an id that is new among the ids so far. -/
theorem Fed.snoc {B : Build} {w : Wire} {raw : Bytes} {m : ContentMessage}
    {out' : List ContentMessage} (h : Fed f₀ ms fed out ch) (hm : m ∈ ms)
    (hfed : ∀ m' ∈ fed, m' ∈ ms) (hnew : m.message_id ∉ idsOf fed)
    (hroom : fed.length < INCOMING_BUFFER_MAX) (hraw : w.sds_from_slice raw = some (.Content m))
    (hstep : ch.receive B w raw = .ok (ch', out')) :
    Fed f₀ ms (fed ++ [m]) (out ++ out') ch' := by
  have hout : m.message_id ∉ idsOf out := by
    intro hmem
    obtain ⟨m', hm', heq⟩ := List.mem_map.mp hmem
    apply hnew
    rw [← heq]
    exact List.mem_map_of_mem (h.delivered_mem hm').1
  rcases receive_received hstep with ⟨rfl, rfl, hdrop⟩ | ⟨msg, hmsg, hcheck, hrec⟩
  · -- Dropped: the filter knew the id from the start.
    have hold : m.message_id ∈ f₀.ids := by
      have hknown := hdrop _ hraw
      rw [check_idSet, h.mem_ids] at hknown
      rcases hknown with hknown | hknown
      · exact absurd hknown hout
      · exact hknown
    rw [List.append_nil]
    refine ⟨h.bloom, ?_, h.sound, h.stuck⟩
    rw [List.filter_append, List.filter_singleton]
    simpa [hold] using h.parts
  · rw [hraw, Option.some.injEq] at hmsg
    subst hmsg
    have hfresh : m.message_id ∉ f₀.ids := by
      intro hold
      have hknown : check ch.bloom m.message_id = true := by
        rw [check_idSet, h.mem_ids]
        exact Or.inr hold
      rw [show SdsMessage.message_id (.Content m) = m.message_id from rfl, hknown] at hcheck
      cases hcheck
    have hfilter : ((fed ++ [m]).filter fun m => m.message_id ∉ f₀.ids) =
        (fed.filter fun m => m.message_id ∉ f₀.ids) ++ [m] := by
      simp [List.filter_append, hfresh]
    have hseen : ∀ D ∈ Closures f₀ ms, ∀ x ∈ ch.bloom.ids, x ∈ f₀.ids ∨ x ∈ D := by
      intro D hD x hx
      rcases (h.mem_ids x).mp hx with hx | hx
      · exact Or.inr (h.sound D hD x hx)
      · exact Or.inl hx
    have hwaiting : ∀ m', SdsMessage.Content m' ∈ ch.incoming_buffer →
        m' ∈ ms ∧ m'.message_id ∉ f₀.ids := by
      intro m' hm'
      obtain ⟨m'', heq, hmem, hid⟩ := h.waiting_mem hm'
      cases heq
      exact ⟨hfed _ hmem, hid⟩
    have hcontent := hrec.content
    have hroom' : ch.incoming_buffer.length < INCOMING_BUFFER_MAX :=
      lt_of_le_of_lt h.waiting_length hroom
    have hnow : ∀ D ∈ Closures f₀ ms, ∀ id ∈ idsOf out', id ∈ D := by
      intro D hD
      apply order_in_closure hD (hseen D hD) _ hcontent.order
      intro m' hm'
      have hmem := (hcontent.perm hroom').subset
        (List.mem_append_left _ (List.mem_map_of_mem hm'))
      rcases List.mem_append.mp hmem with hmem | hmem
      · exact hwaiting m' hmem
      · rw [List.mem_singleton, SdsMessage.Content.injEq] at hmem
        rw [hmem]
        exact ⟨hm, hfresh⟩
    refine ⟨?_, ?_, ?_, hcontent.stuck⟩
    · rw [idsOf_append, setAll_append, ← h.bloom]
      exact hcontent.bloom
    · rw [hfilter, List.map_append, List.map_append, List.append_assoc]
      have hleft := (hcontent.perm hroom').append_left (out.map SdsMessage.Content)
      rw [← List.append_assoc (out.map SdsMessage.Content) ch.incoming_buffer] at hleft
      exact hleft.trans (h.parts.append_right _)
    · intro D hD id hid
      rw [idsOf_append, List.mem_append] at hid
      rcases hid with hid | hid
      · exact h.sound D hD id hid
      · exact hnow D hD id hid

/-- Distinct messages, as many as the buffer holds, keep the invariant from
the first to the last. -/
theorem fed_run {B : Build} {w : Wire} {ch₀ : MessageChannel (IdSet enc)}
    (hempty : ch₀.incoming_buffer = []) {raws : List Bytes} (hfeeds : Feeds w raws fed)
    (hsub : ∀ m ∈ fed, m ∈ ms) (hdistinct : (idsOf fed).Nodup)
    (hroom : fed.length ≤ INCOMING_BUFFER_MAX)
    (hr : run (receive B w) ch₀ raws = .ok (ch, out)) : Fed ch₀.bloom ms fed out ch := by
  induction fed using List.reverseRecOn generalizing raws ch out with
  | nil =>
    have hraws : raws = [] := List.map_eq_nil_iff.mp hfeeds
    rw [hraws] at hr
    simp only [run, Except.ok.injEq, Prod.mk.injEq] at hr
    obtain ⟨rfl, rfl⟩ := hr
    exact ⟨rfl, by simp [hempty], by simp, by simp [hempty]⟩
  | append_singleton fed m ih =>
    obtain ⟨raws', raw, rfl, hfeeds', hraw⟩ := feeds_snoc hfeeds
    obtain ⟨ch₁, out₁, out₂, hr₁, hstep, rfl⟩ := run_snoc_cases hr
    rw [idsOf_append, List.nodup_append] at hdistinct
    obtain ⟨hdistinct', -, hdisj⟩ := hdistinct
    rw [List.length_append, List.length_singleton] at hroom
    have hsub' : ∀ m' ∈ fed, m' ∈ ms := by
      intro m' hm'
      exact hsub m' (List.mem_append_left _ hm')
    have hfed := ih hfeeds' hsub' hdistinct' (by omega) hr₁
    apply hfed.snoc (hsub m (by simp)) hsub' _ (by omega) hraw hstep
    intro hmem
    exact hdisj _ hmem m.message_id (by simp) rfl

end Fed

/-! ## Convergence -/

section Converge

variable {f₀ : IdSet enc} {ms out : List ContentMessage} {ch : MessageChannel (IdSet enc)}

/-- The delivered ids, as a set. -/
def deliveredIds (out : List ContentMessage) : Set MessageId := { id | id ∈ idsOf out }

theorem Fed.isLeast (h : Fed f₀ ms ms out ch) : IsLeast (Closures f₀ ms) (deliveredIds out) := by
  apply isLeast_closed h.sound
  rintro m ⟨hm, hfresh⟩ hout
  -- A message that did not come out waits, and what waits misses an id.
  have hwaits : SdsMessage.Content m ∈ ch.incoming_buffer := by
    have hmem : SdsMessage.Content m ∈
        (ms.filter fun m => m.message_id ∉ f₀.ids).map SdsMessage.Content := by
      apply List.mem_map_of_mem
      simp [hm, hfresh]
    rcases List.mem_append.mp (h.parts.symm.subset hmem) with hmem | hmem
    · obtain ⟨m', hm', heq⟩ := List.mem_map.mp hmem
      cases heq
      exact absurd (List.mem_map_of_mem hm') hout
    · exact hmem
  have hstuck := h.stuck m hwaits
  unfold Satisfied at hstuck
  push Not at hstuck
  obtain ⟨dep, hdep, hmiss⟩ := hstuck
  rw [ne_eq, check_idSet, h.mem_ids] at hmiss
  push Not at hmiss
  exact ⟨dep, hdep, hmiss.2, hmiss.1⟩

/-- What waits is what was fed and did not come out. -/
theorem Fed.mem_waiting (h : Fed f₀ ms ms out ch) (hdistinct : (idsOf ms).Nodup) (x : MessageId) :
    x ∈ waitingIds ch.incoming_buffer ↔
      x ∈ idsOf (ms.filter fun m => m.message_id ∉ f₀.ids) ∧ x ∉ idsOf out := by
  have hnodup : (idsOf (ms.filter fun m => m.message_id ∉ f₀.ids)).Nodup :=
    hdistinct.sublist (List.filter_sublist.map _)
  have hperm := h.ids_perm
  obtain ⟨-, -, hdisj⟩ := List.nodup_append.mp (hperm.nodup_iff.mpr hnodup)
  constructor
  · intro hx
    refine ⟨hperm.subset (List.mem_append_right _ hx), ?_⟩
    intro hout
    exact hdisj x hout x hx rfl
  · rintro ⟨hx, hout⟩
    rcases List.mem_append.mp (hperm.symm.subset hx) with hx | hx
    · exact absurd hx hout
    · exact hx

end Converge

/-- Two orders of the same messages end with the same delivered ids, the same
waiting ids and the same filter, and the delivered ids are the least closed
set. -/
theorem the_order_of_arrival_does_not_matter (dec : Bytes → Option (Finset MessageId)) (w : Wire)
    (ch : MessageChannel (IdSet enc)) (hempty : ch.incoming_buffer = [])
    (ms₁ ms₂ : List ContentMessage) (hperm : ms₁.Perm ms₂) (hdistinct : (idsOf ms₁).Nodup)
    (hroom : ms₁.length ≤ INCOMING_BUFFER_MAX) (raws₁ raws₂ : List Bytes)
    (h₁ : Feeds w raws₁ ms₁) (h₂ : Feeds w raws₂ ms₂) :
    ∃ r₁ r₂, run (receive (exactBlooms dec) w) ch raws₁ = .ok r₁ ∧
      run (receive (exactBlooms dec) w) ch raws₂ = .ok r₂ ∧
      deliveredIds r₁.2 = deliveredIds r₂.2 ∧
      (∀ x, x ∈ waitingIds r₁.1.incoming_buffer ↔ x ∈ waitingIds r₂.1.incoming_buffer) ∧
      r₁.1.bloom = r₂.1.bloom ∧
      IsLeast (Closures ch.bloom ms₁) (deliveredIds r₁.2) := by
  obtain ⟨⟨ch₁, out₁⟩, hr₁⟩ := run_total (receive_exact_returns dec w) ch raws₁
  obtain ⟨⟨ch₂, out₂⟩, hr₂⟩ := run_total (receive_exact_returns dec w) ch raws₂
  have hids : (idsOf ms₁).Perm (idsOf ms₂) := hperm.map _
  have hdistinct₂ : (idsOf ms₂).Nodup := hids.nodup_iff.mp hdistinct
  have hfed₁ := fed_run hempty h₁ (fun m hm => hm) hdistinct hroom hr₁
  have hfed₂ := fed_run hempty h₂ (fun m hm => hm) hdistinct₂ (hperm.length_eq ▸ hroom) hr₂
  have hleast₂ := hfed₂.isLeast
  rw [← Closures.congr hperm] at hleast₂
  have hsame : deliveredIds out₁ = deliveredIds out₂ := hfed₁.isLeast.unique hleast₂
  have hmem : ∀ x, x ∈ idsOf out₁ ↔ x ∈ idsOf out₂ := fun x => Set.ext_iff.mp hsame x
  refine ⟨_, _, hr₁, hr₂, hsame, ?_, ?_, hfed₁.isLeast⟩
  · intro x
    have hfilter : (idsOf (ms₁.filter fun m => m.message_id ∉ ch.bloom.ids)).Perm
        (idsOf (ms₂.filter fun m => m.message_id ∉ ch.bloom.ids)) := (hperm.filter _).map _
    rw [hfed₁.mem_waiting hdistinct, hfed₂.mem_waiting hdistinct₂, hmem, hfilter.mem_iff]
  · rw [IdSet.mk.injEq]
    ext x
    rw [hfed₁.mem_ids, hfed₂.mem_ids, hmem]

theorem Sample.wire_feeds (ms : List ContentMessage) (h : ms ⊆ [Sample.hello, Sample.world]) :
    Feeds Sample.wire (ms.map fun m => SdsMessage.to_vec (.Content m)) ms := by
  unfold Feeds
  rw [List.map_map]
  apply List.map_congr_left
  intro m hm
  have htable : SdsMessage.Content m ∈ [Sample.hello, Sample.world].map SdsMessage.Content :=
    List.mem_map_of_mem (h hm)
  exact Wire.ofTable_reads htable

theorem hello_and_world_converge :
    Feeds Sample.wire [SdsMessage.to_vec (.Content Sample.hello),
      SdsMessage.to_vec (.Content Sample.world)] [Sample.hello, Sample.world] ∧
    ∃ r₁ r₂, run Sample.receive Sample.bob [SdsMessage.to_vec (.Content Sample.hello),
        SdsMessage.to_vec (.Content Sample.world)] = .ok r₁ ∧
      run Sample.receive Sample.bob [SdsMessage.to_vec (.Content Sample.world),
        SdsMessage.to_vec (.Content Sample.hello)] = .ok r₂ ∧
      deliveredIds r₁.2 = deliveredIds r₂.2 ∧
      (∀ x, x ∈ waitingIds r₁.1.incoming_buffer ↔ x ∈ waitingIds r₂.1.incoming_buffer) ∧
      r₁.1.bloom = r₂.1.bloom ∧
      IsLeast (Closures Sample.bob.bloom [Sample.hello, Sample.world]) (deliveredIds r₁.2) :=
  ⟨Sample.wire_feeds [Sample.hello, Sample.world] (by simp),
    the_order_of_arrival_does_not_matter _ _ Sample.bob rfl [Sample.hello, Sample.world]
      [Sample.world, Sample.hello] (List.Perm.swap _ _ _) (by decide +kernel) (by decide) _ _
      (Sample.wire_feeds [Sample.hello, Sample.world] (by simp))
      (Sample.wire_feeds [Sample.world, Sample.hello] (by simp))⟩

end lmao.sds
