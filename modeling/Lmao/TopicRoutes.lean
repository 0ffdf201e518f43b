-- A map from topics to the senders of channels, as the transports keep one: a
-- message goes to the sender that its topic has at that time, and is lost where
-- there is none or where the channel is full.
import Mathlib.Logic.Function.Basic
import Lmao.MemoryTransport

namespace lmao.transport

/-! ## The map -/

/-- A receiver that was handed out, and what came out of it so far. -/
structure Receiver (M : Mpsc) where
  chan : M.Chan
  received : List Bytes
  dropped : Bool

/-- `HashMap<String, mpsc::Sender<Vec<u8>>>`, with the receivers of its channels.
A sender is the number of its receiver. -/
structure Routes (M : Mpsc) where
  senders : String → Option Nat
  receivers : List (Receiver M)

/-- What can happen to the map and to the receivers. -/
inductive Route
  | insert (topic : String)
  | remove (topic : String)
  | forward (topic : String) (payload : Bytes)
  | recv (k : Nat)
  | drop (k : Nat)
deriving DecidableEq, Repr

variable {M : Mpsc}

namespace Receiver

def try_send (payload : Bytes) (r : Receiver M) : Receiver M :=
  { r with chan := (M.try_send r.chan payload).1 }

/-- A dropped receiver is gone. -/
def recv (r : Receiver M) : Receiver M :=
  if r.dropped then r
  else { r with chan := (M.recv r.chan).1, received := r.received ++ (M.recv r.chan).2.toList }

def drop (r : Receiver M) : Receiver M := { r with chan := M.close r.chan, dropped := true }

/-- What was taken, and what waits for a receiver that is still there. -/
def taken (view : M.Chan → Channel) (r : Receiver M) : List Bytes :=
  if r.dropped then r.received else r.received ++ (view r.chan).waiting

end Receiver

namespace Routes

def new : Routes M := { senders := fun _ => none, receivers := [] }

/-- The new sender takes the place of the old one. -/
def insert (capacity : Nat) (topic : String) (t : Routes M) : Routes M :=
  { senders := Function.update t.senders topic (some t.receivers.length)
    receivers := t.receivers ++
      [{ chan := M.channel capacity, received := [], dropped := false }] }

def remove (topic : String) (t : Routes M) : Routes M :=
  { t with senders := Function.update t.senders topic none }

/-- The error of the send is ignored. -/
def forward (topic : String) (payload : Bytes) (t : Routes M) : Routes M :=
  match t.senders topic with
  | none => t
  | some k => { t with receivers := t.receivers.modify k (Receiver.try_send payload) }

def apply (capacity : Nat) (t : Routes M) : Route → Routes M
  | .insert topic => t.insert capacity topic
  | .remove topic => t.remove topic
  | .forward topic payload => t.forward topic payload
  | .recv k => { t with receivers := t.receivers.modify k Receiver.recv }
  | .drop k => { t with receivers := t.receivers.modify k Receiver.drop }

def replay (capacity : Nat) (t : Routes M) (rs : List Route) : Routes M :=
  rs.foldl (apply capacity) t

end Routes

/-! ## What a receiver is offered -/

namespace Route

/-- The topic gets another sender or none. -/
def Ends (topic : String) (r : Route) : Prop := r = .insert topic ∨ r = .remove topic

instance (topic : String) (r : Route) : Decidable (r.Ends topic) :=
  inferInstanceAs (Decidable (_ ∨ _))

def payload_on (topic : String) : Route → Option Bytes
  | .forward t payload => if t = topic then some payload else none
  | _ => none

/-- The messages of the topic until it gets another sender or none. -/
def offered (topic : String) : List Route → List Bytes
  | [] => []
  | r :: rs =>
    if r.Ends topic then [] else (r.payload_on topic).toList ++ offered topic rs

theorem Ends.payload_on {topic : String} {r : Route} (h : r.Ends topic) :
    r.payload_on topic = none := by
  rcases h with rfl | rfl <;> rfl

/-- After the topic lost its sender, nothing more is offered. -/
theorem offered_snoc (topic : String) (rs : List Route) (r : Route) :
    offered topic (rs ++ [r]) =
      if ∃ r' ∈ rs, r'.Ends topic then offered topic rs
      else offered topic rs ++ (r.payload_on topic).toList := by
  induction rs with
  | nil =>
    by_cases hr : r.Ends topic
    · simp [offered, hr, hr.payload_on]
    · simp [offered, hr]
  | cons r' rs ih =>
    by_cases hr' : r'.Ends topic
    · simp [offered, hr']
    · have hcons : (∃ q ∈ r' :: rs, q.Ends topic) ↔ ∃ q ∈ rs, q.Ends topic := by simp [hr']
      simp only [List.cons_append, offered, if_neg hr', ih, hcons]
      split
      · rfl
      · rw [List.append_assoc]

theorem offered_sublist (topic : String) (rs : List Route) :
    (offered topic rs).Sublist (rs.filterMap (payload_on topic)) := by
  induction rs with
  | nil => exact .slnil
  | cons r rs ih =>
    rw [offered]
    split
    · exact List.nil_sublist _
    · rw [List.filterMap_cons]
      cases r.payload_on topic with
      | none => exact ih
      | some payload => exact ih.cons_cons payload

theorem offered_of_no_end {topic : String} {rs : List Route} (h : ∀ r ∈ rs, ¬ r.Ends topic) :
    offered topic rs = rs.filterMap (payload_on topic) := by
  induction rs with
  | nil => rfl
  | cons r rs ih =>
    obtain ⟨hr, hrs⟩ := List.forall_mem_cons.mp h
    rw [offered, if_neg hr, ih hrs, List.filterMap_cons]
    cases r.payload_on topic <;> rfl

/-- The sender `k` is the one of the topic until a step gives the topic another or
none. -/
def Registered (senders : String → Option Nat) (k : Nat) (topic : String) (rs : List Route) :
    Prop :=
  ∀ topic', senders topic' = some k ↔ topic' = topic ∧ ¬ ∃ r ∈ rs, r.Ends topic

variable {senders : String → Option Nat} {k : Nat} {topic : String} {rs : List Route} {r : Route}

theorem Registered.start (hnew : ∀ topic', senders topic' ≠ some k) (topic : String) :
    Registered (Function.update senders topic (some k)) k topic [] := by
  intro topic'
  by_cases htopic : topic' = topic
  · simp [htopic]
  · simp [htopic, hnew]

theorem Registered.keep (h : Registered senders k topic rs) (hends : ¬ r.Ends topic) :
    Registered senders k topic (rs ++ [r]) := by
  intro topic'
  rw [h topic']
  simp [List.mem_append, or_and_right, exists_or, hends]

/-- A step that gives a topic another sender or none. -/
theorem Registered.update (h : Registered senders k topic rs) {topic₂ : String} {j : Option Nat}
    (hj : j ≠ some k) (hends : r.Ends topic ↔ topic₂ = topic) :
    Registered (Function.update senders topic₂ j) k topic (rs ++ [r]) := by
  intro topic'
  have hsnoc : (∃ q ∈ rs ++ [r], q.Ends topic) ↔ (∃ q ∈ rs, q.Ends topic) ∨ topic₂ = topic := by
    simp [List.mem_append, or_and_right, exists_or, hends]
  rw [Function.update_apply, hsnoc]
  split
  · next heq =>
    refine ⟨fun hk => absurd hk hj, ?_⟩
    rintro ⟨rfl, hnone⟩
    exact absurd (.inr heq.symm) hnone
  · next hne =>
    rw [h topic']
    apply and_congr_right
    rintro rfl
    simp [Ne.symm hne]

theorem Registered.insert (h : Registered senders k topic rs) {topic₂ : String} {j : Nat}
    (hj : j ≠ k) :
    Registered (Function.update senders topic₂ (some j)) k topic (rs ++ [.insert topic₂]) :=
  h.update (fun heq => hj (Option.some.inj heq)) (by simp [Ends])

theorem Registered.remove (h : Registered senders k topic rs) (topic₂ : String) :
    Registered (Function.update senders topic₂ none) k topic (rs ++ [.remove topic₂]) :=
  h.update (fun heq => nomatch heq) (by simp [Ends])

theorem Registered.forward (h : Registered senders k topic rs) (topic₂ : String)
    (payload : Bytes) : Registered senders k topic (rs ++ [.forward topic₂ payload]) :=
  h.keep (by simp [Ends])

/-- Nothing is offered by a step that has no message for the registered sender. -/
theorem Registered.offered_of_none (h : Registered senders k topic rs)
    (hnone : senders topic = some k → r.payload_on topic = none) :
    offered topic (rs ++ [r]) = offered topic rs := by
  rw [offered_snoc]
  split
  · rfl
  · next hlive =>
    rw [hnone ((h topic).mpr ⟨rfl, hlive⟩), Option.toList_none, List.append_nil]

theorem Registered.offered_other (h : Registered senders k topic rs) {topic₂ : String}
    (payload : Bytes) (hother : senders topic₂ ≠ some k) :
    offered topic (rs ++ [.forward topic₂ payload]) = offered topic rs := by
  apply h.offered_of_none
  intro hk
  have hne : topic₂ ≠ topic := fun heq => hother (heq ▸ hk)
  simp [payload_on, hne]

theorem Registered.offered_own (h : Registered senders k topic rs) (payload : Bytes)
    (hown : senders topic = some k) :
    offered topic (rs ++ [.forward topic payload]) = offered topic rs ++ [payload] := by
  have hlive : ¬ ∃ q ∈ rs, q.Ends topic := ((h topic).mp hown).2
  simp [offered_snoc, hlive, payload_on]

end Route

namespace Routes

/-- When the message is for this receiver, its channel takes it. -/
def HasRoom (view : M.Chan → Channel) (k : Nat) (t : Routes M) : Route → Prop
  | .forward topic _ =>
    t.senders topic = some k → ∀ r ∈ t.receivers[k]?,
      r.dropped = false ∧ (view r.chan).waiting.length < (view r.chan).capacity
  | _ => True

/-- The channel of the receiver takes all that is for it. -/
def AllFit (view : M.Chan → Channel) (capacity k : Nat) : Routes M → List Route → Prop
  | _, [] => True
  | t, r :: rs => t.HasRoom view k r ∧ AllFit view capacity k (t.apply capacity r) rs

instance (view : M.Chan → Channel) (k : Nat) (t : Routes M) (r : Route) :
    Decidable (t.HasRoom view k r) :=
  match r with
  | .forward topic _ => inferInstanceAs (Decidable (t.senders topic = some k →
      ∀ r ∈ t.receivers[k]?, r.dropped = false ∧
        (view r.chan).waiting.length < (view r.chan).capacity))
  | .insert _ => instDecidableTrue
  | .remove _ => instDecidableTrue
  | .recv _ => instDecidableTrue
  | .drop _ => instDecidableTrue

theorem replay_snoc (capacity : Nat) (t : Routes M) (rs : List Route) (r : Route) :
    t.replay capacity (rs ++ [r]) = (t.replay capacity rs).apply capacity r := by
  rw [replay, List.foldl_append]
  rfl

theorem replay_append (capacity : Nat) (t : Routes M) (rs rs' : List Route) :
    t.replay capacity (rs ++ rs') = (t.replay capacity rs).replay capacity rs' :=
  List.foldl_append

theorem allFit_snoc (view : M.Chan → Channel) (capacity k : Nat) (t : Routes M) (rs : List Route)
    (r : Route) : AllFit view capacity k t (rs ++ [r]) ↔
      AllFit view capacity k t rs ∧ (t.replay capacity rs).HasRoom view k r := by
  induction rs generalizing t with
  | nil => simp [AllFit, replay]
  | cons r' rs ih => simp only [List.cons_append, AllFit, ih, replay, List.foldl_cons, and_assoc]

end Routes

/-! ## One receiver -/

variable {view : M.Chan → Channel}

namespace Receiver

/-- An open channel of the capacity, as long as the receiver is there. -/
structure Sound (view : M.Chan → Channel) (capacity : Nat) (r : Receiver M) : Prop where
  is_open : r.dropped = false → (view r.chan).closed = false
  capacity : r.dropped = false → (view r.chan).capacity = capacity

theorem Sound.new (hM : M.Documented view) {capacity : Nat} (hpos : 0 < capacity) :
    Sound view capacity ({ chan := M.channel capacity, received := [], dropped := false } :
      Receiver M) := by
  apply Sound.mk <;> intro <;> rw [hM.channel capacity hpos]

theorem taken_new (hM : M.Documented view) {capacity : Nat} (hpos : 0 < capacity) :
    ({ chan := M.channel capacity, received := [], dropped := false } : Receiver M).taken view =
      [] := by
  simp [taken, hM.channel capacity hpos]

/-- What waits first comes out next. -/
theorem taken_recv (hM : M.Documented view) (r : Receiver M) :
    r.recv.taken view = r.taken view := by
  by_cases hdropped : r.dropped = true
  · rw [recv, if_pos hdropped]
  · have hthere : r.dropped = false := by simpa using hdropped
    simp only [recv, if_neg hdropped, taken, hM.recv_view, hM.recv_head, List.append_assoc]
    cases (view r.chan).waiting with
    | nil => rfl
    | cons msg rest => rfl

theorem Sound.recv (hM : M.Documented view) {capacity : Nat} {r : Receiver M}
    (h : r.Sound view capacity) : r.recv.Sound view capacity := by
  by_cases hdropped : r.dropped = true
  · rwa [Receiver.recv, if_pos hdropped]
  · rw [Receiver.recv, if_neg hdropped]
    refine ⟨fun hthere => ?_, fun hthere => ?_⟩
    · simpa [hM.recv_view] using h.is_open hthere
    · simpa [hM.recv_view] using h.capacity hthere

theorem recv_dropped (r : Receiver M) : r.recv.dropped = r.dropped := by
  rw [recv]
  split <;> rfl

theorem Sound.drop {capacity : Nat} (r : Receiver M) : r.drop.Sound view capacity :=
  ⟨fun h => Bool.noConfusion h, fun h => Bool.noConfusion h⟩

theorem taken_drop (r : Receiver M) : r.drop.taken view = r.received := rfl

theorem received_prefix_taken (r : Receiver M) : r.received <+: r.taken view := by
  rw [taken]
  split
  · exact List.prefix_refl _
  · exact List.prefix_append _ _

/-- A channel with room takes the message. -/
theorem taken_try_send (hM : M.Documented view) {capacity : Nat} {r : Receiver M}
    (h : r.Sound view capacity) (hthere : r.dropped = false)
    (hroom : (view r.chan).waiting.length < (view r.chan).capacity) (payload : Bytes) :
    (r.try_send payload).taken view = r.taken view ++ [payload] := by
  obtain ⟨hview, -⟩ := hM.sent (h.is_open hthere) hroom payload
  simp [taken, try_send, hthere, hview]

/-- No other channel takes it. -/
theorem taken_try_send_full (hM : M.Documented view) {r : Receiver M}
    (hfull : r.dropped = true ∨ (view r.chan).capacity ≤ (view r.chan).waiting.length)
    (payload : Bytes) : (r.try_send payload).taken view = r.taken view := by
  rcases hfull with hdropped | hfull
  · simp [taken, try_send, hdropped]
  · obtain ⟨hview, -⟩ := hM.not_sent hfull payload
    simp [taken, try_send, hview]

theorem Sound.try_send (hM : M.Documented view) {capacity : Nat} {r : Receiver M}
    (h : r.Sound view capacity) (payload : Bytes) : (r.try_send payload).Sound view capacity := by
  have hkeeps : r.dropped = false →
      (view (M.try_send r.chan payload).1).closed = false ∧
        (view (M.try_send r.chan payload).1).capacity = (view r.chan).capacity := by
    intro hthere
    by_cases hroom : (view r.chan).waiting.length < (view r.chan).capacity
    · obtain ⟨hview, -⟩ := hM.sent (h.is_open hthere) hroom payload
      rw [hview]
      exact ⟨h.is_open hthere, rfl⟩
    · obtain ⟨hview, -⟩ := hM.not_sent (Nat.le_of_not_lt hroom) payload
      rw [hview]
      exact ⟨h.is_open hthere, rfl⟩
  apply Sound.mk
  · intro hthere
    exact (hkeeps hthere).1
  · intro hthere
    exact (hkeeps hthere).2.trans (h.capacity hthere)

end Receiver

/-! ## The receiver of a subscription -/

namespace Routes

/-- Each sender has a receiver. -/
def Valid (t : Routes M) : Prop := ∀ topic k, t.senders topic = some k → k < t.receivers.length

theorem Valid.new : (new : Routes M).Valid := fun _ _ h => nomatch h

/-- The steps that leave the map and the number of receivers alone. -/
theorem Valid.of_senders {t t' : Routes M} (h : t.Valid) (hsenders : t'.senders = t.senders)
    (hlength : t'.receivers.length = t.receivers.length) : t'.Valid := by
  intro topic k hk
  rw [hsenders] at hk
  rw [hlength]
  exact h topic k hk

theorem forward_senders (topic : String) (payload : Bytes) (t : Routes M) :
    (t.forward topic payload).senders = t.senders := by
  rw [forward]
  split <;> rfl

theorem forward_length (topic : String) (payload : Bytes) (t : Routes M) :
    (t.forward topic payload).receivers.length = t.receivers.length := by
  rw [forward]
  split
  · rfl
  · exact List.length_modify _ _ _

theorem Valid.apply {t : Routes M} (h : t.Valid) (capacity : Nat) (r : Route) :
    (t.apply capacity r).Valid := by
  cases r with
  | insert topic =>
    intro topic' k hk
    simp only [Routes.apply, insert, Function.update_apply] at hk
    simp only [Routes.apply, insert, List.length_append, List.length_singleton]
    split at hk
    · obtain rfl := Option.some.inj hk
      omega
    · have hlt := h topic' k hk
      omega
  | remove topic =>
    intro topic' k hk
    simp only [Routes.apply, remove, Function.update_apply] at hk
    split at hk
    · cases hk
    · exact h topic' k hk
  | forward topic payload =>
    exact h.of_senders (forward_senders topic payload t) (forward_length topic payload t)
  | recv k => exact h.of_senders rfl (List.length_modify _ _ _)
  | drop k => exact h.of_senders rfl (List.length_modify _ _ _)

theorem Valid.replay {t : Routes M} (h : t.Valid) (capacity : Nat) (rs : List Route) :
    (t.replay capacity rs).Valid := by
  induction rs generalizing t with
  | nil => exact h
  | cons r rs ih => exact ih (h.apply capacity r)

/-- The receiver `k` was handed out for the topic, and then the steps came. It
has the sender of the topic until one of the steps gave that away, and what it
took is among what it was offered. -/
structure Serves (view : M.Chan → Channel) (capacity k : Nat) (topic : String) (t₁ : Routes M)
    (rs : List Route) (r : Receiver M) : Prop where
  handed_out : (t₁.replay capacity rs).receivers[k]? = some r
  registered : Route.Registered (t₁.replay capacity rs).senders k topic rs
  sound : r.Sound view capacity
  sublist : (r.taken view).Sublist (Route.offered topic rs)
  complete : r.dropped = false →
    (r.taken view = Route.offered topic rs ↔ AllFit view capacity k t₁ rs)

variable {capacity k : Nat} {topic : String} {t₁ : Routes M} {rs : List Route} {r : Receiver M}

theorem Serves.start (hM : M.Documented view) {t : Routes M} (hvalid : t.Valid)
    (hpos : 0 < capacity) :
    Serves view capacity t.receivers.length topic (t.insert capacity topic) []
      { chan := M.channel capacity, received := [], dropped := false } where
  handed_out := by simp [replay, insert]
  registered := Route.Registered.start (fun topic' hk => Nat.lt_irrefl _ (hvalid topic' _ hk)) topic
  sound := .new hM hpos
  sublist := by simp [Receiver.taken_new hM hpos]
  complete _ := by simp [Receiver.taken_new hM hpos, Route.offered, AllFit]

/-- A step that offers nothing to the receiver. -/
theorem Serves.pass (h : Serves view capacity k topic t₁ rs r) {r' : Route} {r₂ : Receiver M}
    (hoffer : Route.offered topic (rs ++ [r']) = Route.offered topic rs)
    (hroom : (t₁.replay capacity rs).HasRoom view k r')
    (hget : ((t₁.replay capacity rs).apply capacity r').receivers[k]? = some r₂)
    (hregistered : Route.Registered ((t₁.replay capacity rs).apply capacity r').senders k topic
      (rs ++ [r']))
    (hsound : r₂.Sound view capacity) (hsublist : (r₂.taken view).Sublist (r.taken view))
    (hthere : r₂.dropped = false → r.dropped = false ∧ r₂.taken view = r.taken view) :
    Serves view capacity k topic t₁ (rs ++ [r']) r₂ where
  handed_out := by rw [replay_snoc, hget]
  registered := by
    rw [replay_snoc]
    exact hregistered
  sound := hsound
  sublist := hoffer ▸ hsublist.trans h.sublist
  complete hdropped := by
    obtain ⟨hthere, htaken⟩ := hthere hdropped
    rw [hoffer, htaken, h.complete hthere, allFit_snoc]
    exact ⟨fun hfit => ⟨hfit, hroom⟩, And.left⟩

theorem Serves.lt_length (h : Serves view capacity k topic t₁ rs r) :
    k < (t₁.replay capacity rs).receivers.length :=
  (List.getElem?_eq_some_iff.mp h.handed_out).1

theorem Serves.insert (h : Serves view capacity k topic t₁ rs r) (topic₂ : String) :
    Serves view capacity k topic t₁ (rs ++ [.insert topic₂]) r := by
  have hlt := h.lt_length
  refine h.pass (h.registered.offered_of_none fun _ => rfl) trivial ?_
    (h.registered.insert (Nat.ne_of_gt hlt)) h.sound (List.Sublist.refl _)
    fun hthere => ⟨hthere, rfl⟩
  rw [apply, Routes.insert, List.getElem?_append_left hlt]
  exact h.handed_out

theorem Serves.remove (h : Serves view capacity k topic t₁ rs r) (topic₂ : String) :
    Serves view capacity k topic t₁ (rs ++ [.remove topic₂]) r :=
  h.pass (h.registered.offered_of_none fun _ => rfl) trivial h.handed_out
    (h.registered.remove topic₂) h.sound (List.Sublist.refl _) fun hthere => ⟨hthere, rfl⟩

/-- A step of one of the receivers. -/
theorem Serves.modify (h : Serves view capacity k topic t₁ rs r) {r' : Route} {j : Nat}
    {f : Receiver M → Receiver M}
    (happly : (t₁.replay capacity rs).apply capacity r' =
      { t₁.replay capacity rs with receivers := (t₁.replay capacity rs).receivers.modify j f })
    (hends : ¬ r'.Ends topic) (hroom : (t₁.replay capacity rs).HasRoom view k r')
    (hoffer : r'.payload_on topic = none) (hsound : (f r).Sound view capacity)
    (hsublist : ((f r).taken view).Sublist (r.taken view))
    (hthere : (f r).dropped = false → r.dropped = false ∧ (f r).taken view = r.taken view) :
    ∃ r₂, Serves view capacity k topic t₁ (rs ++ [r']) r₂ := by
  have hsame := h.registered.keep hends
  by_cases hj : j = k
  · refine ⟨f r, h.pass (h.registered.offered_of_none fun _ => hoffer) hroom ?_ ?_ hsound hsublist
      hthere⟩
    · rw [happly, hj, List.getElem?_modify_eq, h.handed_out]
      rfl
    · rw [happly]
      exact hsame
  · refine ⟨r, h.pass (h.registered.offered_of_none fun _ => hoffer) hroom ?_ ?_ h.sound
      (List.Sublist.refl _) fun hthere => ⟨hthere, rfl⟩⟩
    · rw [happly, List.getElem?_modify_ne _ _ hj]
      exact h.handed_out
    · rw [happly]
      exact hsame

/-- A message that is not for the receiver. -/
theorem Serves.forward_other (h : Serves view capacity k topic t₁ rs r) {topic₂ : String}
    (payload : Bytes) (hother : (t₁.replay capacity rs).senders topic₂ ≠ some k) :
    Serves view capacity k topic t₁ (rs ++ [.forward topic₂ payload]) r := by
  refine h.pass (h.registered.offered_other payload hother) (fun hk => absurd hk hother) ?_ ?_
    h.sound (List.Sublist.refl _) fun hthere => ⟨hthere, rfl⟩
  · rw [apply, forward]
    split
    · exact h.handed_out
    · next j hj =>
      have hne : j ≠ k := fun heq => hother (heq ▸ hj)
      rw [List.getElem?_modify_ne _ _ hne]
      exact h.handed_out
  · rw [apply, forward_senders]
    exact h.registered.forward topic₂ payload

/-- A message for the receiver. Its channel takes it or not. -/
theorem Serves.forward_own (hM : M.Documented view) (h : Serves view capacity k topic t₁ rs r)
    (payload : Bytes) (hown : (t₁.replay capacity rs).senders topic = some k) :
    Serves view capacity k topic t₁ (rs ++ [.forward topic payload]) (r.try_send payload) := by
  have hoffer := h.registered.offered_own payload hown
  have hget : ((t₁.replay capacity rs).apply capacity (.forward topic payload)).receivers[k]? =
      some (r.try_send payload) := by
    rw [apply, forward, hown]
    simp [h.handed_out]
  have hsame := h.registered.forward topic payload
  have hroom_iff : (t₁.replay capacity rs).HasRoom view k (.forward topic payload) ↔
      r.dropped = false ∧ (view r.chan).waiting.length < (view r.chan).capacity := by
    simp [HasRoom, hown, h.handed_out]
  by_cases hroom : r.dropped = false ∧ (view r.chan).waiting.length < (view r.chan).capacity
  · have htaken := Receiver.taken_try_send hM h.sound hroom.1 hroom.2 payload
    refine ⟨by rw [replay_snoc, hget], ?_, h.sound.try_send hM payload, ?_, fun hthere => ?_⟩
    · rw [replay_snoc, apply, forward_senders]
      exact hsame
    · rw [htaken, hoffer]
      exact h.sublist.append_right [payload]
    · rw [htaken, hoffer, allFit_snoc, hroom_iff, List.append_left_inj, h.complete hthere]
      exact ⟨fun hfit => ⟨hfit, hroom⟩, And.left⟩
  · have hfull : r.dropped = true ∨ (view r.chan).capacity ≤ (view r.chan).waiting.length := by
      rcases Bool.eq_false_or_eq_true r.dropped with hdropped | hthere
      · exact .inl hdropped
      · exact .inr (Nat.le_of_not_lt fun hlt => hroom ⟨hthere, hlt⟩)
    have htaken := Receiver.taken_try_send_full hM hfull payload
    refine ⟨by rw [replay_snoc, hget], ?_, h.sound.try_send hM payload, ?_, fun hthere => ?_⟩
    · rw [replay_snoc, apply, forward_senders]
      exact hsame
    · rw [htaken, hoffer]
      exact h.sublist.trans (List.sublist_append_left _ _)
    · -- what was offered is now longer than what was taken
      have hshort : r.taken view ≠ Route.offered topic rs ++ [payload] := by
        intro heq
        have hle := h.sublist.length_le
        rw [heq, List.length_append, List.length_singleton] at hle
        omega
      rw [htaken, hoffer, allFit_snoc, hroom_iff]
      exact ⟨fun heq => absurd heq hshort, fun hfit => absurd hfit.2 hroom⟩

theorem Serves.step (hM : M.Documented view) (h : Serves view capacity k topic t₁ rs r)
    (r' : Route) : ∃ r₂, Serves view capacity k topic t₁ (rs ++ [r']) r₂ := by
  cases r' with
  | insert topic₂ => exact ⟨r, h.insert topic₂⟩
  | remove topic₂ => exact ⟨r, h.remove topic₂⟩
  | forward topic₂ payload =>
    by_cases hown : (t₁.replay capacity rs).senders topic₂ = some k
    · obtain ⟨rfl, -⟩ := (h.registered topic₂).mp hown
      exact ⟨_, h.forward_own hM payload hown⟩
    · exact ⟨r, h.forward_other payload hown⟩
  | recv j =>
    have hsublist : (r.recv.taken view).Sublist (r.taken view) := by
      rw [Receiver.taken_recv hM]
    have hends : ¬ (Route.recv j).Ends topic := by simp [Route.Ends]
    have hroom : (t₁.replay capacity rs).HasRoom view k (.recv j) := trivial
    apply h.modify rfl hends hroom rfl (h.sound.recv hM) hsublist
    intro hthere
    exact ⟨r.recv_dropped ▸ hthere, Receiver.taken_recv hM r⟩
  | drop j =>
    have hsublist : (r.drop.taken view).Sublist (r.taken view) := by
      rw [Receiver.taken_drop]
      exact (Receiver.received_prefix_taken r).sublist
    have hends : ¬ (Route.drop j).Ends topic := by simp [Route.Ends]
    have hroom : (t₁.replay capacity rs).HasRoom view k (.drop j) := trivial
    apply h.modify rfl hends hroom rfl (.drop r) hsublist
    intro hthere
    cases hthere

/-- Whatever happens after the subscription, the receiver has a part of what it
was offered, in order. It has all of it when its channel took each message. -/
theorem serves (hM : M.Documented view) {t : Routes M} (hvalid : t.Valid) (hpos : 0 < capacity)
    (topic : String) (rs : List Route) :
    ∃ r, Serves view capacity t.receivers.length topic (t.insert capacity topic) rs r := by
  induction rs using List.reverseRecOn with
  | nil => exact ⟨_, .start hM hvalid hpos⟩
  | append_singleton rs r' ih =>
    obtain ⟨r, hr⟩ := ih
    exact hr.step hM r'

end Routes

end lmao.transport
