-- The transport over the IPC of Logos Core (logos_core_transport.rs and logos_core.rs of
-- the transport crate): events go into an unbounded channel, a task sorts them by their
-- topic into unbounded channels, and a task for each receiver feeds its bounded one.
import Lmao.DeliveryModule
import Lmao.HandBuiltJson

namespace lmao.transport.logos_core

open delivery_module (Serde)
open machine
open sds (TransportError)
open storage (as_str)

/-! ## Unbounded channels -/

/-- The library of unbounded channels. `recv` gives the message that it returns at
once, if there is one. -/
structure UnboundedMpsc where
  Chan : Type → Type
  unbounded_channel : {α : Type} → Chan α
  send : {α : Type} → Chan α → α → Chan α
  recv : {α : Type} → Chan α → Chan α × Option α

namespace UnboundedMpsc

/-- The channels are queues, as they are documented. -/
structure Documented (U : UnboundedMpsc) (items : {α : Type} → U.Chan α → List α) : Prop where
  unbounded_channel : ∀ {α : Type}, items (U.unbounded_channel : U.Chan α) = []
  send : ∀ {α : Type} (c : U.Chan α) (a : α), items (U.send c a) = items c ++ [a]
  recv : ∀ {α : Type} (c : U.Chan α), (items (U.recv c).1, (U.recv c).2) =
    ((items c).tail, (items c).head?)

theorem Documented.recv_items {U : UnboundedMpsc} {items : {α : Type} → U.Chan α → List α}
    (hU : U.Documented items) {α : Type} (c : U.Chan α) : items (U.recv c).1 = (items c).tail :=
  congrArg Prod.fst (hU.recv c)

theorem Documented.recv_head {U : UnboundedMpsc} {items : {α : Type} → U.Chan α → List α}
    (hU : U.Documented items) {α : Type} (c : U.Chan α) : (U.recv c).2 = (items c).head? :=
  congrArg Prod.snd (hU.recv c)

/-- The lists themselves. -/
def lists : UnboundedMpsc where
  Chan := List
  unbounded_channel := []
  send c a := c ++ [a]
  recv c := (c.tail, c.head?)

theorem lists_documented : lists.Documented fun c => c :=
  ⟨rfl, fun _ _ => rfl, fun _ => rfl⟩

end UnboundedMpsc

/-! ## The transport -/

variable {M : Mpsc} {U : UnboundedMpsc}

/-- A subscription: the task between its two channels, and the receiver that was
handed out. `sender` tells whether the map still has its sender, and `holding` is
the message whose send the task awaits. -/
structure Subscriber (M : Mpsc) (U : UnboundedMpsc) where
  sender : Bool
  rx_unbounded : U.Chan Bytes
  holding : Option Bytes
  running : Bool
  brx : M.Chan
  received : List Bytes
  dropped : Bool

/-- A sender in the map is the number of its subscription. -/
structure LogosCoreDeliveryTransport (M : Mpsc) (U : UnboundedMpsc) where
  event_rx : U.Chan String
  subscriptions : String → Option Nat
  subscribers : List (Subscriber M U)

inductive CoreOp
  | event (message : String)
  | listen
  | subscribe (topic : String) (answer : Except String String)
  | unsubscribe (topic : String) (answer : Except String String)
  | take (k : Nat)
  | push (k : Nat)
  | recv (k : Nat)
  | drop (k : Nat)

inductive CoreOutput
  | listened (event_json : String)
  | subscribed (topic : String) (result : Except TransportError Nat)
  | unsubscribed (topic : String) (result : Except TransportError Unit)

namespace Subscriber

def new : Subscriber M U where
  sender := true
  rx_unbounded := U.unbounded_channel
  holding := none
  running := true
  brx := M.channel 256
  received := []
  dropped := false

/-- With the task the receiver of the unbounded channel is gone. -/
def send (payload : Bytes) (s : Subscriber M U) : Subscriber M U :=
  if s.running then { s with rx_unbounded := U.send s.rx_unbounded payload } else s

/-- `rx_unbounded.recv().await`: the task waits as long as there is a sender. -/
def take (s : Subscriber M U) : Subscriber M U :=
  if s.running && s.holding.isNone then
    match U.recv s.rx_unbounded with
    | (rx_unbounded, some msg) => { s with rx_unbounded, holding := some msg }
    | (_, none) => if s.sender then s else { s with running := false }
  else s

/-- `btx.send(msg).await`: the task waits for room, and ends without a receiver. -/
def push (s : Subscriber M U) : Subscriber M U :=
  match s.running, s.holding with
  | true, some msg =>
    if s.dropped then { s with running := false, holding := none }
    else
      match M.try_send s.brx msg with
      | (brx, true) => { s with brx, holding := none }
      | (_, false) => s
  | _, _ => s

def recv (s : Subscriber M U) : Subscriber M U :=
  if s.dropped then s
  else { s with brx := (M.recv s.brx).1, received := s.received ++ (M.recv s.brx).2.toList }

def drop (s : Subscriber M U) : Subscriber M U := { s with brx := M.close s.brx, dropped := true }

/-- The sender leaves the map. -/
def release (s : Subscriber M U) : Subscriber M U := { s with sender := false }

end Subscriber

/-- The topic and the payload of an event. -/
def read_event (S : Serde) (event_json : String) : Option (String × Bytes) :=
  match S.from_str event_json with
  | .error _ => none
  | .ok val =>
    let topic := ((val.get "contentTopic").bind as_str).getD ""
    let payload_b64 := ((val.get "payload").bind as_str).getD ""
    (base64.decode payload_b64).map fun payload => (topic, payload)

/-- `"true"` is the one answer that is taken for a success. -/
def call_bool (method : String) (answer : Except String String) : Except TransportError Unit :=
  match answer with
  | .error e => .error (.Transport ("delivery_module " ++ method ++ " failed: " ++ e))
  | .ok result =>
    if result ≠ "true" then
      .error (.Transport ("delivery_module " ++ method ++ " returned: " ++ result))
    else .ok ()

namespace LogosCoreDeliveryTransport

def started : LogosCoreDeliveryTransport M U where
  event_rx := U.unbounded_channel
  subscriptions _ := none
  subscribers := []

def new (create start : Except String String) :
    Except TransportError (LogosCoreDeliveryTransport M U) :=
  (call_bool "createNode" create).bind fun _ => (call_bool "start" start).bind fun _ => .ok started

/-- The parameters of the call, and its result. -/
def publish (topic : String) (payload : Bytes) (answer : Except String String) :
    String × Except TransportError Unit :=
  (params_json [("contentTopic", topic), ("payload", base64.encode payload)],
    match answer with
    | .error e => .error (.Transport ("delivery_module send failed: " ++ e))
    | .ok result =>
      if result.startsWith "error" || result.startsWith "Error" then
        .error (.Transport ("delivery_module send returned error: " ++ result))
      else .ok ())

/-- The sender that the topic had is gone. -/
def release (topic : String) (t : LogosCoreDeliveryTransport M U) : List (Subscriber M U) :=
  match t.subscriptions topic with
  | none => t.subscribers
  | some k => t.subscribers.modify k Subscriber.release

def subscribe (t : LogosCoreDeliveryTransport M U) (topic : String)
    (answer : Except String String) :
    LogosCoreDeliveryTransport M U × Except TransportError Nat :=
  match call_bool "subscribe" answer with
  | .error e => (t, .error e)
  | .ok _ =>
    ({ t with
        subscriptions := Function.update t.subscriptions topic (some t.subscribers.length)
        subscribers := t.release topic ++ [.new] }, .ok t.subscribers.length)

/-- The map changes before the module is asked. -/
def unsubscribe (t : LogosCoreDeliveryTransport M U) (topic : String)
    (answer : Except String String) :
    LogosCoreDeliveryTransport M U × Except TransportError Unit :=
  ({ t with
      subscriptions := Function.update t.subscriptions topic none
      subscribers := t.release topic }, call_bool "unsubscribe" answer)

def forward (topic : String) (payload : Bytes) (t : LogosCoreDeliveryTransport M U) :
    LogosCoreDeliveryTransport M U :=
  match t.subscriptions topic with
  | none => t
  | some k => { t with subscribers := t.subscribers.modify k (Subscriber.send payload) }

/-- One turn of the task that sorts the events. -/
def listen (S : Serde) (t : LogosCoreDeliveryTransport M U) :
    LogosCoreDeliveryTransport M U × List CoreOutput :=
  match U.recv t.event_rx with
  | (_, none) => (t, [])
  | (event_rx, some event_json) =>
    match read_event S event_json with
    | none => ({ t with event_rx }, [.listened event_json])
    | some (topic, payload) =>
      (LogosCoreDeliveryTransport.forward topic payload { t with event_rx },
        [.listened event_json])

def step (S : Serde) (t : LogosCoreDeliveryTransport M U) :
    CoreOp → Except Empty (LogosCoreDeliveryTransport M U × List CoreOutput)
  | .event message => .ok ({ t with event_rx := U.send t.event_rx message }, [])
  | .listen => .ok (t.listen S)
  | .subscribe topic answer =>
    let r := t.subscribe topic answer
    .ok (r.1, [.subscribed topic r.2])
  | .unsubscribe topic answer =>
    let r := t.unsubscribe topic answer
    .ok (r.1, [.unsubscribed topic r.2])
  | .take k => .ok ({ t with subscribers := t.subscribers.modify k Subscriber.take }, [])
  | .push k => .ok ({ t with subscribers := t.subscribers.modify k Subscriber.push }, [])
  | .recv k => .ok ({ t with subscribers := t.subscribers.modify k Subscriber.recv }, [])
  | .drop k => .ok ({ t with subscribers := t.subscribers.modify k Subscriber.drop }, [])

end LogosCoreDeliveryTransport

/-! ## One subscription -/

variable {view : M.Chan → Channel} {items : {α : Type} → U.Chan α → List α}

namespace Subscriber

/-- What is on its way to the receiver, the oldest message first. -/
def under_way (view : M.Chan → Channel) (items : {α : Type} → U.Chan α → List α)
    (s : Subscriber M U) : List Bytes :=
  (view s.brx).waiting ++ s.holding.toList ++ items s.rx_unbounded

/-- The task and the channel work as long as the receiver is there. The task ends
without a sender, when it has nothing more to do. -/
structure Sound (view : M.Chan → Channel) (items : {α : Type} → U.Chan α → List α)
    (s : Subscriber M U) : Prop where
  is_open : s.dropped = false → (view s.brx).closed = false
  capacity : s.dropped = false → (view s.brx).capacity = 256
  running : s.dropped = false → s.sender = true → s.running = true
  ended : s.dropped = false → s.running = false → s.holding = none ∧ items s.rx_unbounded = []

/-- A step that sends nothing to the subscription. What was taken and what is under
way stay the same, until the receiver is dropped. -/
structure Keeps (view : M.Chan → Channel) (items : {α : Type} → U.Chan α → List α)
    (s s' : Subscriber M U) : Prop where
  there : s'.dropped = false → s.dropped = false
  same : s'.dropped = false →
    s'.received ++ s'.under_way view items = s.received ++ s.under_way view items
  gone : s'.dropped = true → s'.received = s.received
  sound : s.Sound view items → s'.Sound view items

theorem Keeps.refl (s : Subscriber M U) : s.Keeps view items s :=
  ⟨id, fun _ => rfl, fun _ => rfl, id⟩

theorem Sound.new (hM : M.Documented view) : (new : Subscriber M U).Sound view items := by
  apply Sound.mk
  · intro _
    rw [Subscriber.new, hM.channel 256 (by decide)]
  · intro _
    rw [Subscriber.new, hM.channel 256 (by decide)]
  · intro _ _
    rfl
  · intro _ hended
    cases hended

theorem under_way_new (hM : M.Documented view) (hU : U.Documented items) :
    (new : Subscriber M U).under_way view items = [] := by
  simp [new, under_way, hM.channel 256 (by decide), hU.unbounded_channel]

theorem release_keeps (s : Subscriber M U) : s.Keeps view items s.release := by
  refine ⟨id, fun _ => rfl, fun _ => rfl, ?_⟩
  intro h
  exact ⟨h.is_open, h.capacity, fun _ hsender => Bool.noConfusion hsender, h.ended⟩

theorem drop_keeps (s : Subscriber M U) : s.Keeps view items s.drop := by
  have hgone : s.drop.dropped ≠ false := fun h => Bool.noConfusion h
  refine ⟨fun h => absurd h hgone, fun h => absurd h hgone, fun _ => rfl, ?_⟩
  intro _
  exact ⟨fun h => absurd h hgone, fun h => absurd h hgone, fun h => absurd h hgone,
    fun h => absurd h hgone⟩

/-- What waits first comes out next. -/
theorem recv_keeps (hM : M.Documented view) (s : Subscriber M U) : s.Keeps view items s.recv := by
  rw [recv]
  split
  · exact .refl s
  · next hdropped =>
    refine ⟨id, fun _ => ?_, fun h => absurd h hdropped, fun h => ?_⟩
    · simp only [under_way, hM.recv_view, hM.recv_head]
      cases (view s.brx).waiting with
      | nil => simp
      | cons msg rest => simp
    · refine ⟨fun hthere => ?_, fun hthere => ?_, h.running, h.ended⟩
      · rw [hM.recv_view]
        exact h.is_open hthere
      · rw [hM.recv_view]
        exact h.capacity hthere

/-- The task takes the oldest message into its hand. -/
theorem take_keeps (hU : U.Documented items) (s : Subscriber M U) : s.Keeps view items s.take := by
  rw [take]
  split
  · next hfree =>
    simp only [Bool.and_eq_true, Option.isNone_iff_eq_none] at hfree
    have hitems := hU.recv_items s.rx_unbounded
    have hhead := hU.recv_head s.rx_unbounded
    split
    · next rx_unbounded msg hrecv =>
      rw [hrecv] at hitems hhead
      refine ⟨id, fun _ => ?_, fun _ => rfl, fun h => ⟨h.is_open, h.capacity, h.running, ?_⟩⟩
      cases hqueue : items s.rx_unbounded with
      | nil => simp [hqueue] at hhead
      | cons a rest =>
        obtain rfl : msg = a := by simpa [hqueue] using hhead
        simp [under_way, hfree.2, hitems, hqueue]
      · intro _ hended
        rw [hfree.1] at hended
        cases hended
    · next rx_unbounded hrecv =>
      rw [hrecv] at hhead
      split
      · exact .refl s
      · next hsender =>
        have hempty : items s.rx_unbounded = [] := by simpa using hhead.symm
        exact ⟨id, fun _ => rfl, fun _ => rfl,
          fun h => ⟨h.is_open, h.capacity, fun _ hs => absurd hs hsender,
            fun _ _ => ⟨hfree.2, hempty⟩⟩⟩
  · exact .refl s

/-- The task hands its message on, when there is room. -/
theorem push_keeps (hM : M.Documented view) (s : Subscriber M U)
    (hsound : s.Sound view items) : s.Keeps view items s.push := by
  rw [push]
  split
  · next msg hrunning hholding =>
    split
    · next hdropped =>
      have hgone : s.dropped ≠ false := by simp [hdropped]
      exact ⟨fun h => absurd h hgone, fun h => absurd h hgone, fun _ => rfl,
        fun _ => ⟨fun h => absurd h hgone, fun h => absurd h hgone, fun h => absurd h hgone,
          fun h => absurd h hgone⟩⟩
    · next hdropped =>
      have hthere : s.dropped = false := by simpa using hdropped
      by_cases hroom : (view s.brx).waiting.length < (view s.brx).capacity
      · obtain ⟨hview, htaken⟩ := hM.sent (hsound.is_open hthere) hroom msg
        split
        · next brx hsend =>
          rw [hsend] at hview
          refine ⟨id, fun _ => ?_, fun _ => rfl, fun h => ?_⟩
          · simp [under_way, hview, hholding]
          · refine ⟨fun _ => ?_, fun _ => ?_, h.running, fun _ hended => ?_⟩
            · rw [hview]
              exact h.is_open hthere
            · rw [hview]
              exact h.capacity hthere
            · rw [hrunning] at hended
              cases hended
        · exact .refl s
      · obtain ⟨-, hfull⟩ := hM.not_sent (Nat.le_of_not_lt hroom) msg
        split
        · next brx hsend =>
          rw [hsend] at hfull
          cases hfull
        · exact .refl s
  · exact .refl s

/-- A message for the subscription. -/
theorem send_under_way (hU : U.Documented items) {s : Subscriber M U} (h : s.running = true)
    (payload : Bytes) :
    (s.send payload).under_way view items = s.under_way view items ++ [payload] := by
  rw [send, if_pos h]
  simp [under_way, hU.send]

theorem send_same (payload : Bytes) (s : Subscriber M U) :
    (s.send payload).dropped = s.dropped ∧ (s.send payload).received = s.received ∧
      (s.send payload).sender = s.sender := by
  rw [send]
  split <;> exact ⟨rfl, rfl, rfl⟩

theorem Sound.send {s : Subscriber M U} (h : s.Sound view items) (payload : Bytes) :
    (s.send payload).Sound view items := by
  rw [Subscriber.send]
  split
  · next hrunning =>
    refine ⟨h.is_open, h.capacity, h.running, ?_⟩
    intro _ hended
    rw [hrunning] at hended
    cases hended
  · exact h

end Subscriber

/-! ## Progress of one subscription -/

namespace Subscriber

/-- A turn of the receiver and of the task. -/
def turn (s : Subscriber M U) : Subscriber M U := s.recv.push.take

/-- How many steps the messages under way have before them. -/
def distance (view : M.Chan → Channel) (items : {α : Type} → U.Chan α → List α)
    (s : Subscriber M U) : Nat :=
  (view s.brx).waiting.length + 2 * s.holding.toList.length + 3 * (items s.rx_unbounded).length

variable {s : Subscriber M U}

theorem distance_eq_zero : s.distance view items = 0 ↔ s.under_way view items = [] := by
  have htoList : s.holding.toList.length = 0 ↔ s.holding.toList = [] := List.length_eq_zero_iff
  rw [distance, under_way, List.append_eq_nil_iff, List.append_eq_nil_iff, ← htoList,
    ← List.length_eq_zero_iff, ← List.length_eq_zero_iff]
  omega

theorem recv_distance (items : {α : Type} → U.Chan α → List α) (hM : M.Documented view)
    (hthere : s.dropped = false) :
    s.recv.distance view items + min 1 (view s.brx).waiting.length = s.distance view items ∧
      s.recv.holding = s.holding ∧ s.recv.rx_unbounded = s.rx_unbounded ∧
      s.recv.running = s.running ∧ (view s.recv.brx).waiting = (view s.brx).waiting.tail := by
  have hdropped : ¬ s.dropped = true := by simp [hthere]
  simp only [recv, if_neg hdropped, distance, hM.recv_view, List.length_tail, and_true]
  omega

theorem push_distance (hM : M.Documented view) (h : s.Sound view items)
    (hthere : s.dropped = false) :
    s.push.distance view items ≤ s.distance view items ∧
      (s.holding = none → s.push = s) ∧
      ((view s.brx).waiting = [] → s.holding ≠ none →
        s.push.distance view items < s.distance view items) := by
  rw [push]
  split
  · next msg hrunning hholding =>
    have hdropped : ¬ s.dropped = true := by simp [hthere]
    rw [if_neg hdropped]
    split
    · next brx hsend =>
      have hroom : (view s.brx).waiting.length < (view s.brx).capacity := by
        apply Nat.lt_of_not_le
        intro hfull
        obtain ⟨-, hrefused⟩ := hM.not_sent hfull msg
        rw [hsend] at hrefused
        cases hrefused
      obtain ⟨hview, -⟩ := hM.sent (h.is_open hthere) hroom msg
      rw [hsend] at hview
      refine ⟨?_, fun hnone => ?_, fun _ _ => ?_⟩
      · simp only [distance, hview, hholding, List.length_append, List.length_singleton,
          Option.toList_some, Option.toList_none, List.length_nil]
        omega
      · rw [hnone] at hholding
        cases hholding
      · simp only [distance, hview, hholding, List.length_append, List.length_singleton,
          Option.toList_some, Option.toList_none, List.length_nil]
        omega
    · next brx hsend =>
      refine ⟨Nat.le_refl _, fun _ => rfl, fun hempty _ => ?_⟩
      have hroom : (view s.brx).waiting.length < (view s.brx).capacity := by
        rw [hempty, h.capacity hthere]
        decide
      obtain ⟨-, htaken⟩ := hM.sent (h.is_open hthere) hroom msg
      rw [hsend] at htaken
      cases htaken
  · next hidle =>
    refine ⟨Nat.le_refl _, fun _ => rfl, fun _ hholding => ?_⟩
    obtain ⟨msg, hmsg⟩ := Option.ne_none_iff_exists'.mp hholding
    cases hrunning : s.running with
    | true => exact absurd hmsg (hidle msg hrunning)
    | false => exact absurd (h.ended hthere hrunning).1 hholding

theorem take_distance (hU : U.Documented items) (h : s.Sound view items)
    (hthere : s.dropped = false) :
    s.take.distance view items ≤ s.distance view items ∧
      (s.holding = none → items s.rx_unbounded ≠ [] →
        s.take.distance view items < s.distance view items) := by
  rw [take]
  split
  · next hfree =>
    simp only [Bool.and_eq_true, Option.isNone_iff_eq_none] at hfree
    have hitems := hU.recv_items s.rx_unbounded
    have hhead := hU.recv_head s.rx_unbounded
    split
    · next rx_unbounded msg hrecv =>
      rw [hrecv] at hitems hhead
      cases hqueue : items s.rx_unbounded with
      | nil => simp [hqueue] at hhead
      | cons a rest =>
        simp only [hqueue, List.tail_cons] at hitems
        simp only [distance, hitems, hqueue, hfree.2, Option.toList_some, Option.toList_none,
          List.length_cons, List.length_nil]
        omega
    · next rx_unbounded hrecv =>
      rw [hrecv] at hhead
      have hempty : items s.rx_unbounded = [] := by simpa using hhead.symm
      split
      · exact ⟨Nat.le_refl _, fun _ hne => absurd hempty hne⟩
      · exact ⟨Nat.le_refl _, fun _ hne => absurd hempty hne⟩
  · next hbusy =>
    refine ⟨Nat.le_refl _, fun hnone hne => ?_⟩
    cases hrunning : s.running with
    | true => simp [hrunning, hnone] at hbusy
    | false => exact absurd (h.ended hthere hrunning).2 hne

theorem recv_dropped (s : Subscriber M U) : s.recv.dropped = s.dropped := by
  rw [recv]
  split <;> rfl

theorem push_dropped (s : Subscriber M U) : s.push.dropped = s.dropped := by
  rw [push]
  split
  · split
    · rfl
    · split <;> rfl
  · rfl

theorem take_dropped (s : Subscriber M U) : s.take.dropped = s.dropped := by
  rw [take]
  split
  · split
    · rfl
    · split <;> rfl
  · rfl

/-- A turn loses nothing, and brings a message nearer when one is under way. -/
theorem turn_progress (hM : M.Documented view) (hU : U.Documented items) (h : s.Sound view items)
    (hthere : s.dropped = false) :
    s.turn.Sound view items ∧ s.turn.dropped = false ∧
      s.turn.received ++ s.turn.under_way view items = s.received ++ s.under_way view items ∧
      s.turn.distance view items ≤ s.distance view items ∧
      (s.under_way view items ≠ [] → s.turn.distance view items < s.distance view items) := by
  have hrecv : s.Keeps view items s.recv := s.recv_keeps hM
  have hsound₁ := hrecv.sound h
  have hpush := s.recv.push_keeps hM hsound₁
  have hsound₂ := hpush.sound hsound₁
  have htake : s.recv.push.Keeps view items s.turn := s.recv.push.take_keeps hU
  have hthere₁ : s.recv.dropped = false := s.recv_dropped.trans hthere
  have hthere₂ : s.recv.push.dropped = false := s.recv.push_dropped.trans hthere₁
  have hthere₃ : s.turn.dropped = false := s.recv.push.take_dropped.trans hthere₂
  obtain ⟨hd₁, hholding, hqueue, -, hwaiting⟩ := recv_distance items hM hthere
  obtain ⟨hd₂, hpass, hgo₂⟩ := push_distance hM hsound₁ hthere₁
  obtain ⟨hd₃, hgo₃⟩ := take_distance hU hsound₂ hthere₂
  refine ⟨htake.sound hsound₂, hthere₃, ?_, ?_, fun hbusy => ?_⟩
  · rw [htake.same hthere₃, hpush.same hthere₂, hrecv.same hthere₁]
  · rw [turn]
    omega
  · by_cases hwait : (view s.brx).waiting = []
    · by_cases hhold : s.holding = none
      · have hne : items s.rx_unbounded ≠ [] := by
          intro hempty
          exact hbusy (by simp [under_way, hwait, hhold, hempty])
        have hsame := hpass (hholding.trans hhold)
        rw [hsame] at hgo₃ hd₃
        have hlt := hgo₃ (hholding.trans hhold) (hqueue ▸ hne)
        rw [turn, hsame]
        omega
      · have hlt := hgo₂ (by rw [hwaiting, hwait]; rfl) (hholding ▸ hhold)
        rw [turn]
        omega
    · have hpos := List.length_pos_iff.mpr hwait
      rw [turn]
      omega

end Subscriber

/-! ## What the log says about the map -/

/-- What the output of a step says about the map. -/
def routes (S : Serde) : CoreOutput → List Route
  | .listened event_json =>
    match read_event S event_json with
    | none => []
    | some (topic, payload) => [.forward topic payload]
  | .subscribed topic (.ok _) => [.insert topic]
  | .subscribed _ (.error _) => []
  | .unsubscribed topic _ => [.remove topic]

namespace LogosCoreDeliveryTransport

/-- The subscription `k` has the sender of the topic until a step of the log gave
that away. What was taken and what is under way is all that it was offered. -/
structure Carries (view : M.Chan → Channel) (items : {α : Type} → U.Chan α → List α) (k : Nat)
    (topic : String) (rs : List Route) (t : LogosCoreDeliveryTransport M U)
    (s : Subscriber M U) : Prop where
  handed_out : t.subscribers[k]? = some s
  registered : Route.Registered t.subscriptions k topic rs
  sender : t.subscriptions topic = some k → s.sender = true
  sound : s.Sound view items
  whole : s.dropped = false → s.received ++ s.under_way view items = Route.offered topic rs
  part : s.received <+: Route.offered topic rs

variable {S : Serde} {t t' : LogosCoreDeliveryTransport M U} {s s' : Subscriber M U} {k : Nat}
  {topic : String} {rs rs' : List Route}

theorem Carries.lt_length (h : Carries view items k topic rs t s) : k < t.subscribers.length :=
  (List.getElem?_eq_some_iff.mp h.handed_out).1

/-- A step that offers nothing to the subscription. -/
theorem Carries.pass (h : Carries view items k topic rs t s)
    (hoffer : Route.offered topic rs' = Route.offered topic rs)
    (hget : t'.subscribers[k]? = some s')
    (hregistered : Route.Registered t'.subscriptions k topic rs')
    (hsender : t'.subscriptions topic = some k → s'.sender = true)
    (hkeeps : s.Keeps view items s') : Carries view items k topic rs' t' s' where
  handed_out := hget
  registered := hregistered
  sender := hsender
  sound := hkeeps.sound h.sound
  whole hthere := by rw [hkeeps.same hthere, h.whole (hkeeps.there hthere), hoffer]
  part := by
    rw [hoffer]
    cases hdropped : s'.dropped with
    | true =>
      rw [hkeeps.gone hdropped]
      exact h.part
    | false =>
      rw [← h.whole (hkeeps.there hdropped), ← hkeeps.same hdropped]
      exact List.prefix_append _ _

/-- A step of one of the subscriptions. -/
theorem Carries.modify (h : Carries view items k topic rs t s) (j : Nat)
    {f : Subscriber M U → Subscriber M U} (hf : s.Keeps view items (f s))
    (hsender : (f s).sender = s.sender) :
    ∃ s', Carries view items k topic rs { t with subscribers := t.subscribers.modify j f } s' := by
  by_cases hj : j = k
  · refine ⟨f s, h.pass rfl ?_ h.registered (fun hk => hsender.trans (h.sender hk)) hf⟩
    rw [hj, List.getElem?_modify_eq, h.handed_out]
    rfl
  · refine ⟨s, h.pass rfl ?_ h.registered h.sender (.refl s)⟩
    rw [List.getElem?_modify_ne _ _ hj]
    exact h.handed_out

/-- The topic of a subscription loses its sender. -/
theorem Carries.release (h : Carries view items k topic rs t s) (topic₂ : String)
    {subscribers tail : List (Subscriber M U)} (htail : subscribers = t.release topic₂ ++ tail)
    {r : Route} (hnone : r.payload_on topic = none) {subscriptions : String → Option Nat}
    (hregistered : Route.Registered subscriptions k topic (rs ++ [r]))
    (hends : r.Ends topic ↔ topic₂ = topic) :
    ∃ s', Carries view items k topic (rs ++ [r])
      { t with subscriptions, subscribers } s' := by
  subst htail
  have hoffer := h.registered.offered_of_none (r := r) fun _ => hnone
  have hlive : subscriptions topic = some k → topic₂ ≠ topic := by
    intro hk heq
    exact ((hregistered topic).mp hk).2 ⟨r, by simp, hends.mpr heq⟩
  have hbefore : subscriptions topic = some k → t.subscriptions topic = some k := by
    intro hk
    refine (h.registered topic).mpr ⟨rfl, ?_⟩
    rintro ⟨q, hq, hqends⟩
    exact ((hregistered topic).mp hk).2 ⟨q, by simp [hq], hqends⟩
  have hlt := h.lt_length
  by_cases hown : t.subscriptions topic₂ = some k
  · refine ⟨s.release, h.pass hoffer ?_ hregistered ?_ s.release_keeps⟩
    · rw [LogosCoreDeliveryTransport.release, hown,
        List.getElem?_append_left (by simpa using hlt)]
      simp [h.handed_out]
    · intro hk
      exact absurd ((h.registered topic₂).mp hown).1 (hlive hk)
  · refine ⟨s, h.pass hoffer ?_ hregistered (fun hk => h.sender (hbefore hk)) (.refl s)⟩
    rw [LogosCoreDeliveryTransport.release]
    split
    · rw [List.getElem?_append_left hlt]
      exact h.handed_out
    · next j hj =>
      have hne : j ≠ k := fun heq => hown (heq ▸ hj)
      rw [List.getElem?_append_left (by simpa using hlt), List.getElem?_modify_ne _ _ hne]
      exact h.handed_out

/-- A message that was sorted. -/
theorem Carries.forward (hU : U.Documented items) (h : Carries view items k topic rs t s)
    (topic₂ : String) (payload : Bytes) :
    ∃ s', Carries view items k topic (rs ++ [.forward topic₂ payload])
      (LogosCoreDeliveryTransport.forward topic₂ payload t) s' := by
  have hregistered := h.registered.forward topic₂ payload
  by_cases hown : t.subscriptions topic₂ = some k
  · obtain ⟨rfl, -⟩ := (h.registered topic₂).mp hown
    obtain ⟨hdropped, hreceived, hsender⟩ := s.send_same payload
    have hoffer := h.registered.offered_own payload hown
    rw [LogosCoreDeliveryTransport.forward, hown]
    refine ⟨s.send payload, ?_, hregistered, fun _ => hsender.trans (h.sender hown),
      h.sound.send payload, ?_, ?_⟩
    · simp [h.handed_out]
    · intro hthere
      rw [hdropped] at hthere
      rw [Subscriber.send_under_way hU (h.sound.running hthere (h.sender hown)), hreceived, hoffer,
        ← h.whole hthere, List.append_assoc]
    · rw [hreceived, hoffer]
      exact h.part.trans (List.prefix_append _ _)
  · have hoffer := h.registered.offered_other payload hown
    refine ⟨s, h.pass hoffer ?_ ?_ ?_ (.refl s)⟩
    · rw [LogosCoreDeliveryTransport.forward]
      split
      · exact h.handed_out
      · next j hj =>
        have hne : j ≠ k := fun heq => hown (heq ▸ hj)
        rw [List.getElem?_modify_ne _ _ hne]
        exact h.handed_out
    · rw [LogosCoreDeliveryTransport.forward]
      split <;> exact hregistered
    · rw [LogosCoreDeliveryTransport.forward]
      split <;> exact h.sender

/-! ## Runs -/

/-- Each sender has a subscription. -/
def Valid (t : LogosCoreDeliveryTransport M U) : Prop :=
  ∀ topic k, t.subscriptions topic = some k → k < t.subscribers.length

theorem release_length (topic : String) (t : LogosCoreDeliveryTransport M U) :
    (t.release topic).length = t.subscribers.length := by
  rw [release]
  split
  · rfl
  · exact List.length_modify _ _ _

theorem Valid.of_length (h : t.Valid) (hsame : t'.subscriptions = t.subscriptions)
    (hlength : t'.subscribers.length = t.subscribers.length) : t'.Valid := by
  intro topic k hk
  rw [hsame] at hk
  rw [hlength]
  exact h topic k hk

theorem forward_valid (h : t.Valid) (topic : String) (payload : Bytes) :
    (forward topic payload t).Valid := by
  rw [forward]
  split
  · exact h
  · exact h.of_length rfl (List.length_modify _ _ _)

theorem Valid.step (h : t.Valid) {op : CoreOp} {out : List CoreOutput}
    (hstep : step S t op = .ok (t', out)) : t'.Valid := by
  cases op with
  | event message =>
    cases hstep
    exact h
  | listen =>
    have heq := Except.ok.inj hstep
    rw [listen] at heq
    split at heq
    · cases heq
      exact h
    · split at heq
      · cases heq
        exact h
      · cases heq
        apply forward_valid
        exact h
  | subscribe topic answer =>
    cases hstep
    rw [subscribe]
    split
    · exact h
    · intro topic' k hk
      simp only [Function.update_apply] at hk
      simp only [List.length_append, release_length, List.length_singleton]
      split at hk
      · obtain rfl := Option.some.inj hk
        omega
      · have hlt := h topic' k hk
        omega
  | unsubscribe topic answer =>
    cases hstep
    intro topic' k hk
    simp only [unsubscribe, Function.update_apply] at hk
    simp only [unsubscribe, release_length]
    split at hk
    · cases hk
    · exact h topic' k hk
  | take k =>
    cases hstep
    exact h.of_length rfl (List.length_modify _ _ _)
  | push k =>
    cases hstep
    exact h.of_length rfl (List.length_modify _ _ _)
  | recv k =>
    cases hstep
    exact h.of_length rfl (List.length_modify _ _ _)
  | drop k =>
    cases hstep
    exact h.of_length rfl (List.length_modify _ _ _)

theorem run_valid (h : t.Valid) {ops : List CoreOp} {log : List CoreOutput}
    (hrun : run (step S) t ops = .ok (t', log)) : t'.Valid :=
  run_invariant (I := fun _ (t : LogosCoreDeliveryTransport M U) => t.Valid) h
    (fun _ _ _ _ _ hvalid hstep => hvalid.step hstep) hrun

theorem Subscriber.take_sender (s : Subscriber M U) : s.take.sender = s.sender := by
  rw [Subscriber.take]
  split
  · split
    · rfl
    · split <;> rfl
  · rfl

theorem Subscriber.push_sender (s : Subscriber M U) : s.push.sender = s.sender := by
  rw [Subscriber.push]
  split
  · split
    · rfl
    · split <;> rfl
  · rfl

theorem Subscriber.recv_sender (s : Subscriber M U) : s.recv.sender = s.sender := by
  rw [Subscriber.recv]
  split <;> rfl

theorem Carries.step (hM : M.Documented view) (hU : U.Documented items)
    (h : Carries view items k topic rs t s) {op : CoreOp} {out : List CoreOutput}
    (hstep : step S t op = .ok (t', out)) :
    ∃ s', Carries view items k topic (rs ++ out.flatMap (routes S)) t' s' := by
  cases op with
  | event message =>
    cases hstep
    rw [List.flatMap_nil, List.append_nil]
    exact ⟨s, h.pass rfl h.handed_out h.registered h.sender (.refl s)⟩
  | listen =>
    have heq := Except.ok.inj hstep
    rw [listen] at heq
    split at heq
    · cases heq
      rw [List.flatMap_nil, List.append_nil]
      exact ⟨s, h⟩
    · next event_rx event_json hrecv =>
      have hrest : Carries view items k topic rs { t with event_rx } s :=
        h.pass rfl h.handed_out h.registered h.sender (.refl s)
      split at heq
      · next hread =>
        cases heq
        rw [List.flatMap_singleton, routes, hread, List.append_nil]
        exact ⟨s, hrest⟩
      · next topic₂ payload hread =>
        cases heq
        rw [List.flatMap_singleton, routes, hread]
        exact hrest.forward hU topic₂ payload
  | subscribe topic₂ answer =>
    cases hstep
    rw [List.flatMap_singleton, subscribe]
    split
    · rw [routes, List.append_nil]
      exact ⟨s, h⟩
    · have hne : t.subscribers.length ≠ k := Nat.ne_of_gt h.lt_length
      exact h.release topic₂ rfl rfl (h.registered.insert hne) (by simp [Route.Ends])
  | unsubscribe topic₂ answer =>
    cases hstep
    exact h.release topic₂ (List.append_nil _).symm rfl (h.registered.remove topic₂)
      (by simp [Route.Ends])
  | take j =>
    cases hstep
    rw [List.flatMap_nil, List.append_nil]
    exact h.modify j (s.take_keeps hU) (Subscriber.take_sender s)
  | push j =>
    cases hstep
    rw [List.flatMap_nil, List.append_nil]
    exact h.modify j (s.push_keeps hM h.sound) (Subscriber.push_sender s)
  | recv j =>
    cases hstep
    rw [List.flatMap_nil, List.append_nil]
    exact h.modify j (s.recv_keeps hM) (Subscriber.recv_sender s)
  | drop j =>
    cases hstep
    rw [List.flatMap_nil, List.append_nil]
    exact h.modify j s.drop_keeps rfl

theorem Carries.start (hM : M.Documented view) (hU : U.Documented items) (hvalid : t.Valid)
    {answer : Except String String} (h : t.subscribe topic answer = (t', .ok k)) :
    Carries view items k topic [] t' .new := by
  rw [subscribe] at h
  split at h
  · cases h
  · cases h
    have hempty := Subscriber.under_way_new hM hU
    refine ⟨?_, .start (fun topic' hk => ?_) topic, fun _ => rfl, .new hM, fun _ => ?_, ?_⟩
    · simp [release_length]
    · exact Nat.lt_irrefl _ (hvalid topic' _ hk)
    · rw [hempty]
      rfl
    · exact List.prefix_refl _

theorem Carries.run (hM : M.Documented view) (hU : U.Documented items)
    (h : Carries view items k topic [] t s) {ops : List CoreOp} {log : List CoreOutput}
    (hrun : run (LogosCoreDeliveryTransport.step S) t ops = .ok (t', log)) :
    ∃ s', Carries view items k topic (log.flatMap (routes S)) t' s' := by
  apply run_invariant (I := fun log (t : LogosCoreDeliveryTransport M U) =>
    ∃ s', Carries view items k topic (log.flatMap (routes S)) t s') ⟨s, h⟩ _ hrun
  rintro log t op t' out ⟨s, hs⟩ hstep
  rw [List.flatMap_append]
  exact hs.step hM hU hstep

/-- The receiver takes what is there, and its task goes on. -/
def turns (k : Nat) : Nat → List CoreOp
  | 0 => []
  | n + 1 => .recv k :: .push k :: .take k :: turns k n

/-- Enough turns bring everything to the receiver. -/
theorem run_turns (hM : M.Documented view) (hU : U.Documented items) (S : Serde) (n : Nat)
    {t : LogosCoreDeliveryTransport M U} {s : Subscriber M U} (hget : t.subscribers[k]? = some s)
    (hsound : s.Sound view items) (hthere : s.dropped = false)
    (hn : s.distance view items ≤ n) :
    ∃ t' s', run (step S) t (turns k n) = .ok (t', []) ∧ t'.subscribers[k]? = some s' ∧
      s'.received = s.received ++ s.under_way view items := by
  induction n generalizing t s with
  | zero =>
    refine ⟨t, s, rfl, hget, ?_⟩
    rw [Subscriber.distance_eq_zero.mp (Nat.le_zero.mp hn), List.append_nil]
  | succ n ih =>
    obtain ⟨hsound', hthere', hsame, hnot, hnearer⟩ :=
      Subscriber.turn_progress hM hU hsound hthere
    have hget' : ({ t with
        subscribers := ((t.subscribers.modify k Subscriber.recv).modify k Subscriber.push).modify k
          Subscriber.take } : LogosCoreDeliveryTransport M U).subscribers[k]? = some s.turn := by
      simp [hget, Subscriber.turn]
    have hn' : s.turn.distance view items ≤ n := by
      by_cases hbusy : s.under_way view items = []
      · rw [Subscriber.distance_eq_zero.mpr hbusy] at hnot
        omega
      · have hlt := hnearer hbusy
        omega
    obtain ⟨t', s', hrun, hk, hreceived⟩ := ih hget' hsound' hthere' hn'
    refine ⟨t', s', ?_, hk, hreceived.trans hsame⟩
    simp only [turns, run, step, bind, Except.bind, hrun, List.nil_append]

theorem new_ok {create start : Except String String}
    (h : new create start = .ok t) : t = started := by
  rw [new] at h
  cases hcreate : call_bool "createNode" create with
  | error e => simp [hcreate, Except.bind] at h
  | ok _ =>
    cases hstart : call_bool "start" start with
    | error e => simp [hcreate, hstart, Except.bind] at h
    | ok _ =>
      simp only [hcreate, hstart, Except.bind, Except.ok.injEq] at h
      exact h.symm

/-! ## The events -/

def arrived (ops : List CoreOp) : List String :=
  ops.filterMap fun
    | .event message => some message
    | _ => none

def listened (log : List CoreOutput) : List String :=
  log.filterMap fun
    | .listened event_json => some event_json
    | _ => none

theorem listened_append (log log' : List CoreOutput) :
    listened (log ++ log') = listened log ++ listened log' := List.filterMap_append

theorem arrived_append (ops ops' : List CoreOp) :
    arrived (ops ++ ops') = arrived ops ++ arrived ops' := List.filterMap_append

theorem forward_event_rx (topic : String) (payload : Bytes)
    (t : LogosCoreDeliveryTransport M U) : (forward topic payload t).event_rx = t.event_rx := by
  rw [forward]
  split <;> rfl

theorem listen_events (hU : U.Documented items) (S : Serde)
    (t : LogosCoreDeliveryTransport M U) :
    listened (t.listen S).2 ++ items (t.listen S).1.event_rx = items t.event_rx := by
  have hitems := hU.recv_items t.event_rx
  have hhead := hU.recv_head t.event_rx
  rw [listen]
  split
  · rfl
  · next event_rx event_json hrecv =>
    rw [hrecv] at hitems hhead
    cases hqueue : items t.event_rx with
    | nil => simp [hqueue] at hhead
    | cons first rest =>
      obtain rfl : event_json = first := by simpa [hqueue] using hhead
      simp only [hqueue, List.tail_cons] at hitems
      split
      · simp [listened, hitems]
      · simp [listened, forward_event_rx, hitems]

/-- The events are sorted in the order in which they came. -/
theorem run_events (hU : U.Documented items) {ops : List CoreOp} {log : List CoreOutput}
    (hrun : machine.run (step S) t ops = .ok (t', log)) :
    listened log ++ items t'.event_rx = items t.event_rx ++ arrived ops := by
  induction ops using List.reverseRecOn generalizing t' log with
  | nil =>
    cases hrun
    simp [listened, arrived]
  | append_singleton ops op ih =>
    obtain ⟨t₁, log₁, out, hrun₁, hstep, rfl⟩ := run_snoc_cases hrun
    rw [listened_append, arrived_append, ← List.append_assoc, ← ih hrun₁, List.append_assoc,
      List.append_assoc]
    congr 1
    cases op with
    | event message =>
      cases hstep
      exact hU.send _ _
    | listen =>
      have heq := listen_events hU S t₁
      rw [Except.ok.inj hstep] at heq
      rw [heq]
      exact (List.append_nil _).symm
    | subscribe topic answer =>
      cases hstep
      rw [subscribe]
      split <;> exact (List.append_nil _).symm
    | unsubscribe topic answer =>
      cases hstep
      exact (List.append_nil _).symm
    | take k =>
      cases hstep
      exact (List.append_nil _).symm
    | push k =>
      cases hstep
      exact (List.append_nil _).symm
    | recv k =>
      cases hstep
      exact (List.append_nil _).symm
    | drop k =>
      cases hstep
      exact (List.append_nil _).symm

/-- In every run of the transport, in whatever order its tasks go on: a subscription
takes the messages of its topic in the order in which they were sorted, from its
start until the topic gets another subscription or none, and no message is lost
between the map and the receiver. When the receiver keeps taking and its task goes
on, it gets them all. The events are sorted in the order in which they came. -/
theorem no_message_of_a_topic_is_lost (hM : M.Documented view) (hU : U.Documented items)
    {create start answer : Except String String} {t₀ t₁ t₂ t₃ : LogosCoreDeliveryTransport M U}
    {before after : List CoreOp} {log₁ log₃ : List CoreOutput}
    (hnew : new create start = .ok t₀)
    (hbefore : machine.run (step S) t₀ before = .ok (t₁, log₁))
    (hsubscribe : t₁.subscribe topic answer = (t₂, .ok k))
    (hafter : machine.run (step S) t₂ after = .ok (t₃, log₃)) :
    listened (log₁ ++ log₃) ++ items t₃.event_rx = arrived (before ++ after) ∧
    ∃ s, t₃.subscribers[k]? = some s ∧
      s.received <+: Route.offered topic (log₃.flatMap (routes S)) ∧
      (s.dropped = false →
        s.received ++ s.under_way view items = Route.offered topic (log₃.flatMap (routes S)) ∧
        ∃ n t₄ s₄, machine.run (step S) t₃ (turns k n) = .ok (t₄, []) ∧
          t₄.subscribers[k]? = some s₄ ∧
          s₄.received = Route.offered topic (log₃.flatMap (routes S))) := by
  obtain rfl := new_ok hnew
  have hempty : (started : LogosCoreDeliveryTransport M U).Valid := by
    intro topic k hk
    cases hk
  have hvalid : t₁.Valid := run_valid hempty hbefore
  obtain ⟨s, hs⟩ := (Carries.start hM hU hvalid hsubscribe).run hM hU hafter
  refine ⟨?_, s, hs.handed_out, hs.part, fun hthere => ⟨hs.whole hthere, ?_⟩⟩
  · have hsame : t₂.event_rx = t₁.event_rx := by
      rw [subscribe] at hsubscribe
      split at hsubscribe
      · cases hsubscribe
      · cases hsubscribe
        rfl
    have hempty : items (started : LogosCoreDeliveryTransport M U).event_rx = [] :=
      hU.unbounded_channel
    have hfirst := run_events hU hbefore
    rw [hempty, List.nil_append] at hfirst
    rw [listened_append, arrived_append, List.append_assoc, run_events hU hafter, hsame,
      ← List.append_assoc, hfirst]
  obtain ⟨t₄, s₄, hrun, hget, hreceived⟩ :=
    run_turns hM hU S _ hs.handed_out hs.sound hthere (Nat.le_refl _)
  exact ⟨_, t₄, s₄, hrun, hget, hreceived.trans (hs.whole hthere)⟩

/-! A short run. -/

def one_text : String :=
  "\x7b\"contentTopic\":\"/t\",\"payload\":\"aGk=\"\x7d"

def second_text : String :=
  "\x7b\"contentTopic\":\"/t\",\"payload\":\"aG8=\"\x7d"

def short_serde : Serde where
  from_str s :=
    if s = one_text then .ok (.object [("contentTopic", .str "/t"), ("payload", .str "aGk=")])
    else if s = second_text then
      .ok (.object [("contentTopic", .str "/t"), ("payload", .str "aG8=")])
    else .error "expected value at line 1 column 1"
  to_string _ := "null"
  toJson _ := "null"

def subscribed : LogosCoreDeliveryTransport Mpsc.queues UnboundedMpsc.lists where
  event_rx := []
  subscriptions := Function.update (fun _ => none) "/t" (some 0)
  subscribers := [.new]

/-- Two messages are sorted, and the receiver has one of them. -/
def two_messages : List CoreOp :=
  [.event one_text, .event second_text, .listen, .listen, .take 0, .push 0, .recv 0]

theorem no_message_of_a_topic_is_lost_two_messages :
    ∃ t₃ log₃, machine.run (step short_serde) subscribed two_messages = .ok (t₃, log₃) ∧
      ∃ s, t₃.subscribers[0]? = some s ∧ s.received <+: [[0x68, 0x69], [0x68, 0x6f]] ∧
        ∃ n t₄ s₄, machine.run (step short_serde) t₃ (turns 0 n) = .ok (t₄, []) ∧
          t₄.subscribers[0]? = some s₄ ∧ s₄.received = [[0x68, 0x69], [0x68, 0x6f]] := by
  obtain ⟨⟨t₃, log₃⟩, hrun⟩ := ends_ok (machine.run (step short_serde) subscribed two_messages)
  have hlog : (machine.run (step short_serde) subscribed two_messages).toOption.map
      (fun r => (Route.offered "/t" (r.2.flatMap (routes short_serde)),
        r.1.subscribers.map Subscriber.dropped)) =
      some ([[0x68, 0x69], [0x68, 0x6f]], [false]) := by decide +kernel
  rw [hrun] at hlog
  obtain ⟨hoffered, hdropped⟩ := Prod.mk.inj (Option.some.inj hlog)
  have hnew : new (.ok "true") (.ok "true") =
      .ok (started : LogosCoreDeliveryTransport Mpsc.queues UnboundedMpsc.lists) := rfl
  have hnone : machine.run (step short_serde)
      (started : LogosCoreDeliveryTransport Mpsc.queues UnboundedMpsc.lists) [] =
        .ok (started, []) := rfl
  have hsubscribe : started.subscribe "/t" (.ok "true") = (subscribed, .ok 0) := rfl
  obtain ⟨-, s, hget, hpart, hwhole⟩ := no_message_of_a_topic_is_lost queues_documented
    UnboundedMpsc.lists_documented hnew hnone hsubscribe hrun
  have hthere : s.dropped = false := by
    have hflag : (t₃.subscribers.map Subscriber.dropped)[0]? = some s.dropped := by
      rw [List.getElem?_map, hget]
      rfl
    rw [hdropped] at hflag
    exact (Option.some.inj hflag).symm
  rw [hoffered] at hpart hwhole
  exact ⟨t₃, log₃, hrun, s, hget, hpart, (hwhole hthere).2⟩

end LogosCoreDeliveryTransport

end lmao.transport.logos_core
