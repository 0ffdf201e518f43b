-- The in-memory transport (memory.rs of the transport crate): a message is sent to
-- the subscribers of its topic over bounded channels, and replayed to later ones.
import Mathlib.Data.List.TakeDrop
import Mathlib.Logic.Function.Basic
import Lmao.Bytes
import Lmao.Machine

namespace lmao.transport

open machine

/-! ## The channels -/

/-- A bounded queue with one receiver. -/
structure Channel where
  capacity : Nat
  waiting : List Bytes
  closed : Bool
deriving DecidableEq

namespace Channel

def try_send (c : Channel) (msg : Bytes) : Channel × Bool :=
  if c.closed || decide (c.capacity ≤ c.waiting.length) then (c, false)
  else ({ c with waiting := c.waiting ++ [msg] }, true)

def recv (c : Channel) : Channel × Option Bytes :=
  ({ c with waiting := c.waiting.tail }, c.waiting.head?)

end Channel

/-- The library of channels. `try_send` says whether it took the message. `recv`
gives the message that it returns at once, if there is one, and `close` is what
the drop of the receiver does. -/
structure Mpsc where
  Chan : Type
  channel : Nat → Chan
  try_send : Chan → Bytes → Chan × Bool
  recv : Chan → Chan × Option Bytes
  close : Chan → Chan

namespace Mpsc

/-- The channels are bounded queues, as they are documented. -/
structure Documented (M : Mpsc) (view : M.Chan → Channel) : Prop where
  channel : ∀ n, 0 < n → view (M.channel n) = { capacity := n, waiting := [], closed := false }
  try_send : ∀ c msg, (view (M.try_send c msg).1, (M.try_send c msg).2) = (view c).try_send msg
  recv : ∀ c, (view (M.recv c).1, (M.recv c).2) = (view c).recv
  close : ∀ c, (view (M.close c)).closed = true

/-- What comes out of a channel in `n` calls of `recv`. -/
def drain (M : Mpsc) : M.Chan → Nat → List Bytes
  | _, 0 => []
  | c, n + 1 =>
    match M.recv c with
    | (_, none) => []
    | (c, some msg) => msg :: M.drain c n

/-- The queues themselves. -/
def queues : Mpsc where
  Chan := Channel
  channel n := { capacity := n, waiting := [], closed := false }
  try_send := Channel.try_send
  recv := Channel.recv
  close c := { c with closed := true }

end Mpsc

/-! ## The transport -/

/-- A receiver that was handed out, and what came out of it so far. -/
structure Subscription (M : Mpsc) where
  topic : String
  chan : M.Chan
  received : List Bytes
  unsubscribed : Bool
  dropped : Bool

/-- A sender is the number of its subscription. -/
structure TransportState where
  subscribers : String → Option (List Nat)
  history : String → Option (List Bytes)

/-- The transport, the subscriptions that it handed out, and all that was
published, oldest first. -/
structure InMemoryTransport (M : Mpsc) where
  inner : TransportState
  subscriptions : List (Subscription M)
  published : List (String × Bytes)

/-- Each operation on the transport holds its lock to the end. -/
inductive TransportOp
  | publish (topic : String) (payload : Bytes)
  | subscribe (topic : String)
  | unsubscribe (topic : String)
  | recv (k : Nat)
  | drop (k : Nat)

variable {M : Mpsc}

namespace Subscription

def send (data : Bytes) (sub : Subscription M) : Subscription M :=
  { sub with chan := (M.try_send sub.chan data).1 }

def takes (data : Bytes) (sub : Subscription M) : Bool := (M.try_send sub.chan data).2

/-- A dropped receiver is gone. -/
def recv (sub : Subscription M) : Subscription M :=
  if sub.dropped then sub
  else
    let r := M.recv sub.chan
    { sub with chan := r.1, received := sub.received ++ r.2.toList }

def drop (sub : Subscription M) : Subscription M :=
  { sub with chan := M.close sub.chan, dropped := true }

def unsubscribe (topic : String) (sub : Subscription M) : Subscription M :=
  if sub.topic = topic then { sub with unsubscribed := true } else sub

/-- Neither unsubscribed nor dropped. -/
def Live (sub : Subscription M) : Prop := sub.unsubscribed = false ∧ sub.dropped = false

instance (sub : Subscription M) : Decidable sub.Live := inferInstanceAs (Decidable (_ ∧ _))

end Subscription

namespace InMemoryTransport

def new : InMemoryTransport M :=
  { inner := { subscribers := fun _ => none, history := fun _ => none }
    subscriptions := []
    published := [] }

/-- `retain` with the send as its test: the channels after it, and the senders
that stay. -/
def retain_sent (data : Bytes) :
    List (Subscription M) → List Nat → List (Subscription M) × List Nat
  | subs, [] => (subs, [])
  | subs, tx :: txs =>
    let r := retain_sent data (subs.modify tx (Subscription.send data)) txs
    (r.1, if (subs[tx]?).any (Subscription.takes data) then tx :: r.2 else r.2)

def publish (t : InMemoryTransport M) (topic : String) (payload : Bytes) : InMemoryTransport M :=
  let history := Function.update t.inner.history topic
    (some ((t.inner.history topic).getD [] ++ [payload]))
  let published := t.published ++ [(topic, payload)]
  match t.inner.subscribers topic with
  | none => { t with inner := { t.inner with history }, published }
  | some subs =>
    let r := retain_sent payload t.subscriptions subs
    { inner := { subscribers := Function.update t.inner.subscribers topic (some r.2), history }
      subscriptions := r.1
      published }

/-- The errors of the sends are ignored. -/
def replay (chan : M.Chan) (history : List Bytes) : M.Chan :=
  history.foldl (fun chan msg => (M.try_send chan msg).1) chan

def subscribe (t : InMemoryTransport M) (topic : String) : InMemoryTransport M :=
  let chan :=
    match t.inner.history topic with
    | none => M.channel 1024
    | some history => replay (M.channel 1024) history
  let tx := t.subscriptions.length
  { t with
    inner.subscribers := Function.update t.inner.subscribers topic
      (some ((t.inner.subscribers topic).getD [] ++ [tx]))
    subscriptions := t.subscriptions ++
      [{ topic, chan, received := [], unsubscribed := false, dropped := false }] }

/-- All the senders of the topic go. -/
def unsubscribe (t : InMemoryTransport M) (topic : String) : InMemoryTransport M :=
  { t with
    inner.subscribers := Function.update t.inner.subscribers topic none
    subscriptions := t.subscriptions.map (Subscription.unsubscribe topic) }

def step (t : InMemoryTransport M) : TransportOp → Except Empty (InMemoryTransport M × List Empty)
  | .publish topic payload => .ok (t.publish topic payload, [])
  | .subscribe topic => .ok (t.subscribe topic, [])
  | .unsubscribe topic => .ok (t.unsubscribe topic, [])
  | .recv k => .ok ({ t with subscriptions := t.subscriptions.modify k Subscription.recv }, [])
  | .drop k => .ok ({ t with subscriptions := t.subscriptions.modify k Subscription.drop }, [])

/-- The messages of a topic, oldest first. -/
def publishedTo (t : InMemoryTransport M) (topic : String) : List Bytes :=
  (t.published.filter fun p => p.1 = topic).map Prod.snd

/-- What a live subscriber received and what comes out of its channel, until a
call of `recv` finds nothing, are the messages of its topic. -/
def Delivered (t : InMemoryTransport M) : Prop :=
  ∀ sub ∈ t.subscriptions, sub.Live →
    sub.received ++ M.drain sub.chan ((t.publishedTo sub.topic).length + 1) =
      t.publishedTo sub.topic

/-- The messages of the topic fit into a new channel, and one more fits into the
channel of each of its live subscribers. -/
def Fits (t : InMemoryTransport M) : TransportOp → Prop
  | .publish topic _ =>
    ∀ sub ∈ t.subscriptions, sub.Live → sub.topic = topic →
      (t.publishedTo topic).length < sub.received.length + 1024
  | .subscribe topic => (t.publishedTo topic).length ≤ 1024
  | _ => True

instance (t : InMemoryTransport M) : ∀ op, Decidable (t.Fits op)
  | .publish topic _ => inferInstanceAs (Decidable (∀ sub ∈ t.subscriptions, sub.Live →
      sub.topic = topic → (t.publishedTo topic).length < sub.received.length + 1024))
  | .subscribe topic => inferInstanceAs (Decidable ((t.publishedTo topic).length ≤ 1024))
  | .unsubscribe _ => instDecidableTrue
  | .recv _ => instDecidableTrue
  | .drop _ => instDecidableTrue

end InMemoryTransport

/-! ## One channel -/

variable {view : M.Chan → Channel}

namespace Mpsc.Documented

/-- An open channel with room takes the message. -/
theorem sent (hM : M.Documented view) {c : M.Chan} (hopen : (view c).closed = false)
    (hroom : (view c).waiting.length < (view c).capacity) (msg : Bytes) :
    view (M.try_send c msg).1 = { view c with waiting := (view c).waiting ++ [msg] } ∧
      (M.try_send c msg).2 = true := by
  have hsend := hM.try_send c msg
  have htaken : ¬ ((view c).closed || decide ((view c).capacity ≤ (view c).waiting.length)) := by
    simpa [hopen] using hroom
  rw [Channel.try_send, if_neg htaken] at hsend
  exact ⟨congrArg Prod.fst hsend, congrArg Prod.snd hsend⟩

/-- A full channel stays as it is. -/
theorem not_sent (hM : M.Documented view) {c : M.Chan}
    (hfull : (view c).capacity ≤ (view c).waiting.length) (msg : Bytes) :
    view (M.try_send c msg).1 = view c ∧ (M.try_send c msg).2 = false := by
  have hsend := hM.try_send c msg
  rw [Channel.try_send, decide_eq_true hfull, Bool.or_true, if_pos rfl] at hsend
  exact ⟨congrArg Prod.fst hsend, congrArg Prod.snd hsend⟩

theorem recv_view (hM : M.Documented view) (c : M.Chan) :
    view (M.recv c).1 = { view c with waiting := (view c).waiting.tail } :=
  congrArg Prod.fst (hM.recv c)

theorem recv_head (hM : M.Documented view) (c : M.Chan) :
    (M.recv c).2 = (view c).waiting.head? :=
  congrArg Prod.snd (hM.recv c)

theorem drain_eq (hM : M.Documented view) (c : M.Chan) (n : Nat) :
    M.drain c n = (view c).waiting.take n := by
  induction n generalizing c with
  | zero => rfl
  | succ n ih =>
    have hview := hM.recv_view c
    have hgot := hM.recv_head c
    rw [Mpsc.drain]
    generalize M.recv c = r at hview hgot ⊢
    obtain ⟨c', got⟩ := r
    cases hw : (view c).waiting with
    | nil =>
      obtain rfl : got = none := by simpa [hw] using hgot
      rfl
    | cons msg rest =>
      obtain rfl : got = some msg := by simpa [hw] using hgot
      have hrest : (view c').waiting = rest := by simp [hview, hw]
      simp only [List.take_succ_cons, ih, hrest]

/-- A replay takes what fits. -/
theorem replay_view (hM : M.Documented view) (history : List Bytes) {c : M.Chan}
    (hopen : (view c).closed = false) :
    view (InMemoryTransport.replay c history) =
      { view c with
        waiting := (view c).waiting ++
          history.take ((view c).capacity - (view c).waiting.length) } := by
  induction history generalizing c with
  | nil => simp [InMemoryTransport.replay]
  | cons msg history ih =>
    have hcons : InMemoryTransport.replay c (msg :: history) =
        InMemoryTransport.replay (M.try_send c msg).1 history := rfl
    by_cases hroom : (view c).waiting.length < (view c).capacity
    · obtain ⟨hview, -⟩ := hM.sent hopen hroom msg
      have hone : (view c).capacity - (view c).waiting.length =
          ((view c).capacity - ((view c).waiting.length + 1)) + 1 := by omega
      rw [hcons, ih (by rw [hview]; exact hopen), hview, hone]
      simp
    · have hfull : (view c).capacity ≤ (view c).waiting.length := by omega
      obtain ⟨hview, -⟩ := hM.not_sent hfull msg
      rw [hcons, ih (by rw [hview]; exact hopen), hview, Nat.sub_eq_zero_of_le hfull]
      simp

end Mpsc.Documented

/-! ## The sends of one publish -/

namespace InMemoryTransport

/-- Each of the senders sends once. -/
theorem retain_sent_get (data : Bytes) {txs : List Nat} (hnodup : txs.Nodup)
    (subs : List (Subscription M)) (k : Nat) :
    (retain_sent data subs txs).1[k]? =
      if k ∈ txs then (subs[k]?).map (Subscription.send data) else subs[k]? := by
  induction txs generalizing subs with
  | nil => simp [retain_sent]
  | cons tx txs ih =>
    obtain ⟨hnot, hrest⟩ := List.nodup_cons.mp hnodup
    simp only [retain_sent, ih hrest, List.getElem?_modify, List.mem_cons]
    by_cases hk : k = tx
    · subst hk
      simp [hnot]
    · simp [hk, Ne.symm hk]

/-- The senders stay whose channels took the message. -/
theorem mem_retain_sent (data : Bytes) {txs : List Nat} (hnodup : txs.Nodup)
    (subs : List (Subscription M)) (k : Nat) :
    k ∈ (retain_sent data subs txs).2 ↔
      k ∈ txs ∧ (subs[k]?).any (Subscription.takes data) = true := by
  induction txs generalizing subs with
  | nil => simp [retain_sent]
  | cons tx txs ih =>
    obtain ⟨hnot, hrest⟩ := List.nodup_cons.mp hnodup
    have hlater : k ∈ (retain_sent data (subs.modify tx (Subscription.send data)) txs).2 ↔
        k ∈ txs ∧ (subs[k]?).any (Subscription.takes data) = true := by
      rw [ih hrest]
      apply and_congr_right
      intro hk
      have hne : tx ≠ k := fun heq => hnot (heq ▸ hk)
      rw [List.getElem?_modify_ne _ _ hne]
    rw [retain_sent]
    by_cases htakes : (subs[tx]?).any (Subscription.takes data) = true
    · simp only [if_pos htakes, List.mem_cons, hlater]
      constructor
      · rintro (rfl | ⟨hk, hsent⟩)
        · exact ⟨.inl rfl, htakes⟩
        · exact ⟨.inr hk, hsent⟩
      · rintro ⟨rfl | hk, hsent⟩
        · exact .inl rfl
        · exact .inr ⟨hk, hsent⟩
    · simp only [if_neg htakes, List.mem_cons, hlater]
      constructor
      · rintro ⟨hk, hsent⟩
        exact ⟨.inr hk, hsent⟩
      · rintro ⟨rfl | hk, hsent⟩
        · exact absurd hsent htakes
        · exact ⟨hk, hsent⟩

theorem retain_sent_length (data : Bytes) (txs : List Nat) (subs : List (Subscription M)) :
    (retain_sent data subs txs).1.length = subs.length := by
  induction txs generalizing subs with
  | nil => rfl
  | cons tx txs ih => rw [retain_sent, ih, List.length_modify]

theorem retain_sent_sublist (data : Bytes) (txs : List Nat) (subs : List (Subscription M)) :
    ((retain_sent data subs txs).2).Sublist txs := by
  induction txs generalizing subs with
  | nil => exact .slnil
  | cons tx txs ih =>
    rw [retain_sent]
    split
    · exact (ih _).cons_cons tx
    · exact (ih _).cons tx

end InMemoryTransport

/-! ## What holds in every state -/

/-- What came out of the channel, and what waits in it. -/
def Subscription.taken (view : M.Chan → Channel) (sub : Subscription M) : List Bytes :=
  sub.received ++ (view sub.chan).waiting

/-- A live subscriber, and the messages of its topic. It has at most as many of
them, in order, and fewer when its sender is gone. -/
structure Follows (view : M.Chan → Channel) (published : List Bytes) (registered : Prop)
    (sub : Subscription M) : Prop where
  is_open : (view sub.chan).closed = false
  capacity : (view sub.chan).capacity = 1024
  sublist : (sub.taken view).Sublist published
  behind : registered ∨ (sub.taken view).length < published.length

namespace InMemoryTransport

def senders (t : InMemoryTransport M) (topic : String) : List Nat :=
  (t.inner.subscribers topic).getD []

/-- The history is what was published, a sender is one of a subscription to its
topic, and the live subscribers follow. -/
structure Kept (view : M.Chan → Channel) (t : InMemoryTransport M) : Prop where
  history : ∀ topic, (t.inner.history topic).getD [] = t.publishedTo topic
  registered : ∀ topic, ∀ k ∈ t.senders topic, ∀ sub, t.subscriptions[k]? = some sub →
    sub.topic = topic
  in_use : ∀ topic, ∀ k ∈ t.senders topic, k < t.subscriptions.length
  nodup : ∀ topic, (t.senders topic).Nodup
  follows : ∀ k sub, t.subscriptions[k]? = some sub → sub.Live →
    Follows view (t.publishedTo sub.topic) (k ∈ t.senders sub.topic) sub

theorem Kept.new : Kept view (new : InMemoryTransport M) where
  history _ := rfl
  registered _ _ hk := nomatch hk
  in_use _ _ hk := nomatch hk
  nodup _ := List.nodup_nil
  follows _ _ hsub := nomatch hsub

/-- The subscriber has every message of its topic. -/
def Complete (view : M.Chan → Channel) (t : InMemoryTransport M) : Prop :=
  ∀ (k : Nat) sub, t.subscriptions[k]? = some sub → sub.Live →
    sub.taken view = t.publishedTo sub.topic

/-- The channel of a follower holds no more than the messages of its topic. -/
theorem Kept.delivered_iff (hM : M.Documented view) {t : InMemoryTransport M}
    (h : t.Kept view) : t.Delivered ↔ t.Complete view := by
  have hread : ∀ (k : Nat) sub, t.subscriptions[k]? = some sub → sub.Live →
      sub.received ++ M.drain sub.chan ((t.publishedTo sub.topic).length + 1) =
        sub.taken view := by
    intro k sub hsub hlive
    have hle := (h.follows k sub hsub hlive).sublist.length_le
    rw [Subscription.taken, List.length_append] at hle
    rw [hM.drain_eq, List.take_of_length_le (by omega), Subscription.taken]
  constructor
  · intro hd k sub hsub hlive
    rw [← hread k sub hsub hlive]
    exact hd sub (List.mem_of_getElem? hsub) hlive
  · intro hc sub hmem hlive
    obtain ⟨k, hsub⟩ := List.mem_iff_getElem?.mp hmem
    rw [hread k sub hsub hlive]
    exact hc k sub hsub hlive

end InMemoryTransport

/-! ## The steps of a subscriber -/

/-- The subscriber goes on as it was, or is live no more. -/
structure Subscription.Same (view : M.Chan → Channel) (sub sub' : Subscription M) : Prop where
  topic : sub'.topic = sub.topic
  live : sub'.Live → sub.Live
  closed : sub'.Live → (view sub'.chan).closed = (view sub.chan).closed
  capacity : sub'.Live → (view sub'.chan).capacity = (view sub.chan).capacity
  taken : sub'.Live → sub'.taken view = sub.taken view

theorem Subscription.Same.refl (sub : Subscription M) : sub.Same view sub :=
  ⟨rfl, id, fun _ => rfl, fun _ => rfl, fun _ => rfl⟩

/-- What waits first comes out next. -/
theorem Subscription.recv_same (hM : M.Documented view) (sub : Subscription M) :
    sub.Same view sub.recv := by
  rw [Subscription.recv]
  split
  · exact .refl sub
  · have hview := hM.recv_view sub.chan
    have htaken : sub.received ++ (M.recv sub.chan).2.toList ++
        (view (M.recv sub.chan).1).waiting = sub.received ++ (view sub.chan).waiting := by
      rw [hview, hM.recv_head, List.append_assoc]
      cases (view sub.chan).waiting with
      | nil => rfl
      | cons msg rest => rfl
    have hclosed : (view (M.recv sub.chan).1).closed = (view sub.chan).closed := by rw [hview]
    have hcapacity : (view (M.recv sub.chan).1).capacity = (view sub.chan).capacity := by
      rw [hview]
    exact ⟨rfl, id, fun _ => hclosed, fun _ => hcapacity, fun _ => htaken⟩

theorem Subscription.drop_same (sub : Subscription M) : sub.Same view sub.drop := by
  have hgone : ¬ sub.drop.Live := fun hlive => Bool.noConfusion hlive.2
  exact ⟨rfl, fun h => absurd h hgone, fun h => absurd h hgone, fun h => absurd h hgone,
    fun h => absurd h hgone⟩

theorem Subscription.unsubscribe_same (topic : String) (sub : Subscription M) :
    sub.Same view (sub.unsubscribe topic) := by
  rw [Subscription.unsubscribe]
  split
  · have hgone : ¬ ({ sub with unsubscribed := true } : Subscription M).Live :=
      fun hlive => Bool.noConfusion hlive.1
    exact ⟨rfl, fun h => absurd h hgone, fun h => absurd h hgone, fun h => absurd h hgone,
      fun h => absurd h hgone⟩
  · exact .refl sub

theorem Follows.same {published : List Bytes} {registered : Prop} {sub sub' : Subscription M}
    (h : Follows view published registered sub) (hsame : sub.Same view sub')
    (hlive : sub'.Live) : Follows view published registered sub' where
  is_open := (hsame.closed hlive).trans h.is_open
  capacity := (hsame.capacity hlive).trans h.capacity
  sublist := hsame.taken hlive ▸ h.sublist
  behind := hsame.taken hlive ▸ h.behind

namespace InMemoryTransport

/-- A step that publishes nothing and hands nothing out. -/
structure Frame (view : M.Chan → Channel) (t t' : InMemoryTransport M) : Prop where
  history : t'.inner.history = t.inner.history
  published : t'.published = t.published
  length : t'.subscriptions.length = t.subscriptions.length
  senders : ∀ topic, t'.senders topic = t.senders topic ∨ t'.senders topic = []
  same : ∀ (k : Nat) sub', t'.subscriptions[k]? = some sub' →
    ∃ sub, t.subscriptions[k]? = some sub ∧ sub.Same view sub' ∧
      (sub'.Live → t'.senders sub.topic = t.senders sub.topic)

theorem Frame.publishedTo {t t' : InMemoryTransport M} (h : Frame view t t') (topic : String) :
    t'.publishedTo topic = t.publishedTo topic := by
  rw [InMemoryTransport.publishedTo, h.published, InMemoryTransport.publishedTo]

theorem Frame.mem_senders {t t' : InMemoryTransport M} (h : Frame view t t') {topic : String}
    {k : Nat} (hk : k ∈ t'.senders topic) : k ∈ t.senders topic := by
  rcases h.senders topic with heq | hnil
  · exact heq ▸ hk
  · rw [hnil] at hk
    cases hk

theorem Frame.kept {t t' : InMemoryTransport M} (h : Frame view t t') (ht : t.Kept view) :
    t'.Kept view where
  history topic := by rw [h.history, h.publishedTo, ht.history]
  registered topic k hk sub' hsub' := by
    obtain ⟨sub, hsub, hsame, -⟩ := h.same k sub' hsub'
    rw [hsame.topic]
    exact ht.registered topic k (h.mem_senders hk) sub hsub
  in_use topic k hk := h.length ▸ ht.in_use topic k (h.mem_senders hk)
  nodup topic := by
    rcases h.senders topic with heq | hnil
    · exact heq ▸ ht.nodup topic
    · exact hnil ▸ List.nodup_nil
  follows k sub' hsub' hlive := by
    obtain ⟨sub, hsub, hsame, hsenders⟩ := h.same k sub' hsub'
    rw [hsame.topic, h.publishedTo, hsenders hlive]
    exact (ht.follows k sub hsub (hsame.live hlive)).same hsame hlive

theorem Frame.complete {t t' : InMemoryTransport M} (h : Frame view t t')
    (ht : t.Complete view) : t'.Complete view := by
  intro k sub' hsub' hlive
  obtain ⟨sub, hsub, hsame, -⟩ := h.same k sub' hsub'
  rw [hsame.taken hlive, hsame.topic, h.publishedTo]
  exact ht k sub hsub (hsame.live hlive)

/-- A change of one subscriber that lets it go on is such a step. -/
theorem Frame.modify {f : Subscription M → Subscription M}
    (hf : ∀ sub : Subscription M, sub.Same view (f sub)) (t : InMemoryTransport M) (k : Nat) :
    Frame view t { t with subscriptions := t.subscriptions.modify k f } where
  history := rfl
  published := rfl
  length := List.length_modify ..
  senders _ := .inl rfl
  same j sub' hsub' := by
    rw [List.getElem?_modify] at hsub'
    obtain ⟨sub, hsub, rfl⟩ := Option.map_eq_some_iff.mp hsub'
    refine ⟨sub, hsub, ?_, fun _ => rfl⟩
    split
    · exact hf sub
    · exact .refl sub

/-- The senders of the topic go with its live subscribers. -/
theorem unsubscribe_frame (t : InMemoryTransport M) (topic : String) :
    Frame view t (t.unsubscribe topic) where
  history := rfl
  published := rfl
  length := List.length_map ..
  senders other := by
    by_cases hother : other = topic
    · subst hother
      exact .inr (by simp [senders, unsubscribe])
    · exact .inl (by simp [senders, unsubscribe, hother])
  same k sub' hsub' := by
    rw [unsubscribe, List.getElem?_map] at hsub'
    obtain ⟨sub, hsub, rfl⟩ := Option.map_eq_some_iff.mp hsub'
    refine ⟨sub, hsub, sub.unsubscribe_same topic, fun hlive => ?_⟩
    have hother : sub.topic ≠ topic := by
      intro heq
      rw [Subscription.unsubscribe, if_pos heq] at hlive
      exact Bool.noConfusion hlive.1
    simp [senders, unsubscribe, hother]

/-! ## A new subscriber -/

theorem subscribe_senders (t : InMemoryTransport M) (topic other : String) :
    (t.subscribe topic).senders other =
      if other = topic then t.senders other ++ [t.subscriptions.length]
      else t.senders other := by
  by_cases hother : other = topic
  · subst hother
    simp [senders, subscribe]
  · simp [senders, subscribe, hother]

theorem mem_subscribe_senders {t : InMemoryTransport M} {topic other : String} {k : Nat}
    (hk : k ∈ (t.subscribe topic).senders other) :
    k ∈ t.senders other ∨ k = t.subscriptions.length ∧ other = topic := by
  rw [subscribe_senders] at hk
  split at hk
  next heq =>
    rcases List.mem_append.mp hk with hold | hnew
    · exact .inl hold
    · exact .inr ⟨List.mem_singleton.mp hnew, heq⟩
  · exact .inl hk

/-- The new channel holds the first messages of the topic, as many as fit. -/
theorem Kept.subscribe_get (hM : M.Documented view) {t : InMemoryTransport M} (h : t.Kept view)
    (topic : String) :
    ∃ chan, view chan =
        { capacity := 1024, waiting := (t.publishedTo topic).take 1024, closed := false } ∧
      (t.subscribe topic).subscriptions = t.subscriptions ++
        [{ topic, chan, received := [], unsubscribed := false, dropped := false }] := by
  have hnew := hM.channel 1024 (by omega)
  refine ⟨_, ?_, rfl⟩
  have hhistory := h.history topic
  cases hfound : t.inner.history topic with
  | none =>
    rw [hfound] at hhistory
    simp only [hnew, ← hhistory]
    rfl
  | some history =>
    rw [hfound] at hhistory
    have hopen : (view (M.channel 1024)).closed = false := by rw [hnew]
    simp only [hM.replay_view history hopen, hnew, ← hhistory]
    simp

/-- An index of the longer list is one of the list before, or the new one. -/
theorem getElem?_snoc_cases {α : Type} {l : List α} {a b : α} {k : Nat}
    (h : (l ++ [a])[k]? = some b) : l[k]? = some b ∨ k = l.length ∧ b = a := by
  rcases Nat.lt_trichotomy k l.length with hlt | rfl | hgt
  · rw [List.getElem?_append_left hlt] at h
    exact .inl h
  · rw [List.getElem?_concat_length] at h
    exact .inr ⟨rfl, (Option.some.inj h).symm⟩
  · rw [List.getElem?_eq_none (by rw [List.length_append]; exact hgt)] at h
    cases h

theorem Kept.subscribe (hM : M.Documented view) {t : InMemoryTransport M} (h : t.Kept view)
    (topic : String) : (t.subscribe topic).Kept view := by
  obtain ⟨chan, hview, hsubs⟩ := h.subscribe_get hM topic
  have hlength : (t.subscribe topic).subscriptions.length = t.subscriptions.length + 1 := by
    rw [hsubs, List.length_append, List.length_singleton]
  refine ⟨h.history, fun other k hk sub hsub => ?_, fun other k hk => ?_, fun other => ?_,
    fun k sub hsub hlive => ?_⟩
  · rw [hsubs] at hsub
    rcases getElem?_snoc_cases hsub with hold | ⟨rfl, rfl⟩
    · rcases mem_subscribe_senders hk with hk | ⟨rfl, -⟩
      · exact h.registered other k hk sub hold
      · rw [List.getElem?_eq_none (Nat.le_refl _)] at hold
        cases hold
    · rcases mem_subscribe_senders hk with hk | ⟨-, rfl⟩
      · exact absurd (h.in_use other _ hk) (Nat.lt_irrefl _)
      · rfl
  · rw [hlength]
    rcases mem_subscribe_senders hk with hk | ⟨rfl, -⟩
    · exact Nat.lt_succ_of_lt (h.in_use other k hk)
    · exact Nat.lt_succ_self _
  · rw [subscribe_senders]
    split
    · refine List.nodup_append.mpr ⟨h.nodup other, List.pairwise_singleton _ _, ?_⟩
      intro k hk j hj heq
      have := h.in_use other k hk
      rw [heq, List.mem_singleton.mp hj] at this
      exact Nat.lt_irrefl _ this
    · exact h.nodup other
  · rw [hsubs] at hsub
    rcases getElem?_snoc_cases hsub with hold | ⟨rfl, rfl⟩
    · have hbefore := h.follows k sub hold hlive
      refine ⟨hbefore.is_open, hbefore.capacity, hbefore.sublist, ?_⟩
      apply hbefore.behind.imp_left
      intro hk
      rw [subscribe_senders]
      split
      · exact List.mem_append_left _ hk
      · exact hk
    · refine ⟨by rw [hview], by rw [hview], ?_, .inl ?_⟩
      · rw [Subscription.taken, hview]
        exact List.take_sublist 1024 _
      · rw [subscribe_senders, if_pos rfl]
        exact List.mem_append_right _ (List.mem_singleton.mpr rfl)

theorem Kept.subscribe_complete_iff (hM : M.Documented view) {t : InMemoryTransport M}
    (h : t.Kept view) (hc : t.Complete view) (topic : String) :
    (t.subscribe topic).Complete view ↔ (t.publishedTo topic).length ≤ 1024 := by
  obtain ⟨chan, hview, hsubs⟩ := h.subscribe_get hM topic
  have htaken : (t.publishedTo topic).take 1024 = t.publishedTo topic ↔
      (t.publishedTo topic).length ≤ 1024 := List.take_eq_self_iff _
  constructor
  · intro hafter
    have hlast := hafter t.subscriptions.length
      { topic, chan, received := [], unsubscribed := false, dropped := false }
      (by rw [hsubs, List.getElem?_concat_length]) ⟨rfl, rfl⟩
    rw [Subscription.taken, hview] at hlast
    exact htaken.mp hlast
  · intro hfits k sub hsub hlive
    rw [hsubs] at hsub
    rcases getElem?_snoc_cases hsub with hold | ⟨rfl, rfl⟩
    · exact hc k sub hold hlive
    · rw [Subscription.taken, hview]
      exact htaken.mpr hfits

/-! ## A message that is published -/

theorem publish_publishedTo (t : InMemoryTransport M) (topic other : String) (payload : Bytes) :
    (t.publish topic payload).publishedTo other =
      if other = topic then t.publishedTo other ++ [payload] else t.publishedTo other := by
  have hpublished : (t.publish topic payload).published = t.published ++ [(topic, payload)] := by
    rw [publish]
    split <;> rfl
  rw [publishedTo, hpublished, List.filter_append, List.map_append, ← publishedTo]
  by_cases hother : other = topic
  · simp [hother]
  · simp [hother, Ne.symm hother]

theorem publish_history (t : InMemoryTransport M) (topic other : String) (payload : Bytes) :
    ((t.publish topic payload).inner.history other).getD [] =
      if other = topic then (t.inner.history other).getD [] ++ [payload]
      else (t.inner.history other).getD [] := by
  have hhistory : (t.publish topic payload).inner.history = Function.update t.inner.history topic
      (some ((t.inner.history topic).getD [] ++ [payload])) := by
    rw [publish]
    split <;> rfl
  rw [hhistory]
  by_cases hother : other = topic
  · subst hother
    simp
  · simp [hother]

/-- Each sender of the topic sends once. -/
theorem Kept.publish_get {t : InMemoryTransport M} (h : t.Kept view) (topic : String)
    (payload : Bytes) (k : Nat) :
    (t.publish topic payload).subscriptions[k]? =
      if k ∈ t.senders topic then (t.subscriptions[k]?).map (Subscription.send payload)
      else t.subscriptions[k]? := by
  have hnodup := h.nodup topic
  rw [publish]
  cases hfound : t.inner.subscribers topic with
  | none => simp [senders, hfound]
  | some subs =>
    rw [senders, hfound] at hnodup ⊢
    exact retain_sent_get payload hnodup t.subscriptions k

theorem publish_senders (t : InMemoryTransport M) (topic other : String) (payload : Bytes) :
    (t.publish topic payload).senders other =
      if other = topic then (retain_sent payload t.subscriptions (t.senders topic)).2
      else t.senders other := by
  rw [publish]
  cases hfound : t.inner.subscribers topic with
  | none =>
    by_cases hother : other = topic
    · subst hother
      simp [senders, hfound, retain_sent]
    · simp [senders, hother]
  | some subs =>
    by_cases hother : other = topic
    · subst hother
      simp [senders, hfound]
    · simp [senders, hother]

end InMemoryTransport

section send

variable {published : List Bytes} {registered : Prop} {sub : Subscription M}

/-- A follower with room takes the message, and stays registered. -/
theorem Follows.send_room (hM : M.Documented view) (h : Follows view published registered sub)
    (hroom : (view sub.chan).waiting.length < 1024) (payload : Bytes) :
    (sub.send payload).taken view = sub.taken view ++ [payload] ∧ sub.takes payload = true ∧
      Follows view (published ++ [payload]) True (sub.send payload) := by
  have hspace : (view sub.chan).waiting.length < (view sub.chan).capacity := by
    rw [h.capacity]
    exact hroom
  obtain ⟨hview, htakes⟩ := hM.sent h.is_open hspace payload
  have htaken : (sub.send payload).taken view = sub.taken view ++ [payload] := by
    simp only [Subscription.taken, Subscription.send, hview, List.append_assoc]
  refine ⟨htaken, htakes, ?_, ?_, ?_, .inl trivial⟩
  · rw [Subscription.send, hview]
    exact h.is_open
  · rw [Subscription.send, hview]
    exact h.capacity
  · rw [htaken]
    exact h.sublist.append (List.Sublist.refl _)

/-- A full follower misses the message, and is behind from then on. -/
theorem Follows.send_full (hM : M.Documented view) (h : Follows view published registered sub)
    (hfull : 1024 ≤ (view sub.chan).waiting.length) (payload : Bytes) :
    (sub.send payload).taken view = sub.taken view ∧ sub.takes payload = false ∧
      Follows view (published ++ [payload]) False (sub.send payload) := by
  have hnone : (view sub.chan).capacity ≤ (view sub.chan).waiting.length := by
    rw [h.capacity]
    exact hfull
  obtain ⟨hview, htakes⟩ := hM.not_sent hnone payload
  have htaken : (sub.send payload).taken view = sub.taken view := by
    simp only [Subscription.taken, Subscription.send, hview]
  refine ⟨htaken, htakes, ?_, ?_, ?_, .inr ?_⟩
  · rw [Subscription.send, hview]
    exact h.is_open
  · rw [Subscription.send, hview]
    exact h.capacity
  · rw [htaken]
    exact h.sublist.trans (List.sublist_append_left _ _)
  · rw [htaken, List.length_append, List.length_singleton]
    exact Nat.lt_succ_of_le h.sublist.length_le

/-- A follower that is behind stays behind. -/
theorem Follows.miss (h : Follows view published registered sub) (hnot : ¬ registered)
    (payload : Bytes) : Follows view (published ++ [payload]) False sub where
  is_open := h.is_open
  capacity := h.capacity
  sublist := h.sublist.trans (List.sublist_append_left _ _)
  behind := by
    rw [List.length_append, List.length_singleton]
    exact .inr (Nat.lt_succ_of_lt (h.behind.resolve_left hnot))

theorem Follows.imp {registered' : Prop} (h : Follows view published registered sub)
    (himp : registered → registered') : Follows view published registered' sub :=
  { h with behind := h.behind.imp_left himp }

end send

namespace InMemoryTransport

/-- Where a subscriber comes from. -/
theorem Kept.publish_cases {t : InMemoryTransport M} (h : t.Kept view) {topic : String}
    {payload : Bytes} {k : Nat} {sub' : Subscription M}
    (hsub' : (t.publish topic payload).subscriptions[k]? = some sub') :
    ∃ sub, t.subscriptions[k]? = some sub ∧ sub'.topic = sub.topic ∧ (sub'.Live → sub.Live) ∧
      sub' = if k ∈ t.senders topic then sub.send payload else sub := by
  rw [h.publish_get] at hsub'
  split at hsub'
  next hk =>
    obtain ⟨sub, hsub, rfl⟩ := Option.map_eq_some_iff.mp hsub'
    exact ⟨sub, hsub, rfl, id, (if_pos hk).symm⟩
  next hk => exact ⟨sub', hsub', rfl, id, (if_neg hk).symm⟩

theorem Kept.publish (hM : M.Documented view) {t : InMemoryTransport M} (h : t.Kept view)
    (topic : String) (payload : Bytes) : (t.publish topic payload).Kept view := by
  have hlength : (t.publish topic payload).subscriptions.length = t.subscriptions.length := by
    rw [InMemoryTransport.publish]
    split
    · rfl
    · exact retain_sent_length ..
  have hsenders : ∀ other k, k ∈ (t.publish topic payload).senders other →
      k ∈ t.senders other := by
    intro other k hk
    rw [publish_senders] at hk
    split at hk
    next heq => exact heq ▸ (retain_sent_sublist payload _ t.subscriptions).subset hk
    · exact hk
  refine ⟨fun other => ?_, fun other k hk sub' hsub' => ?_, fun other k hk => ?_,
    fun other => ?_, fun k sub' hsub' hlive => ?_⟩
  · rw [publish_history, publish_publishedTo, h.history]
  · obtain ⟨sub, hsub, htopic, -⟩ := h.publish_cases hsub'
    exact htopic ▸ h.registered other k (hsenders other k hk) sub hsub
  · exact hlength ▸ h.in_use other k (hsenders other k hk)
  · rw [publish_senders]
    split
    · exact (h.nodup topic).sublist (retain_sent_sublist payload _ t.subscriptions)
    · exact h.nodup other
  · obtain ⟨sub, hsub, htopic, hbefore, hsub'⟩ := h.publish_cases hsub'
    have hfollows := h.follows k sub hsub (hbefore hlive)
    rw [htopic, publish_publishedTo, publish_senders]
    by_cases hother : sub.topic = topic
    · rw [if_pos hother, if_pos hother]
      subst hother
      by_cases hk : k ∈ t.senders sub.topic
      · rw [hsub', if_pos hk]
        by_cases hroom : (view sub.chan).waiting.length < 1024
        · obtain ⟨-, htakes, hnext⟩ := hfollows.send_room hM hroom payload
          refine hnext.imp fun _ => (mem_retain_sent payload (h.nodup _) _ k).mpr ⟨hk, ?_⟩
          rw [hsub]
          exact htakes
        · obtain ⟨-, -, hnext⟩ := hfollows.send_full hM (Nat.le_of_not_lt hroom) payload
          exact hnext.imp False.elim
      · rw [hsub', if_neg hk]
        exact (hfollows.miss hk payload).imp False.elim
    · have hk : k ∉ t.senders topic := fun hk => hother (h.registered topic k hk sub hsub)
      rw [if_neg hother, if_neg hother, hsub', if_neg hk]
      exact hfollows

/-- What waits is what was published and not received. -/
theorem Complete.length_eq {t : InMemoryTransport M} (hc : t.Complete view) {k : Nat}
    {sub : Subscription M} (hsub : t.subscriptions[k]? = some sub) (hlive : sub.Live) :
    (t.publishedTo sub.topic).length = sub.received.length + (view sub.chan).waiting.length := by
  rw [← hc k sub hsub hlive, Subscription.taken, List.length_append]

theorem Kept.sender_of_complete {t : InMemoryTransport M} (h : t.Kept view)
    (hc : t.Complete view) {k : Nat} {sub : Subscription M}
    (hsub : t.subscriptions[k]? = some sub) (hlive : sub.Live) : k ∈ t.senders sub.topic := by
  apply (h.follows k sub hsub hlive).behind.resolve_right
  rw [hc k sub hsub hlive]
  exact Nat.lt_irrefl _

/-- A complete subscriber takes the message if it has room. -/
theorem Kept.publish_complete_iff (hM : M.Documented view) {t : InMemoryTransport M}
    (h : t.Kept view) (hc : t.Complete view) (topic : String) (payload : Bytes) :
    (t.publish topic payload).Complete view ↔ t.Fits (.publish topic payload) := by
  constructor
  · intro hafter sub hmem hlive htopic
    obtain ⟨k, hsub⟩ := List.mem_iff_getElem?.mp hmem
    subst htopic
    have hk := h.sender_of_complete hc hsub hlive
    have hnext := hafter k (sub.send payload)
      (by rw [h.publish_get, if_pos hk, hsub, Option.map_some]) hlive
    by_contra hno
    have hlength := hc.length_eq hsub hlive
    obtain ⟨htaken, -, -⟩ :=
      (h.follows k sub hsub hlive).send_full hM (by omega) payload
    have htopic : (sub.send payload).topic = sub.topic := rfl
    rw [htaken, htopic, publish_publishedTo, if_pos rfl, hc k sub hsub hlive] at hnext
    have := congrArg List.length hnext
    rw [List.length_append, List.length_singleton] at this
    omega
  · intro hfits k sub' hsub' hlive
    obtain ⟨sub, hsub, htopic, hbefore, hsub'⟩ := h.publish_cases hsub'
    have hlive := hbefore hlive
    rw [htopic, publish_publishedTo, hsub']
    by_cases hother : sub.topic = topic
    · have hk := h.sender_of_complete hc hsub hlive
      have hroom := hfits sub (List.mem_of_getElem? hsub) hlive hother
      subst hother
      have hlength := hc.length_eq hsub hlive
      obtain ⟨htaken, -, -⟩ :=
        (h.follows k sub hsub hlive).send_room hM (by omega) payload
      rw [if_pos hk, if_pos rfl, htaken, hc k sub hsub hlive]
    · have hk : k ∉ t.senders topic := fun hk => hother (h.registered topic k hk sub hsub)
      rw [if_neg hk, if_neg hother]
      exact hc k sub hsub hlive

/-! ## Every run -/

theorem Kept.step (hM : M.Documented view) {t : InMemoryTransport M} (h : t.Kept view)
    (op : TransportOp) : ∃ t' out, t.step op = .ok (t', out) ∧ t'.Kept view := by
  cases op with
  | publish topic payload => exact ⟨_, _, rfl, h.publish hM topic payload⟩
  | subscribe topic => exact ⟨_, _, rfl, h.subscribe hM topic⟩
  | unsubscribe topic => exact ⟨_, _, rfl, (unsubscribe_frame t topic).kept h⟩
  | recv k => exact ⟨_, _, rfl, (Frame.modify (Subscription.recv_same hM) t k).kept h⟩
  | drop k => exact ⟨_, _, rfl, (Frame.modify Subscription.drop_same t k).kept h⟩

theorem Kept.step_complete_iff (hM : M.Documented view) {t t' : InMemoryTransport M}
    (h : t.Kept view) (hc : t.Complete view) {op : TransportOp} {out : List Empty}
    (hstep : t.step op = .ok (t', out)) : t'.Complete view ↔ t.Fits op := by
  cases op with
  | publish topic payload =>
    cases hstep
    exact h.publish_complete_iff hM hc topic payload
  | subscribe topic =>
    cases hstep
    exact h.subscribe_complete_iff hM hc topic
  | unsubscribe topic =>
    cases hstep
    exact iff_of_true ((unsubscribe_frame t topic).complete hc) trivial
  | recv k =>
    cases hstep
    exact iff_of_true ((Frame.modify (Subscription.recv_same hM) t k).complete hc) trivial
  | drop k =>
    cases hstep
    exact iff_of_true ((Frame.modify Subscription.drop_same t k).complete hc) trivial

end InMemoryTransport

open InMemoryTransport

/-- No live subscriber gets a message twice or out of order, in any run. -/
theorem no_message_is_doubled (hM : M.Documented view) (ops : List TransportOp) :
    Always step (fun t => ∀ sub ∈ t.subscriptions, sub.Live →
      sub.received.Sublist (t.publishedTo sub.topic)) (new : InMemoryTransport M) ops := by
  intro before after _ t log hrun sub hmem hlive
  have hkept : t.Kept view := by
    refine run_invariant (I := fun _ t => t.Kept view) .new (fun _ t op t' out h hstep => ?_) hrun
    obtain ⟨_, _, hok, hnext⟩ := h.step hM op
    cases hok.symm.trans hstep
    exact hnext
  obtain ⟨k, hsub⟩ := List.mem_iff_getElem?.mp hmem
  exact (List.sublist_append_left _ _).trans (hkept.follows k sub hsub hlive).sublist

/-- Every live subscriber gets every message of its topic, once and in order, as
long as no history is replayed that is longer than a channel, and no message is
published while a channel is full. -/
theorem every_message_is_delivered_iff (M : Mpsc) (view : M.Chan → Channel)
    (hM : M.Documented view) (ops : List TransportOp) :
    Always step Delivered (new : InMemoryTransport M) ops ↔
      Meets step (fun _ t op => t.Fits op) (new : InMemoryTransport M) ops := by
  have hnew : (new : InMemoryTransport M).Kept view := .new
  refine always_iff_meets hnew (fun _ hmem => nomatch hmem) (fun t op h => h.step hM op)
    (fun t op t' out h hd hstep => ?_) ops
  obtain ⟨_, _, hok, hkept⟩ := h.step hM op
  cases hok.symm.trans hstep
  rw [hkept.delivered_iff hM]
  exact h.step_complete_iff hM ((h.delivered_iff hM).mp hd) hstep

theorem queues_documented : Mpsc.queues.Documented id where
  channel _ _ := rfl
  try_send _ _ := rfl
  recv _ := rfl
  close _ := rfl

/-- An early, a late and an unsubscribed subscriber, and one that is dropped. -/
theorem two_subscribers_are_served :
    Always step Delivered (new : InMemoryTransport Mpsc.queues)
      [.subscribe "a", .publish "a" [1], .subscribe "a", .subscribe "b", .publish "b" [2],
        .publish "a" [3], .recv 0, .unsubscribe "b", .publish "b" [4], .drop 0,
        .publish "a" [5], .recv 1, .recv 1] :=
  (every_message_is_delivered_iff Mpsc.queues id queues_documented _).mpr (by decide +kernel)

/-- The history of a topic after `n` messages. -/
theorem run_publish (hM : M.Documented view) (topic : String) (payload : Bytes) (n : Nat) :
    ∃ t : InMemoryTransport M, run step new (List.replicate n (.publish topic payload)) =
      .ok (t, []) ∧ t.Kept view ∧ t.publishedTo topic = List.replicate n payload := by
  induction n with
  | zero => exact ⟨new, rfl, .new, rfl⟩
  | succ n ih =>
    obtain ⟨t, hrun, hkept, hpublished⟩ := ih
    refine ⟨t.publish topic payload, ?_, hkept.publish hM topic payload, ?_⟩
    · rw [List.replicate_succ']
      exact run_snoc_ok hrun rfl
    · rw [publish_publishedTo, if_pos rfl, hpublished, List.replicate_succ']

/-- A subscriber after 1025 messages never gets the last of them. -/
theorem a_long_history_is_cut :
    ¬ Always step Delivered (new : InMemoryTransport Mpsc.queues)
      (List.replicate 1025 (.publish "topic-a" [0x6d]) ++ [.subscribe "topic-a"]) := by
  intro halways
  obtain ⟨t, hrun, hkept, hpublished⟩ := run_publish queues_documented "topic-a" [0x6d] 1025
  have hbefore := halways _ _ rfl t [] hrun
  have hafter := halways _ [] (List.append_nil _).symm (t.subscribe "topic-a") []
    (run_snoc_ok hrun rfl)
  rw [hkept.delivered_iff queues_documented] at hbefore
  rw [(hkept.subscribe queues_documented "topic-a").delivered_iff queues_documented,
    hkept.subscribe_complete_iff queues_documented hbefore, hpublished,
    List.length_replicate] at hafter
  omega

end lmao.transport
