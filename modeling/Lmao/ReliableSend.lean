-- A reliable send (sds/channel.rs). Everything that comes in on the ACK topic
-- waits in one line, and each attempt takes one out of it, whatever it is, so
-- strangers can use the attempts up. A failed publish leaves the call by a way
-- of its own, which does not unsubscribe.
import Lmao.Channel

set_option linter.unusedSectionVars false

namespace lmao.sds

open MessageChannel

/-! ## A line that serves one a turn -/

section Line

variable {α : Type}

/-- The line in turn `n`, when `arrivals n` has joined it. In each turn the
first one is served. -/
def line (arrivals : Nat → List α) : Nat → List α
  | 0 => arrivals 0
  | n + 1 => (line arrivals n).tail ++ arrivals (n + 1)

/-- How many are left from the turns before. -/
def backlog (arrivals : Nat → List α) : Nat → Nat
  | 0 => 0
  | n + 1 => backlog arrivals n + (arrivals n).length - 1

variable {arrivals : Nat → List α} {n q : Nat} {a : α}

theorem line_length (arrivals : Nat → List α) (n : Nat) :
    (line arrivals n).length = backlog arrivals n + (arrivals n).length := by
  induction n with
  | zero => simp [line, backlog]
  | succ n ih => simp [line, backlog, ih]

/-- Whoever stands at place `q` is served in `q` turns. -/
theorem served_after (h : (line arrivals n)[q]? = some a) :
    (line arrivals (n + q)).head? = some a := by
  induction q generalizing n with
  | zero => rwa [Nat.add_zero, List.head?_eq_getElem?]
  | succ q ih =>
    have hnext : (line arrivals (n + 1))[q]? = some a := by
      have htail : (line arrivals n).tail[q]? = some a := by rwa [List.getElem?_tail]
      rw [line, List.getElem?_append_left (List.getElem?_eq_some_iff.mp htail).1, htail]
    rw [Nat.add_succ, ← Nat.succ_add]
    exact ih hnext

/-- Whoever is in the line has joined it, and is served in a turn that the
backlog decides. -/
theorem joined_of_line (h : (line arrivals n)[q]? = some a) :
    ∃ m p, (arrivals m)[p]? = some a ∧ m ≤ n ∧ m + backlog arrivals m + p = n + q := by
  induction n generalizing q with
  | zero => exact ⟨0, q, h, Nat.le_refl _, by simp [backlog]⟩
  | succ n ih =>
    rw [line] at h
    rcases Nat.lt_or_ge q (line arrivals n).tail.length with hlt | hge
    · rw [List.getElem?_append_left hlt, List.getElem?_tail] at h
      obtain ⟨m, p, hjoin, hle, heq⟩ := ih h
      exact ⟨m, p, hjoin, Nat.le_succ_of_le hle, by omega⟩
    · rw [List.getElem?_append_right hge] at h
      refine ⟨n + 1, _, h, Nat.le_refl _, ?_⟩
      rw [List.length_tail, line_length] at hge ⊢
      rw [backlog]
      omega

/-- The turn in which one is served, from when it joined. -/
theorem served_iff {k : Nat} :
    (line arrivals k).head? = some a ↔
      ∃ m p, (arrivals m)[p]? = some a ∧ m + backlog arrivals m + p = k := by
  constructor
  · intro h
    rw [List.head?_eq_getElem?] at h
    obtain ⟨m, p, hjoin, -, heq⟩ := joined_of_line h
    exact ⟨m, p, hjoin, heq⟩
  · rintro ⟨m, p, hjoin, rfl⟩
    have hplace : (line arrivals m)[backlog arrivals m + p]? = some a := by
      cases m with
      | zero => simpa [line, backlog] using hjoin
      | succ m =>
        rw [line, List.getElem?_append_right]
        · rw [List.length_tail, line_length, backlog, Nat.add_sub_cancel_left]
          exact hjoin
        · rw [List.length_tail, line_length, backlog]
          omega
    rw [Nat.add_assoc]
    exact served_after hplace

end Line

/-! ## The attempts -/

/-- What comes in on the ACK topic: `arrivals n` since the end of the window of
the attempt before, up to the end of the window of attempt `n`. What comes while
the attempt is publishing waits for its window. -/
structure AckTopic where
  subscribe : String → Except TransportError Unit
  publish : Nat → String → Bytes → Except TransportError Unit
  arrivals : Nat → List Bytes

/-- The window of an attempt ends with the first that it is given. -/
def AckTopic.transport (t : AckTopic) : AckTransport where
  subscribe := t.subscribe
  publish := t.publish
  recv n := (line t.arrivals n).head?

/-- What the attempts hand to the transport, `n` of them from `attempt` on. -/
def attempt_calls (w : Wire) (t : AckTransport) (topic : String) (message_id : MessageId)
    (encoded : Bytes) : Nat → Nat → List (String × Bytes)
  | 0, _ => []
  | n + 1, attempt =>
    (topic, encoded) ::
      match t.publish attempt topic encoded, t.recv attempt with
      | .error _, _ => []
      | .ok (), some ack_data =>
        if w.ack_message_id ack_data = some message_id then []
        else attempt_calls w t topic message_id encoded n (attempt + 1)
      | .ok (), none => attempt_calls w t topic message_id encoded n (attempt + 1)

section Attempts

variable {w : Wire} {t : AckTransport} {topic : String} {message_id : MessageId} {encoded : Bytes}

/-- The attempt is given an ACK of the message. -/
def IsAck (w : Wire) (message_id : MessageId) (b : Bytes) : Prop :=
  w.ack_message_id b = some message_id

theorem attempt_calls_length (n attempt : Nat) :
    (attempt_calls w t topic message_id encoded n attempt).length ≤ n := by
  induction n generalizing attempt with
  | zero => exact Nat.le_refl _
  | succ n ih =>
    unfold attempt_calls
    rw [List.length_cons]
    have hnext := ih (attempt + 1)
    split
    · exact Nat.succ_le_succ (Nat.zero_le _)
    · split
      · exact Nat.succ_le_succ (Nat.zero_le _)
      · exact Nat.succ_le_succ hnext
    · exact Nat.succ_le_succ hnext

theorem mem_attempt_calls {n attempt : Nat} {c : String × Bytes}
    (h : c ∈ attempt_calls w t topic message_id encoded n attempt) : c = (topic, encoded) := by
  induction n generalizing attempt with
  | zero => cases h
  | succ n ih =>
    unfold attempt_calls at h
    rcases List.mem_cons.mp h with rfl | h
    · rfl
    · split at h
      · cases h
      · split at h
        · cases h
        · exact ih h
      · exact ih h

/-- The three ends of the loop: an ACK is received, a publish fails before any
ACK, or neither. -/
inductive LoopEnd (w : Wire) (t : AckTransport) (topic : String) (message_id : MessageId)
    (encoded : Bytes) (first last : Nat) : Except TransportError Bool → Prop
  | acked (k : Nat) (b : Bytes) (hfirst : first ≤ k) (hlast : k < last)
      (hpublish : ∀ j, first ≤ j → j ≤ k → t.publish j topic encoded = .ok ())
      (hrecv : t.recv k = some b) (hack : IsAck w message_id b) :
      LoopEnd w t topic message_id encoded first last (.ok true)
  | failed (k : Nat) (e e' : TransportError) (hfirst : first ≤ k) (hlast : k < last)
      (hpublish : t.publish k topic encoded = .error e')
      (hquiet : ∀ j, first ≤ j → j < k → ∀ b, t.recv j = some b → ¬ IsAck w message_id b) :
      LoopEnd w t topic message_id encoded first last (.error e)
  | spent
      (hpublish : ∀ j, first ≤ j → j < last → t.publish j topic encoded = .ok ())
      (hquiet : ∀ j, first ≤ j → j < last → ∀ b, t.recv j = some b → ¬ IsAck w message_id b) :
      LoopEnd w t topic message_id encoded first last (.ok false)

/-- An attempt without an ACK, and then the others. -/
theorem LoopEnd.step {first last : Nat} {r : Except TransportError Bool}
    (hpublish : t.publish first topic encoded = .ok ())
    (hquiet : ∀ b, t.recv first = some b → ¬ IsAck w message_id b)
    (h : LoopEnd w t topic message_id encoded (first + 1) last r) :
    LoopEnd w t topic message_id encoded first last r := by
  cases h with
  | acked k b hfirst hlast hpub hrecv hack =>
    refine .acked k b (by omega) hlast ?_ hrecv hack
    intro j hj hk
    rcases Nat.eq_or_lt_of_le hj with rfl | hj
    · exact hpublish
    · exact hpub j hj hk
  | failed k e e' hfirst hlast hpub hq =>
    refine .failed k e e' (by omega) hlast hpub ?_
    intro j hj hk
    rcases Nat.eq_or_lt_of_le hj with rfl | hj
    · exact hquiet
    · exact hq j hj hk
  | spent hpub hq =>
    refine .spent ?_ ?_
    · intro j hj hk
      rcases Nat.eq_or_lt_of_le hj with rfl | hj
      · exact hpublish
      · exact hpub j hj hk
    · intro j hj hk
      rcases Nat.eq_or_lt_of_le hj with rfl | hj
      · exact hquiet
      · exact hq j hj hk

theorem attempt_loop_ends (w : Wire) (t : AckTransport) (topic : String) (message_id : MessageId)
    (encoded : Bytes) (n attempt : Nat) :
    LoopEnd w t topic message_id encoded attempt (attempt + n)
      (attempt_loop w t topic message_id encoded n attempt).1 := by
  induction n generalizing attempt with
  | zero => exact .spent (fun j _ _ => by omega) (fun j _ _ => by omega)
  | succ n ih =>
    have hnext := ih (attempt + 1)
    rw [Nat.add_assoc, Nat.add_comm 1] at hnext
    unfold attempt_loop
    rcases hpub : t.publish attempt topic encoded with e | u
    · exact .failed attempt _ e (Nat.le_refl _) (by omega) hpub fun j _ _ => by omega
    · rcases hrecv : t.recv attempt with _ | b
      · exact .step hpub (fun b hb => by rw [hrecv] at hb; cases hb) hnext
      · dsimp only
        by_cases hack : w.ack_message_id b = some message_id
        · rw [if_pos hack]
          refine .acked attempt b (Nat.le_refl _) (by omega) ?_ hrecv hack
          intro j hj hk
          obtain rfl := Nat.le_antisymm hk hj
          exact hpub
        · rw [if_neg hack]
          refine .step hpub ?_ hnext
          intro b' hb'
          rw [hrecv] at hb'
          cases hb'
          exact hack

end Attempts

/-! ## The law -/

variable {F : Type} [IdFilter F]

/-- The bytes of the message that the call sends. -/
def encoded_content (w : Wire) (ch : MessageChannel F) (payload : Bytes) : Bytes :=
  SdsMessage.to_vec (.Content (ch.content_message w payload).2)

def ack_topic (message_id : MessageId) : String := "/lmao/1/ack-" ++ message_id ++ "/proto"

/-- All that the call hands to the transport. -/
def reliable_calls (w : Wire) (ch : MessageChannel F) (topic : String) (payload : Bytes)
    (t : AckTransport) : List (String × Bytes) :=
  match t.subscribe (ack_topic (w.compute_message_id payload)) with
  | .error _ => []
  | .ok () => attempt_calls w t topic (w.compute_message_id payload)
      (encoded_content w ch payload) (ch.config.max_retries + 1) 0

/-- An ACK of the payload comes in the window of an attempt. -/
def AckHeard (w : Wire) (ch : MessageChannel F) (topic : String) (payload : Bytes) (t : AckTopic) :
    Prop :=
  t.subscribe (ack_topic (w.compute_message_id payload)) = .ok () ∧
  ∃ n ≤ ch.config.max_retries,
    (∀ j ≤ n, t.publish j topic (encoded_content w ch payload) = .ok ()) ∧
    ∃ b ∈ t.arrivals n, IsAck w (w.compute_message_id payload) b

/-- What a call of `send_reliable` should do. -/
structure Dependable (w : Wire) (ch : MessageChannel F) (topic : String) (payload : Bytes)
    (t : AckTopic) : Prop where
  copies : (reliable_calls w ch topic payload t.transport).length ≤ ch.config.max_retries + 1 ∧
    ∀ c ∈ reliable_calls w ch topic payload t.transport, c = (topic, encoded_content w ch payload)
  acked : (∃ msg, (ch.send_reliable w topic payload t.transport).result = .ok (msg, true)) ↔
    AckHeard w ch topic payload t
  unsubscribed : (ch.send_reliable w topic payload t.transport).subscribed = false
  unchanged : ∀ e, (ch.send_reliable w topic payload t.transport).result = .error e →
    (ch.send_reliable w topic payload t.transport).channel.bloom = ch.bloom ∧
    (ch.send_reliable w topic payload t.transport).channel.local_history = ch.local_history ∧
    (ch.send_reliable w topic payload t.transport).channel.outgoing_buffer = ch.outgoing_buffer

/-- There is no subscription, or some ACK has few enough before it in the line
to be received by an attempt, with no failed publish up to that attempt, or
there is neither an ACK nor a failed publish. -/
def Unhindered (w : Wire) (ch : MessageChannel F) (topic : String) (payload : Bytes)
    (t : AckTopic) : Prop :=
  (∃ e, t.subscribe (ack_topic (w.compute_message_id payload)) = .error e) ∨
  (∃ n p b, (t.arrivals n)[p]? = some b ∧ IsAck w (w.compute_message_id payload) b ∧
    n + backlog t.arrivals n + p ≤ ch.config.max_retries ∧
    ∀ j ≤ n + backlog t.arrivals n + p,
      t.publish j topic (encoded_content w ch payload) = .ok ()) ∨
  ((∀ j ≤ ch.config.max_retries, t.publish j topic (encoded_content w ch payload) = .ok ()) ∧
    ∀ n ≤ ch.config.max_retries, ∀ b ∈ t.arrivals n, ¬ IsAck w (w.compute_message_id payload) b)

theorem reliable_copies (w : Wire) (ch : MessageChannel F) (topic : String) (payload : Bytes)
    (t : AckTransport) :
    (reliable_calls w ch topic payload t).length ≤ ch.config.max_retries + 1 ∧
      ∀ c ∈ reliable_calls w ch topic payload t, c = (topic, encoded_content w ch payload) := by
  unfold reliable_calls
  split
  · exact ⟨Nat.zero_le _, by simp⟩
  · exact ⟨attempt_calls_length _ _, fun c hc => mem_attempt_calls hc⟩

/-- The call, from the end of its loop. -/
theorem send_reliable_ends (w : Wire) (ch : MessageChannel F) (topic : String) (payload : Bytes)
    (t : AckTopic) :
    (∃ e, t.subscribe (ack_topic (w.compute_message_id payload)) = .error e ∧
      (ch.send_reliable w topic payload t.transport).subscribed = false ∧
      (ch.send_reliable w topic payload t.transport).result = .error e) ∨
    ∃ r, t.subscribe (ack_topic (w.compute_message_id payload)) = .ok () ∧
      LoopEnd w t.transport topic (w.compute_message_id payload) (encoded_content w ch payload) 0
        (ch.config.max_retries + 1) r ∧
      (ch.send_reliable w topic payload t.transport).subscribed = !r.isOk ∧
      (ch.send_reliable w topic payload t.transport).result =
        r.map ((ch.content_message w payload).2, ·) := by
  have hconfig : (ch.content_message w payload).1.config = ch.config := rfl
  have hends := attempt_loop_ends w t.transport topic (ch.content_message w payload).2.message_id
    (SdsMessage.to_vec (.Content (ch.content_message w payload).2)) (ch.config.max_retries + 1) 0
  rw [Nat.zero_add] at hends
  rcases hsub : t.subscribe (ack_topic (w.compute_message_id payload)) with e | u
  · have hsub' : t.transport.subscribe ("/lmao/1/ack-" ++
        (ch.content_message w payload).2.message_id ++ "/proto") = .error e := hsub
    refine .inl ⟨e, rfl, ?_⟩
    unfold send_reliable
    simp only [hsub', and_self]
  · have hsub' : t.transport.subscribe ("/lmao/1/ack-" ++
        (ch.content_message w payload).2.message_id ++ "/proto") = .ok () := hsub
    refine .inr ⟨_, rfl, hends, ?_⟩
    unfold send_reliable
    simp only [hsub', hconfig]
    rcases attempt_loop w t.transport topic (ch.content_message w payload).2.message_id
      (SdsMessage.to_vec (.Content (ch.content_message w payload).2))
      (ch.config.max_retries + 1) 0 with ⟨e | acked, published⟩
    · exact ⟨rfl, rfl⟩
    · exact ⟨rfl, rfl⟩

/-- An attempt is given an ACK exactly if one has so many before it. -/
theorem recv_iff (t : AckTopic) (k : Nat) (b : Bytes) :
    t.transport.recv k = some b ↔
      ∃ n p, (t.arrivals n)[p]? = some b ∧ n + backlog t.arrivals n + p = k := served_iff

theorem send_reliable_unchanged (w : Wire) (ch : MessageChannel F) (topic : String)
    (payload : Bytes) (t : AckTransport) {e : TransportError}
    (h : (ch.send_reliable w topic payload t).result = .error e) :
    (ch.send_reliable w topic payload t).channel = ch.next_timestamp.1 := by
  unfold send_reliable at h ⊢
  dsimp only at h ⊢
  split
  · rfl
  · rename_i hsub
    split
    · rfl
    · rename_i hloop
      simp [hsub, hloop] at h

section

variable (w : Wire) (ch : MessageChannel F) (topic : String) (payload : Bytes) (t : AckTopic)

/-- The copies and the state after an error are as they should be in every
call. -/
theorem dependable_iff : Dependable w ch topic payload t ↔
    ((∃ msg, (ch.send_reliable w topic payload t.transport).result = .ok (msg, true)) ↔
      AckHeard w ch topic payload t) ∧
    (ch.send_reliable w topic payload t.transport).subscribed = false := by
  constructor
  · intro h
    exact ⟨h.acked, h.unsubscribed⟩
  · rintro ⟨hacked, hoff⟩
    refine ⟨reliable_copies w ch topic payload t.transport, hacked, hoff, ?_⟩
    intro e he
    rw [send_reliable_unchanged w ch topic payload t.transport he]
    exact ⟨rfl, rfl, rfl⟩

variable {w ch topic payload t}

/-- An ACK with few enough before it is received by an attempt. -/
theorem recv_of_unhindered {k : Nat} {e' : TransportError}
    (hsub : t.subscribe (ack_topic (w.compute_message_id payload)) = .ok ())
    (hlast : k ≤ ch.config.max_retries)
    (hpublish : t.publish k topic (encoded_content w ch payload) = .error e')
    (h : Unhindered w ch topic payload t) :
    ∃ j < k, ∃ b, t.transport.recv j = some b ∧ IsAck w (w.compute_message_id payload) b := by
  rcases h with ⟨e₀, he₀⟩ | ⟨n, p, b, hjoin, hack, hle, hall⟩ | ⟨hall, -⟩
  · rw [hsub] at he₀
    cases he₀
  · -- The ACK is received before the failed publish, or after it.
    rcases Nat.lt_or_ge (n + backlog t.arrivals n + p) k with hlt | hge
    · exact ⟨_, hlt, b, (recv_iff t _ b).mpr ⟨n, p, hjoin, rfl⟩, hack⟩
    · have hok := hall k hge
      rw [hpublish] at hok
      cases hok
  · have hok := hall k hlast
    rw [hpublish] at hok
    cases hok

/-- Without an error and without an ACK that is received, the call is as it should
be if there is no ACK at all. -/
theorem unheard_iff (hsub : t.subscribe (ack_topic (w.compute_message_id payload)) = .ok ())
    (hpublish : ∀ j ≤ ch.config.max_retries,
      t.publish j topic (encoded_content w ch payload) = .ok ())
    (hquiet : ∀ j ≤ ch.config.max_retries, ∀ b, t.transport.recv j = some b →
      ¬ IsAck w (w.compute_message_id payload) b) :
    ¬ AckHeard w ch topic payload t ↔ Unhindered w ch topic payload t := by
  constructor
  · intro hnone
    refine .inr (.inr ⟨hpublish, fun n hn b hb hack => hnone ⟨hsub, n, hn, ?_, b, hb, hack⟩⟩)
    exact fun j hj => hpublish j (hj.trans hn)
  · rintro (⟨e₀, he₀⟩ | ⟨n, p, b, hjoin, hack, hle, -⟩ | ⟨-, hnone⟩)
    · rw [hsub] at he₀
      cases he₀
    · exact absurd hack (hquiet _ hle b ((recv_iff t _ b).mpr ⟨n, p, hjoin, rfl⟩))
    · rintro ⟨-, n, hn, -, b, hb, hack⟩
      exact hnone n hn b hb hack

end

namespace Sample

def ack_bytes : Bytes := utf8 "\x7b\"type\":\"ack\",\"message_id\":\"01\"\x7d"

/-- A wire that knows "hello" and the ACK of it. -/
def acked_wire : Wire :=
  { Wire.ofTable [(utf8 "hello", "01")] [] with
    ack_message_id := fun b => if b = ack_bytes then some "01" else none }

def acked_channel : MessageChannel (IdSet fun _ => []) :=
  with_config "lmao-alice" "alice" .default 0

/-- Four times nonsense, and then the ACK, all in the first window. -/
def crowded_topic : AckTopic where
  subscribe _ := .ok ()
  publish _ _ _ := .ok ()
  arrivals n := if n = 0 then [[0], [0], [0], [0], ack_bytes] else []

/-- The second publish fails. -/
def broken_topic : AckTopic where
  subscribe _ := .ok ()
  publish n _ _ := if n = 1 then .error (.Transport "down") else .ok ()
  arrivals _ := []

end Sample

end lmao.sds
