-- The subscriptions of the nwaku transport (nwaku_rest.rs): a task for each of them polls
-- the REST endpoint and hands on the payloads that it has not seen.
import Lmao.Channel
import Lmao.FirstOccurrences
import Lmao.MemoryTransport
import Lmao.NwakuBase64

namespace lmao.nwaku_rest

open lists machine transport
open sds (TransportError)

variable {M : Mpsc} {hash : Bytes → UInt64} {view : M.Chan → Channel}

/-! ## Requests and answers -/

structure RelayMessage where
  payload : String
  content_topic : String
  timestamp : UInt64

/-- What `publish` posts. -/
def publish (topic : String) (payload : Bytes) (now : UInt64) : RelayMessage where
  payload := base64_encode payload
  content_topic := topic
  timestamp := now

/-- What a poll gets: no response, one without success, or one whose body is read as
messages, if it can be. -/
inductive RestAnswer
  | failed (e : String)
  | refused (status body : String)
  | messages (json : Option (List WakuMessageResponse))

def poll_rest_messages (topic : String) : RestAnswer → Except TransportError (List Bytes)
  | .failed e => .error (.Transport ("Failed to poll nwaku: " ++ e))
  | .refused status body =>
    .error (.Transport ("nwaku poll failed (" ++ status ++ "): " ++ body))
  | .messages json => .ok (poll_rest_payloads topic (json.getD []))

/-! ## The tasks -/

/-- The task of a subscription with its receiver. `pending` is what it has still to do of
a poll. After an abort it goes on until it next waits. -/
structure Poller (M : Mpsc) where
  topic : String
  seen : List UInt64
  pending : List Bytes
  running : Bool
  aborted : Bool
  rx : M.Chan
  received : List Bytes
  dropped : Bool

namespace Poller

def spawn (topic : String) : Poller M where
  topic
  seen := []
  pending := []
  running := true
  aborted := false
  rx := M.channel 256
  received := []
  dropped := false

/-- The task asks again when it is through with the last poll. -/
def polls (p : Poller M) : Bool := p.running && !p.aborted && p.pending.isEmpty

def poll (payloads : List Bytes) (p : Poller M) : Poller M := { p with pending := payloads }

/-- The next payload: `seen.insert(h) && tx.send(msg).await`. The task waits for room,
and ends without a receiver. -/
def push (hash : Bytes → UInt64) (p : Poller M) : Poller M :=
  match p.running, p.pending with
  | true, msg :: rest =>
    if hash msg ∈ p.seen then { p with pending := rest }
    else if p.dropped then { p with running := false, pending := [] }
    else
      match M.try_send p.rx msg with
      | (rx, true) => { p with rx, seen := hash msg :: p.seen, pending := rest }
      | (_, false) => p
  | _, _ => p

def abort (p : Poller M) : Poller M := { p with aborted := true }

def halt (p : Poller M) : Poller M :=
  if p.aborted then { p with running := false, pending := [] } else p

def recv (p : Poller M) : Poller M :=
  if p.dropped then p
  else { p with rx := (M.recv p.rx).1, received := p.received ++ (M.recv p.rx).2.toList }

def drop (p : Poller M) : Poller M := { p with rx := M.close p.rx, dropped := true }

end Poller

/-! ## The transport -/

/-- A handle in the map is the number of its task. -/
structure LogosMessagingTransport (M : Mpsc) where
  subscriptions : String → Option Nat
  tasks : List (Poller M)

inductive NwakuOp
  | subscribe (topic : String)
  | unsubscribe (topic : String)
  | poll (k : Nat) (answer : RestAnswer)
  | push (k : Nat)
  | halt (k : Nat)
  | recv (k : Nat)
  | drop (k : Nat)

/-- The payloads that a poll gave to a task. -/
structure NwakuOutput where
  task : Nat
  topic : String
  payloads : List Bytes

namespace LogosMessagingTransport

def new : LogosMessagingTransport M := { subscriptions := fun _ => none, tasks := [] }

def modify (t : LogosMessagingTransport M) (k : Nat) (f : Poller M → Poller M) :
    LogosMessagingTransport M := { t with tasks := t.tasks.modify k f }

/-- `subscriptions.remove(topic)` and `handle.abort()`. -/
def unsubscribe (t : LogosMessagingTransport M) (topic : String) : LogosMessagingTransport M :=
  match t.subscriptions topic with
  | none => t
  | some k =>
    { subscriptions := Function.update t.subscriptions topic none
      tasks := t.tasks.modify k Poller.abort }

def subscribe (t : LogosMessagingTransport M) (topic : String) : LogosMessagingTransport M :=
  let cleaned := t.unsubscribe topic
  { subscriptions := Function.update cleaned.subscriptions topic (some cleaned.tasks.length)
    tasks := cleaned.tasks ++ [.spawn topic] }

/-- A poll that fails gives nothing. -/
def poll (t : LogosMessagingTransport M) (k : Nat) (answer : RestAnswer) :
    LogosMessagingTransport M × List NwakuOutput :=
  match t.tasks[k]? with
  | some p =>
    if p.polls then
      let payloads := (poll_rest_messages p.topic answer).toOption.getD []
      (t.modify k (Poller.poll payloads), [⟨k, p.topic, payloads⟩])
    else (t, [])
  | none => (t, [])

def step (hash : Bytes → UInt64) (t : LogosMessagingTransport M) :
    NwakuOp → Except Empty (LogosMessagingTransport M × List NwakuOutput)
  | .subscribe topic => .ok (t.subscribe topic, [])
  | .unsubscribe topic => .ok (t.unsubscribe topic, [])
  | .poll k answer => .ok (t.poll k answer)
  | .push k => .ok (t.modify k (Poller.push hash), [])
  | .halt k => .ok (t.modify k Poller.halt, [])
  | .recv k => .ok (t.modify k Poller.recv, [])
  | .drop k => .ok (t.modify k Poller.drop, [])

end LogosMessagingTransport

/-- All the payloads that the polls gave to a task. -/
def polled (k : Nat) (log : List NwakuOutput) : List Bytes :=
  log.flatMap fun out => if out.task = k then out.payloads else []

theorem polled_append (k : Nat) (log log' : List NwakuOutput) :
    polled k (log ++ log') = polled k log ++ polled k log' := List.flatMap_append

/-! ## One task -/

namespace Poller

/-- The task went through a first part of what was polled. It has seen the hashes of that
part, and of each hash the receiver gets the first payload. -/
structure Through (hash : Bytes → UInt64) (view : M.Chan → Channel) (p : Poller M)
    (payloads gone : List Bytes) : Prop where
  rest : p.running = true → payloads = gone ++ p.pending
  part : gone <+: payloads
  seen : ∀ h, h ∈ p.seen ↔ h ∈ gone.map hash
  kept : p.dropped = false → p.received ++ (view p.rx).waiting = first_of_each hash [] gone

structure Serves (hash : Bytes → UInt64) (view : M.Chan → Channel) (p : Poller M)
    (payloads : List Bytes) : Prop where
  is_open : p.dropped = false → (view p.rx).closed = false
  capacity : p.dropped = false → (view p.rx).capacity = 256
  ended : p.running = false → p.pending = [] ∧ (p.dropped = true ∨ p.aborted = true)
  received : p.received <+: first_of_each hash [] payloads
  through : ∃ gone, p.Through hash view payloads gone

variable {p : Poller M} {payloads : List Bytes}

theorem first_of_each_mono {l l' : List Bytes} (h : l <+: l') :
    first_of_each hash [] l <+: first_of_each hash [] l' := by
  obtain ⟨rest, rfl⟩ := h
  rw [first_of_each_append]
  exact List.prefix_append _ _

theorem Serves.spawn (hM : M.Documented view) (topic : String) :
    (spawn topic : Poller M).Serves hash view [] := by
  have hview : view (M.channel 256) = { capacity := 256, waiting := [], closed := false } :=
    hM.channel 256 (by decide)
  refine ⟨fun _ => ?_, fun _ => ?_, fun hended => Bool.noConfusion hended, List.nil_prefix, [],
    fun _ => rfl, List.nil_prefix, fun _ => Iff.rfl, fun _ => ?_⟩
  · rw [Poller.spawn, hview]
  · rw [Poller.spawn, hview]
  · rw [Poller.spawn, hview]
    rfl

theorem Serves.poll (h : p.Serves hash view payloads) (hpolls : p.polls = true)
    (more : List Bytes) : (p.poll more).Serves hash view (payloads ++ more) := by
  obtain ⟨gone, hgone⟩ := h.through
  rw [polls, Bool.and_eq_true, Bool.and_eq_true, List.isEmpty_iff] at hpolls
  obtain ⟨⟨hrunning, -⟩, hempty⟩ := hpolls
  have hall : payloads = gone := by rw [hgone.rest hrunning, hempty, List.append_nil]
  subst hall
  refine ⟨h.is_open, h.capacity, ?_, ?_, payloads, fun _ => rfl, List.prefix_append _ _,
    hgone.seen, hgone.kept⟩
  · intro hended
    rw [Poller.poll, hrunning] at hended
    cases hended
  · exact h.received.trans (first_of_each_mono (List.prefix_append _ _))

theorem Serves.abort (h : p.Serves hash view payloads) : p.abort.Serves hash view payloads := by
  obtain ⟨gone, hgone⟩ := h.through
  refine ⟨h.is_open, h.capacity, fun hended => ⟨(h.ended hended).1, .inr rfl⟩, h.received, gone,
    hgone.rest, hgone.part, hgone.seen, hgone.kept⟩

theorem Serves.halt (h : p.Serves hash view payloads) : p.halt.Serves hash view payloads := by
  rw [Poller.halt]
  split
  case isTrue haborted =>
    obtain ⟨gone, hgone⟩ := h.through
    exact ⟨h.is_open, h.capacity, fun _ => ⟨rfl, .inr haborted⟩, h.received, gone,
      fun hrunning => Bool.noConfusion hrunning, hgone.part, hgone.seen, hgone.kept⟩
  case isFalse => exact h

theorem Serves.drop (h : p.Serves hash view payloads) : p.drop.Serves hash view payloads := by
  obtain ⟨gone, hgone⟩ := h.through
  exact ⟨fun hthere => Bool.noConfusion hthere, fun hthere => Bool.noConfusion hthere,
    fun hended => ⟨(h.ended hended).1, .inl rfl⟩, h.received, gone, hgone.rest, hgone.part,
    hgone.seen, fun hthere => Bool.noConfusion hthere⟩

/-- What waits first comes out next. -/
theorem Serves.recv (hM : M.Documented view) (h : p.Serves hash view payloads) :
    p.recv.Serves hash view payloads := by
  rw [Poller.recv]
  split
  case isTrue => exact h
  case isFalse hdropped =>
    have hthere : p.dropped = false := Bool.not_eq_true _ ▸ hdropped
    obtain ⟨gone, hgone⟩ := h.through
    have hsame : p.received ++ (M.recv p.rx).2.toList ++ (view (M.recv p.rx).1).waiting =
        first_of_each hash [] gone := by
      rw [hM.recv_view, hM.recv_head, ← hgone.kept hthere, List.append_assoc]
      cases (view p.rx).waiting <;> rfl
    refine ⟨fun _ => ?_, fun _ => ?_, h.ended, ?_, gone, hgone.rest, hgone.part, hgone.seen,
      fun _ => hsame⟩
    · rw [hM.recv_view]
      exact h.is_open hthere
    · rw [hM.recv_view]
      exact h.capacity hthere
    · have hpart : p.received ++ (M.recv p.rx).2.toList <+: first_of_each hash [] gone :=
        ⟨_, hsame⟩
      exact hpart.trans (first_of_each_mono hgone.part)

/-- What follows the part that the task is through with. -/
theorem Through.next {gone : List Bytes} (h : p.Through hash view payloads gone)
    (hrunning : p.running = true) {msg : Bytes} {rest : List Bytes}
    (hpending : p.pending = msg :: rest) :
    payloads = gone ++ [msg] ++ rest ∧ gone ++ [msg] <+: payloads := by
  have hall : payloads = gone ++ [msg] ++ rest := by
    rw [h.rest hrunning, hpending, List.append_assoc]
    rfl
  exact ⟨hall, hall ▸ List.prefix_append _ _⟩

theorem Serves.push (hM : M.Documented view) (h : p.Serves hash view payloads) :
    (p.push hash).Serves hash view payloads := by
  rw [Poller.push]
  split
  case h_1 msg rest hrunning hpending =>
    obtain ⟨gone, hgone⟩ := h.through
    obtain ⟨hall, hpart⟩ := hgone.next hrunning hpending
    have hlast := first_of_each_append hash [] gone [msg]
    rw [List.nil_append] at hlast
    split
    case isTrue hseen =>
      have hsame : first_of_each hash [] (gone ++ [msg]) = first_of_each hash [] gone := by
        rw [hlast, first_of_each_seen ((hgone.seen _).mp hseen), first_of_each_nil,
          List.append_nil]
      refine ⟨h.is_open, h.capacity, ?_, h.received, gone ++ [msg], fun _ => hall, hpart, ?_, ?_⟩
      · intro hended
        rw [hrunning] at hended
        cases hended
      · intro a
        rw [List.map_append, List.mem_append, ← hgone.seen]
        constructor
        · exact .inl
        · rintro (ha | ha)
          · exact ha
          · rw [List.mem_singleton.mp ha]
            exact hseen
      · intro hthere
        rw [hsame]
        exact hgone.kept hthere
    case isFalse hfresh =>
      split
      case isTrue hdropped =>
        exact ⟨h.is_open, h.capacity, fun _ => ⟨rfl, .inl hdropped⟩, h.received, gone,
          fun hend => Bool.noConfusion hend, hgone.part, hgone.seen, hgone.kept⟩
      case isFalse hdropped =>
        have hthere : p.dropped = false := Bool.not_eq_true _ ▸ hdropped
        have hopen := h.is_open hthere
        by_cases hroom : (view p.rx).waiting.length < (view p.rx).capacity
        · obtain ⟨hview, -⟩ := hM.sent hopen hroom msg
          split
          case h_1 rx hsend =>
            rw [hsend] at hview
            refine ⟨fun _ => ?_, fun _ => ?_, ?_, h.received, gone ++ [msg], fun _ => hall,
              hpart, ?_, fun _ => ?_⟩
            · rw [hview]
              exact hopen
            · rw [hview]
              exact h.capacity hthere
            · intro hended
              rw [hrunning] at hended
              cases hended
            · intro a
              rw [List.map_append, List.mem_append, List.mem_cons, hgone.seen, or_comm]
              exact or_congr_right (List.mem_singleton).symm
            · rw [hview, hlast, first_of_each_fresh fun hseen => hfresh ((hgone.seen _).mpr hseen),
                first_of_each_nil, ← hgone.kept hthere, List.append_assoc]
          case h_2 => exact h
        · obtain ⟨-, hfull⟩ := hM.not_sent (Nat.le_of_not_lt hroom) msg
          split
          case h_1 rx hsend =>
            rw [hsend] at hfull
            cases hfull
          case h_2 => exact h
  case h_2 => exact h

end Poller

/-! ## All the tasks -/

namespace LogosMessagingTransport

/-- Each task serves its receiver, and the map has the handle of a task until that is
aborted. -/
structure Kept (hash : Bytes → UInt64) (view : M.Chan → Channel) (log : List NwakuOutput)
    (t : LogosMessagingTransport M) : Prop where
  serves : ∀ (k : Nat) p, t.tasks[k]? = some p → p.Serves hash view (polled k log)
  live : ∀ (k : Nat) p, t.tasks[k]? = some p →
    (p.aborted = false ↔ t.subscriptions p.topic = some k)
  handles : ∀ topic k, t.subscriptions topic = some k →
    ∃ p, t.tasks[k]? = some p ∧ p.topic = topic
  later : ∀ k, t.tasks.length ≤ k → polled k log = []
  topics : ∀ out ∈ log, ∃ p, t.tasks[out.task]? = some p ∧ p.topic = out.topic

variable {t t' : LogosMessagingTransport M} {log out : List NwakuOutput} {op : NwakuOp}
  {ops : List NwakuOp}

theorem Kept.new : Kept hash view [] (new : LogosMessagingTransport M) where
  serves k p hk := by cases hk
  live k p hk := by cases hk
  handles topic k hk := by cases hk
  later _ _ := rfl
  topics out hout := by cases hout

theorem getElem?_modify_cases {tasks : List (Poller M)} {k j : Nat} {f : Poller M → Poller M}
    {p : Poller M} (h : (tasks.modify k f)[j]? = some p) :
    ∃ q, tasks[j]? = some q ∧ p = if k = j then f q else q := by
  rw [List.getElem?_modify] at h
  obtain ⟨q, hq, rfl⟩ := Option.map_eq_some_iff.mp h
  refine ⟨q, hq, ?_⟩
  split <;> rfl

/-- A step of one task. -/
theorem Kept.modify (h : Kept hash view log t) (k : Nat) {f : Poller M → Poller M}
    (hserves : ∀ p payloads, p.Serves hash view payloads → (f p).Serves hash view payloads)
    (htopic : ∀ p, (f p).topic = p.topic) (haborted : ∀ p, (f p).aborted = p.aborted) :
    Kept hash view log (t.modify k f) where
  serves j p hp := by
    obtain ⟨q, hq, rfl⟩ := getElem?_modify_cases hp
    split
    · exact hserves q _ (h.serves j q hq)
    · exact h.serves j q hq
  live j p hp := by
    obtain ⟨q, hq, rfl⟩ := getElem?_modify_cases hp
    split
    · rw [htopic, haborted]
      exact h.live j q hq
    · exact h.live j q hq
  handles topic j hj := by
    obtain ⟨q, hq, rfl⟩ := h.handles topic j hj
    refine ⟨if k = j then f q else q, ?_, ?_⟩
    · rw [LogosMessagingTransport.modify, List.getElem?_modify, hq]
      split <;> rfl
    · split
      · exact htopic q
      · rfl
  later j hj := by
    rw [LogosMessagingTransport.modify, List.length_modify] at hj
    exact h.later j hj
  topics out hout := by
    obtain ⟨q, hq, heq⟩ := h.topics out hout
    refine ⟨if k = out.task then f q else q, ?_, ?_⟩
    · rw [LogosMessagingTransport.modify, List.getElem?_modify, hq]
      split <;> rfl
    · split
      · exact (htopic q).trans heq
      · exact heq

theorem Kept.unsubscribe (h : Kept hash view log t) (topic : String) :
    Kept hash view log (t.unsubscribe topic) ∧ (t.unsubscribe topic).subscriptions topic = none ∧
      (t.unsubscribe topic).tasks.length = t.tasks.length := by
  rw [LogosMessagingTransport.unsubscribe]
  cases hk : t.subscriptions topic with
  | none => exact ⟨h, hk, rfl⟩
  | some k =>
    dsimp only
    refine ⟨⟨?_, ?_, ?_, ?_, ?_⟩, Function.update_self .., List.length_modify ..⟩
    · intro j p hp
      obtain ⟨q, hq, rfl⟩ := getElem?_modify_cases hp
      split
      · exact (h.serves j q hq).abort
      · exact h.serves j q hq
    · intro j p hp
      obtain ⟨q, hq, rfl⟩ := getElem?_modify_cases hp
      have hlive := h.live j q hq
      dsimp only
      by_cases hj : k = j
      · subst hj
        rw [if_pos rfl]
        obtain ⟨r, hr, htopic⟩ := h.handles topic k hk
        obtain rfl := Option.some.inj (hr.symm.trans hq)
        have hgone : Function.update t.subscriptions topic none topic = none :=
          Function.update_self ..
        constructor
        · intro habort
          cases habort
        · intro hsome
          rw [Poller.abort, htopic, hgone] at hsome
          cases hsome
      · rw [if_neg hj]
        by_cases htopic : q.topic = topic
        · rw [htopic, hk, Option.some.injEq] at hlive
          rw [htopic, Function.update_self, hlive]
          exact iff_of_false hj (fun hsome => nomatch hsome)
        · rw [Function.update_of_ne htopic]
          exact hlive
    · intro other j hj
      dsimp only at hj ⊢
      by_cases hother : other = topic
      · rw [hother, Function.update_self] at hj
        cases hj
      · rw [Function.update_of_ne hother] at hj
        obtain ⟨q, hq, rfl⟩ := h.handles other j hj
        refine ⟨if k = j then q.abort else q, ?_, ?_⟩
        · rw [List.getElem?_modify, hq]
          split <;> rfl
        · split <;> rfl
    · intro j hj
      rw [List.length_modify] at hj
      exact h.later j hj
    · intro out hout
      obtain ⟨q, hq, heq⟩ := h.topics out hout
      refine ⟨if k = out.task then q.abort else q, ?_, ?_⟩
      · rw [List.getElem?_modify, hq]
        split <;> rfl
      · split <;> exact heq

theorem Kept.subscribe (hM : M.Documented view) (h : Kept hash view log t) (topic : String) :
    Kept hash view log (t.subscribe topic) := by
  obtain ⟨hcleaned, hnone, -⟩ := h.unsubscribe topic
  rw [LogosMessagingTransport.subscribe]
  generalize t.unsubscribe topic = s at hcleaned hnone
  have hcases : ∀ (j : Nat) p, (s.tasks ++ [Poller.spawn topic])[j]? = some p →
      s.tasks[j]? = some p ∨ j = s.tasks.length ∧ p = Poller.spawn topic := by
    intro j p hp
    by_cases hj : j < s.tasks.length
    · rw [List.getElem?_append_left hj] at hp
      exact .inl hp
    · rw [List.getElem?_append_right (Nat.le_of_not_lt hj), List.getElem?_singleton] at hp
      split at hp
      case isTrue hzero =>
        cases hp
        exact .inr ⟨by omega, rfl⟩
      case isFalse => cases hp
  refine ⟨?_, ?_, ?_, ?_, ?_⟩
  · intro j p hp
    rcases hcases j p hp with hp | ⟨rfl, rfl⟩
    · exact hcleaned.serves j p hp
    · rw [hcleaned.later _ (Nat.le_refl _)]
      exact .spawn hM topic
  · intro j p hp
    rcases hcases j p hp with hp | ⟨rfl, rfl⟩
    · have hlive := hcleaned.live j p hp
      have hlt := (List.getElem?_eq_some_iff.mp hp).1
      by_cases htopic : p.topic = topic
      · rw [htopic, hnone] at hlive
        rw [htopic]
        dsimp only
        rw [Function.update_self, hlive, Option.some.injEq]
        exact iff_of_false (fun hsome => nomatch hsome) (fun heq => by omega)
      · dsimp only
        rw [Function.update_of_ne htopic]
        exact hlive
    · exact iff_of_true rfl (Function.update_self ..)
  · intro other j hj
    by_cases hother : other = topic
    · dsimp only at hj
      rw [hother, Function.update_self, Option.some.injEq] at hj
      subst hj
      exact ⟨.spawn topic, by simp, hother.symm⟩
    · dsimp only at hj
      rw [Function.update_of_ne hother] at hj
      obtain ⟨q, hq, hqtopic⟩ := hcleaned.handles other j hj
      refine ⟨q, ?_, hqtopic⟩
      rw [List.getElem?_append_left (List.getElem?_eq_some_iff.mp hq).1]
      exact hq
  · intro j hj
    dsimp only at hj
    rw [List.length_append] at hj
    exact hcleaned.later j (by omega)
  · intro out hout
    obtain ⟨q, hq, heq⟩ := hcleaned.topics out hout
    refine ⟨q, ?_, heq⟩
    rw [List.getElem?_append_left (List.getElem?_eq_some_iff.mp hq).1]
    exact hq

theorem Kept.poll (h : Kept hash view log t) (k : Nat) (answer : RestAnswer) :
    Kept hash view (log ++ (t.poll k answer).2) (t.poll k answer).1 := by
  rw [LogosMessagingTransport.poll]
  cases hk : t.tasks[k]? with
  | none =>
    dsimp only
    rw [List.append_nil]
    exact h
  | some p =>
    dsimp only
    split
    case isFalse =>
      rw [List.append_nil]
      exact h
    case isTrue hpolls =>
      dsimp only
      generalize (poll_rest_messages p.topic answer).toOption.getD [] = payloads
      have hself : polled k [⟨k, p.topic, payloads⟩] = payloads :=
        (List.append_nil _).trans (if_pos rfl)
      have hother : ∀ j, k ≠ j → polled j [⟨k, p.topic, payloads⟩] = [] := by
        intro j hj
        exact (List.append_nil _).trans (if_neg hj)
      refine ⟨?_, ?_, ?_, ?_, ?_⟩
      · intro j q hq
        obtain ⟨r, hr, rfl⟩ := getElem?_modify_cases hq
        rw [polled_append]
        by_cases hj : k = j
        · subst hj
          obtain rfl := Option.some.inj (hk.symm.trans hr)
          rw [if_pos rfl, hself]
          exact (h.serves k p hk).poll hpolls payloads
        · rw [if_neg hj, hother j hj, List.append_nil]
          exact h.serves j r hr
      · intro j q hq
        obtain ⟨r, hr, rfl⟩ := getElem?_modify_cases hq
        split <;> exact h.live j r hr
      · intro topic j hj
        obtain ⟨q, hq, rfl⟩ := h.handles topic j hj
        refine ⟨if k = j then q.poll payloads else q, ?_, ?_⟩
        · rw [LogosMessagingTransport.modify, List.getElem?_modify, hq]
          split <;> rfl
        · split <;> rfl
      · intro j hj
        rw [LogosMessagingTransport.modify, List.length_modify] at hj
        have hlt := (List.getElem?_eq_some_iff.mp hk).1
        rw [polled_append, h.later j hj, hother j (by omega), List.append_nil]
      · intro out hout
        have hq : ∃ q, t.tasks[out.task]? = some q ∧ q.topic = out.topic := by
          rcases List.mem_append.mp hout with hout | hout
          · exact h.topics out hout
          · rw [List.mem_singleton.mp hout]
            exact ⟨p, hk, rfl⟩
        obtain ⟨q, hq, heq⟩ := hq
        refine ⟨if k = out.task then q.poll payloads else q, ?_, ?_⟩
        · rw [LogosMessagingTransport.modify, List.getElem?_modify, hq]
          split <;> rfl
        · split <;> exact heq

theorem push_topic (p : Poller M) :
    (p.push hash).topic = p.topic ∧ (p.push hash).aborted = p.aborted := by
  rw [Poller.push]
  split
  · split
    · exact ⟨rfl, rfl⟩
    · split
      · exact ⟨rfl, rfl⟩
      · split <;> exact ⟨rfl, rfl⟩
  · exact ⟨rfl, rfl⟩

theorem halt_topic (p : Poller M) : p.halt.topic = p.topic ∧ p.halt.aborted = p.aborted := by
  rw [Poller.halt]
  split <;> exact ⟨rfl, rfl⟩

theorem recv_topic (p : Poller M) : p.recv.topic = p.topic ∧ p.recv.aborted = p.aborted := by
  rw [Poller.recv]
  split <;> exact ⟨rfl, rfl⟩

theorem Kept.step (hM : M.Documented view) (h : Kept hash view log t)
    (hstep : step hash t op = .ok (t', out)) : Kept hash view (log ++ out) t' := by
  cases op with
  | subscribe topic =>
    cases hstep
    rw [List.append_nil]
    exact h.subscribe hM topic
  | unsubscribe topic =>
    cases hstep
    rw [List.append_nil]
    exact (h.unsubscribe topic).1
  | poll k answer =>
    have hpoll := h.poll k answer
    rw [Except.ok.inj hstep] at hpoll
    exact hpoll
  | push k =>
    cases hstep
    rw [List.append_nil]
    exact h.modify k (fun _ _ hp => hp.push hM) (fun p => (push_topic p).1)
      (fun p => (push_topic p).2)
  | halt k =>
    cases hstep
    rw [List.append_nil]
    exact h.modify k (fun _ _ hp => hp.halt) (fun p => (halt_topic p).1)
      (fun p => (halt_topic p).2)
  | recv k =>
    cases hstep
    rw [List.append_nil]
    exact h.modify k (fun _ _ hp => hp.recv hM) (fun p => (recv_topic p).1)
      (fun p => (recv_topic p).2)
  | drop k =>
    cases hstep
    rw [List.append_nil]
    exact h.modify k (fun _ _ hp => hp.drop) (fun _ => rfl) (fun _ => rfl)

theorem kept (hM : M.Documented view) (hrun : run (step hash) new ops = .ok (t, log)) :
    Kept hash view log t := by
  induction ops using List.reverseRecOn generalizing t log with
  | nil =>
    cases hrun
    exact .new
  | append_singleton ops op ih =>
    obtain ⟨s, log₁, log₂, hbefore, hstep, rfl⟩ := run_snoc_cases hrun
    exact (ih hbefore).step hM hstep

/-! ## Progress of one task -/

def turns (k : Nat) : Nat → List NwakuOp
  | 0 => []
  | n + 1 => .recv k :: .push k :: turns k n

end LogosMessagingTransport

namespace Poller

variable {p : Poller M} {payloads : List Bytes}

/-- A turn of the receiver and of the task. -/
def turn (hash : Bytes → UInt64) (p : Poller M) : Poller M := p.recv.push hash

/-- How many steps the payloads of the last poll have before them. -/
def distance (view : M.Chan → Channel) (p : Poller M) : Nat :=
  (view p.rx).waiting.length + 2 * p.pending.length

theorem recv_distance (hM : M.Documented view) (hthere : p.dropped = false) :
    p.recv.distance view = p.distance view - min 1 (view p.rx).waiting.length ∧
      (view p.recv.rx).waiting = (view p.rx).waiting.tail ∧ p.recv.pending = p.pending ∧
      p.recv.running = p.running ∧ p.recv.dropped = false := by
  have hdropped : ¬ p.dropped = true := by simp [hthere]
  rw [recv, if_neg hdropped]
  simp only [distance, hM.recv_view, List.length_tail, hthere, and_true]
  omega

theorem push_distance (hM : M.Documented view) (h : p.Serves hash view payloads)
    (hthere : p.dropped = false) (hrunning : p.running = true) :
    (p.push hash).distance view ≤ p.distance view ∧ (p.push hash).dropped = false ∧
      ((view p.rx).waiting = [] → p.pending ≠ [] →
        (p.push hash).distance view < p.distance view) := by
  have hdropped : ¬ p.dropped = true := by simp [hthere]
  rw [push]
  split
  case h_1 msg rest _ hpending =>
    have hlength : p.pending.length = rest.length + 1 := by rw [hpending, List.length_cons]
    split
    case isTrue =>
      simp only [distance, hlength]
      exact ⟨by omega, hthere, fun _ _ => by omega⟩
    case isFalse =>
      have hopen := h.is_open hthere
      by_cases hroom : (view p.rx).waiting.length < (view p.rx).capacity
      · obtain ⟨hview, htaken⟩ := hM.sent hopen hroom msg
        split
        case h_1 rx hsend =>
          rw [hsend] at hview
          simp only [distance, hview, hlength, List.length_append, List.length_singleton]
          exact ⟨by omega, hthere, fun _ _ => by omega⟩
        case h_2 rx hsend =>
          rw [hsend] at htaken
          cases htaken
      · obtain ⟨-, hfull⟩ := hM.not_sent (Nat.le_of_not_lt hroom) msg
        split
        case h_1 rx hsend =>
          rw [hsend] at hfull
          cases hfull
        case h_2 =>
          refine ⟨Nat.le_refl _, hthere, fun hempty _ => ?_⟩
          rw [hempty, h.capacity hthere] at hroom
          exact absurd (by decide) hroom
  case h_2 hidle =>
    refine ⟨Nat.le_refl _, hthere, fun _ hne => ?_⟩
    obtain ⟨msg, rest, hpending⟩ := List.exists_cons_of_ne_nil hne
    exact absurd hpending (hidle msg rest hrunning)

/-- A task that is not aborted runs as long as its receiver is there. -/
theorem Serves.running (h : p.Serves hash view payloads) (hthere : p.dropped = false)
    (hlive : p.aborted = false) : p.running = true := by
  cases hrunning : p.running with
  | true => rfl
  | false =>
    rcases (h.ended hrunning).2 with hdropped | haborted
    · rw [hthere] at hdropped
      cases hdropped
    · rw [hlive] at haborted
      cases haborted

/-- A turn brings a payload nearer. -/
theorem turn_progress (hM : M.Documented view) (h : p.Serves hash view payloads)
    (hthere : p.dropped = false) (hlive : p.aborted = false) :
    (p.turn hash).Serves hash view payloads ∧ (p.turn hash).dropped = false ∧
      (p.turn hash).aborted = false ∧ (p.turn hash).distance view ≤ p.distance view - 1 := by
  have hrecv := h.recv hM
  obtain ⟨hd₁, hwaiting, hpending, hrunning, hthere₁⟩ := recv_distance hM hthere
  have hlive₁ : p.recv.aborted = false := (LogosMessagingTransport.recv_topic p).2.trans hlive
  obtain ⟨hd₂, hthere₂, hnearer⟩ :=
    push_distance hM hrecv hthere₁ (hrecv.running hthere₁ hlive₁)
  refine ⟨hrecv.push hM, hthere₂, (LogosMessagingTransport.push_topic p.recv).2.trans hlive₁, ?_⟩
  by_cases hwait : (view p.rx).waiting = []
  · by_cases hpend : p.pending = []
    · have hzero : p.distance view = 0 := by simp [distance, hwait, hpend]
      rw [turn]
      omega
    · have hlt := hnearer (by rw [hwaiting, hwait]; rfl) (hpending ▸ hpend)
      rw [turn]
      omega
  · have hpos := List.length_pos_iff.mpr hwait
    rw [turn]
    omega

/-- What the task has not sent yet is what its polls still have for the receiver. -/
theorem Serves.whole (h : p.Serves hash view payloads) (hthere : p.dropped = false)
    (hlive : p.aborted = false) :
    p.received ++ (view p.rx).waiting ++ first_of_each hash p.seen p.pending =
      first_of_each hash [] payloads := by
  obtain ⟨gone, hgone⟩ := h.through
  rw [hgone.kept hthere, hgone.rest (h.running hthere hlive), first_of_each_append,
    List.nil_append]
  congr 1
  exact first_of_each_congr hgone.seen _

end Poller

namespace LogosMessagingTransport

variable {t t' : LogosMessagingTransport M} {log out : List NwakuOutput} {ops : List NwakuOp}

theorem run_turns (hM : M.Documented view) (n : Nat) {k : Nat} {p : Poller M}
    {payloads : List Bytes} (hp : t.tasks[k]? = some p) (h : p.Serves hash view payloads)
    (hthere : p.dropped = false) (hlive : p.aborted = false) (hn : p.distance view ≤ n) :
    ∃ t' p', run (step hash) t (turns k n) = .ok (t', []) ∧ t'.tasks[k]? = some p' ∧
      p'.received = first_of_each hash [] payloads := by
  induction n generalizing t p with
  | zero =>
    have hwaiting : (view p.rx).waiting = [] := by
      apply List.eq_nil_of_length_eq_zero
      rw [Poller.distance] at hn
      omega
    have hpending : p.pending = [] := by
      apply List.eq_nil_of_length_eq_zero
      rw [Poller.distance] at hn
      omega
    have hwhole := h.whole hthere hlive
    rw [hwaiting, hpending, first_of_each_nil, List.append_nil, List.append_nil] at hwhole
    exact ⟨t, p, rfl, hp, hwhole⟩
  | succ n ih =>
    obtain ⟨hserves, hthere', hlive', hnearer⟩ := Poller.turn_progress hM h hthere hlive
    have hp' : ((t.modify k Poller.recv).modify k (Poller.push hash)).tasks[k]? =
        some (p.turn hash) := by
      simp [modify, hp, Poller.turn]
    obtain ⟨t', p', hrun, hk, hreceived⟩ := ih hp' hserves hthere' hlive' (by omega)
    refine ⟨t', p', ?_, hk, hreceived⟩
    simp only [turns, run, step, bind, Except.bind, hrun, List.nil_append]

/-! ## The laws of the subscriptions -/

/-- In every order of polls, pushes and receives, of subscriptions and their ends: a
receiver gets the first payload of each hash that the polls of its task gave, in their
order. Until the topic gets another subscription or none, what it has not got waits for
it, and it gets it when it keeps taking. -/
theorem each_polled_payload_comes_once (hM : M.Documented view)
    (hrun : run (step hash) new ops = .ok (t, log)) {k : Nat} {p : Poller M}
    (hp : t.tasks[k]? = some p) :
    p.received <+: first_of_each hash [] (polled k log) ∧
      (p.aborted = false ↔ t.subscriptions p.topic = some k) ∧
      (p.dropped = false → p.aborted = false →
        p.received ++ (view p.rx).waiting ++ first_of_each hash p.seen p.pending =
          first_of_each hash [] (polled k log) ∧
        ∃ n t' p', run (step hash) t (turns k n) = .ok (t', []) ∧ t'.tasks[k]? = some p' ∧
          p'.received = first_of_each hash [] (polled k log)) := by
  have h := kept hM hrun
  have hserves := h.serves k p hp
  refine ⟨hserves.received, h.live k p hp, fun hthere hlive => ⟨hserves.whole hthere hlive, ?_⟩⟩
  exact ⟨_, run_turns hM _ hp hserves hthere hlive (Nat.le_refl _)⟩

/-! A short run, with the hashes of its payloads. -/

def hi : Bytes := [0x68, 0x69]

def ho : Bytes := [0x68, 0x6f]

def short_hash (payload : Bytes) : UInt64 := if payload = hi then 0x2d32f9b9429b1720 else 0

/-- A poll shows `hi` twice and then `ho`, and the receiver has taken one payload. -/
def two_copies : List NwakuOp :=
  [.subscribe "/t",
    .poll 0 (.messages (some [⟨"aGk=", some "/t"⟩, ⟨"aGk=", some "/t"⟩, ⟨"aG8=", some "/t"⟩])),
    .push 0, .push 0, .recv 0]

theorem two_copies_run :
    ∃ t log p, run (step short_hash) (new : LogosMessagingTransport Mpsc.queues) two_copies =
        .ok (t, log) ∧ t.tasks[0]? = some p ∧ polled 0 log = [hi, hi, ho] ∧
      p.received = [hi] ∧ p.topic = "/t" ∧ p.dropped = false ∧ p.aborted = false := by
  obtain ⟨⟨t, log⟩, hrun⟩ :=
    ends_ok (run (step short_hash) (new : LogosMessagingTransport Mpsc.queues) two_copies)
  have hends : ((run (step short_hash) (new : LogosMessagingTransport Mpsc.queues)
      two_copies).toOption.bind fun r => r.1.tasks[0]?.map fun p => (polled 0 r.2, p.received,
        p.topic)) = some ([hi, hi, ho], [hi], "/t") := by decide +kernel
  have hflags : ((run (step short_hash) (new : LogosMessagingTransport Mpsc.queues)
      two_copies).toOption.bind fun r => r.1.tasks[0]?.map fun p => (p.dropped, p.aborted)) =
      some (false, false) := by decide +kernel
  rw [hrun] at hends hflags
  obtain ⟨p, hp, hget⟩ := Option.map_eq_some_iff.mp hends
  obtain ⟨hpolled, hget⟩ := Prod.mk.inj hget
  obtain ⟨hreceived, htopic⟩ := Prod.mk.inj hget
  obtain ⟨q, hq, hflag⟩ := Option.map_eq_some_iff.mp hflags
  obtain rfl := Option.some.inj (hq.symm.trans hp)
  obtain ⟨hthere, hlive⟩ := Prod.mk.inj hflag
  exact ⟨t, log, q, hrun, hp, hpolled, hreceived, htopic, hthere, hlive⟩

theorem each_polled_payload_comes_once_two_copies :
    ∃ t log p, run (step short_hash) (new : LogosMessagingTransport Mpsc.queues) two_copies =
        .ok (t, log) ∧ t.tasks[0]? = some p ∧ p.received = [hi] ∧
      p.received <+: first_of_each short_hash [] [hi, hi, ho] ∧
      ∃ n t' p', run (step short_hash) t (turns 0 n) = .ok (t', []) ∧ t'.tasks[0]? = some p' ∧
        p'.received = [hi, ho] := by
  obtain ⟨t, log, p, hrun, hp, hpolled, hreceived, -, hthere, hlive⟩ := two_copies_run
  obtain ⟨hpart, -, hwhole⟩ := each_polled_payload_comes_once queues_documented hrun hp
  obtain ⟨-, n, t', p', hturns, hp', hall⟩ := hwhole hthere hlive
  rw [hpolled] at hpart hall
  exact ⟨t, log, p, hrun, hp, hreceived, hpart, n, t', p', hturns, hp', hall.trans (by decide)⟩

/-! ## From the relay to the receiver -/

/-- What the endpoint shows of a message that was posted. -/
def response (m : RelayMessage) : WakuMessageResponse where
  payload := m.payload
  content_topic := some m.content_topic

/-- An answer with messages shows some of those that were published. -/
def Relays (published : List (String × Bytes × UInt64)) : RestAnswer → Prop
  | .messages (some json) => ∃ sent ⊆ published,
    json = sent.map fun m => response (publish m.1 m.2.1 m.2.2)
  | _ => True

/-- The payloads of a topic. -/
def payloads_of (topic : String) (published : List (String × Bytes × UInt64)) : List Bytes :=
  published.filterMap fun m => if m.1 = topic then some m.2.1 else none

theorem poll_of_published (topic : String) (sent : List (String × Bytes × UInt64)) :
    poll_rest_payloads topic (sent.map fun m => response (publish m.1 m.2.1 m.2.2)) =
      payloads_of topic sent := by
  rw [poll_rest_payloads, List.filterMap_map, payloads_of]
  apply List.filterMap_congr
  intro m _
  simp [response, publish, base64_decode_encode, Except.toOption]

theorem mem_poll_of_relays {published : List (String × Bytes × UInt64)} {answer : RestAnswer}
    (h : Relays published answer) {topic : String} {payload : Bytes}
    (hmem : payload ∈ (poll_rest_messages topic answer).toOption.getD []) :
    payload ∈ payloads_of topic published := by
  cases answer with
  | failed e => cases hmem
  | refused status body => cases hmem
  | messages json =>
    cases json with
    | none => cases hmem
    | some json =>
      obtain ⟨sent, hsent, rfl⟩ := h
      rw [poll_rest_messages, Option.getD_some, poll_of_published] at hmem
      exact List.filterMap_subset _ hsent hmem

/-- The log has what the answers of the polls gave. -/
theorem polled_answers (hrun : run (step hash) (new : LogosMessagingTransport M) ops =
    .ok (t, log)) :
    ∀ out ∈ log, ∃ answer, .poll out.task answer ∈ ops ∧
      out.payloads = (poll_rest_messages out.topic answer).toOption.getD [] := by
  induction ops using List.reverseRecOn generalizing t log with
  | nil =>
    cases hrun
    intro out hout
    cases hout
  | append_singleton ops op ih =>
    obtain ⟨s, log₁, log₂, hbefore, hstep, rfl⟩ := run_snoc_cases hrun
    intro out hout
    rcases List.mem_append.mp hout with hout | hout
    · obtain ⟨answer, hmem, heq⟩ := ih hbefore out hout
      exact ⟨answer, List.mem_append_left _ hmem, heq⟩
    · cases op with
      | poll k answer =>
        have hpoll := Except.ok.inj hstep
        rw [poll] at hpoll
        split at hpoll
        case h_1 p hp =>
          split at hpoll
          case isTrue =>
            obtain ⟨-, rfl⟩ := Prod.mk.inj hpoll
            obtain rfl := List.mem_singleton.mp hout
            exact ⟨answer, List.mem_append_right _ (List.mem_singleton_self _), rfl⟩
          case isFalse =>
            cases hpoll
            cases hout
        case h_2 =>
          cases hpoll
          cases hout
      | _ =>
        cases hstep
        cases hout

theorem mem_polled {k : Nat} {payload : Bytes} :
    payload ∈ polled k log ↔ ∃ out ∈ log, out.task = k ∧ payload ∈ out.payloads := by
  rw [polled, List.mem_flatMap]
  constructor
  · rintro ⟨out, hout, hmem⟩
    split at hmem
    case isTrue htask => exact ⟨out, hout, htask, hmem⟩
    case isFalse => cases hmem
  · rintro ⟨out, hout, htask, hmem⟩
    exact ⟨out, hout, by rw [if_pos htask]; exact hmem⟩

/-- When the endpoint shows messages that were published, a receiver gets payloads that
were published to its topic. Where the hash tells these apart, it gets each of them at
most once, however often it was published, and until its topic gets another subscription
or none, it gets all that the polls saw when it keeps taking. -/
theorem what_a_relay_shows_arrives (hM : M.Documented view)
    (hrun : run (step hash) new ops = .ok (t, log)) {k : Nat} {p : Poller M}
    (hp : t.tasks[k]? = some p) {published : List (String × Bytes × UInt64)}
    (hrelay : ∀ j answer, .poll j answer ∈ ops → Relays published answer) :
    (∀ payload ∈ p.received, payload ∈ payloads_of p.topic published) ∧
      ((∀ a ∈ payloads_of p.topic published, ∀ b ∈ payloads_of p.topic published,
          hash a = hash b → a = b) →
        p.received.Nodup ∧
        (p.dropped = false → p.aborted = false →
          ∃ n t' p', run (step hash) t (turns k n) = .ok (t', []) ∧ t'.tasks[k]? = some p' ∧
            p'.received.Nodup ∧ ∀ payload, payload ∈ p'.received ↔ payload ∈ polled k log)) := by
  have h := kept hM hrun
  have hserves := h.serves k p hp
  have hpublished : ∀ payload ∈ polled k log, payload ∈ payloads_of p.topic published := by
    intro payload hmem
    obtain ⟨out, hout, rfl, hshown⟩ := mem_polled.mp hmem
    obtain ⟨q, hq, htopic⟩ := h.topics out hout
    obtain rfl := Option.some.inj (hp.symm.trans hq)
    obtain ⟨answer, hpoll, hanswer⟩ := polled_answers hrun out hout
    rw [hanswer] at hshown
    rw [htopic]
    exact mem_poll_of_relays (hrelay _ answer hpoll) hshown
  have hnodup : (first_of_each hash [] (polled k log)).Nodup :=
    (first_of_each_keys_nodup hash [] (polled k log)).of_map
  have hpart := hserves.received.sublist
  refine ⟨fun payload hmem => ?_, fun hhash => ⟨hnodup.sublist hpart, fun hthere hlive => ?_⟩⟩
  · exact hpublished payload ((first_of_each_sublist _ _ _).subset (hpart.subset hmem))
  · obtain ⟨t', p', hturns, hk, hreceived⟩ :=
      run_turns hM _ hp hserves hthere hlive (Nat.le_refl _)
    refine ⟨_, t', p', hturns, hk, hreceived ▸ hnodup, fun payload => ?_⟩
    rw [hreceived]
    apply mem_first_of_each
    intro a ha b hb
    exact hhash a (hpublished a ha) b (hpublished b hb)

theorem what_a_relay_shows_arrives_two_copies :
    ∃ t log p, run (step short_hash) (new : LogosMessagingTransport Mpsc.queues) two_copies =
        .ok (t, log) ∧ t.tasks[0]? = some p ∧
      (∀ payload ∈ p.received,
        payload ∈ payloads_of "/t" [("/t", hi, 1), ("/t", hi, 2), ("/t", ho, 3)]) ∧
      ∃ n t' p', run (step short_hash) t (turns 0 n) = .ok (t', []) ∧ t'.tasks[0]? = some p' ∧
        p'.received.Nodup ∧ ∀ payload, payload ∈ p'.received ↔ payload ∈ [hi, hi, ho] := by
  obtain ⟨t, log, p, hrun, hp, hpolled, -, htopic, hthere, hlive⟩ := two_copies_run
  have hrelay : ∀ j answer, .poll j answer ∈ two_copies →
      Relays [("/t", hi, 1), ("/t", hi, 2), ("/t", ho, 3)] answer := by
    intro j answer hmem
    simp only [two_copies, List.mem_cons, reduceCtorEq, NwakuOp.poll.injEq, List.not_mem_nil,
      false_or, or_false] at hmem
    obtain ⟨-, rfl⟩ := hmem
    exact ⟨_, List.Subset.refl _, by decide +kernel⟩
  obtain ⟨hpublished, hwhole⟩ := what_a_relay_shows_arrives queues_documented hrun hp hrelay
  rw [htopic] at hpublished hwhole
  obtain ⟨-, hall⟩ := hwhole (by decide)
  obtain ⟨n, t', p', hturns, hp', hnodup, hsame⟩ := hall hthere hlive
  rw [hpolled] at hsame
  exact ⟨t, log, p, hrun, hp, hpublished, n, t', p', hturns, hp', hnodup, hsame⟩

end LogosMessagingTransport

end lmao.nwaku_rest
