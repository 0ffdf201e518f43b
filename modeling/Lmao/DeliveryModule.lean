-- The transport over Basecamp's delivery module (delivery_module_transport.rs of the
-- transport crate). The module emits what it receives, the queue of the shim holds it,
-- and a poll loop takes it from there to the receiver that its topic has.
import Mathlib.Data.List.Forall2
import Lmao.Base64
import Lmao.Channel
import Lmao.ShimEvents
import Lmao.StorageModule
import Lmao.TopicRoutes

namespace lmao.transport.delivery_module

open json (Tree)
open machine
open sds (TransportError)
open shim (Event LogosShim)
open storage (as_str kind_error plain_error)

def MODULE : String := "delivery_module"

def EVENT_MESSAGE_RECEIVED : String := "messageReceived"

/-- The JSON libraries: `serde_json` with its reader, whose errors are texts, and the
`Display` of its values, and Qt with `QJsonDocument::toJson`. -/
structure Serde where
  from_str : String → Except String Tree
  to_string : Tree → String
  toJson : Tree → String

def as_bool : Tree → Option Bool
  | .bool b => some b
  | _ => none

def as_array : Tree → Option (List Tree)
  | .array items => some items
  | _ => none

/-! ## The answers of the module -/

/-- What the shim answered to a call. -/
abbrev Answer := Except String String

def call (S : Serde) (method : String) (answer : Answer) : Except TransportError Tree :=
  match answer with
  | .error e => .error (.Transport ("delivery_module " ++ method ++ ": " ++ e))
  | .ok raw =>
    match S.from_str raw with
    | .error e => .error (.Transport ("delivery_module " ++ method ++ " bad JSON: " ++ e))
    | .ok v => .ok v

def error_message (v : Tree) : Option String := (kind_error v).or (plain_error v)

def check_bool (S : Serde) (v : Tree) (method : String) : Except TransportError Unit :=
  match error_message v with
  | some err => .error (.Transport (method ++ ": " ++ err))
  | none =>
    if as_bool v = some true then .ok ()
    else if (v.get "value").bind as_bool = some true then .ok ()
    else .error (.Transport (method ++ ": unexpected response " ++ S.to_string v))

def call_bool (S : Serde) (method : String) (answer : Answer) : Except TransportError Unit :=
  (call S method answer).bind fun resp => check_bool S resp method

/-! ## Events -/

/-- The document of an event, as the shim writes it. -/
def document (e : Event) : Tree :=
  .object [("data", .array e.data), ("event", .str e.event), ("module", .str e.module)]

/-- The topic and the payload of an event. Events that are not well formed have none. -/
def read_event (S : Serde) (json : String) : Option (String × Bytes) :=
  match S.from_str json with
  | .error _ => none
  | .ok env =>
    if (env.get "event").bind as_str ≠ some EVENT_MESSAGE_RECEIVED then none
    else
      match (env.get "data").bind as_array with
      | none => none
      | some data =>
        -- [messageHash, contentTopic, payload_b64, timestampStr]
        let topic := (data[1]?.bind as_str).getD ""
        let payload_b64 := (data[2]?.bind as_str).getD ""
        if topic = "" then none else (base64.decode payload_b64).map fun payload => (topic, payload)

def dispatch_event {M : Mpsc} (S : Serde) (json : String) (subs : Routes M) : Routes M :=
  match read_event S json with
  | none => subs
  | some (topic, payload) => subs.forward topic payload

/-! ## The transport -/

structure DeliveryModuleTransport (M : Mpsc) where
  shim : LogosShim
  subscriptions : Routes M

/-- What happens to the transport. A `subscribe` or `unsubscribe` comes with the
answer of the module to its call; events may come before the answer, and then
they come before the operation. -/
inductive DeliveryOp
  | emit (e : Event)
  | poll
  | subscribe (topic : String) (answer : Answer)
  | unsubscribe (topic : String) (answer : Answer)
  | recv (k : Nat)
  | drop (k : Nat)

inductive DeliveryOutput
  | polled (json : String)
  | subscribed (topic : String) (result : Except TransportError Nat)
  | unsubscribed (topic : String) (result : Except TransportError Unit)
  | received (k : Nat)
  | dropped (k : Nat)

variable {M : Mpsc}

namespace DeliveryModuleTransport

/-- Listening, with no subscription yet. -/
def started : DeliveryModuleTransport M where
  shim :=
    { events := []
      listened := [LogosShim.key MODULE EVENT_MESSAGE_RECEIVED]
      slots := [(MODULE, EVENT_MESSAGE_RECEIVED)] }
  subscriptions := .new

def new (S : Serde) (create start : Answer) (client obj : Bool) :
    Except TransportError (DeliveryModuleTransport M) :=
  (call_bool S "createNode" create).bind fun _ =>
    (call_bool S "start" start).bind fun _ =>
      let listening :=
        LogosShim.new.logos_shim_listen MODULE EVENT_MESSAGE_RECEIVED client obj
      if listening.2 then .ok { shim := listening.1, subscriptions := .new }
      else .error (.Transport ("listen: shim error: \x7b\"error\":\"listen(" ++ MODULE ++ ", " ++
        EVENT_MESSAGE_RECEIVED ++ ") failed — module not loaded?\"\x7d"))

/-- The arguments of the call, and its result. -/
def publish (S : Serde) (topic : String) (payload : Bytes) (answer : Answer) :
    Tree × Except TransportError Unit :=
  (.array [.str topic, .str (base64.encode payload)],
    (call S "send" answer).bind fun resp =>
      match error_message resp with
      | some err => .error (.Transport ("send: " ++ err))
      | none => .ok ())

/-- The map changes after the module has agreed. -/
def subscribe (S : Serde) (t : DeliveryModuleTransport M) (topic : String) (answer : Answer) :
    DeliveryModuleTransport M × Except TransportError Nat :=
  match call_bool S "subscribe" answer with
  | .error e => (t, .error e)
  | .ok _ =>
    ({ t with subscriptions := t.subscriptions.insert 256 topic },
      .ok t.subscriptions.receivers.length)

/-- The map changes before the module is asked. -/
def unsubscribe (S : Serde) (t : DeliveryModuleTransport M) (topic : String) (answer : Answer) :
    DeliveryModuleTransport M × Except TransportError Unit :=
  ({ t with subscriptions := t.subscriptions.remove topic }, call_bool S "unsubscribe" answer)

/-- One turn of the poll loop. -/
def poll (S : Serde) (t : DeliveryModuleTransport M) :
    DeliveryModuleTransport M × List DeliveryOutput :=
  match t.shim.logos_shim_poll_event with
  | (_, none) => (t, [])
  | (shim, some e) =>
    let json := S.toJson (document e)
    ({ shim, subscriptions := dispatch_event S json t.subscriptions }, [.polled json])

def step (S : Serde) (t : DeliveryModuleTransport M) :
    DeliveryOp → Except Empty (DeliveryModuleTransport M × List DeliveryOutput)
  | .emit e => .ok ({ t with shim := t.shim.onEvent e }, [])
  | .poll => .ok (t.poll S)
  | .subscribe topic answer =>
    let r := t.subscribe S topic answer
    .ok (r.1, [.subscribed topic r.2])
  | .unsubscribe topic answer =>
    let r := t.unsubscribe S topic answer
    .ok (r.1, [.unsubscribed topic r.2])
  | .recv k => .ok ({ t with subscriptions := t.subscriptions.apply 256 (.recv k) }, [.received k])
  | .drop k => .ok ({ t with subscriptions := t.subscriptions.apply 256 (.drop k) }, [.dropped k])

end DeliveryModuleTransport

/-! ## What the log says about the map -/

/-- What the output of a step says about the map and the receivers. -/
def routes (S : Serde) : DeliveryOutput → List Route
  | .polled json =>
    match read_event S json with
    | none => []
    | some (topic, payload) => [.forward topic payload]
  | .subscribed topic (.ok _) => [.insert topic]
  | .subscribed _ (.error _) => []
  | .unsubscribed topic _ => [.remove topic]
  | .received k => [.recv k]
  | .dropped k => [.drop k]

namespace DeliveryModuleTransport

variable {S : Serde} {t t' : DeliveryModuleTransport M}

theorem subscribe_ok {topic : String} {answer : Answer} {k : Nat}
    (h : t.subscribe S topic answer = (t', .ok k)) :
    t'.shim = t.shim ∧ t'.subscriptions = t.subscriptions.insert 256 topic ∧
      k = t.subscriptions.receivers.length := by
  rw [subscribe] at h
  split at h
  · cases h
  · cases h
    exact ⟨rfl, rfl, rfl⟩

theorem poll_routes (S : Serde) (t : DeliveryModuleTransport M) :
    (t.poll S).1.subscriptions = t.subscriptions.replay 256 ((t.poll S).2.flatMap (routes S)) := by
  rw [poll, LogosShim.logos_shim_poll_event]
  cases t.shim.events.head? with
  | none => rfl
  | some e =>
    simp only [List.flatMap_singleton, dispatch_event, routes]
    cases read_event S (S.toJson (document e)) with
    | none => rfl
    | some p => rfl

theorem subscribe_routes (S : Serde) (t : DeliveryModuleTransport M) (topic : String)
    (answer : Answer) :
    (t.subscribe S topic answer).1.subscriptions =
      t.subscriptions.replay 256 (routes S (.subscribed topic (t.subscribe S topic answer).2)) := by
  rw [subscribe]
  split <;> rfl

/-- The log of a step tells what became of the map. -/
theorem step_routes {op : DeliveryOp} {out : List DeliveryOutput}
    (h : step S t op = .ok (t', out)) :
    t'.subscriptions = t.subscriptions.replay 256 (out.flatMap (routes S)) := by
  cases op with
  | emit e =>
    cases h
    rfl
  | poll =>
    have heq := poll_routes S t
    rw [Except.ok.inj h] at heq
    exact heq
  | subscribe topic answer =>
    cases h
    rw [List.flatMap_singleton]
    exact subscribe_routes S t topic answer
  | unsubscribe topic answer =>
    cases h
    rfl
  | recv k =>
    cases h
    rfl
  | drop k =>
    cases h
    rfl

/-- So does the log of a run. -/
theorem run_routes {ops : List DeliveryOp} {log : List DeliveryOutput}
    (h : run (step S) t ops = .ok (t', log)) :
    t'.subscriptions = t.subscriptions.replay 256 (log.flatMap (routes S)) := by
  apply run_invariant (I := fun log (s : DeliveryModuleTransport M) =>
    s.subscriptions = t.subscriptions.replay 256 (log.flatMap (routes S))) rfl _ h
  intro log s op s' out hs hstep
  rw [step_routes hstep, hs, List.flatMap_append, Routes.replay_append]

theorem new_ok {create start : Answer} {client obj : Bool}
    (h : new S create start client obj = .ok t) : t = started := by
  rw [new] at h
  cases hcreate : call_bool S "createNode" create with
  | error e => simp [hcreate, Except.bind] at h
  | ok _ =>
    cases hstart : call_bool S "start" start with
    | error e => simp [hcreate, hstart, Except.bind] at h
    | ok _ =>
      simp only [hcreate, hstart, Except.bind] at h
      cases client <;> cases obj <;>
        simp [LogosShim.logos_shim_listen, LogosShim.new] at h
      exact h.symm

/-- In every run of the transport, whatever comes between: the receiver of a
subscription gets messages of its topic in the order of the polls, each once, until
the topic gets another receiver or none. It gets all of them exactly when its
channel of 256 is never full when one comes. -/
theorem each_receiver_gets_its_topic_in_order {view : M.Chan → Channel} (hM : M.Documented view)
    {create start answer : Answer} {client obj : Bool} {t₀ t₁ t₂ t₃ : DeliveryModuleTransport M}
    {before after : List DeliveryOp} {log₁ log₃ : List DeliveryOutput} {topic : String} {k : Nat}
    (hnew : new S create start client obj = .ok t₀)
    (hbefore : run (step S) t₀ before = .ok (t₁, log₁))
    (hsubscribe : t₁.subscribe S topic answer = (t₂, .ok k))
    (hafter : run (step S) t₂ after = .ok (t₃, log₃)) :
    ∃ r, t₃.subscriptions.receivers[k]? = some r ∧
      (r.taken view).Sublist (Route.offered topic (log₃.flatMap (routes S))) ∧
      (r.dropped = false →
        (r.taken view = Route.offered topic (log₃.flatMap (routes S)) ↔
          Routes.AllFit view 256 k t₂.subscriptions (log₃.flatMap (routes S)))) := by
  obtain rfl := new_ok hnew
  have hvalid : t₁.subscriptions.Valid := by
    rw [run_routes hbefore]
    exact Routes.Valid.new.replay 256 _
  obtain ⟨-, hinsert, rfl⟩ := subscribe_ok hsubscribe
  obtain ⟨r, hr⟩ := Routes.serves hM hvalid (by decide : 0 < 256) topic
    (log₃.flatMap (routes S))
  rw [← hinsert] at hr
  refine ⟨r, ?_, hr.sublist, hr.complete⟩
  rw [run_routes hafter]
  exact hr.handed_out

/-! A short run, with the texts that the reader meets in it. -/

def one_event : Event :=
  ⟨MODULE, EVENT_MESSAGE_RECEIVED, [.str "h1", .str "/t", .str "aGk=", .str "1"]⟩

def one_text : String :=
  "\x7b\"data\":[\"h1\",\"/t\",\"aGk=\",\"1\"],\"event\":\"messageReceived\"," ++
    "\"module\":\"delivery_module\"\x7d"

def second_event : Event :=
  ⟨MODULE, EVENT_MESSAGE_RECEIVED, [.str "h2", .str "/t", .str "aG8=", .str "2"]⟩

def second_text : String :=
  "\x7b\"data\":[\"h2\",\"/t\",\"aG8=\",\"2\"],\"event\":\"messageReceived\"," ++
    "\"module\":\"delivery_module\"\x7d"

def short_serde : Serde where
  from_str s :=
    if s = "true" then .ok (.bool true)
    else if s = one_text then .ok (document one_event)
    else if s = second_text then .ok (document second_event)
    else .error "expected value at line 1 column 1"
  to_string _ := "null"
  toJson
    | .object ((_, .array (.str "h1" :: _)) :: _) => one_text
    | _ => second_text

/-- Subscribed to one topic. -/
def subscribed : DeliveryModuleTransport Mpsc.queues :=
  { shim := (started : DeliveryModuleTransport Mpsc.queues).shim
    subscriptions := Routes.new.insert 256 "/t" }

theorem each_receiver_gets_its_topic_in_order_one_message :
    ∃ t₃ log₃, run (step short_serde) subscribed [.emit one_event, .poll, .recv 0] =
        .ok (t₃, log₃) ∧
      ∃ r, t₃.subscriptions.receivers[0]? = some r ∧
        (r.taken id).Sublist (Route.offered "/t" (log₃.flatMap (routes short_serde))) ∧
        (r.dropped = false →
          (r.taken id = Route.offered "/t" (log₃.flatMap (routes short_serde)) ↔
            Routes.AllFit id 256 0 subscribed.subscriptions
              (log₃.flatMap (routes short_serde)))) := by
  obtain ⟨⟨t₃, log₃⟩, hrun⟩ :=
    ends_ok (run (step short_serde) subscribed [.emit one_event, .poll, .recv 0])
  have hnew : new short_serde (.ok "true") (.ok "true") true true =
      .ok (started : DeliveryModuleTransport Mpsc.queues) := rfl
  have hnone : run (step short_serde) (started : DeliveryModuleTransport Mpsc.queues) [] =
      .ok (started, []) := rfl
  have hsubscribe : started.subscribe short_serde "/t" (.ok "true") = (subscribed, .ok 0) := rfl
  exact ⟨t₃, log₃, hrun,
    each_receiver_gets_its_topic_in_order queues_documented hnew hnone hsubscribe hrun⟩

/-! ## From the module to the receiver -/

/-- The text of an event in the queue. -/
def text (S : Serde) (e : Event) : String := S.toJson (document e)

/-- What the module emitted under the name that the transport listens to. -/
def emitted (ops : List DeliveryOp) : List Event :=
  ops.filterMap fun
    | .emit e => if (MODULE, EVENT_MESSAGE_RECEIVED) = (e.module, e.event) then some e else none
    | _ => none

def polled (log : List DeliveryOutput) : List String :=
  log.filterMap fun
    | .polled json => some json
    | _ => none

theorem emitted_append (ops ops' : List DeliveryOp) :
    emitted (ops ++ ops') = emitted ops ++ emitted ops' := List.filterMap_append

theorem polled_append (log log' : List DeliveryOutput) :
    polled (log ++ log') = polled log ++ polled log' := List.filterMap_append

/-- The transport has its one slot, and what was polled and what waits are what
was waiting and what was emitted. -/
theorem run_queue {ops : List DeliveryOp} {log : List DeliveryOutput}
    (hslots : t.shim.slots = [(MODULE, EVENT_MESSAGE_RECEIVED)])
    (h : run (step S) t ops = .ok (t', log)) :
    t'.shim.slots = t.shim.slots ∧
      polled log ++ t'.shim.events.map (text S) =
        t.shim.events.map (text S) ++ (emitted ops).map (text S) := by
  induction ops using List.reverseRecOn generalizing t' log with
  | nil =>
    cases h
    simp [polled, emitted]
  | append_singleton ops op ih =>
    obtain ⟨s, log', out, hrun, hstep, rfl⟩ := run_snoc_cases h
    obtain ⟨hsame, hqueue⟩ := ih hrun
    rw [polled_append, emitted_append, List.map_append, ← List.append_assoc, ← hqueue]
    have hkeep : s.shim = t'.shim → polled out = [] → emitted [op] = [] →
        t'.shim.slots = t.shim.slots ∧
          polled log' ++ polled out ++ t'.shim.events.map (text S) =
            polled log' ++ s.shim.events.map (text S) ++ (emitted [op]).map (text S) := by
      intro hshim hpolled hemitted
      rw [← hshim, hpolled, hemitted]
      simp [hsame]
    cases op with
    | emit e =>
      cases hstep
      have hone : emitted [.emit e] =
          if (MODULE, EVENT_MESSAGE_RECEIVED) = (e.module, e.event) then [e] else [] := by
        by_cases hheard : (MODULE, EVENT_MESSAGE_RECEIVED) = (e.module, e.event)
        · simp only [emitted, List.filterMap_cons, List.filterMap_nil, if_pos hheard]
        · simp only [emitted, List.filterMap_cons, List.filterMap_nil, if_neg hheard]
      refine ⟨hsame, ?_⟩
      simp only [LogosShim.onEvent_one (hsame.trans hslots), hone, List.map_append,
        List.append_assoc]
      rfl
    | poll =>
      have hpoll := Except.ok.inj hstep
      rw [poll, LogosShim.logos_shim_poll_event] at hpoll
      cases hevents : s.shim.events with
      | nil =>
        simp only [hevents, List.head?_nil] at hpoll
        cases hpoll
        simp [hsame, hevents, polled, emitted]
      | cons e rest =>
        simp only [hevents, List.head?_cons] at hpoll
        cases hpoll
        simp [hsame, polled, emitted, text]
    | subscribe topic answer =>
      cases hstep
      refine hkeep ?_ rfl rfl
      rw [subscribe]
      split <;> rfl
    | unsubscribe topic answer =>
      cases hstep
      exact hkeep rfl rfl rfl
    | recv k =>
      cases hstep
      exact hkeep rfl rfl rfl
    | drop k =>
      cases hstep
      exact hkeep rfl rfl rfl

/-- The module hands a published message on: the event has the topic and the
payload as they stood in the arguments of the call. -/
def Delivers (S : Serde) (e : Event) (message : String × Bytes) : Prop :=
  ∃ hash timestamp a b, e.data = [hash, a, b, timestamp] ∧
    ∀ answer, (publish S message.1 message.2 answer).1 = .array [a, b]

/-- The reader reads the text of the event. -/
def Reads (S : Serde) (e : Event) : Prop := S.from_str (text S e) = .ok (document e)

theorem read_event_text {e : Event} {message : String × Bytes} (hserde : Reads S e)
    (h : Delivers S e message) (hevent : e.event = EVENT_MESSAGE_RECEIVED) :
    read_event S (text S e) = if message.1 = "" then none else some message := by
  obtain ⟨hash, timestamp, a, b, hdata, hargs⟩ := h
  have hpublished := hargs (.ok "")
  rw [publish, Tree.array.injEq, List.cons.injEq, List.cons.injEq] at hpublished
  obtain ⟨rfl, rfl, -⟩ := hpublished
  rw [read_event, hserde]
  simp [document, json.Tree.get, as_str, as_array, hevent, hdata, base64.decode_encode]

/-- The payload of an event that is on the topic. -/
def payload_of (S : Serde) (topic : String) (json : String) : Option Bytes :=
  (read_event S json).bind fun message => if message.1 = topic then some message.2 else none

def messages (topic : String) (published : List (String × Bytes)) : List Bytes :=
  (published.filter fun message => message.1 = topic).map Prod.snd

theorem payloads_of_routes (S : Serde) (topic : String) (log : List DeliveryOutput) :
    (log.flatMap (routes S)).filterMap (Route.payload_on topic) =
      (polled log).filterMap (payload_of S topic) := by
  induction log with
  | nil => rfl
  | cons out log ih =>
    rw [List.flatMap_cons, List.filterMap_append, ih]
    cases out with
    | polled json =>
      have hpolled : polled (.polled json :: log) = json :: polled log := rfl
      rw [hpolled, List.filterMap_cons, routes, payload_of]
      cases read_event S json with
      | none => rfl
      | some message =>
        by_cases htopic : message.1 = topic
        · simp [Route.payload_on, htopic]
        · simp [Route.payload_on, htopic]
    | subscribed topic' result => cases result <;> rfl
    | unsubscribed topic' result => rfl
    | received k => rfl
    | dropped k => rfl

theorem payload_of_text {e : Event} {message : String × Bytes} (hserde : Reads S e)
    (topic : String) (h : Delivers S e message) (hevent : e.event = EVENT_MESSAGE_RECEIVED) :
    payload_of S topic (text S e) =
      if topic ≠ "" ∧ message.1 = topic then some message.2 else none := by
  rw [payload_of, read_event_text hserde h hevent]
  by_cases hnone : message.1 = ""
  · rw [if_pos hnone, if_neg]
    · rfl
    · rintro ⟨hne, htopic⟩
      exact hne (htopic ▸ hnone)
  · rw [if_neg hnone, Option.bind_some]
    by_cases htopic : message.1 = topic
    · rw [if_pos htopic, if_pos ⟨htopic ▸ hnone, htopic⟩]
    · rw [if_neg htopic, if_neg fun h => htopic h.2]

/-- What the texts of the emitted events hold for the topic. -/
theorem payloads_of_texts (topic : String) {es : List Event} {published : List (String × Bytes)}
    (h : List.Forall₂ (Delivers S) es published) (hserde : ∀ e ∈ es, Reads S e)
    (hevent : ∀ e ∈ es, e.event = EVENT_MESSAGE_RECEIVED) :
    (es.map (text S)).filterMap (payload_of S topic) =
      if topic = "" then [] else messages topic published := by
  induction h with
  | nil => simp [messages]
  | @cons e message es published hhead _ ih =>
    obtain ⟨hfirst, hrest⟩ := List.forall_mem_cons.mp hevent
    obtain ⟨hread, hreads⟩ := List.forall_mem_cons.mp hserde
    rw [List.map_cons, List.filterMap_cons, ih hreads hrest,
      payload_of_text hread topic hhead hfirst]
    by_cases hempty : topic = ""
    · simp [hempty]
    · by_cases htopic : message.1 = topic
      · simp [htopic, hempty, messages]
      · simp [htopic, hempty, messages]

theorem mem_emitted {ops : List DeliveryOp} {e : Event} (h : e ∈ emitted ops) :
    e.event = EVENT_MESSAGE_RECEIVED := by
  obtain ⟨op, -, hop⟩ := List.mem_filterMap.mp h
  cases op with
  | emit e' =>
    simp only [Option.ite_none_right_eq_some, Prod.mk.injEq, Option.some.injEq] at hop
    obtain ⟨⟨-, hevent⟩, rfl⟩ := hop
    exact hevent.symm
  | poll => cases hop
  | subscribe topic answer => cases hop
  | unsubscribe topic answer => cases hop
  | recv k => cases hop
  | drop k => cases hop

/-- When the module hands on what was published, byte for byte what a receiver
gets was published to its topic, in that order and each message once. A receiver
that is there to the end gets all that the polls found since its subscription. -/
theorem what_arrives_was_published {view : M.Chan → Channel} (hM : M.Documented view)
    {create start answer : Answer} {client obj : Bool} {t₀ t₁ t₂ t₃ : DeliveryModuleTransport M}
    {before after : List DeliveryOp} {log₁ log₃ : List DeliveryOutput} {topic : String} {k : Nat}
    {published : List (String × Bytes)}
    (hnew : new S create start client obj = .ok t₀)
    (hbefore : run (step S) t₀ before = .ok (t₁, log₁))
    (hsubscribe : t₁.subscribe S topic answer = (t₂, .ok k))
    (hafter : run (step S) t₂ after = .ok (t₃, log₃))
    (hserde : ∀ e ∈ emitted (before ++ after), Reads S e)
    (hnetwork : List.Forall₂ (Delivers S) (emitted (before ++ after)) published) :
    ∃ r, t₃.subscriptions.receivers[k]? = some r ∧
      (r.taken view).Sublist (messages topic published) ∧
      (topic ≠ "" → r.dropped = false → t₃.shim.events = [] →
        (∀ q ∈ log₃.flatMap (routes S), ¬ q.Ends topic) →
        Routes.AllFit view 256 k t₂.subscriptions (log₃.flatMap (routes S)) →
        r.taken view = messages topic (published.drop (polled log₁).length)) := by
  obtain rfl := new_ok hnew
  obtain ⟨hkept, hinsert, rfl⟩ := subscribe_ok hsubscribe
  have hvalid : t₁.subscriptions.Valid := by
    rw [run_routes hbefore]
    exact Routes.Valid.new.replay 256 _
  obtain ⟨r, hr⟩ := Routes.serves hM hvalid (by decide : 0 < 256) topic
    (log₃.flatMap (routes S))
  rw [← hinsert] at hr
  -- the polls before and after the subscription, and what still waits
  obtain ⟨hslots₁, hqueue₁⟩ := run_queue rfl hbefore
  have hslots₂ : t₂.shim.slots = [(MODULE, EVENT_MESSAGE_RECEIVED)] := by
    rw [hkept, hslots₁]
    rfl
  obtain ⟨-, hqueue₃⟩ := run_queue hslots₂ hafter
  have hall : polled log₁ ++ (polled log₃ ++ t₃.shim.events.map (text S)) =
      (emitted (before ++ after)).map (text S) := by
    rw [hqueue₃, hkept, ← List.append_assoc, hqueue₁, emitted_append, List.map_append]
    rfl
  have hevent : ∀ e ∈ emitted (before ++ after), e.event = EVENT_MESSAGE_RECEIVED :=
    fun e he => mem_emitted he
  refine ⟨r, ?_, ?_, ?_⟩
  · rw [run_routes hafter]
    exact hr.handed_out
  · have hpart : (polled log₃).Sublist ((emitted (before ++ after)).map (text S)) := by
      rw [← hall]
      exact (List.sublist_append_left _ _).trans (List.sublist_append_right _ _)
    have hoffered := (Route.offered_sublist topic (log₃.flatMap (routes S)))
    rw [payloads_of_routes] at hoffered
    refine (hr.sublist.trans hoffered).trans ((hpart.filterMap _).trans ?_)
    rw [payloads_of_texts topic hnetwork hserde hevent]
    split
    · exact List.nil_sublist _
    · exact List.Sublist.refl _
  · intro htopic hthere hdrained hlive hfit
    rw [hdrained, List.map_nil, List.append_nil] at hall
    have hlater : polled log₃ =
        ((emitted (before ++ after)).drop (polled log₁).length).map (text S) := by
      rw [List.map_drop, ← hall, List.drop_left]
    rw [(hr.complete hthere).mpr hfit, Route.offered_of_no_end hlive, payloads_of_routes, hlater,
      payloads_of_texts topic (List.forall₂_drop _ hnetwork)
        (fun e he => hserde e (List.mem_of_mem_drop he))
        (fun e he => hevent e (List.mem_of_mem_drop he)), if_neg htopic]

/-- The first message comes before the subscription. -/
theorem what_arrives_was_published_late_subscription :
    ∃ t₃ log₃, run (step short_serde) subscribed [.emit second_event, .poll, .recv 0] =
        .ok (t₃, log₃) ∧
      ∃ r, t₃.subscriptions.receivers[0]? = some r ∧
        (r.taken id).Sublist (messages "/t" [("/t", [0x68, 0x69]), ("/t", [0x68, 0x6f])]) ∧
        r.taken id = messages "/t" [("/t", [0x68, 0x6f])] := by
  have hnew : new short_serde (.ok "true") (.ok "true") true true =
      .ok (started : DeliveryModuleTransport Mpsc.queues) := rfl
  have hbefore : run (step short_serde) (started : DeliveryModuleTransport Mpsc.queues)
      [.emit one_event, .poll] = .ok (started, [.polled one_text]) := rfl
  have hsubscribe : started.subscribe short_serde "/t" (.ok "true") = (subscribed, .ok 0) := rfl
  have hafter : run (step short_serde) subscribed [.emit second_event, .poll, .recv 0] =
      .ok ({ subscribed with
          subscriptions := subscribed.subscriptions.replay 256
            [.forward "/t" [0x68, 0x6f], .recv 0] },
        [.polled second_text, .received 0]) := rfl
  have hemitted : emitted ([.emit one_event, .poll] ++ [.emit second_event, .poll, .recv 0]) =
      [one_event, second_event] := rfl
  have hread : ∀ e ∈ emitted ([.emit one_event, .poll] ++ [.emit second_event, .poll, .recv 0]),
      Reads short_serde e := by
    rw [hemitted]
    intro e he
    rcases List.mem_cons.mp he with rfl | he
    · rfl
    · rw [List.mem_singleton.mp he]
      rfl
  have hnetwork : List.Forall₂ (Delivers short_serde)
      (emitted ([.emit one_event, .poll] ++ [.emit second_event, .poll, .recv 0]))
      [("/t", [0x68, 0x69]), ("/t", [0x68, 0x6f])] :=
    .cons ⟨.str "h1", .str "1", .str "/t", .str "aGk=", rfl, fun _ => rfl⟩
      (.cons ⟨.str "h2", .str "2", .str "/t", .str "aG8=", rfl, fun _ => rfl⟩ .nil)
  obtain ⟨r, hr, hsublist, hwhole⟩ :=
    what_arrives_was_published queues_documented hnew hbefore hsubscribe hafter hread hnetwork
  refine ⟨_, _, hafter, r, hr, hsublist, hwhole (by decide) ?_ rfl ?_ ?_⟩
  · obtain rfl := Option.some.inj hr
    rfl
  · decide
  · -- the channel is empty when the second message comes
    have hroom : subscribed.subscriptions.HasRoom id 0 (.forward "/t" [0x68, 0x6f]) := by
      intro _ r₀ hr₀
      obtain rfl := Option.some.inj hr₀
      exact ⟨rfl, by decide⟩
    exact ⟨hroom, trivial, trivial⟩

end DeliveryModuleTransport

end lmao.transport.delivery_module
