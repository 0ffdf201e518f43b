-- The consumers of one node: the inbox loop of the agent (cli crate, agent.rs),
-- the `TaskStatus` requests of the daemon (daemon/server.rs) and the running
-- delegations (node crate, delegation.rs). Each poll drains the one topic of
-- the node, and a consumer drops the tasks that are not for it.
import Lmao.Agent

namespace lmao.node

open sds LmaoNode

variable {L : Libs} {F : Type} [IdFilter F]

/-! ## What a poll can find -/

/-- What a message on the topic brings. -/
def brought (L : Libs) (raw : Bytes) : List Arrival :=
  (match L.wire.sds_from_slice raw with
    | some (.Content m) => [.content m]
    | _ => []) ++
  (L.envelope_from_slice raw).toList.map .envelope

/-- What waits in the channel for its dependencies. -/
def parked (ch : MessageChannel F) : List Arrival :=
  ch.incoming_buffer.filterMap fun
    | .Content m => some (.content m)
    | _ => none

/-- What a poll can find: what the unread messages bring and what waits. -/
def pending (L : Libs) (ch : MessageChannel F) (msgs : List Bytes) : List Arrival :=
  msgs.flatMap (brought L) ++ parked ch

omit [IdFilter F] in
theorem mem_parked {ch : MessageChannel F} {a : Arrival} :
    a ∈ parked ch ↔ ∃ m, a = .content m ∧ SdsMessage.Content m ∈ ch.incoming_buffer := by
  unfold parked
  rw [List.mem_filterMap]
  constructor
  · rintro ⟨msg, hmsg, ha⟩
    cases msg with
    | Content m =>
      cases ha
      exact ⟨m, rfl, hmsg⟩
    | Sync s => cases ha
    | Ephemeral e => cases ha
  · rintro ⟨m, rfl, hm⟩
    exact ⟨_, hm, rfl⟩

/-- A message that is taken brings nothing but what it holds and what waited. -/
theorem take_message_pending {B : Build} {ch ch' : MessageChannel F} {msg : Bytes}
    {arrivals : List Arrival} (h : take_message L B ch msg = .ok (ch', arrivals)) :
    arrivals ⊆ brought L msg ++ parked ch ∧ parked ch' ⊆ brought L msg ++ parked ch := by
  unfold take_message at h
  rcases hreceive : ch.receive B L.wire msg with p | ⟨ch₁, delivered⟩
  · simp [hreceive, bind, Except.bind] at h
  have hsource : ∀ m, m ∈ delivered ∨ SdsMessage.Content m ∈ ch₁.incoming_buffer →
      Arrival.content m ∈ brought L msg ++ parked ch := by
    intro m hm
    rcases receive_received hreceive with ⟨rfl, rfl, -⟩ | ⟨sds, hsds, -, hreceived⟩
    · rcases hm with hm | hm
      · cases hm
      · exact List.mem_append_right _ (mem_parked.mpr ⟨m, rfl, hm⟩)
    · rcases hreceived.mem hm with hbuf | rfl
      · exact List.mem_append_right _ (mem_parked.mpr ⟨m, rfl, hbuf⟩)
      · exact List.mem_append_left _ (by simp [brought, hsds])
  have hparked : ∀ ch₂ : MessageChannel F, ch₂.incoming_buffer = ch₁.incoming_buffer →
      parked ch₂ ⊆ brought L msg ++ parked ch := by
    intro ch₂ hbuf a ha
    obtain ⟨m, rfl, hm⟩ := mem_parked.mp ha
    exact hsource m (.inr (hbuf ▸ hm))
  simp only [hreceive, bind, Except.bind, pure, Except.pure] at h
  by_cases hempty : delivered.isEmpty = true
  · simp only [hempty, if_true] at h
    rcases henv : L.envelope_from_slice msg with _ | e
    · simp only [henv] at h
      cases h
      exact ⟨by simp, hparked _ rfl⟩
    · simp only [henv] at h
      split at h
      · cases h
        exact ⟨by simp, hparked _ rfl⟩
      · cases h
        refine ⟨?_, hparked _ rfl⟩
        intro a ha
        obtain rfl := List.mem_singleton.mp ha
        exact List.mem_append_left _ (by simp [brought, henv])
  · simp only [hempty] at h
    cases h
    refine ⟨?_, hparked _ rfl⟩
    intro a ha
    obtain ⟨m, hm, rfl⟩ := List.mem_map.mp ha
    exact hsource m (.inl hm)

omit [IdFilter F] in
theorem take_arrivals_reads {node : LmaoNode L F} {arrivals : List Arrival}
    (hread : ∀ a ∈ arrivals, ∃ task, node.extract_arrival a = .ok task) :
    ∃ tasks, (node.take_arrivals arrivals).2 = .ok tasks ∧
      ∀ task ∈ tasks, node.accept_or_drop task = true ∧
        ∃ a ∈ arrivals, node.extract_arrival a = .ok (some task) := by
  induction arrivals with
  | nil => exact ⟨[], rfl, by simp⟩
  | cons a rest ih =>
    obtain ⟨extracted, ha⟩ := hread a List.mem_cons_self
    obtain ⟨tasks, htasks, hall⟩ := ih fun b hb => hread b (List.mem_cons_of_mem _ hb)
    refine ⟨(extracted.filter node.accept_or_drop).toList ++ tasks, ?_, ?_⟩
    · simp [take_arrivals, ha, htasks, Except.map]
    · intro task htask
      rcases List.mem_append.mp htask with htask | htask
      · obtain ⟨hsome, haccept⟩ := Option.filter_eq_some_iff.mp (Option.mem_toList.mp htask)
        exact ⟨haccept, a, List.mem_cons_self, by rw [ha, hsome]⟩
      · obtain ⟨haccept, b, hb, hextract⟩ := hall task htask
        exact ⟨haccept, b, List.mem_cons_of_mem _ hb, hextract⟩

/-- When everything that the loop can find is read to the end, it returns tasks
of that only. -/
theorem turns_pending (dec : Bytes → Option (Finset MessageId)) {node : LmaoNode L F}
    {ch : MessageChannel F} {msgs : List Bytes}
    (hread : ∀ a ∈ pending L ch msgs, ∃ task, node.extract_arrival a = .ok task) :
    ∃ tasks, (node.turns (exactBlooms dec) ch msgs).result = .ok tasks ∧
      ∀ task ∈ tasks, node.accept_or_drop task = true ∧
        ∃ a ∈ pending L ch msgs, node.extract_arrival a = .ok (some task) := by
  induction msgs generalizing ch with
  | nil => exact ⟨[], rfl, by simp⟩
  | cons msg rest ih =>
    obtain ⟨⟨ch', arrivals⟩, htake⟩ := take_message_returns dec L ch msg
    obtain ⟨harrivals, hparked⟩ := take_message_pending htake
    have hfirst : brought L msg ++ parked ch ⊆ pending L ch (msg :: rest) := by
      intro a ha
      simp only [pending, List.flatMap_cons, List.mem_append] at ha ⊢
      tauto
    have hrest : pending L ch' rest ⊆ pending L ch (msg :: rest) := by
      intro a ha
      rcases List.mem_append.mp ha with ha | ha
      · simp only [pending, List.flatMap_cons, List.mem_append]
        exact .inl (.inr ha)
      · exact hfirst (hparked ha)
    obtain ⟨tasks, htasks, hall⟩ := take_arrivals_reads
      fun a ha => hread a (hfirst (harrivals ha))
    obtain ⟨tasks', htasks', hall'⟩ := ih fun a ha => hread a (hrest ha)
    have hturn : node.turn (exactBlooms dec) ch msg =
        { channel := ch', acks := (node.take_arrivals arrivals).1, result := .ok tasks } := by
      unfold turn
      simp [htake, htasks]
    refine ⟨tasks ++ tasks', ?_, ?_⟩
    · rw [turns_cons_ok (by rw [hturn]), hturn]
      simp [htasks', Except.map]
    · intro task htask
      rcases List.mem_append.mp htask with htask | htask
      · obtain ⟨haccept, a, ha, hextract⟩ := hall task htask
        exact ⟨haccept, a, hfirst (harrivals ha), hextract⟩
      · obtain ⟨haccept, a, ha, hextract⟩ := hall' task htask
        exact ⟨haccept, a, hrest ha, hextract⟩

/-- The same for the whole call. -/
theorem poll_tasks_pending (dec : Bytes → Option (Finset MessageId)) {node : LmaoNode L F}
    (call : PollCall) {msgs : List Bytes} (hrx : call.rx = .ok msgs)
    (hread : ∀ a ∈ pending L node.channel msgs,
      ∃ task, (call.at node).extract_arrival a = .ok task) :
    ∃ tasks, (call.poll_tasks (exactBlooms dec) node).result = .ok tasks ∧
      ∀ task ∈ tasks, node.accept_or_drop task = true ∧
        ∃ a ∈ pending L node.channel msgs, (call.at node).extract_arrival a = .ok (some task) := by
  obtain ⟨tasks, htasks, hall⟩ := turns_pending dec hread
  refine ⟨((call.at node).verify_payments node.seen_tx_hashes tasks).2, ?_, ?_⟩
  · unfold PollCall.poll_tasks poll_tasks
    simp only [hrx]
    have hturns : ((call.at node).turns (exactBlooms dec) (call.at node).channel msgs).result =
        .ok tasks := htasks
    simp only [hturns]
    rfl
  · intro task htask
    exact hall task ((verify_payments_sublist _ _ _).subset htask)

end lmao.node

namespace lmao.cli

open sds machine node

variable {L : Libs} {F : Type} [IdFilter F]

/-! ## The daemon -/

structure TaskWire where
  id : String
  state : String
  sender : String
  recipient : String
  text : Option String
  result_text : Option String
deriving DecidableEq, Repr

def state_debug : TaskState → String
  | .Submitted => "Submitted"
  | .Working => "Working"
  | .InputRequired => "InputRequired"
  | .Completed => "Completed"
  | .Failed => "Failed"
  | .Cancelled => "Cancelled"

/-- The request `TaskStatus`: the tasks with the id, out of those that a poll
returns. -/
def task_status (B : Build) (node : LmaoNode L F) (call : PollCall) (id : String) :
    LmaoNode L F × Except Stop (List TaskWire) :=
  let r := call.poll_tasks B node
  (r.after, r.result.map fun tasks =>
    (tasks.filter fun t => t.id == id).map fun t =>
      { id := t.id, state := state_debug t.state, sender := t.sender, recipient := t.recipient
        text := t.text, result_text := t.result_text })

/-! ## The shared node -/

/-- A node, the messages on its topic that nobody has drained, and the ids that
the running delegations wait for. -/
structure Shared (L : Libs) (F : Type) where
  agent : LmaoNode L F
  topic : List Bytes
  running : List String

/-- Each poll drains the topic. What it gets from the subscription is the topic,
whatever its call says. -/
inductive ConsumerOp
  | arrive (raw : Bytes)
  | inbox (call : PollCall)
  | status (id : String) (call : PollCall)
  /-- A subtask with this id is published. -/
  | delegate (subtask_id : String)
  /-- The `k`-th running delegation polls. -/
  | turn (k : Nat) (call : PollCall)
  /-- The deadline of the `k`-th running delegation passes. -/
  | deadline (k : Nat)

inductive Consumer
  | inbox
  | status (id : String)
  | delegation (subtask_id : String)
deriving DecidableEq, Repr

def Consumer.isDelegation : Consumer → Bool
  | .delegation _ => true
  | _ => false

/-- A poll: who made it, the ids that were waited for, what `poll_tasks` gave,
and the task that a delegation returned for it. -/
structure Drained where
  consumer : Consumer
  awaited : List String
  result : Except Stop (List Task)
  completed : Option Task

/-- The call, with the topic as what it drains. -/
def Shared.drain (s : Shared L F) (call : PollCall) : PollCall := { call with rx := .ok s.topic }

def Shared.step (B : Build) (s : Shared L F) :
    ConsumerOp → Except Empty (Shared L F × List Drained)
  | .arrive raw => .ok ({ s with topic := s.topic ++ [raw] }, [])
  | .inbox call =>
    let r := (s.drain call).poll_tasks B s.agent
    .ok ({ s with agent := r.after, topic := [] }, [⟨.inbox, s.running, r.result, none⟩])
  | .status id call =>
    let r := task_status B s.agent (s.drain call) id
    .ok ({ s with agent := r.1, topic := [] },
      [⟨.status id, s.running, ((s.drain call).poll_tasks B s.agent).result, none⟩])
  | .delegate subtask_id => .ok ({ s with running := s.running ++ [subtask_id] }, [])
  | .turn k call =>
    match s.running[k]? with
    | none => .ok (s, [])
    | some id =>
      let d := LmaoNode.await_response B id s.agent [s.drain call]
      let completed := match d.result with
        | .ok received => received
        | .error _ => none
      .ok ({ agent := d.after
             topic := []
             running := match d.result with
               | .ok none => s.running
               | _ => s.running.eraseIdx k },
        [⟨.delegation id, s.running, ((s.drain call).poll_tasks B s.agent).result, completed⟩])
  | .deadline k => .ok ({ s with running := s.running.eraseIdx k }, [])

/-- The task reaches the consumer that it is for: a response that is waited for
is returned by a delegation that waits for it, and a request comes to the
inbox. -/
structure Reaches (e : Drained) (task : Task) : Prop where
  response : task.result.isSome → task.id ∈ e.awaited →
    e.consumer = .delegation task.id ∧ e.completed = some task
  request : task.result = none → e.consumer = .inbox

instance (e : Drained) (task : Task) : Decidable (Reaches e task) :=
  decidable_of_iff ((task.result.isSome → task.id ∈ e.awaited →
      e.consumer = .delegation task.id ∧ e.completed = some task) ∧
    (task.result = none → e.consumer = .inbox))
    ⟨fun ⟨hresponse, hrequest⟩ => ⟨hresponse, hrequest⟩, fun h => ⟨h.response, h.request⟩⟩

/-- The poll did not fail, and each task that it took from the topic reaches its
consumer. -/
def NothingLost (e : Drained) : Prop :=
  Returns e.result fun tasks => ∀ task ∈ tasks, Reaches e task

instance : DecidablePred NothingLost := fun e =>
  inferInstanceAs (Decidable (Returns e.result _))

/-! ## Polls for oneself -/

/-- The consumer may drain the task: an answer to its own subtask, a request or
an answer that nobody waits for at the inbox, such an answer at the daemon. -/
def MayDrain (running : List String) : Consumer → Task → Prop
  | .inbox, task => task.result = none ∨ task.id ∉ running
  | .status _, task => task.result.isSome ∧ task.id ∉ running
  | .delegation id, task => task.result.isSome ∧ task.id = id

instance (running : List String) : ∀ c task, Decidable (MayDrain running c task)
  | .inbox, _ => inferInstanceAs (Decidable (_ ∨ _))
  | .status _, _ => inferInstanceAs (Decidable (_ ∧ _))
  | .delegation _, _ => inferInstanceAs (Decidable (_ ∧ _))

/-- The tasks that are unread or wait in the channel and that the trust list
lets through. -/
def Shared.held (s : Shared L F) (call : PollCall) : List Task :=
  (pending L s.agent.channel s.topic).filterMap fun a =>
    match (call.at s.agent).extract_arrival a with
    | .ok (some task) => if s.agent.accept_or_drop task then some task else none
    | _ => none

/-- Whatever is unread or waits can be read, and the consumer may drain all the
tasks of it. For a delegation there is one. -/
structure OwnMail (s : Shared L F) (call : PollCall) (c : Consumer) : Prop where
  reads : ∀ a ∈ pending L s.agent.channel s.topic,
    Returns ((call.at s.agent).extract_arrival a) fun _ => True
  own : ∀ task ∈ s.held call, MayDrain s.running c task
  one : c.isDelegation → ∀ task ∈ s.held call, ∀ task' ∈ s.held call, task = task'

instance (s : Shared L F) (call : PollCall) (c : Consumer) : Decidable (OwnMail s call c) :=
  decidable_of_iff ((∀ a ∈ pending L s.agent.channel s.topic,
      Returns ((call.at s.agent).extract_arrival a) fun _ => True) ∧
    (∀ task ∈ s.held call, MayDrain s.running c task) ∧
    (c.isDelegation → ∀ task ∈ s.held call, ∀ task' ∈ s.held call, task = task'))
    ⟨fun ⟨hreads, hown, hone⟩ => ⟨hreads, hown, hone⟩, fun h => ⟨h.reads, h.own, h.one⟩⟩

/-- Each poll drains what is its own. -/
def OwnMailOnly (s : Shared L F) : ConsumerOp → Prop
  | .inbox call => OwnMail s call .inbox
  | .status id call => OwnMail s call (.status id)
  | .turn k call => ∀ id ∈ s.running[k]?, OwnMail s call (.delegation id)
  | _ => True

instance (s : Shared L F) : DecidablePred (OwnMailOnly s)
  | .arrive _ => isTrue trivial
  | .inbox _ => inferInstanceAs (Decidable (OwnMail _ _ _))
  | .status _ _ => inferInstanceAs (Decidable (OwnMail _ _ _))
  | .delegate _ => isTrue trivial
  | .turn k _ => inferInstanceAs (Decidable (∀ id ∈ s.running[k]?, _))
  | .deadline _ => isTrue trivial

omit [IdFilter F] in
theorem mem_held {s : Shared L F} {call : PollCall} {task : Task} {a : LmaoNode.Arrival}
    (ha : a ∈ pending L s.agent.channel s.topic)
    (hextract : (call.at s.agent).extract_arrival a = .ok (some task))
    (haccept : s.agent.accept_or_drop task = true) : task ∈ s.held call :=
  List.mem_filterMap.mpr ⟨a, ha, by simp [hextract, haccept]⟩

/-- A poll of one's own mail does not fail, and returns tasks that one may
drain. -/
theorem OwnMail.drains (dec : Bytes → Option (Finset MessageId)) {s : Shared L F} {call : PollCall}
    {c : Consumer} (h : OwnMail s call c) :
    ∃ tasks, ((s.drain call).poll_tasks (exactBlooms dec) s.agent).result = .ok tasks ∧
      tasks ⊆ s.held call := by
  have hread : ∀ a ∈ pending L s.agent.channel s.topic,
      ∃ task, ((s.drain call).at s.agent).extract_arrival a = .ok task := by
    intro a ha
    obtain ⟨task, htask, -⟩ := h.reads a ha
    exact ⟨task, htask⟩
  obtain ⟨tasks, htasks, hall⟩ := poll_tasks_pending dec (s.drain call) rfl hread
  refine ⟨tasks, htasks, fun task htask => ?_⟩
  obtain ⟨haccept, a, ha, hextract⟩ := hall task htask
  exact mem_held ha hextract haccept

/-- One poll of each consumer. -/
theorem step_nothingLost (dec : Bytes → Option (Finset MessageId)) {s s' : Shared L F}
    {op : ConsumerOp} {out : List Drained} (h : OwnMailOnly s op)
    (hs : s.step (exactBlooms dec) op = .ok (s', out)) : ∀ e ∈ out, NothingLost e := by
  cases op with
  | arrive raw =>
    cases hs
    simp
  | delegate subtask_id =>
    cases hs
    simp
  | deadline k =>
    cases hs
    simp
  | inbox call =>
    cases hs
    obtain ⟨tasks, htasks, hheld⟩ := OwnMail.drains dec h
    intro e he
    obtain rfl := List.mem_singleton.mp he
    refine ⟨tasks, htasks, fun task htask => ⟨?_, fun _ => rfl⟩⟩
    intro hresponse hawaited
    rcases h.own task (hheld htask) with hnone | hnot
    · simp [hnone] at hresponse
    · exact absurd hawaited hnot
  | status id call =>
    cases hs
    obtain ⟨tasks, htasks, hheld⟩ := OwnMail.drains dec h
    intro e he
    obtain rfl := List.mem_singleton.mp he
    refine ⟨tasks, htasks, fun task htask => ⟨?_, ?_⟩⟩
    · intro _ hawaited
      exact absurd hawaited (h.own task (hheld htask)).2
    · intro hnone
      have := (h.own task (hheld htask)).1
      simp [hnone] at this
  | turn k call =>
    simp only [Shared.step] at hs
    rcases hk : s.running[k]? with _ | id
    · simp only [hk] at hs
      cases hs
      simp
    · simp only [hk] at hs
      cases hs
      have hown := h id (by simp [hk])
      obtain ⟨tasks, htasks, hheld⟩ := OwnMail.drains dec hown
      intro e he
      obtain rfl := List.mem_singleton.mp he
      refine ⟨tasks, htasks, fun task htask => ?_⟩
      obtain ⟨hresponse, hid⟩ := hown.own task (hheld htask)
      refine ⟨fun _ _ => ⟨by rw [hid], ?_⟩, fun hnone => by simp [hnone] at hresponse⟩
      rcases hfind : tasks.find? (fun t => t.id == id) with _ | task'
      · have := List.find?_eq_none.mp hfind task htask
        simp [hid] at this
      · have hsame := hown.one rfl task' (hheld (List.mem_of_find?_eq_some hfind)) task
          (hheld htask)
        simp [LmaoNode.await_response, htasks, hfind, hsame]

/-- From any state of a shared node, through any interleaving of its consumers
in which each poll drains its own mail only, no task is lost between them. -/
theorem no_task_is_lost (dec : Bytes → Option (Finset MessageId)) (s : Shared L F)
    (ops : List ConsumerOp)
    (h : Meets (Shared.step (exactBlooms dec)) (fun _ s op => OwnMailOnly s op) s ops) :
    Returns (run (Shared.step (exactBlooms dec)) s ops) fun r => ∀ e ∈ r.2, NothingLost e := by
  obtain ⟨⟨s', log⟩, hr⟩ := ends_ok (run (Shared.step (exactBlooms dec)) s ops)
  refine ⟨_, hr, ?_⟩
  refine run_invariant_of_meets (I := fun log _ => ∀ e ∈ log, NothingLost e) (by simp) ?_ h hr
  intro log s op s' out hlog hown hs e he
  rcases List.mem_append.mp he with he | he
  · exact hlog e he
  · exact step_nothingLost dec hown hs e he

/-! ## Three runs -/

namespace Sample

/-- A request of carol's, and bob's answer to alice's subtask. -/
def carols : Task := .new "task-9" "02carol" "02alice" "hi"

def bobs : Task := (Task.new "sub-1" "02alice" "02bob" "hi").respond "ok"

def shared_libs : Libs :=
  .ofTables
    (.ofTable [((A2AEnvelope.Task carols).to_vec, "01"), ((A2AEnvelope.Task bobs).to_vec, "02")]
      [])
    { public_key := fun _ => List.replicate 32 0
      diffie_hellman := fun _ _ => []
      aead_encrypt := fun _ _ plaintext => some plaintext
      aead_decrypt := fun _ _ ciphertext => some ciphertext }
    [.Task carols, .Task bobs] []

def shared : Shared shared_libs (IdSet fun _ => []) :=
  { agent := .new "02alice" "alice" "" [] none .default 0, topic := [], running := [] }

abbrev shared_step (s : Shared shared_libs (IdSet fun _ => [])) (op : ConsumerOp) :=
  s.step (exactBlooms fun _ => none) op

def drains : PollCall := node.Sample.one_call []

/-- The delegation is the first to poll after bob's answer, and the inbox after
carol's request. -/
def in_turn : List ConsumerOp :=
  [.delegate "sub-1", .arrive (A2AEnvelope.Task bobs).to_vec, .turn 0 drains,
    .arrive (A2AEnvelope.Task carols).to_vec, .inbox drains]

end Sample

theorem nothing_is_lost_in_turn :
    Meets Sample.shared_step (fun _ s op => OwnMailOnly s op) Sample.shared Sample.in_turn ∧
    Returns (run Sample.shared_step Sample.shared Sample.in_turn)
      fun r => ∀ e ∈ r.2, NothingLost e := by
  have hmeets : Meets Sample.shared_step (fun _ s op => OwnMailOnly s op) Sample.shared
      Sample.in_turn := by
    decide +kernel
  exact ⟨hmeets, no_task_is_lost _ _ _ hmeets⟩

/-- The inbox takes bob's answer from the delegation, and a status request takes
carol's request from the inbox. -/
theorem a_task_is_lost :
    ¬ (Returns (run Sample.shared_step Sample.shared
      [.delegate "sub-1", .arrive (A2AEnvelope.Task Sample.bobs).to_vec, .inbox Sample.drains,
        .turn 0 Sample.drains]) fun r => ∀ e ∈ r.2, NothingLost e) ∧
    ¬ Returns (run Sample.shared_step Sample.shared
      [.arrive (A2AEnvelope.Task Sample.carols).to_vec, .status "sub-1" Sample.drains,
        .inbox Sample.drains]) fun r => ∀ e ∈ r.2, NothingLost e := by
  decide +kernel

end lmao.cli
