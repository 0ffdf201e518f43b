-- A network of agents that all run `lmao agent run`: each has an inbox loop
-- (cli crate, agent.rs), and its daemon issues delegations. Requests and
-- responses travel as raw envelopes on the same topics. As long as no inbox
-- loop polls while a response is unread, no response is executed, and a task
-- is executed and answered once at most.
import Lmao.Consumers

namespace lmao.node

open sds LmaoNode

variable {L : Libs} {F : Type} [IdFilter F]

/-! ## Polls of raw envelopes -/

/-- The task of a raw envelope. -/
def taskOf (L : Libs) (raw : Bytes) : Option Task :=
  match L.envelope_from_slice raw with
  | some (.Task task) => some task
  | _ => none

/-- The text is the envelope of a task that comes whole. -/
structure Plain (L : Libs) (raw : Bytes) : Prop where
  no_sds : L.wire.sds_from_slice raw = none
  whole : ∃ task, L.envelope_from_slice raw = some (.Task task) ∧ task.payload_cid = none

theorem turn_plain (B : Build) (node : LmaoNode L F) (ch : MessageChannel F) {raw : Bytes}
    (h : Plain L raw) :
    ∃ tasks, (node.turn B ch raw).result = .ok tasks ∧ tasks.Sublist (taskOf L raw).toList ∧
      ∀ task ∈ tasks, node.accept_or_drop task = true := by
  obtain ⟨task, henv, hcid⟩ := h.whole
  have hextract : node.extract_arrival (.envelope (.Task task)) = .ok (some task) := by
    simp [extract_arrival, extract_task_from_envelope, maybe_fetch_offloaded, hcid, Stop.lift]
  unfold turn
  rw [take_message_raw h.no_sds]
  simp only [henv, taskOf]
  by_cases hdup : check ch.bloom (L.wire.compute_message_id raw) = true
  · simp only [hdup, if_true]
    exact ⟨[], rfl, List.nil_sublist _, by simp⟩
  · simp only [hdup]
    by_cases haccept : node.accept_or_drop task = true
    · refine ⟨[task], ?_, List.Sublist.refl _, by simpa using haccept⟩
      simp [take_arrivals, hextract, Option.filter, haccept, Except.map]
    · refine ⟨[], ?_, List.nil_sublist _, by simp⟩
      simp [take_arrivals, hextract, Option.filter, haccept, Except.map]

theorem turns_plain (B : Build) (node : LmaoNode L F) (ch : MessageChannel F) {msgs : List Bytes}
    (h : ∀ raw ∈ msgs, Plain L raw) :
    ∃ tasks, (node.turns B ch msgs).result = .ok tasks ∧
      tasks.Sublist (msgs.filterMap (taskOf L)) ∧
      ∀ task ∈ tasks, node.accept_or_drop task = true := by
  induction msgs generalizing ch with
  | nil => exact ⟨[], rfl, List.nil_sublist _, by simp⟩
  | cons raw rest ih =>
    obtain ⟨tasks, htasks, hsub, haccept⟩ := turn_plain B node ch (h raw List.mem_cons_self)
    obtain ⟨tasks', htasks', hsub', haccept'⟩ := ih (node.turn B ch raw).channel
      fun r hr => h r (List.mem_cons_of_mem _ hr)
    refine ⟨tasks ++ tasks', ?_, ?_, ?_⟩
    · rw [turns_cons_ok htasks]
      simp [htasks', Except.map]
    · have hcons : (raw :: rest).filterMap (taskOf L) =
          (taskOf L raw).toList ++ rest.filterMap (taskOf L) := by
        rcases htask : taskOf L raw with _ | task
        · simp [htask]
        · simp [htask]
      rw [hcons]
      exact hsub.append hsub'
    · intro task htask
      rcases List.mem_append.mp htask with htask | htask
      · exact haccept task htask
      · exact haccept' task htask

/-- A poll of such messages does not fail, and returns some of their tasks, each
once. -/
theorem poll_tasks_plain (B : Build) (node : LmaoNode L F) (call : PollCall) {msgs : List Bytes}
    (hrx : call.rx = .ok msgs) (h : ∀ raw ∈ msgs, Plain L raw) :
    ∃ tasks, (call.poll_tasks B node).result = .ok tasks ∧
      tasks.Sublist (msgs.filterMap (taskOf L)) ∧
      ∀ task ∈ tasks, node.accept_or_drop task = true := by
  obtain ⟨tasks, htasks, hsub, haccept⟩ := turns_plain B (call.at node) (call.at node).channel h
  refine ⟨((call.at node).verify_payments (call.at node).seen_tx_hashes tasks).2, ?_, ?_, ?_⟩
  · unfold PollCall.poll_tasks poll_tasks
    simp only [hrx, htasks]
  · exact (verify_payments_sublist _ _ _).trans hsub
  · intro task htask
    exact haccept task ((verify_payments_sublist _ _ _).subset htask)

end lmao.node

namespace lmao.cli

open sds machine node

variable {L : Libs} {F : Type} [IdFilter F]

/-! ## The network -/

/-- What `agent run` makes a node of. It sets up no storage offload and no
payment. -/
structure AgentProfile (L : Libs) where
  name : String
  description : String
  capabilities : List String
  identity : Option (crypto.AgentIdentity L.prims)
  now_ms : UInt64
  trust_list : TrustList
  max_concurrent : UInt32

def AgentProfile.node (p : AgentProfile L) (public_key : String) : LmaoNode L F :=
  { LmaoNode.new public_key p.name p.description p.capabilities p.identity .default p.now_ms with
    trust_list := p.trust_list
    max_concurrent := p.max_concurrent }

/-- An agent: its node, the ids that its delegations wait for, the place of its
inbox loop in the batch, and whether the loop has panicked. -/
structure Runner (L : Libs) (F : Type) where
  agent : LmaoNode L F
  running : List String
  position : Nat
  accepted_this_batch : UInt32
  stopped : Bool

/-- The agents by their public keys, the messages that nobody has drained, with
their topics, and the tasks of the batches that nobody has handled, with their
agents. -/
structure Network (L : Libs) (F : Type) where
  agents : String → Runner L F
  mail : List (String × Bytes)
  batches : List (String × Task)

def Network.new (profiles : String → AgentProfile L) : Network L F where
  agents p := ⟨(profiles p).node p, [], 0, 0, false⟩
  mail := []
  batches := []

inductive NetworkOp
  /-- A daemon delegates to a peer. -/
  | delegate (a : String) (request : DelegationRequest) (peer_id uuid : String)
  /-- An inbox loop polls. -/
  | inbox (a : String) (call : PollCall)
  /-- An inbox loop handles the next task of its batch. -/
  | handle (a : String) (env : Surroundings)
  | status (a : String) (id : String) (call : PollCall)
  | turn (a : String) (k : Nat) (call : PollCall)
  | deadline (a : String) (k : Nat)
  /-- A daemon changes the trust list. -/
  | trust (a : String) (trust_list : TrustList)
  /-- The transport loses the `k`-th message. -/
  | lose (k : Nat)

inductive NetworkEvent
  | submitted (task : Task)
  | handled (a : String) (h : Handled)

namespace Network

/-- What nobody has drained from the topic of the agent. -/
def unread (w : Network L F) (a : String) : List Bytes :=
  (w.mail.filter fun p => p.1 == task_topic a).map Prod.snd

def drained (w : Network L F) (a : String) : List (String × Bytes) :=
  w.mail.filter fun p => p.1 != task_topic a

/-- A step of a consumer other than the inbox loop. -/
def consume (B : Build) (w : Network L F) (a : String) (op : ConsumerOp) :
    Except Empty (Network L F × List NetworkEvent) := do
  let r ← Shared.step B ⟨(w.agents a).agent, w.unread a, (w.agents a).running⟩ op
  return ({ w with
    agents := Function.update w.agents a
      { w.agents a with agent := r.1.agent, running := r.1.running }
    mail := if r.1.topic.isEmpty then w.drained a else w.mail }, [])

/-- The message of a response that went out. -/
def posted (h : Handled) : List (String × Bytes) :=
  match h.answer with
  | some (_, .ok p) => [p]
  | _ => []

def step (B : Build) (w : Network L F) :
    NetworkOp → Except Empty (Network L F × List NetworkEvent)
  | .delegate a request peer_id uuid =>
    let task := (w.agents a).agent.subtask request peer_id uuid
    .ok ({ w with
        agents := Function.update w.agents a
          { w.agents a with running := (w.agents a).running ++ [task.id] }
        mail := w.mail ++ [(task_topic peer_id, (A2AEnvelope.Task task).to_vec)] },
      [.submitted task])
  | .inbox a call =>
    -- The loop polls when it is through with its batch.
    if (w.agents a).stopped ∨ (w.batches.any fun p => p.1 == a) then .ok (w, [])
    else
      let r := ({ call with rx := .ok (w.unread a) } : PollCall).poll_tasks B (w.agents a).agent
      .ok ({
          agents := Function.update w.agents a
            { w.agents a with
              agent := r.after
              position := 0
              accepted_this_batch := 0
              stopped := match r.result with
                | .error (.panic _) => true
                | _ => false }
          mail := w.drained a
          batches := w.batches ++ match r.result with
            | .ok tasks => tasks.map fun t => (a, t)
            | .error _ => [] }, [])
  | .handle a env =>
    if (w.agents a).stopped then .ok (w, [])
    else
      match w.batches.find? fun p => p.1 == a with
      | none => .ok (w, [])
      | some p =>
        let r := handle_task (w.agents a).agent env (w.agents a).position
          (w.agents a).accepted_this_batch p.2
        .ok ({
            agents := Function.update w.agents a
              { w.agents a with
                position := (w.agents a).position + 1
                accepted_this_batch := r.2.1
                stopped := r.2.2.isSome }
            mail := w.mail ++ posted r.1
            batches := w.batches.erase p }, [.handled a r.1])
  | .status a id call => w.consume B a (.status id call)
  | .turn a k call => w.consume B a (.turn k call)
  | .deadline a k => w.consume B a (.deadline k)
  | .trust a trust_list =>
    .ok ({ w with
      agents := Function.update w.agents a
        { w.agents a with agent := { (w.agents a).agent with trust_list } } }, [])
  | .lose k => .ok ({ w with mail := w.mail.eraseIdx k }, [])

end Network

/-- The executor runs on requests only, and each task is executed once at most
and answered once at most. -/
structure AnsweredOnce (log : List NetworkEvent) : Prop where
  requests : ∀ a h, .handled a h ∈ log → h.exec.isSome → h.task.result = none
  executions : ∀ id, (log.countP fun
    | .handled _ h => h.exec.isSome && h.task.id == id
    | _ => false) ≤ 1
  responses : ∀ id, (log.countP fun
    | .handled _ h => h.answer.isSome && h.task.id == id
    | _ => false) ≤ 1

/-! ## What the agents rely on -/

/-- The text of the task reads back as the task, and as no message of the
channel. -/
def ReadsBack (L : Libs) (task : Task) : Prop :=
  L.wire.sds_from_slice (A2AEnvelope.Task task).to_vec = none ∧
    L.envelope_from_slice (A2AEnvelope.Task task).to_vec = some (.Task task)

instance (L : Libs) (task : Task) : Decidable (ReadsBack L task) :=
  inferInstanceAs (Decidable (_ ∧ _))

theorem ReadsBack.plain {L : Libs} {task : Task} (h : ReadsBack L task)
    (hcid : task.payload_cid = none) : Plain L (A2AEnvelope.Task task).to_vec :=
  ⟨h.1, task, h.2, hcid⟩

def isSubmitted (id : String) : NetworkEvent → Bool
  | .submitted task => task.id == id
  | .handled _ _ => false

theorem countP_isSubmitted_pos {id : String} {log : List NetworkEvent} :
    0 < log.countP (isSubmitted id) ↔ ∃ task, .submitted task ∈ log ∧ task.id = id := by
  rw [List.countP_pos_iff]
  constructor
  · rintro ⟨e, he, hid⟩
    cases e with
    | submitted task => exact ⟨task, he, by simpa [isSubmitted] using hid⟩
    | handled a hd => simp [isSubmitted] at hid
  · rintro ⟨task, htask, rfl⟩
    exact ⟨_, htask, by simp [isSubmitted]⟩

namespace Network

/-- The task that the inbox loop of the agent handles next. -/
def next (w : Network L F) (a : String) : Option Task :=
  (w.batches.find? fun p => p.1 == a).map Prod.snd

/-- What a step of the loop makes of it. -/
def handling (w : Network L F) (a : String) (env : Surroundings) (task : Task) : Handled :=
  (handle_task (w.agents a).agent env (w.agents a).position (w.agents a).accepted_this_batch
    task).1

/-- The tasks that go out read back: a subtask, or the answer to a task. -/
def PublishesReadable (w : Network L F) : NetworkOp → Prop
  | .delegate a request peer_id uuid =>
    ReadsBack L ((w.agents a).agent.subtask request peer_id uuid)
  | .handle a env => ∀ task ∈ w.next a, ∀ sent ∈ (w.handling a env task).answer,
    ReadsBack L sent.1
  | _ => True

/-- The id of a new subtask is fresh. -/
def FreshId (log : List NetworkEvent) : NetworkOp → Prop
  | .delegate _ _ _ uuid => ∀ task, .submitted task ∈ log → task.id ≠ uuid
  | _ => True

/-- When an inbox loop polls, each unread task that the trust list lets through
is a request. -/
def NoUnreadResponse (w : Network L F) : NetworkOp → Prop
  | .inbox a _ => ∀ task ∈ (w.unread a).filterMap (taskOf L),
    (w.agents a).agent.accept_or_drop task = true → task.result = none
  | _ => True

instance (w : Network L F) : DecidablePred w.PublishesReadable
  | .delegate .. => inferInstanceAs (Decidable (ReadsBack _ _))
  | .handle a _ => inferInstanceAs (Decidable (∀ task ∈ w.next a, _))
  | .inbox .. => isTrue trivial
  | .status .. => isTrue trivial
  | .turn .. => isTrue trivial
  | .deadline .. => isTrue trivial
  | .trust .. => isTrue trivial
  | .lose .. => isTrue trivial

instance (log : List NetworkEvent) : DecidablePred (FreshId log)
  | .delegate _ _ _ uuid =>
    decidable_of_iff (¬ 0 < log.countP (isSubmitted uuid)) (by
      rw [countP_isSubmitted_pos]
      exact ⟨fun h task htask hid => h ⟨task, htask, hid⟩,
        fun h ⟨task, htask, hid⟩ => h task htask hid⟩)
  | .inbox .. => isTrue trivial
  | .handle .. => isTrue trivial
  | .status .. => isTrue trivial
  | .turn .. => isTrue trivial
  | .deadline .. => isTrue trivial
  | .trust .. => isTrue trivial
  | .lose .. => isTrue trivial

instance (w : Network L F) : DecidablePred w.NoUnreadResponse
  | .inbox a _ => inferInstanceAs (Decidable (∀ task ∈ (w.unread a).filterMap (taskOf L), _))
  | .delegate .. => isTrue trivial
  | .handle .. => isTrue trivial
  | .status .. => isTrue trivial
  | .turn .. => isTrue trivial
  | .deadline .. => isTrue trivial
  | .trust .. => isTrue trivial
  | .lose .. => isTrue trivial

end Network

/-! ## Answers -/

omit [IdFilter F] in
/-- Without a storage offload an answer goes out as its own envelope. -/
theorem publish_response_ok {node : LmaoNode L F} (hoffload : node.storage_offload = none)
    {task : Task} {text : String} {failed : Bool} {nonces : Bytes × Bytes}
    {publish : String → Bytes → Except TransportError Unit} {p : String × Bytes}
    (h : node.publish_response task text none failed nonces publish = .ok p) :
    p.2 = (A2AEnvelope.Task (if failed then task.respond_failed text
      else task.respond text)).to_vec := by
  have hpayload : ∀ response, node.prepare_payload response none nonces =
      .ok (A2AEnvelope.Task response).to_vec := by
    intro response
    simp [LmaoNode.prepare_payload, LmaoNode.maybe_encrypt_task, hoffload, bind, Except.bind,
      pure, Except.pure]
  unfold LmaoNode.publish_response at h
  simp only [hpayload] at h
  split at h
  · cases h
  · cases h
    rfl

/-- An answer is a response that comes whole, in its own envelope. -/
structure IsAnswer (sent : Task × Except NodeError (String × Bytes)) : Prop where
  response : sent.1.result.isSome
  inline : sent.1.payload_cid = none
  payload : ∀ p, sent.2 = .ok p → p.2 = (A2AEnvelope.Task sent.1).to_vec

omit [IdFilter F] in
theorem answer_isAnswer {node : LmaoNode L F} (hoffload : node.storage_offload = none)
    (env : Surroundings) (n : Nat) (task : Task) (text : String) (failed : Bool) :
    IsAnswer (answer node env n task text failed) := by
  cases failed with
  | true => exact ⟨rfl, rfl, fun p hp => publish_response_ok hoffload hp⟩
  | false => exact ⟨rfl, rfl, fun p hp => publish_response_ok hoffload hp⟩

theorem Treated.task_eq {refused : Prop} {task : Task} {h : Handled} (ht : Treated refused task h) :
    h.task = task := by
  cases ht with
  | refused hrefused sent => rfl
  | skipped hno htext => rfl
  | succeeded hno out text sent => rfl
  | failed hno e sent => rfl

omit [IdFilter F] in
theorem handle_task_isAnswer {node : LmaoNode L F} (hoffload : node.storage_offload = none)
    {env : Surroundings} {n : Nat} {accepted : UInt32} {task : Task}
    {sent : Task × Except NodeError (String × Bytes)}
    (h : (handle_task node env n accepted task).1.answer = some sent) : IsAnswer sent := by
  unfold handle_task at h
  split at h
  · cases h
    exact answer_isAnswer hoffload ..
  · split at h
    · cases h
    · cases h
      exact answer_isAnswer hoffload ..

/-! ## The places of a request -/

/-- The text is a request with the id. -/
def isRequest (L : Libs) (id : String) (raw : Bytes) : Bool :=
  ((taskOf L raw).map fun task => task.result.isNone && task.id == id).getD false

def isHandled (id : String) : NetworkEvent → Bool
  | .handled _ h => h.task.id == id
  | .submitted _ => false

namespace Network

/-- The places where a request with the id is: unread, in a batch, or handled. -/
def places (w : Network L F) (log : List NetworkEvent) (id : String) : Nat :=
  (w.mail.countP fun p => isRequest L id p.2) + (w.batches.countP fun p => p.2.id == id) +
    log.countP (isHandled id)

/-- What a step does to the messages and the batches. -/
inductive Moves (log : List NetworkEvent) (w w' : Network L F) : List NetworkEvent → Prop
  | drops (hmail : w'.mail.Sublist w.mail) (hbatches : w'.batches = w.batches) : Moves log w w' []
  | submits (topic : String) (task : Task) (hreads : ReadsBack L task)
      (hcid : task.payload_cid = none) (hrequest : task.result = none)
      (hfresh : ∀ task', .submitted task' ∈ log → task'.id ≠ task.id)
      (hmail : w'.mail = w.mail ++ [(topic, (A2AEnvelope.Task task).to_vec)])
      (hbatches : w'.batches = w.batches) : Moves log w w' [.submitted task]
  | takes (a : String) (tasks : List Task)
      (htasks : tasks.Sublist ((w.unread a).filterMap (taskOf L)))
      (hrequests : ∀ task ∈ tasks, task.result = none) (hmail : w'.mail = w.drained a)
      (hbatches : w'.batches = w.batches ++ tasks.map fun t => (a, t)) :
      Moves log w w' []
  | handles (a : String) (p : String × Task) (h : Handled) (hp : p ∈ w.batches)
      (htask : h.task = p.2)
      (hposted : ∀ q ∈ posted h, Plain L q.2 ∧ ∀ id, isRequest L id q.2 = false)
      (hmail : w'.mail = w.mail ++ posted h) (hbatches : w'.batches = w.batches.erase p) :
      Moves log w w' [.handled a h]

omit [IdFilter F] in
/-- The requests on a topic, and those elsewhere. -/
theorem countP_mail (w : Network L F) (a : String) (id : String) :
    (w.mail.countP fun p => isRequest L id p.2) =
      (w.unread a).countP (isRequest L id) +
        (w.drained a).countP fun p => isRequest L id p.2 := by
  unfold unread drained
  rw [List.countP_map]
  exact List.countP_eq_countP_filter_add w.mail _ fun p => p.1 == task_topic a

theorem countP_tasks {tasks : List Task} {msgs : List Bytes}
    (htasks : tasks.Sublist (msgs.filterMap (taskOf L)))
    (hrequests : ∀ task ∈ tasks, task.result = none) (id : String) :
    (tasks.countP fun t => t.id == id) ≤ msgs.countP (isRequest L id) := by
  calc (tasks.countP fun t => t.id == id)
      ≤ tasks.countP fun t => t.result.isNone && t.id == id := by
        apply List.countP_mono_left
        intro t ht hid
        simp [hrequests t ht, hid]
    _ ≤ (msgs.filterMap (taskOf L)).countP fun t => t.result.isNone && t.id == id :=
        htasks.countP_le
    _ = msgs.countP (isRequest L id) := List.countP_filterMap

omit [IdFilter F] in
/-- A step leaves each request in as many places at most, and a new request is in
one. -/
theorem Moves.places_le {log out : List NetworkEvent} {w w' : Network L F}
    (h : Moves log w w' out) (id : String) :
    w'.places (log ++ out) id ≤ w.places log id + out.countP (isSubmitted id) := by
  unfold places
  cases h with
  | drops hmail hbatches =>
    have := hmail.countP_le (p := fun p => isRequest L id p.2)
    rw [hbatches]
    simp
    omega
  | submits topic task hreads hcid hrequest hfresh hmail hbatches =>
    have hraw : isRequest L id (A2AEnvelope.Task task).to_vec = (task.id == id) := by
      simp [isRequest, taskOf, hreads.2, hrequest]
    rw [hmail, hbatches]
    simp [List.countP_append, List.countP_singleton, hraw, isHandled, isSubmitted]
    omega
  | takes a tasks htasks hrequests hmail hbatches =>
    have hsplit := countP_mail w a id
    have hle := countP_tasks htasks hrequests id
    rw [hmail, hbatches]
    simp only [List.append_nil, List.countP_append, List.countP_map, List.countP_nil,
      Function.comp_def]
    omega
  | handles a p h hp htask hposted hmail hbatches =>
    have hnone : (posted h).countP (fun q => isRequest L id q.2) = 0 := by
      apply List.countP_eq_zero.mpr
      intro q hq
      simp [(hposted q hq).2 id]
    have herase := (List.perm_cons_erase hp).countP_eq fun q => q.2.id == id
    rw [List.countP_cons] at herase
    rw [hmail, hbatches]
    simp only [List.countP_append, List.countP_singleton, isHandled, htask, hnone]
    omega

/-! ## The invariant -/

/-- No agent offloads, the messages are tasks that come whole, the batches and
what was handled are requests, and each request is in one place at most, with
an id that was submitted. -/
structure Orderly (log : List NetworkEvent) (w : Network L F) : Prop where
  inline : ∀ a, (w.agents a).agent.storage_offload = none
  plain : ∀ p ∈ w.mail, Plain L p.2
  requests : ∀ p ∈ w.batches, p.2.result = none
  handled : ∀ a h, .handled a h ∈ log → h.task.result = none
  once : ∀ id, w.places log id ≤ 1
  submitted : ∀ id, 0 < w.places log id → ∃ task, .submitted task ∈ log ∧ task.id = id

omit [IdFilter F] in
theorem Orderly.answeredOnce {log : List NetworkEvent} {w : Network L F} (h : Orderly log w) :
    AnsweredOnce log := by
  have hhandled : ∀ id, log.countP (isHandled id) ≤ 1 := by
    intro id
    have := h.once id
    unfold places at this
    omega
  refine ⟨fun a hd hmem _ => h.handled a hd hmem, fun id => ?_, fun id => ?_⟩
  · refine le_trans (List.countP_mono_left ?_) (hhandled id)
    intro e _ he
    cases e with
    | submitted task => simp at he
    | handled a hd =>
      simp only [Bool.and_eq_true] at he
      exact he.2
  · refine le_trans (List.countP_mono_left ?_) (hhandled id)
    intro e _ he
    cases e with
    | submitted task => simp at he
    | handled a hd =>
      simp only [Bool.and_eq_true] at he
      exact he.2

theorem orderly_new (profiles : String → AgentProfile L) :
    Orderly [] (Network.new profiles : Network L F) where
  inline _ := rfl
  plain := by simp [Network.new]
  requests := by simp [Network.new]
  handled := by simp
  once id := by simp [places, Network.new]
  submitted id h := by simp [places, Network.new] at h

section

variable {log out : List NetworkEvent} {w w' : Network L F}

omit [IdFilter F]

theorem Moves.plain (h : Moves log w w' out) (hw : Orderly log w) : ∀ p ∈ w'.mail, Plain L p.2 := by
  intro p hp
  cases h with
  | drops hmail hbatches => exact hw.plain p (hmail.subset hp)
  | submits topic task hreads hcid hrequest hfresh hmail hbatches =>
    rw [hmail] at hp
    rcases List.mem_append.mp hp with hp | hp
    · exact hw.plain p hp
    · obtain rfl := List.mem_singleton.mp hp
      exact hreads.plain hcid
  | takes a tasks htasks hrequests hmail hbatches =>
    rw [hmail] at hp
    exact hw.plain p (List.mem_of_mem_filter hp)
  | handles a q hd hq htask hposted hmail hbatches =>
    rw [hmail] at hp
    rcases List.mem_append.mp hp with hp | hp
    · exact hw.plain p hp
    · exact (hposted p hp).1

theorem Moves.requests (h : Moves log w w' out) (hw : Orderly log w) :
    ∀ p ∈ w'.batches, p.2.result = none := by
  intro p hp
  cases h with
  | drops hmail hbatches => exact hw.requests p (hbatches ▸ hp)
  | submits topic task hreads hcid hrequest hfresh hmail hbatches =>
    exact hw.requests p (hbatches ▸ hp)
  | takes a tasks htasks hrequests hmail hbatches =>
    rw [hbatches] at hp
    rcases List.mem_append.mp hp with hp | hp
    · exact hw.requests p hp
    · obtain ⟨t, ht, rfl⟩ := List.mem_map.mp hp
      exact hrequests t ht
  | handles a q hd hq htask hposted hmail hbatches =>
    rw [hbatches] at hp
    exact hw.requests p (List.mem_of_mem_erase hp)

theorem Moves.handled (h : Moves log w w' out) (hw : Orderly log w) {a : String} {hd : Handled}
    (hmem : .handled a hd ∈ out) : hd.task.result = none := by
  cases h with
  | drops hmail hbatches => cases hmem
  | submits topic task hreads hcid hrequest hfresh hmail hbatches => simp at hmem
  | takes a tasks htasks hrequests hmail hbatches => cases hmem
  | handles b q hd' hq htask hposted hmail hbatches =>
    simp only [List.mem_singleton, NetworkEvent.handled.injEq] at hmem
    obtain ⟨rfl, rfl⟩ := hmem
    rw [htask]
    exact hw.requests q hq

theorem Moves.length_le (h : Moves log w w' out) : out.length ≤ 1 := by
  cases h with
  | drops hmail hbatches => simp
  | submits topic task hreads hcid hrequest hfresh hmail hbatches => simp
  | takes a tasks htasks hrequests hmail hbatches => simp
  | handles b q hd' hq htask hposted hmail hbatches => simp

theorem Moves.fresh (h : Moves log w w' out) {task task' : Task} (htask : .submitted task ∈ out)
    (htask' : .submitted task' ∈ log) : task'.id ≠ task.id := by
  cases h with
  | drops hmail hbatches => cases htask
  | submits topic t hreads hcid hrequest hfresh hmail hbatches =>
    simp only [List.mem_singleton, NetworkEvent.submitted.injEq] at htask
    subst htask
    exact hfresh task' htask'
  | takes a tasks htasks hrequests hmail hbatches => cases htask
  | handles b q hd hq hdtask hposted hmail hbatches => simp at htask

/-- A step that moves things as it should keeps the order. -/
theorem Moves.orderly (h : Moves log w w' out) (hw : Orderly log w)
    (hinline : ∀ a, (w'.agents a).agent.storage_offload = none) : Orderly (log ++ out) w' := by
  refine ⟨hinline, h.plain hw, h.requests hw, ?_, ?_, ?_⟩
  · intro a hd hmem
    rcases List.mem_append.mp hmem with hmem | hmem
    · exact hw.handled a hd hmem
    · exact h.handled hw hmem
  · intro id
    have hle := h.places_le id
    have hone := List.countP_le_length (l := out) (p := isSubmitted id)
    have hlength := h.length_le
    by_cases hnew : 0 < out.countP (isSubmitted id)
    · -- The id is new, so no place holds it yet.
      obtain ⟨task, htask, rfl⟩ := countP_isSubmitted_pos.mp hnew
      have hzero : ¬ 0 < w.places log task.id := by
        intro hpos
        obtain ⟨task', htask', hid⟩ := hw.submitted task.id hpos
        exact h.fresh htask htask' hid
      omega
    · have := hw.once id
      omega
  · intro id hpos
    have hle := h.places_le id
    by_cases hold : 0 < w.places log id
    · obtain ⟨task, htask, hid⟩ := hw.submitted id hold
      exact ⟨task, List.mem_append_left _ htask, hid⟩
    · have hnew : 0 < out.countP (isSubmitted id) := by omega
      obtain ⟨task, htask, hid⟩ := countP_isSubmitted_pos.mp hnew
      exact ⟨task, List.mem_append_right _ htask, hid⟩

end

/-! ## The steps -/

omit [IdFilter F] in
/-- A step that changes one agent, and not its offload. -/
theorem inline_update {w : Network L F} (hw : ∀ a, (w.agents a).agent.storage_offload = none)
    {a : String} {r : Runner L F} (hr : r.agent.storage_offload = none) :
    ∀ b, ((Function.update w.agents a r) b).agent.storage_offload = none := by
  intro b
  by_cases hb : b = a
  · subst hb
    rw [Function.update_self]
    exact hr
  · rw [Function.update_of_ne hb]
    exact hw b

theorem poll_tasks_inline {B : Build} {node : LmaoNode L F} {call : PollCall}
    (h : node.storage_offload = none) : (call.poll_tasks B node).after.storage_offload = none := by
  have hat : (call.at node).storage_offload = none := by simp [PollCall.at, h]
  unfold PollCall.poll_tasks LmaoNode.poll_tasks
  dsimp only
  split
  · exact hat
  · split
    · exact hat
    · exact hat

theorem shared_inline {B : Build} {s s' : Shared L F} {op : ConsumerOp} {out : List Drained}
    (hs : s.agent.storage_offload = none) (h : s.step B op = .ok (s', out)) :
    s'.agent.storage_offload = none := by
  cases op with
  | arrive raw =>
    cases h
    exact hs
  | delegate subtask_id =>
    cases h
    exact hs
  | deadline k =>
    cases h
    exact hs
  | inbox call =>
    cases h
    exact poll_tasks_inline hs
  | status id call =>
    cases h
    exact poll_tasks_inline hs
  | turn k call =>
    simp only [Shared.step] at h
    split at h
    · cases h
      exact hs
    · cases h
      -- One poll: it fails, or finds the answer, or finds none.
      unfold LmaoNode.await_response
      dsimp only
      split
      · exact poll_tasks_inline hs
      · split
        · exact poll_tasks_inline hs
        · exact poll_tasks_inline hs

theorem consume_eq {B : Build} {w w' : Network L F} {a : String} {op : ConsumerOp}
    {out : List NetworkEvent} (h : w.consume B a op = .ok (w', out)) :
    ∃ s' polled, Shared.step B ⟨(w.agents a).agent, w.unread a, (w.agents a).running⟩ op =
        .ok (s', polled) ∧
      w' = { w with
        agents := Function.update w.agents a
          { w.agents a with agent := s'.agent, running := s'.running }
        mail := if s'.topic.isEmpty then w.drained a else w.mail } ∧ out = [] := by
  unfold consume at h
  obtain ⟨⟨s', polled⟩, hstep⟩ :=
    ends_ok (Shared.step B ⟨(w.agents a).agent, w.unread a, (w.agents a).running⟩ op)
  simp only [hstep, bind, Except.bind, pure, Except.pure, Except.ok.injEq, Prod.mk.injEq] at h
  obtain ⟨rfl, rfl⟩ := h
  exact ⟨s', polled, hstep, rfl, rfl⟩

/-- A consumer other than the inbox only drops messages. -/
theorem consume_moves {B : Build} {log out : List NetworkEvent} {w w' : Network L F} {a : String}
    {op : ConsumerOp} (h : w.consume B a op = .ok (w', out)) : Moves log w w' out := by
  obtain ⟨s', polled, -, rfl, rfl⟩ := consume_eq h
  refine .drops ?_ rfl
  dsimp only
  split
  · exact List.filter_sublist
  · exact List.Sublist.refl _

theorem consume_inline {B : Build} {w w' : Network L F} {a : String} {op : ConsumerOp}
    {out : List NetworkEvent} (hw : ∀ a, (w.agents a).agent.storage_offload = none)
    (h : w.consume B a op = .ok (w', out)) :
    ∀ b, (w'.agents b).agent.storage_offload = none := by
  obtain ⟨s', polled, hstep, rfl, rfl⟩ := consume_eq h
  exact inline_update hw (shared_inline (hw a) hstep)

theorem step_inline {B : Build} {w w' : Network L F} {op : NetworkOp} {out : List NetworkEvent}
    (hw : ∀ a, (w.agents a).agent.storage_offload = none) (h : w.step B op = .ok (w', out)) :
    ∀ b, (w'.agents b).agent.storage_offload = none := by
  cases op with
  | delegate a request peer_id uuid =>
    cases h
    exact inline_update hw (hw a)
  | inbox a call =>
    simp only [step] at h
    split at h
    · cases h
      exact hw
    · cases h
      exact inline_update hw (poll_tasks_inline (hw a))
  | handle a env =>
    simp only [step] at h
    split at h
    · cases h
      exact hw
    · split at h
      · cases h
        exact hw
      · cases h
        exact inline_update hw (hw a)
  | status a id call => exact consume_inline hw h
  | turn a k call => exact consume_inline hw h
  | deadline a k => exact consume_inline hw h
  | trust a trust_list =>
    cases h
    exact inline_update hw (hw a)
  | lose k =>
    cases h
    exact hw

/-- A poll of the inbox takes requests, when no response is unread. -/
theorem inbox_moves {B : Build} {log out : List NetworkEvent} {w w' : Network L F} {a : String}
    {call : PollCall} (hw : Orderly log w) (hunread : w.NoUnreadResponse (.inbox a call))
    (h : w.step B (.inbox a call) = .ok (w', out)) : Moves log w w' out := by
  simp only [step] at h
  split at h
  · cases h
    exact .drops (List.Sublist.refl _) rfl
  · have hplain : ∀ raw ∈ w.unread a, Plain L raw := by
      intro raw hraw
      obtain ⟨p, hp, rfl⟩ := List.mem_map.mp hraw
      exact hw.plain p (List.mem_of_mem_filter hp)
    obtain ⟨tasks, htasks, hsub, haccept⟩ := poll_tasks_plain B (w.agents a).agent
      { call with rx := .ok (w.unread a) } rfl hplain
    rw [htasks] at h
    cases h
    refine .takes a tasks hsub ?_ rfl rfl
    intro task htask
    exact hunread task (hsub.subset htask) (haccept task htask)

omit [IdFilter F] in
/-- What goes out for a task is a response that comes whole. -/
theorem handling_posts {log : List NetworkEvent} {w : Network L F} {a : String}
    {env : Surroundings} (hw : Orderly log w) (hreads : w.PublishesReadable (.handle a env))
    {task : Task} (hnext : task ∈ w.next a) {q : String × Bytes}
    (hq : q ∈ posted (w.handling a env task)) :
    Plain L q.2 ∧ ∀ id, isRequest L id q.2 = false := by
  rcases hanswer : (w.handling a env task).answer with _ | ⟨response, sent⟩
  · simp [posted, hanswer] at hq
  have hresponse := handle_task_isAnswer (hw.inline a) hanswer
  have hread : ReadsBack L response := hreads task hnext (response, sent) (by simp [hanswer])
  rcases sent with e | p
  · simp [posted, hanswer] at hq
  · simp only [posted, hanswer, List.mem_singleton] at hq
    subst hq
    rw [hresponse.payload q rfl]
    refine ⟨hread.plain hresponse.inline, fun id => ?_⟩
    have hsome := Option.isSome_iff_ne_none.mp hresponse.response
    simp [isRequest, taskOf, hread.2, hsome]

theorem handle_moves {B : Build} {log out : List NetworkEvent} {w w' : Network L F} {a : String}
    {env : Surroundings} (hw : Orderly log w) (hreads : w.PublishesReadable (.handle a env))
    (h : w.step B (.handle a env) = .ok (w', out)) : Moves log w w' out := by
  simp only [step] at h
  split at h
  · cases h
    exact .drops (List.Sublist.refl _) rfl
  · rcases hfind : w.batches.find? fun p => p.1 == a with _ | p
    · simp only [hfind] at h
      cases h
      exact .drops (List.Sublist.refl _) rfl
    · simp only [hfind] at h
      cases h
      have hnext : p.2 ∈ w.next a := by simp [next, hfind]
      refine .handles a p _ (List.mem_of_find?_eq_some hfind) ?_ ?_ rfl rfl
      · exact (handle_task_treated _ env _ _ p.2).task_eq
      · intro q hq
        exact handling_posts hw hreads hnext hq

theorem step_moves {B : Build} {log out : List NetworkEvent} {w w' : Network L F}
    {op : NetworkOp} (hw : Orderly log w) (hreads : w.PublishesReadable op)
    (hfresh : FreshId log op) (hunread : w.NoUnreadResponse op)
    (h : w.step B op = .ok (w', out)) : Moves log w w' out := by
  cases op with
  | delegate a request peer_id uuid =>
    have hsub := LmaoNode.subtask_fields (w.agents a).agent request peer_id uuid
    cases h
    refine .submits _ _ hreads hsub.inline hsub.request ?_ rfl rfl
    rw [hsub.id]
    exact hfresh
  | inbox a call => exact inbox_moves hw hunread h
  | handle a env => exact handle_moves hw hreads h
  | status a id call => exact consume_moves h
  | turn a k call => exact consume_moves h
  | deadline a k => exact consume_moves h
  | trust a trust_list =>
    cases h
    exact .drops (List.Sublist.refl _) rfl
  | lose k =>
    cases h
    exact .drops (List.eraseIdx_sublist _ _) rfl

end Network

/-- In a network of agents, whatever the order in which their loops poll: as
long as no inbox loop polls while a response that its trust list lets through
is unread, the executors run on requests only, and each task is executed and
answered once at most. -/
theorem responses_are_never_executed (B : Build) (profiles : String → AgentProfile L)
    (ops : List NetworkOp)
    (hreads : Meets (Network.step (F := F) B) (fun _ w op => w.PublishesReadable op)
      (Network.new profiles) ops)
    (hfresh : Meets (Network.step (F := F) B) (fun log _ op => Network.FreshId log op)
      (Network.new profiles) ops)
    (hunread : Meets (Network.step (F := F) B) (fun _ w op => w.NoUnreadResponse op)
      (Network.new profiles) ops) :
    Returns (run (Network.step (F := F) B) (Network.new profiles) ops)
      fun r => AnsweredOnce r.2 := by
  obtain ⟨⟨w, log⟩, hr⟩ := ends_ok (run (Network.step (F := F) B) (Network.new profiles) ops)
  refine ⟨_, hr, ?_⟩
  have hmeets := (hreads.and hfresh).and hunread
  have horderly : Network.Orderly log w := by
    refine run_invariant_of_meets (Network.orderly_new profiles) ?_ hmeets hr
    rintro log w op w' out hw ⟨⟨hread, hid⟩, hno⟩ hs
    exact (Network.step_moves hw hread hid hno hs).orderly hw (Network.step_inline hw.inline hs)
  exact horderly.answeredOnce

/-! ## Two runs -/

namespace Sample

/-- The answer to bob's answer, if alice takes it for a request. -/
def echoed : Task := greeted.respond "hello"

def network_libs : Libs :=
  .ofTables
    (.ofTable [((A2AEnvelope.Task (sub "sub-1")).to_vec, "01"),
      ((A2AEnvelope.Task greeted).to_vec, "02")] [])
    { public_key := fun _ => List.replicate 32 0
      diffie_hellman := fun _ _ => []
      aead_encrypt := fun _ _ plaintext => some plaintext
      aead_decrypt := fun _ _ ciphertext => some ciphertext }
    [.Task (sub "sub-1"), .Task greeted, .Task echoed] []

def profile (_ : String) : AgentProfile network_libs :=
  { name := "", description := "", capabilities := [], identity := none, now_ms := 0
    trust_list := .empty, max_concurrent := 1 }

abbrev network_step (w : Network network_libs (IdSet fun _ => [])) (op : NetworkOp) :=
  w.step (exactBlooms fun _ => none) op

/-- Alice delegates to bob, who runs the task and answers. Her delegation polls. -/
def answered : List NetworkOp :=
  [.delegate "02alice" node.Sample.request "02bob" "sub-1", .inbox "02bob" drains,
    .handle "02bob" greeter, .turn "02alice" 0 drains]

/-- Her inbox polls before her delegation does. -/
def echoes : List NetworkOp :=
  [.delegate "02alice" node.Sample.request "02bob" "sub-1", .inbox "02bob" drains,
    .handle "02bob" greeter, .inbox "02alice" drains, .handle "02alice" greeter]

def executed : NetworkEvent → Bool
  | .handled _ h => h.exec.isSome && h.task.id == "sub-1"
  | _ => false

end Sample

theorem bob_runs_the_task_once :
    Returns (run Sample.network_step (.new Sample.profile) Sample.answered)
      (fun r => r.2.countP Sample.executed = 1) ∧
    Meets Sample.network_step (fun _ w op => w.NoUnreadResponse op) (.new Sample.profile)
      Sample.answered ∧
    Returns (run Sample.network_step (.new Sample.profile) Sample.answered)
      fun r => AnsweredOnce r.2 := by
  -- one evaluation of the run for all that is read off it
  have hchecked :
      Meets Sample.network_step (fun _ w op => w.PublishesReadable op) (.new Sample.profile)
        Sample.answered ∧
      Meets Sample.network_step (fun log _ op => Network.FreshId log op) (.new Sample.profile)
        Sample.answered ∧
      Meets Sample.network_step (fun _ w op => w.NoUnreadResponse op) (.new Sample.profile)
        Sample.answered ∧
      Returns (run Sample.network_step (.new Sample.profile) Sample.answered) fun r =>
        r.2.countP Sample.executed = 1 := by
    decide +kernel
  obtain ⟨hreads, hfresh, hunread, honce⟩ := hchecked
  refine ⟨honce, hunread, ?_⟩
  exact responses_are_never_executed _ Sample.profile Sample.answered hreads hfresh hunread

/-- Alice takes bob's answer for a request, runs it, and answers it. -/
theorem an_answer_is_executed :
    Meets Sample.network_step (fun _ w op => w.PublishesReadable op) (.new Sample.profile)
      Sample.echoes ∧
    Meets Sample.network_step (fun log _ op => Network.FreshId log op) (.new Sample.profile)
      Sample.echoes ∧
    ¬ Returns (run Sample.network_step (.new Sample.profile) Sample.echoes)
      fun r => AnsweredOnce r.2 := by
  have hchecked :
      Meets Sample.network_step (fun _ w op => w.PublishesReadable op) (.new Sample.profile)
        Sample.echoes ∧
      Meets Sample.network_step (fun log _ op => Network.FreshId log op) (.new Sample.profile)
        Sample.echoes ∧
      Returns (run Sample.network_step (.new Sample.profile) Sample.echoes) fun r =>
        r.2.countP Sample.executed = 2 := by
    decide +kernel
  obtain ⟨hreads, hfresh, htwice⟩ := hchecked
  refine ⟨hreads, hfresh, ?_⟩
  rintro ⟨r, hr, honce⟩
  obtain ⟨r', hr', htwo⟩ := htwice
  rw [hr] at hr'
  cases hr'
  have hone : r.2.countP Sample.executed ≤ 1 := honce.executions "sub-1"
  omega

end lmao.cli
