-- Delegation (node crate, delegation.rs): how a node picks the peers for a
-- subtask, sends it to them and waits for the answers. At the end, how a node
-- answers a task (tasks/respond.rs).
import Mathlib.Data.List.Sort
import Lmao.Poll

namespace lmao.node

open sds

inductive DelegationStrategy
  | FirstAvailable
  | BroadcastCollect
  | RoundRobin
  | CapabilityMatch (capability : String)
deriving DecidableEq, Repr

/-- The timeout is left out: the polls that are made before the deadline are an
input of each call. -/
structure DelegationRequest where
  parent_task_id : String
  subtask_text : String
  strategy : DelegationStrategy
  session_id : Option String
deriving DecidableEq, Repr

structure DelegationResult where
  parent_task_id : String
  subtask_id : String
  agent_id : String
  result_text : Option String
  success : Bool
  error : Option String
deriving DecidableEq, Repr

/-- Known Free first, then known Busy, then unknown, and known Full last. -/
def load_rank (info : PeerInfo) : Nat :=
  match info.load.map LoadStatus.bucket with
  | some .Free => 0
  | some .Busy => 1
  | none => 2
  | some .Full => 3

/-- `sort_by_key`, which is stable. -/
def sort_by_load (peers : List (String × PeerInfo)) : List (String × PeerInfo) :=
  peers.insertionSort fun a b => load_rank a.2 ≤ load_rank b.2

def TrustMode.debug : TrustMode → String
  | .Off => "Off"
  | .Enforce => "Enforce"
  | .Log => "Log"

variable {L : Libs} {F : Type}

/-- "No candidates" and "the trust list filtered all of them" read
differently. -/
def no_trusted_peers_err (node : LmaoNode L F) (total_candidates : Nat)
    (capability : Option String) : NodeError :=
  let what :=
    match capability with
    | some cap => "with capability '" ++ cap ++ "'"
    | none => "available"
  if total_candidates > 0 ∧ node.trust_list.mode ≠ .Off then
    .Other ("no trusted peers " ++ what ++ " for delegation: " ++ toString total_candidates ++
      " live peer(s) all filtered by trust list (mode=" ++ node.trust_list.mode.debug ++
      "). Add them with `lmao trust add <pubkey>` or pass `--trust-file <path>` to use a " ++
      "different list.")
  else .Other ("no live peers " ++ what ++ " for delegation")

namespace LmaoNode

/-! ## The choice of a peer -/

/-- The peer of `delegate_task`. Round robin walks through the best tier and
counts. -/
def select_peer (node : LmaoNode L F) (now_secs : UInt64) :
    DelegationStrategy → LmaoNode L F × Except NodeError String
  | .FirstAvailable =>
    let peers := sort_by_load (node.peer_map.all_live now_secs)
    match (peers.map Prod.fst).find? node.trust_list.is_trusted with
    | some id => (node, .ok id)
    | none => (node, .error (no_trusted_peers_err node peers.length none))
  | .CapabilityMatch capability =>
    let peers := sort_by_load (node.peer_map.find_by_capability now_secs capability)
    match (peers.map Prod.fst).find? (node.trust_list.is_trusted_for · capability) with
    | some id => (node, .ok id)
    | none => (node, .error (no_trusted_peers_err node peers.length (some capability)))
  | .BroadcastCollect =>
    let peers := sort_by_load (node.peer_map.all_live now_secs)
    match (peers.map Prod.fst).find? node.trust_list.is_trusted with
    | some id => (node, .ok id)
    | none => (node, .error (.Other "no live peers available for broadcast delegation"))
  | .RoundRobin =>
    let live := node.peer_map.all_live now_secs
    let best_rank := ((live.map fun p => load_rank p.2).min?).getD 2
    let peers := ((live.filter fun p => load_rank p.2 == best_rank).map Prod.fst).filter
      node.trust_list.is_trusted
    match peers with
    | [] => (node, .error (.Other "no live peers available for round-robin delegation"))
    | first :: rest =>
      let idx := node.round_robin_counter.toNat % (first :: rest).length
      ({ node with round_robin_counter := node.round_robin_counter + 1 },
        .ok ((first :: rest).get ⟨idx, Nat.mod_lt _ (Nat.zero_lt_succ _)⟩))

/-- The peers of `delegate_broadcast`. -/
def broadcast_peers (node : LmaoNode L F) (now_secs : UInt64) :
    DelegationStrategy → List String
  | .CapabilityMatch capability =>
    ((node.peer_map.find_by_capability now_secs capability).map Prod.fst).filter
      (node.trust_list.is_trusted_for · capability)
  | _ => ((node.peer_map.all_live now_secs).map Prod.fst).filter node.trust_list.is_trusted

/-! ## One peer -/

/-- What happens around a subtask: its fresh id, what the transport answers to
its publication, and the polls that are made before the deadline. -/
structure Waits where
  uuid : String
  publish : String → Bytes → Except TransportError Unit
  polls : List PollCall

/-- What a call leaves: the node, the subtasks that it gave to the transport
with their topics, the polls that it made, each with the node before it, and
its answer. -/
structure Delegated (L : Libs) (F : Type) (α : Type) where
  after : LmaoNode L F
  published : List (String × Task)
  polls : List (LmaoNode L F × PollCall)
  result : Except Stop α

/-- The tasks that a poll returns, none if it fails. -/
def returned [IdFilter F] (B : Build) (poll : LmaoNode L F × PollCall) : List Task :=
  match (poll.2.poll_tasks B poll.1).result with
  | .ok tasks => tasks
  | .error _ => []

/-- The tasks that the polls of a call returned. -/
def Delegated.polled {α : Type} [IdFilter F] (B : Build) (d : Delegated L F α) : List Task :=
  d.polls.flatMap (returned B)

def subtask (node : LmaoNode L F) (request : DelegationRequest) (peer_id uuid : String) : Task :=
  match request.session_id with
  | some sid =>
    if sid.isEmpty then Task.new uuid node.pubkey peer_id request.subtask_text
    else Task.new_in_session uuid node.pubkey peer_id request.subtask_text sid
  | none => Task.new uuid node.pubkey peer_id request.subtask_text

/-- A subtask is a new request of the node to the peer. -/
structure IsSubtask (node : LmaoNode L F) (peer_id uuid : String) (task : Task) : Prop where
  id : task.id = uuid
  sender : task.sender = node.pubkey
  recipient : task.recipient = peer_id
  request : task.result = none
  unpaid : task.payment_tx = none
  inline : task.payload_cid = none

theorem subtask_fields (node : LmaoNode L F) (request : DelegationRequest)
    (peer_id uuid : String) : IsSubtask node peer_id uuid (node.subtask request peer_id uuid) := by
  unfold subtask
  split
  · split
    · exact ⟨rfl, rfl, rfl, rfl, rfl, rfl⟩
    · exact ⟨rfl, rfl, rfl, rfl, rfl, rfl⟩
  · exact ⟨rfl, rfl, rfl, rfl, rfl, rfl⟩

/-- The polls until one returns a task with the id of the subtask, or fails. -/
def await_response [IdFilter F] (B : Build) (subtask_id : String) :
    LmaoNode L F → List PollCall → Delegated L F (Option Task)
  | node, [] => { after := node, published := [], polls := [], result := .ok none }
  | node, call :: rest =>
    let r := call.poll_tasks B node
    match r.result with
    | .error stop =>
      { after := r.after, published := [], polls := [(node, call)], result := .error stop }
    | .ok tasks =>
      match tasks.find? fun received => received.id == subtask_id with
      | some received =>
        { after := r.after, published := [], polls := [(node, call)]
          result := .ok (some received) }
      | none =>
        let d := await_response B subtask_id r.after rest
        { d with polls := (node, call) :: d.polls }

/-- The result that is read from a response: every state but `Failed` is a
success. -/
def result_of_response (request : DelegationRequest) (subtask_id peer_id : String)
    (received : Task) : DelegationResult :=
  let body := received.result_text
  let success := received.state != .Failed
  { parent_task_id := request.parent_task_id
    subtask_id
    agent_id := peer_id
    result_text := if success then body else none
    success
    error := if success then none else body }

def result_of_timeout (request : DelegationRequest) (subtask_id peer_id : String) :
    DelegationResult :=
  { parent_task_id := request.parent_task_id
    subtask_id
    agent_id := peer_id
    result_text := none
    success := false
    error := some "delegation timed out" }

/-- Send a subtask to a peer, as a raw envelope, and wait for a response. -/
def delegate_to_peer [IdFilter F] (B : Build) (node : LmaoNode L F) (request : DelegationRequest)
    (peer_id : String) (w : Waits) : Delegated L F DelegationResult :=
  let task := node.subtask request peer_id w.uuid
  let topic := task_topic peer_id
  match w.publish topic (A2AEnvelope.Task task).to_vec with
  | .error e =>
    { after := node, published := [(topic, task)], polls := []
      result := .error (.error (.Transport e)) }
  | .ok () =>
    let d := await_response B task.id node w.polls
    { after := d.after
      published := [(topic, task)]
      polls := d.polls
      result :=
        match d.result with
        | .error stop => .error stop
        | .ok (some received) => .ok (result_of_response request task.id peer_id received)
        | .ok none => .ok (result_of_timeout request task.id peer_id) }

/-! ## The three calls -/

/-- Delegate a subtask to one peer, chosen by the strategy. -/
def delegate_task [IdFilter F] (B : Build) (node : LmaoNode L F) (request : DelegationRequest)
    (now_secs : UInt64) (w : Waits) : Delegated L F DelegationResult :=
  match node.select_peer now_secs request.strategy with
  | (node, .error e) =>
    { after := node, published := [], polls := [], result := .error (.error e) }
  | (node, .ok peer_id) => node.delegate_to_peer B request peer_id w

/-- Delegate a subtask to a given peer, past the strategy. -/
def delegate_direct [IdFilter F] (B : Build) (node : LmaoNode L F) (request : DelegationRequest)
    (peer_pubkey : String) (w : Waits) : Delegated L F DelegationResult :=
  if node.trust_list.is_trusted peer_pubkey then node.delegate_to_peer B request peer_pubkey w
  else
    { after := node, published := [], polls := []
      result := .error (.error (.Other ("direct delegation to " ++ peer_pubkey ++
        " blocked: peer not on trust list (mode=" ++ node.trust_list.mode.debug ++
        "). Add it with `lmao trust add` or pass an alternate `--trust-file`."))) }

/-- The result that a broadcast collects for a peer. `display` gives the text
of an error. -/
def collected (display : NodeError → String) (request : DelegationRequest) (peer_id : String) :
    Except Stop DelegationResult → Except Panic DelegationResult
  | .ok r => .ok r
  | .error (.panic p) => .error p
  | .error (.error e) =>
    .ok { parent_task_id := request.parent_task_id, subtask_id := "", agent_id := peer_id
          result_text := none, success := false, error := some (display e) }

/-- One peer after another, until a panic. -/
def delegate_each [IdFilter F] (B : Build) (display : NodeError → String)
    (request : DelegationRequest) (w : Nat → Waits) :
    LmaoNode L F → Nat → List String → Delegated L F (List DelegationResult)
  | node, _, [] => { after := node, published := [], polls := [], result := .ok [] }
  | node, n, peer_id :: rest =>
    let d := node.delegate_to_peer B request peer_id (w n)
    match collected display request peer_id d.result with
    | .error p =>
      { after := d.after, published := d.published, polls := d.polls
        result := .error (.panic p) }
    | .ok r =>
      let d' := delegate_each B display request w d.after (n + 1) rest
      { after := d'.after, published := d.published ++ d'.published
        polls := d.polls ++ d'.polls, result := d'.result.map (r :: ·) }

/-- Delegate a subtask to all the matching peers and collect the results. -/
def delegate_broadcast [IdFilter F] (B : Build) (display : NodeError → String)
    (node : LmaoNode L F) (request : DelegationRequest) (now_secs : UInt64) (w : Nat → Waits) :
    Delegated L F (List DelegationResult) :=
  let peer_ids := node.broadcast_peers now_secs request.strategy
  if peer_ids.isEmpty then
    { after := node, published := [], polls := []
      result := .error (.error (.Other "no live peers available for broadcast delegation")) }
  else delegate_each B display request w node 0 peer_ids

/-- A call of one of the three, as a daemon makes it. -/
inductive DelegationCall
  | task (request : DelegationRequest) (now_secs : UInt64) (w : Waits)
  | direct (request : DelegationRequest) (peer_pubkey : String) (w : Waits)
  | broadcast (request : DelegationRequest) (now_secs : UInt64) (w : Nat → Waits)

def DelegationCall.run [IdFilter F] (B : Build) (display : NodeError → String)
    (node : LmaoNode L F) : DelegationCall → Delegated L F (List DelegationResult)
  | .task request now_secs w =>
    let d := node.delegate_task B request now_secs w
    { d with result := d.result.map ([·]) }
  | .direct request peer_pubkey w =>
    let d := node.delegate_direct B request peer_pubkey w
    { d with result := d.result.map ([·]) }
  | .broadcast request now_secs w => node.delegate_broadcast B display request now_secs w

/-! ## What a call leaves alone -/

/-- The parts of a node that neither a poll nor a delegation changes. -/
structure SameNode (node node' : LmaoNode L F) : Prop where
  card : node'.card = node.card
  trust_list : node'.trust_list = node.trust_list
  peer_map : node'.peer_map = node.peer_map

theorem SameNode.refl (node : LmaoNode L F) : SameNode node node := ⟨rfl, rfl, rfl⟩

theorem SameNode.trans {a b c : LmaoNode L F} (h : SameNode a b) (h' : SameNode b c) :
    SameNode a c :=
  ⟨h'.card.trans h.card, h'.trust_list.trans h.trust_list, h'.peer_map.trans h.peer_map⟩

theorem SameNode.subtask {node node' : LmaoNode L F} (h : SameNode node node')
    (request : DelegationRequest) (peer_id uuid : String) :
    node'.subtask request peer_id uuid = node.subtask request peer_id uuid := by
  unfold LmaoNode.subtask pubkey
  rw [h.card]

section

variable [IdFilter F]

theorem poll_tasks_same (B : Build) (call : PollCall) (node : LmaoNode L F) :
    SameNode node (call.poll_tasks B node).after := by
  unfold PollCall.poll_tasks poll_tasks
  dsimp only
  split
  · exact ⟨rfl, rfl, rfl⟩
  · split
    · exact ⟨rfl, rfl, rfl⟩
    · exact ⟨rfl, rfl, rfl⟩

theorem await_response_same (B : Build) (subtask_id : String) (node : LmaoNode L F)
    (polls : List PollCall) : SameNode node (await_response B subtask_id node polls).after := by
  induction polls generalizing node with
  | nil => exact .refl node
  | cons call rest ih =>
    unfold await_response
    dsimp only
    split
    · exact poll_tasks_same B call node
    · split
      · exact poll_tasks_same B call node
      · exact (poll_tasks_same B call node).trans (ih _)

theorem delegate_to_peer_same (B : Build) (node : LmaoNode L F) (request : DelegationRequest)
    (peer_id : String) (w : Waits) :
    SameNode node (node.delegate_to_peer B request peer_id w).after := by
  unfold delegate_to_peer
  dsimp only
  split
  · exact .refl node
  · exact await_response_same B _ node w.polls

theorem await_response_polls_same {B : Build} {subtask_id : String} {node : LmaoNode L F}
    {polls : List PollCall} {poll : LmaoNode L F × PollCall}
    (h : poll ∈ (await_response B subtask_id node polls).polls) : SameNode node poll.1 := by
  induction polls generalizing node with
  | nil => simp [await_response] at h
  | cons call rest ih =>
    unfold await_response at h
    dsimp only at h
    split at h
    · obtain rfl := List.mem_singleton.mp h
      exact .refl node
    · split at h
      · obtain rfl := List.mem_singleton.mp h
        exact .refl node
      · rcases List.mem_cons.mp h with rfl | h
        · exact .refl node
        · exact (poll_tasks_same B call node).trans (ih h)

theorem delegate_to_peer_polls_same {B : Build} {node : LmaoNode L F}
    {request : DelegationRequest} {peer_id : String} {w : Waits} {poll : LmaoNode L F × PollCall}
    (h : poll ∈ (node.delegate_to_peer B request peer_id w).polls) : SameNode node poll.1 := by
  unfold delegate_to_peer at h
  dsimp only at h
  split at h
  · simp at h
  · exact await_response_polls_same h

theorem delegate_each_same (B : Build) (display : NodeError → String)
    (request : DelegationRequest) (w : Nat → Waits) (node : LmaoNode L F) (n : Nat)
    (peer_ids : List String) :
    SameNode node (delegate_each B display request w node n peer_ids).after ∧
      ∀ poll ∈ (delegate_each B display request w node n peer_ids).polls, SameNode node poll.1 := by
  induction peer_ids generalizing node n with
  | nil => exact ⟨.refl node, by simp [delegate_each]⟩
  | cons peer_id rest ih =>
    have hsame := delegate_to_peer_same B node request peer_id (w n)
    unfold delegate_each
    dsimp only
    split
    · exact ⟨hsame, fun poll hpoll => delegate_to_peer_polls_same hpoll⟩
    · obtain ⟨hafter, hpolls⟩ := ih (node.delegate_to_peer B request peer_id (w n)).after (n + 1)
      refine ⟨hsame.trans hafter, fun poll hpoll => ?_⟩
      rcases List.mem_append.mp hpoll with hpoll | hpoll
      · exact delegate_to_peer_polls_same hpoll
      · exact hsame.trans (hpolls poll hpoll)

theorem delegate_to_peer_published (B : Build) (node : LmaoNode L F)
    (request : DelegationRequest) (peer_id : String) (w : Waits) :
    (node.delegate_to_peer B request peer_id w).published =
      [(task_topic peer_id, node.subtask request peer_id w.uuid)] := by
  unfold delegate_to_peer
  dsimp only
  split
  · rfl
  · rfl

end

theorem select_peer_same (node : LmaoNode L F) (now_secs : UInt64)
    (strategy : DelegationStrategy) : SameNode node (node.select_peer now_secs strategy).1 := by
  cases strategy with
  | FirstAvailable => unfold select_peer; dsimp only; split <;> exact .refl node
  | CapabilityMatch capability => unfold select_peer; dsimp only; split <;> exact .refl node
  | BroadcastCollect => unfold select_peer; dsimp only; split <;> exact .refl node
  | RoundRobin =>
    unfold select_peer
    dsimp only
    split
    · exact .refl node
    · exact ⟨rfl, rfl, rfl⟩

/-- A delegation leaves these parts alone, and so the polls that it makes see
them as they were. -/
theorem delegation_same [IdFilter F] (B : Build) (display : NodeError → String)
    (node : LmaoNode L F) (call : DelegationCall) :
    SameNode node (call.run B display node).after ∧
      ∀ poll ∈ (call.run B display node).polls, SameNode node poll.1 := by
  cases call with
  | task request now_secs w =>
    have hsame := select_peer_same node now_secs request.strategy
    simp only [DelegationCall.run, delegate_task]
    rcases hpeer : node.select_peer now_secs request.strategy with ⟨node', e | peer_id⟩
    · rw [hpeer] at hsame
      exact ⟨hsame, by simp⟩
    · rw [hpeer] at hsame
      exact ⟨hsame.trans (delegate_to_peer_same B node' request peer_id w),
        fun poll hpoll => hsame.trans (delegate_to_peer_polls_same hpoll)⟩
  | direct request peer_pubkey w =>
    simp only [DelegationCall.run, delegate_direct]
    by_cases htrust : node.trust_list.is_trusted peer_pubkey = true
    · rw [if_pos htrust]
      exact ⟨delegate_to_peer_same B node request peer_pubkey w,
        fun poll hpoll => delegate_to_peer_polls_same hpoll⟩
    · rw [if_neg htrust]
      exact ⟨.refl node, by simp⟩
  | broadcast request now_secs w =>
    simp only [DelegationCall.run, delegate_broadcast]
    by_cases hempty : (node.broadcast_peers now_secs request.strategy).isEmpty = true
    · rw [if_pos hempty]
      exact ⟨.refl node, by simp⟩
    · rw [if_neg hempty]
      exact delegate_each_same B display request w node 0 _

/-! ## Where the subtasks go -/

def DelegationCall.request : DelegationCall → DelegationRequest
  | .task request _ _ => request
  | .direct request _ _ => request
  | .broadcast request _ _ => request

/-- The call picks the peer. -/
def DelegationCall.Picks (node : LmaoNode L F) (peer_id : String) : DelegationCall → Prop
  | .task request now_secs _ => (node.select_peer now_secs request.strategy).2 = .ok peer_id
  | .direct _ peer_pubkey _ => peer_pubkey = peer_id ∧ node.trust_list.is_trusted peer_id = true
  | .broadcast request now_secs _ => peer_id ∈ node.broadcast_peers now_secs request.strategy

variable [IdFilter F]

theorem delegate_each_published {B : Build} {display : NodeError → String}
    {request : DelegationRequest} {w : Nat → Waits} {node : LmaoNode L F} {n : Nat}
    {peer_ids : List String} {topic : String} {task : Task}
    (h : (topic, task) ∈ (delegate_each B display request w node n peer_ids).published) :
    ∃ peer_id ∈ peer_ids, ∃ uuid, topic = task_topic peer_id ∧
      task = node.subtask request peer_id uuid := by
  induction peer_ids generalizing node n with
  | nil => simp [delegate_each] at h
  | cons peer_id rest ih =>
    unfold delegate_each at h
    rcases hr : collected display request peer_id
      (node.delegate_to_peer B request peer_id (w n)).result with p | r
    · simp only [hr, delegate_to_peer_published, List.mem_singleton, Prod.mk.injEq] at h
      exact ⟨peer_id, List.mem_cons_self, _, h⟩
    · simp only [hr, delegate_to_peer_published, List.mem_append, List.mem_singleton,
        Prod.mk.injEq] at h
      rcases h with h | h
      · exact ⟨peer_id, List.mem_cons_self, _, h⟩
      · obtain ⟨peer, hpeer, uuid, htopic, htask⟩ := ih h
        rw [(delegate_to_peer_same B node request peer_id (w n)).subtask] at htask
        exact ⟨peer, List.mem_cons_of_mem _ hpeer, uuid, htopic, htask⟩

/-- Whatever a call gives to the transport is a subtask for a peer that it
picked. -/
theorem published_picked {B : Build} {display : NodeError → String} {node : LmaoNode L F}
    {call : DelegationCall} {topic : String} {task : Task}
    (h : (topic, task) ∈ (call.run B display node).published) :
    ∃ peer_id uuid, call.Picks node peer_id ∧ topic = task_topic peer_id ∧
      task = node.subtask call.request peer_id uuid := by
  cases call with
  | task request now_secs w =>
    have hsame := select_peer_same node now_secs request.strategy
    simp only [DelegationCall.run, delegate_task] at h
    rcases hpeer : node.select_peer now_secs request.strategy with ⟨node', e | peer_id⟩
    · simp [hpeer] at h
    · simp only [hpeer] at h hsame
      rw [delegate_to_peer_published, hsame.subtask] at h
      obtain ⟨htopic, htask⟩ := Prod.mk.inj (List.mem_singleton.mp h)
      exact ⟨peer_id, w.uuid, by simp [DelegationCall.Picks, hpeer], htopic, htask⟩
  | direct request peer_pubkey w =>
    simp only [DelegationCall.run, delegate_direct] at h
    by_cases htrust : node.trust_list.is_trusted peer_pubkey = true
    · rw [if_pos htrust, delegate_to_peer_published] at h
      obtain ⟨htopic, htask⟩ := Prod.mk.inj (List.mem_singleton.mp h)
      exact ⟨peer_pubkey, w.uuid, ⟨rfl, htrust⟩, htopic, htask⟩
    · simp [htrust] at h
  | broadcast request now_secs w =>
    simp only [DelegationCall.run, delegate_broadcast] at h
    by_cases hempty : (node.broadcast_peers now_secs request.strategy).isEmpty = true
    · simp [hempty] at h
    · rw [if_neg hempty] at h
      obtain ⟨peer_id, hpeer, uuid, htopic, htask⟩ := delegate_each_published h
      exact ⟨peer_id, uuid, hpeer, htopic, htask⟩

/-! ## Answers -/

/-- The response, and the topic and the payload that it is published with. -/
def publish_response (node : LmaoNode L F) (task : Task) (body_text : String)
    (sender_card : Option AgentCard) (failed : Bool) (nonces : Bytes × Bytes)
    (publish : String → Bytes → Except TransportError Unit) :
    Except NodeError (String × Bytes) :=
  let response := if failed then task.respond_failed body_text else task.respond body_text
  let topic := task_topic response.recipient
  match node.prepare_payload response sender_card nonces with
  | .error e => .error e
  | .ok payload =>
    match publish topic payload with
    | .error e => .error (.Transport e)
    | .ok () => .ok (topic, payload)

/-- Respond to a task: send back a completed task with the result. -/
def respond (node : LmaoNode L F) (task : Task) (result_text : String) (nonces : Bytes × Bytes)
    (publish : String → Bytes → Except TransportError Unit) :
    Except NodeError (String × Bytes) :=
  node.publish_response task result_text none false nonces publish

/-- Respond to a task with `Failed`. -/
def respond_failed (node : LmaoNode L F) (task : Task) (error_text : String)
    (nonces : Bytes × Bytes) (publish : String → Bytes → Except TransportError Unit) :
    Except NodeError (String × Bytes) :=
  node.publish_response task error_text none true nonces publish

end LmaoNode

end lmao.node
