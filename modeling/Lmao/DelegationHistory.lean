-- The history rows of delegations (delegation.rs, history.rs): a call that
-- comes to the end of its wait records the result that it returns. A poll that
-- fails ends the call before that.
import Lmao.DelegationLaws
import Lmao.History

namespace lmao.node

open sds

/-! ## The rows that the code writes -/

/-- The peer, unless it is expired. -/
def PeerMap.get (map : PeerMap) (now_secs : UInt64) (agent_id : String) : Option PeerInfo :=
  (map.peers.lookup agent_id).filter fun info => !info.is_expired_at now_secs

/-- Only `CapabilityMatch` carries a capability. -/
def capability_of : DelegationStrategy → String
  | .CapabilityMatch capability => capability
  | _ => ""

def codex_marker : List Char := "codex://".toList

/-- What follows the first marker. -/
def after_codex : List Char → Option (List Char)
  | [] => none
  | c :: cs =>
    if codex_marker.isPrefixOf (c :: cs) then some ((c :: cs).drop codex_marker.length)
    else after_codex cs

/-- The CID of the audit log that a response names. -/
def extract_codex_cid (body : String) : String :=
  match after_codex body.toList with
  | none => ""
  | some tail => String.ofList (tail.takeWhile Char.isAlphanum)

example : extract_codex_cid "done codex://zDv1 ok" = "zDv1" := by decide

/-- The clock when a result is recorded. -/
structure Stamp where
  now_secs : UInt64
  created_at_ms : UInt64
  elapsed_ms : UInt64

variable {L : Libs} {F : Type}

namespace LmaoNode

/-- The row that is appended to the log for a finished delegation. -/
def record_delegation_history (node : LmaoNode L F) (result : DelegationResult)
    (subtask_text capability : String) (session_id : Option String) (stamp : Stamp) :
    history.HistoryEntry :=
  let body := result.result_text.getD ""
  { task_id := result.subtask_id
    parent_id := result.parent_task_id
    created_at_ms := stamp.created_at_ms
    direction := "delegated"
    peer_pubkey := result.agent_id
    peer_name := ((node.peer_map.get stamp.now_secs result.agent_id).map PeerInfo.name).getD ""
    capability
    text := subtask_text
    body
    cid := extract_codex_cid body
    success := result.success
    error := result.error
    elapsed_ms := stamp.elapsed_ms
    session_id := session_id.getD "" }

/-- The row for a result of the request. -/
def history_row (node : LmaoNode L F) (request : DelegationRequest) (stamp : Stamp)
    (result : DelegationResult) : history.HistoryEntry :=
  node.record_delegation_history result request.subtask_text (capability_of request.strategy)
    request.session_id stamp

variable [IdFilter F]

/-- The rows that `delegate_to_peer` appends: one when a response came, one when
the time is over. -/
def delegate_to_peer_rows (B : Build) (node : LmaoNode L F) (request : DelegationRequest)
    (peer_id : String) (w : Waits) (stamp : Stamp) : List history.HistoryEntry :=
  let task := node.subtask request peer_id w.uuid
  match w.publish (task_topic peer_id) (A2AEnvelope.Task task).to_vec with
  | .error _ => []
  | .ok () =>
    let d := await_response B task.id node w.polls
    match d.result with
    | .error _ => []
    | .ok (some received) =>
      [d.after.history_row request stamp (result_of_response request task.id peer_id received)]
    | .ok none => [d.after.history_row request stamp (result_of_timeout request task.id peer_id)]

/-- The rows of one peer after another, until a panic. -/
def delegate_each_rows (B : Build) (request : DelegationRequest) (w : Nat → Waits)
    (stamps : Nat → Stamp) : LmaoNode L F → Nat → List String → List history.HistoryEntry
  | _, _, [] => []
  | node, n, peer_id :: rest =>
    let d := node.delegate_to_peer B request peer_id (w n)
    let rows := node.delegate_to_peer_rows B request peer_id (w n) (stamps n)
    match d.result with
    | .error (.panic _) => rows
    | _ => rows ++ delegate_each_rows B request w stamps d.after (n + 1) rest

/-- The rows that a call appends to the log. -/
def DelegationCall.rows (B : Build) (node : LmaoNode L F) (stamps : Nat → Stamp) :
    DelegationCall → List history.HistoryEntry
  | .task request now_secs w =>
    match node.select_peer now_secs request.strategy with
    | (_, .error _) => []
    | (node, .ok peer_id) => node.delegate_to_peer_rows B request peer_id w (stamps 0)
  | .direct request peer_pubkey w =>
    if node.trust_list.is_trusted peer_pubkey then
      node.delegate_to_peer_rows B request peer_pubkey w (stamps 0)
    else []
  | .broadcast request now_secs w =>
    delegate_each_rows B request w stamps node 0 (node.broadcast_peers now_secs request.strategy)

/-! ## One subtask -/

/-- No poll fails before one returns a response to the subtask. -/
def Quiet (B : Build) (subtask_id : String) : LmaoNode L F → List PollCall → Prop
  | _, [] => True
  | node, call :: rest =>
    match (call.poll_tasks B node).result with
    | .error _ => False
    | .ok tasks =>
      (∃ received ∈ tasks, received.id = subtask_id) ∨
        Quiet B subtask_id (call.poll_tasks B node).after rest

theorem await_response_ok_iff (B : Build) (subtask_id : String) (node : LmaoNode L F)
    (polls : List PollCall) :
    (∃ r, (await_response B subtask_id node polls).result = .ok r) ↔
      Quiet B subtask_id node polls := by
  induction polls generalizing node with
  | nil => simp [await_response, Quiet]
  | cons call rest ih =>
    unfold await_response Quiet
    dsimp only
    rcases hpoll : (call.poll_tasks B node).result with stop | tasks
    · simp only [reduceCtorEq, exists_false]
    · rcases hfind : tasks.find? (fun received => received.id == subtask_id) with _ | received
      · have hnone : ¬ ∃ received ∈ tasks, received.id = subtask_id := by
          simpa using hfind
        simp only [hfind, hnone, false_or, ← ih]
      · have hmem := List.mem_of_find?_eq_some hfind
        have hid := List.find?_some hfind
        simp only [beq_iff_eq] at hid
        simp only [hfind, Except.ok.injEq, exists_eq', true_iff]
        exact .inl ⟨received, hmem, hid⟩

/-- A subtask that a call sends: the node before it, the peer, and what happens
around it. -/
structure Attempt (L : Libs) (F : Type) where
  before : LmaoNode L F
  peer_id : String
  w : Waits
  stamp : Stamp

namespace Attempt

variable (B : Build) (request : DelegationRequest) (a : Attempt L F)

def task : Task := a.before.subtask request a.peer_id a.w.uuid

/-- The transport takes the subtask. -/
def Published : Prop :=
  a.w.publish (task_topic a.peer_id) (A2AEnvelope.Task (a.task request)).to_vec = .ok ()

/-- No poll fails while the node waits for the response. -/
def Undisturbed : Prop := a.Published request → Quiet B a.w.uuid a.before a.w.polls

def result : Except Stop DelegationResult :=
  (a.before.delegate_to_peer B request a.peer_id a.w).result

def rows : List history.HistoryEntry :=
  a.before.delegate_to_peer_rows B request a.peer_id a.w a.stamp

variable {B request a}

omit [IdFilter F] in
theorem task_id : (a.task request).id = a.w.uuid := (subtask_fields _ _ _ _).id

theorem rows_of_not_published (h : ¬ a.Published request) :
    a.rows B request = [] ∧ ∃ e, a.result B request = .error (.error (.Transport e)) := by
  unfold Published task at h
  unfold rows result delegate_to_peer_rows delegate_to_peer
  dsimp only
  rcases hpub : a.w.publish (task_topic a.peer_id)
    (A2AEnvelope.Task (a.before.subtask request a.peer_id a.w.uuid)).to_vec with e | ⟨⟩
  · exact ⟨rfl, e, rfl⟩
  · exact absurd hpub h

theorem rows_of_disturbed (hpub : a.Published request)
    (h : ¬ Quiet B a.w.uuid a.before a.w.polls) :
    a.rows B request = [] ∧ ∃ stop, a.result B request = .error stop := by
  unfold Published task at hpub
  rw [← await_response_ok_iff, ← a.task_id] at h
  unfold task at h
  unfold rows result delegate_to_peer_rows delegate_to_peer
  simp only [hpub]
  rcases hd : (await_response B (a.before.subtask request a.peer_id a.w.uuid).id a.before
    a.w.polls).result with stop | r
  · exact ⟨rfl, stop, rfl⟩
  · exact absurd ⟨r, hd⟩ h

/-- The row of a subtask tells the result that the caller gets. -/
theorem rows_of_quiet (hpub : a.Published request) (h : Quiet B a.w.uuid a.before a.w.polls) :
    ∃ row r, a.rows B request = [row] ∧ a.result B request = .ok r ∧ row.task_id = a.w.uuid ∧
      row.direction = "delegated" ∧ row.success = r.success ∧ row.error = r.error := by
  have hid : (a.before.subtask request a.peer_id a.w.uuid).id = a.w.uuid := task_id
  unfold Published task at hpub
  rw [← await_response_ok_iff, ← hid] at h
  obtain ⟨r, hr⟩ := h
  unfold rows result delegate_to_peer_rows delegate_to_peer
  simp only [hpub, hr]
  rcases r with _ | received
  · exact ⟨_, _, rfl, rfl, hid, rfl, rfl, rfl⟩
  · exact ⟨_, _, rfl, rfl, hid, rfl, rfl, rfl⟩

/-- Every row of a subtask has its id. -/
theorem row_task_id {row : history.HistoryEntry} (h : row ∈ a.rows B request) :
    row.task_id = a.w.uuid ∧ row.direction = "delegated" := by
  by_cases hpub : a.Published request
  · by_cases hquiet : Quiet B a.w.uuid a.before a.w.polls
    · obtain ⟨row', r, hrows, -, hid, hdir, -⟩ := rows_of_quiet hpub hquiet
      rw [hrows, List.mem_singleton] at h
      exact h ▸ ⟨hid, hdir⟩
    · rw [(rows_of_disturbed hpub hquiet).1] at h
      cases h
  · rw [(rows_of_not_published hpub).1] at h
    cases h

theorem result_of_undisturbed (h : a.Undisturbed B request) :
    (∃ e, a.result B request = .error (.error e)) ∨ ∃ r, a.result B request = .ok r := by
  by_cases hpub : a.Published request
  · obtain ⟨-, r, -, hr, -⟩ := rows_of_quiet hpub (h hpub)
    exact .inr ⟨r, hr⟩
  · obtain ⟨-, e, he⟩ := rows_of_not_published hpub
    exact .inl ⟨_, he⟩

end Attempt

/-! ## The subtasks of a call -/

/-- The subtasks of a broadcast, one peer after another, until a panic. -/
def each_attempts (B : Build) (request : DelegationRequest) (w : Nat → Waits)
    (stamps : Nat → Stamp) : LmaoNode L F → Nat → List String → List (Attempt L F)
  | _, _, [] => []
  | node, n, peer_id :: rest =>
    let a : Attempt L F := ⟨node, peer_id, w n, stamps n⟩
    match a.result B request with
    | .error (.panic _) => [a]
    | _ =>
      a :: each_attempts B request w stamps (node.delegate_to_peer B request peer_id (w n)).after
        (n + 1) rest

namespace DelegationCall

/-- What happens around the subtask `i`. -/
def waits : DelegationCall → Nat → Waits
  | .task _ _ w, _ => w
  | .direct _ _ w, _ => w
  | .broadcast _ _ w, i => w i

/-- No two subtasks of a broadcast get the same UUID. -/
def Fresh : DelegationCall → Prop
  | .broadcast _ _ w => Function.Injective fun i => (w i).uuid
  | _ => True

/-- The subtasks that a call gives to the transport. -/
def attempts (B : Build) (node : LmaoNode L F) (stamps : Nat → Stamp) :
    DelegationCall → List (Attempt L F)
  | .task request now_secs w =>
    match node.select_peer now_secs request.strategy with
    | (_, .error _) => []
    | (node, .ok peer_id) => [⟨node, peer_id, w, stamps 0⟩]
  | .direct _ peer_pubkey w =>
    if node.trust_list.is_trusted peer_pubkey then [⟨node, peer_pubkey, w, stamps 0⟩] else []
  | .broadcast request now_secs w =>
    each_attempts B request w stamps node 0 (node.broadcast_peers now_secs request.strategy)

end DelegationCall

section

variable (B : Build) (request : DelegationRequest) (w : Nat → Waits) (stamps : Nat → Stamp)

theorem each_rows (node : LmaoNode L F) (n : Nat) (peer_ids : List String) :
    delegate_each_rows B request w stamps node n peer_ids =
      (each_attempts B request w stamps node n peer_ids).flatMap (·.rows B request) := by
  induction peer_ids generalizing node n with
  | nil => rfl
  | cons peer_id rest ih =>
    unfold delegate_each_rows each_attempts Attempt.result
    dsimp only
    split
    · exact (List.append_nil _).symm
    · rw [List.flatMap_cons, ih]
      rfl

theorem each_published (display : NodeError → String) (node : LmaoNode L F) (n : Nat)
    (peer_ids : List String) :
    (delegate_each B display request w node n peer_ids).published =
      (each_attempts B request w stamps node n peer_ids).map
        fun a => (task_topic a.peer_id, a.task request) := by
  induction peer_ids generalizing node n with
  | nil => rfl
  | cons peer_id rest ih =>
    unfold delegate_each each_attempts Attempt.result
    dsimp only
    rcases hres : (node.delegate_to_peer B request peer_id (w n)).result with (p | e) | r
    · simp only [collected, delegate_to_peer_published, ih, List.map_cons, List.singleton_append]
      rfl
    · simp only [collected, delegate_to_peer_published, List.map_cons, List.map_nil]
      rfl
    · simp only [collected, delegate_to_peer_published, ih, List.map_cons, List.singleton_append]
      rfl

theorem each_waits (node : LmaoNode L F) (n : Nat) (peer_ids : List String) {i : Nat}
    {a : Attempt L F} (h : (each_attempts B request w stamps node n peer_ids)[i]? = some a) :
    a.w = w (n + i) := by
  induction peer_ids generalizing node n i with
  | nil => simp [each_attempts] at h
  | cons peer_id rest ih =>
    unfold each_attempts at h
    dsimp only at h
    split at h
    · cases i with
      | zero =>
        cases h
        rfl
      | succ i => simp at h
    · cases i with
      | zero =>
        cases h
        rfl
      | succ i =>
        rw [ih _ _ h]
        congr 1
        omega

/-- A broadcast without failing polls collects the result of each subtask. -/
theorem each_result (display : NodeError → String) (node : LmaoNode L F) (n : Nat)
    (peer_ids : List String)
    (h : ∀ a ∈ each_attempts B request w stamps node n peer_ids, a.Undisturbed B request) :
    ∃ rs, (delegate_each B display request w node n peer_ids).result = .ok rs ∧
      ∀ (i : Nat) (a : Attempt L F) (r : DelegationResult),
        (each_attempts B request w stamps node n peer_ids)[i]? = some a →
        a.result B request = .ok r → rs[i]? = some r := by
  induction peer_ids generalizing node n with
  | nil => exact ⟨[], rfl, by simp [each_attempts]⟩
  | cons peer_id rest ih =>
    have hstep : ∀ r, collected display request peer_id
        (node.delegate_to_peer B request peer_id (w n)).result = .ok r →
        each_attempts B request w stamps node n (peer_id :: rest) =
          ⟨node, peer_id, w n, stamps n⟩ :: each_attempts B request w stamps
            (node.delegate_to_peer B request peer_id (w n)).after (n + 1) rest := by
      intro r hr
      conv_lhs => unfold each_attempts Attempt.result
      dsimp only
      split
      · next p hp =>
        rw [hp] at hr
        cases hr
      · rfl
    have hhead : ∃ r, collected display request peer_id
        (node.delegate_to_peer B request peer_id (w n)).result = .ok r := by
      have hmem : (⟨node, peer_id, w n, stamps n⟩ : Attempt L F) ∈
          each_attempts B request w stamps node n (peer_id :: rest) := by
        unfold each_attempts
        dsimp only
        split
        · exact List.mem_singleton_self _
        · exact List.mem_cons_self
      rcases Attempt.result_of_undisturbed (h _ hmem) with ⟨e, he⟩ | ⟨r, hr⟩
      · exact ⟨_, congrArg (collected display request peer_id) he⟩
      · exact ⟨_, congrArg (collected display request peer_id) hr⟩
    obtain ⟨r, hr⟩ := hhead
    rw [hstep r hr] at h ⊢
    obtain ⟨rs, hrs, hget⟩ := ih _ _ fun a ha => h a (List.mem_cons_of_mem _ ha)
    refine ⟨r :: rs, ?_, ?_⟩
    · unfold delegate_each
      simp only [hr, hrs]
      rfl
    · intro i a r' hi hres
      cases i with
      | zero =>
        cases hi
        unfold Attempt.result at hres
        rw [hres] at hr
        cases hr
        rfl
      | succ i => exact hget i a r' hi hres

end

/-! ## One row for each subtask -/

/-- The rows of a delegation to look up by the id of a subtask. -/
def rows_of (subtask_id : String) (rows : List history.HistoryEntry) :
    List history.HistoryEntry :=
  rows.filter fun row => row.direction == "delegated" && row.task_id == subtask_id

/-- The success flag and the error that the caller gets for the subtask `i`. -/
def reported (result : Except Stop (List DelegationResult)) (i : Nat) :
    Option (Bool × Option String) :=
  (result.toOption.bind (·[i]?)).map fun r => (r.success, r.error)

/-- Each subtask that was published leaves one row, with the result that is
reported to the caller, and no other leaves any. -/
structure OneRowEach (B : Build) (display : NodeError → String) (node : LmaoNode L F)
    (stamps : Nat → Stamp) (call : DelegationCall) : Prop where
  published : ∀ (i : Nat) (topic : String) (task : Task),
    (call.run B display node).published[i]? = some (topic, task) →
    (call.waits i).publish topic (A2AEnvelope.Task task).to_vec = .ok () →
    ∃ row, rows_of task.id (call.rows B node stamps) = [row] ∧
      reported (call.run B display node).result i = some (row.success, row.error)
  failed : ∀ (i : Nat) (topic : String) (task : Task),
    (call.run B display node).published[i]? = some (topic, task) →
    (call.waits i).publish topic (A2AEnvelope.Task task).to_vec ≠ .ok () →
    rows_of task.id (call.rows B node stamps) = []

section

variable (B : Build) (node : LmaoNode L F) (stamps : Nat → Stamp) (call : DelegationCall)

theorem call_rows :
    call.rows B node stamps =
      (call.attempts B node stamps).flatMap (·.rows B call.request) := by
  cases call with
  | task request now_secs w =>
    unfold DelegationCall.rows DelegationCall.attempts
    dsimp only
    split
    · rfl
    · exact (List.append_nil _).symm
  | direct request peer_pubkey w =>
    unfold DelegationCall.rows DelegationCall.attempts
    dsimp only
    split
    · exact (List.append_nil _).symm
    · rfl
  | broadcast request now_secs w => exact each_rows B request w stamps node 0 _

theorem call_published (display : NodeError → String) :
    (call.run B display node).published =
      (call.attempts B node stamps).map
        fun a => (task_topic a.peer_id, a.task call.request) := by
  cases call with
  | task request now_secs w =>
    unfold DelegationCall.run DelegationCall.attempts delegate_task
    dsimp only
    rcases node.select_peer now_secs request.strategy with ⟨node', e | peer_id⟩
    · rfl
    · exact delegate_to_peer_published ..
  | direct request peer_pubkey w =>
    unfold DelegationCall.run DelegationCall.attempts delegate_direct
    dsimp only
    split
    · exact delegate_to_peer_published ..
    · rfl
  | broadcast request now_secs w =>
    unfold DelegationCall.run DelegationCall.attempts delegate_broadcast
    dsimp only
    split
    · next hempty =>
      rw [List.isEmpty_iff.mp hempty]
      rfl
    · exact each_published B request w stamps display node 0 _

theorem call_published_iff (display : NodeError → String) {i : Nat} {topic : String}
    {task : Task} :
    (call.run B display node).published[i]? = some (topic, task) ↔
      ∃ a, (call.attempts B node stamps)[i]? = some a ∧ topic = task_topic a.peer_id ∧
        task = a.task call.request := by
  rw [call_published B node stamps, List.getElem?_map, Option.map_eq_some_iff]
  constructor
  · rintro ⟨a, ha, heq⟩
    cases heq
    exact ⟨a, ha, rfl, rfl⟩
  · rintro ⟨a, ha, rfl, rfl⟩
    exact ⟨a, ha, rfl⟩

theorem call_waits {i : Nat} {a : Attempt L F}
    (h : (call.attempts B node stamps)[i]? = some a) : a.w = call.waits i := by
  cases call with
  | task request now_secs w =>
    unfold DelegationCall.attempts at h
    dsimp only at h
    split at h
    · simp at h
    · obtain rfl := List.mem_singleton.mp (List.mem_of_getElem? h)
      rfl
  | direct request peer_pubkey w =>
    unfold DelegationCall.attempts at h
    dsimp only at h
    split at h
    · obtain rfl := List.mem_singleton.mp (List.mem_of_getElem? h)
      rfl
    · simp at h
  | broadcast request now_secs w =>
    rw [each_waits B request w stamps node 0 _ h, Nat.zero_add]
    rfl

/-- The subtasks of a call have different ids. -/
theorem call_uuids_nodup (hfresh : call.Fresh) :
    ((call.attempts B node stamps).map (·.w.uuid)).Nodup := by
  cases call with
  | task request now_secs w =>
    unfold DelegationCall.attempts
    dsimp only
    split
    · exact List.nodup_nil
    · exact List.nodup_singleton _
  | direct request peer_pubkey w =>
    unfold DelegationCall.attempts
    dsimp only
    split
    · exact List.nodup_singleton _
    · exact List.nodup_nil
  | broadcast request now_secs w =>
    refine List.nodup_iff_getElem?_ne_getElem?.mpr fun i j hij hj heq => ?_
    rw [List.length_map] at hj
    rw [List.getElem?_map, List.getElem?_map, List.getElem?_eq_getElem hj,
      List.getElem?_eq_getElem (hij.trans hj)] at heq
    have hi := call_waits B node stamps _ (List.getElem?_eq_getElem (hij.trans hj))
    have hj' := call_waits B node stamps _ (List.getElem?_eq_getElem hj)
    rw [Option.map_some, Option.map_some, hi, hj', Option.some.injEq] at heq
    exact absurd (hfresh heq) (Nat.ne_of_lt hij)

omit call in
theorem reported_single {request : DelegationRequest} {a a' : Attempt L F} {i : Nat}
    (hi : [a][i]? = some a') {r : DelegationResult} (hr : a'.result B request = .ok r) :
    reported ((a.result B request).map ([·])) i = some (r.success, r.error) := by
  cases i with
  | zero =>
    cases hi
    rw [hr]
    rfl
  | succ i => simp at hi

/-- A call without failing polls reports the result of each subtask. -/
theorem call_reported (display : NodeError → String)
    (h : ∀ a ∈ call.attempts B node stamps, a.Undisturbed B call.request) {i : Nat}
    {a : Attempt L F} (hi : (call.attempts B node stamps)[i]? = some a) {r : DelegationResult}
    (hr : a.result B call.request = .ok r) :
    reported (call.run B display node).result i = some (r.success, r.error) := by
  cases call with
  | task request now_secs w =>
    unfold DelegationCall.attempts at hi
    unfold DelegationCall.run delegate_task
    dsimp only at hi ⊢
    rcases hsel : node.select_peer now_secs request.strategy with ⟨node', e | peer_id⟩
    · simp [hsel] at hi
    · simp only [hsel] at hi ⊢
      exact reported_single B hi hr
  | direct request peer_pubkey w =>
    unfold DelegationCall.attempts at hi
    unfold DelegationCall.run delegate_direct
    dsimp only at hi ⊢
    split at hi
    · next htrusted =>
      rw [if_pos htrusted]
      exact reported_single B hi hr
    · simp at hi
  | broadcast request now_secs w =>
    unfold DelegationCall.run delegate_broadcast
    dsimp only
    split
    · next hempty =>
      unfold DelegationCall.attempts at hi
      dsimp only at hi
      rw [List.isEmpty_iff.mp hempty] at hi
      simp [each_attempts] at hi
    · obtain ⟨rs, hrs, hget⟩ := each_result B request w stamps display node 0 _ h
      unfold reported
      rw [hrs]
      simp [Except.toOption, hget i a r hi hr]

end

/-- The parts of a list of which only one has the key. -/
theorem filter_flatMap_of_nodup {α β κ : Type} {l : List α} {f : α → List β}
    {key : α → κ} {p : κ → β → Bool} (hself : ∀ a ∈ l, ∀ b ∈ f a, p (key a) b = true)
    (hother : ∀ a ∈ l, ∀ b ∈ f a, ∀ k, p k b = true → k = key a)
    (hnodup : (l.map key).Nodup) {a : α} (ha : a ∈ l) :
    (l.flatMap f).filter (p (key a)) = f a := by
  induction l with
  | nil => cases ha
  | cons x rest ih =>
    rw [List.map_cons, List.nodup_cons] at hnodup
    rw [List.flatMap_cons, List.filter_append]
    have hrest := ih (fun a ha => hself a (.tail _ ha)) (fun a ha => hother a (.tail _ ha)) hnodup.2
    rcases List.mem_cons.mp ha with rfl | hmem
    · have hnone : (rest.flatMap f).filter (p (key a)) = [] := by
        apply List.filter_eq_nil_iff.mpr
        intro b hb hp
        obtain ⟨a', ha', hb'⟩ := List.mem_flatMap.mp hb
        exact hnodup.1 (hother a' (.tail _ ha') b hb' _ hp ▸ List.mem_map_of_mem ha')
      rw [hnone, List.append_nil]
      exact List.filter_eq_self.mpr (hself a ha)
    · have hnone : (f x).filter (p (key a)) = [] := by
        apply List.filter_eq_nil_iff.mpr
        intro b hb hp
        exact hnodup.1 (hother x (.head _) b hb _ hp ▸ List.mem_map_of_mem hmem)
      rw [hnone, List.nil_append, hrest hmem]

theorem rows_of_attempt (B : Build) (node : LmaoNode L F) (stamps : Nat → Stamp)
    {call : DelegationCall} (hfresh : call.Fresh) {a : Attempt L F}
    (ha : a ∈ call.attempts B node stamps) :
    rows_of a.w.uuid (call.rows B node stamps) = a.rows B call.request := by
  have hnodup := call_uuids_nodup B node stamps call hfresh
  unfold rows_of
  rw [call_rows]
  refine filter_flatMap_of_nodup
    (p := fun id (row : history.HistoryEntry) => row.direction == "delegated" && row.task_id == id)
    (fun a _ row hrow => ?_) (fun a _ row hrow id hp => ?_) hnodup ha
  · obtain ⟨hid, hdir⟩ := Attempt.row_task_id hrow
    simp [hid, hdir]
  · obtain ⟨hid, -⟩ := Attempt.row_task_id hrow
    simp only [Bool.and_eq_true, beq_iff_eq] at hp
    exact hp.2.symm.trans hid

end LmaoNode

open LmaoNode

namespace Sample

/-- What the peer answers, and a task of somebody else whose payload is gone. -/
def peer_answer : Task := (Task.new "s" "02alice" "02bob" "hi").respond "ok"

def stray : Task :=
  { Task.new "task-9" "02mallory" "02alice" "hi" with payload_cid := some "cid-9" }

def waiting_libs : Libs :=
  .ofTables (.ofTable [((A2AEnvelope.Task peer_answer).to_vec, "01"),
      ((A2AEnvelope.Task stray).to_vec, "02")] [])
    { public_key := fun _ => List.replicate 32 0
      diffie_hellman := fun _ _ => []
      aead_encrypt := fun _ _ plaintext => some plaintext
      aead_decrypt := fun _ _ ciphertext => some ciphertext }
    [.Task peer_answer, .Task stray] []

def live_peer (name : String) : PeerInfo :=
  { name, capabilities := [], waku_topic := "", ttl_secs := 60, last_seen := 0, load := none }

/-- A node with a storage and with two live peers. -/
def waiting_node : LmaoNode waiting_libs (IdSet fun _ => []) :=
  { LmaoNode.new "02alice" "alice" "" [] none .default 0 with
    peer_map := {
      peers := (AList.insert "02carol" (live_peer "carol") ∅).insert "02bob" (live_peer "bob") }
    storage_offload := some {
      upload := fun _ => .error (.Http "down")
      download := fun _ => .error (.Http "down")
      threshold_bytes := 1024 } }

/-- The first subtask is followed by one poll, the others by none. -/
def poll_once (tasks : List Task) (i : Nat) : Waits :=
  { uuid := String.ofList (List.replicate (i + 1) 's')
    publish := fun _ _ => .ok ()
    polls := if i = 0 then [one_call tasks] else [] }

def broadcast (tasks : List Task) : DelegationCall := .broadcast request 0 (poll_once tasks)

def no_stamps (_ : Nat) : Stamp := { now_secs := 0, created_at_ms := 0, elapsed_ms := 0 }

theorem broadcast_fresh (tasks : List Task) : (broadcast tasks).Fresh := by
  intro i j h
  have hlen := congrArg (fun s => s.toList.length) h
  simpa [poll_once] using hlen

end Sample

end lmao.node
