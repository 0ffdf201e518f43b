-- What a delegator can rely on: who completed a delegation, and whether the
-- two messages of a delegation pass the payment gates of their readers.
import Lmao.Delegation
import Lmao.PaymentGate

namespace lmao.node

open sds LmaoNode

variable {L : Libs} {F : Type} [IdFilter F]

/-! ## Who completed a delegation -/

/-- The tasks that the polls return to a caller that looks at all of them, up to
the first poll that fails. -/
def received (B : Build) : LmaoNode L F → List PollCall → List Task
  | _, [] => []
  | node, call :: rest =>
    let r := call.poll_tasks B node
    match r.result with
    | .error _ => []
    | .ok tasks => tasks ++ received B r.after rest

/-- The loop ends with a task exactly when it is the first with the id. -/
theorem await_response_some_iff (B : Build) (subtask_id : String) (node : LmaoNode L F)
    (polls : List PollCall) (task : Task) :
    (await_response B subtask_id node polls).result = .ok (some task) ↔
      (received B node polls).find? (fun t => t.id == subtask_id) = some task := by
  induction polls generalizing node with
  | nil => simp [await_response, received]
  | cons call rest ih =>
    unfold await_response received
    rcases hr : (call.poll_tasks B node).result with stop | tasks
    · simp [hr]
    · rcases hfind : tasks.find? (fun t => t.id == subtask_id) with _ | t
      · simp only [hr, hfind, List.find?_append, Option.none_or]
        exact ih _
      · simp [hr, hfind, List.find?_append]

/-- The task that a loop ends with is one that its polls returned. -/
theorem await_response_polled {B : Build} {subtask_id : String} {node : LmaoNode L F}
    {polls : List PollCall} {task : Task}
    (h : (await_response B subtask_id node polls).result = .ok (some task)) :
    task ∈ (await_response B subtask_id node polls).polled B ∧ task.id = subtask_id := by
  induction polls generalizing node with
  | nil => simp [await_response] at h
  | cons call rest ih =>
    unfold await_response at h ⊢
    rcases hr : (call.poll_tasks B node).result with stop | tasks
    · simp [hr] at h
    · rcases hfind : tasks.find? (fun t => t.id == subtask_id) with _ | t
      · simp only [hr, hfind, Delegated.polled, List.flatMap_cons] at h ⊢
        obtain ⟨hmem, hid⟩ := ih h
        exact ⟨List.mem_append_right _ hmem, hid⟩
      · simp only [hr, hfind, Except.ok.injEq, Option.some.injEq] at h
        subst h
        refine ⟨?_, by simpa using List.find?_some hfind⟩
        simpa [Delegated.polled, returned, hr, hfind] using List.mem_of_find?_eq_some hfind

/-- The delegation to `peer_id` ends with `task`. -/
def Completes (B : Build) (node : LmaoNode L F) (request : DelegationRequest) (peer_id : String)
    (w : Waits) (task : Task) : Prop :=
  let id := (node.subtask request peer_id w.uuid).id
  w.publish (task_topic peer_id) (A2AEnvelope.Task (node.subtask request peer_id w.uuid)).to_vec =
      .ok () ∧
    (await_response B id node w.polls).result = .ok (some task)

/-- A delegation that succeeds in the name of `peer_id` got a response of that
peer, and nothing else completes it. -/
def Authentic (B : Build) (node : LmaoNode L F) (request : DelegationRequest) (peer_id : String)
    (w : Waits) : Prop :=
  let d := node.delegate_to_peer B request peer_id w
  (∀ result, d.result = .ok result → result.agent_id = peer_id → result.success = true →
    ∃ task ∈ d.polled B, task.id = (node.subtask request peer_id w.uuid).id ∧
      task.sender = peer_id ∧ task.result.isSome) ∧
  ∀ task, Completes B node request peer_id w task → task.sender = peer_id ∧ task.result.isSome

/-- Once the subtask is out, the first task with its id that the polls return is
a response of the peer. -/
def PeerAnswersFirst (B : Build) (node : LmaoNode L F) (request : DelegationRequest)
    (peer_id : String) (w : Waits) : Prop :=
  let subtask := node.subtask request peer_id w.uuid
  w.publish (task_topic peer_id) (A2AEnvelope.Task subtask).to_vec = .ok () →
    ∀ task, (received B node w.polls).find? (fun t => t.id == subtask.id) = some task →
      task.sender = peer_id ∧ task.result.isSome

/-- A success comes from a task that completes the delegation. -/
theorem delegate_to_peer_success {B : Build} {node : LmaoNode L F} {request : DelegationRequest}
    {peer_id : String} {w : Waits} {result : DelegationResult}
    (h : (node.delegate_to_peer B request peer_id w).result = .ok result)
    (hsuccess : result.success = true) :
    ∃ task ∈ (node.delegate_to_peer B request peer_id w).polled B,
      task.id = (node.subtask request peer_id w.uuid).id ∧
      Completes B node request peer_id w task := by
  unfold delegate_to_peer at h ⊢
  rcases hpub : w.publish (task_topic peer_id)
    (A2AEnvelope.Task (node.subtask request peer_id w.uuid)).to_vec with e | ⟨⟩
  · simp [hpub] at h
  · simp only [hpub] at h ⊢
    rcases hr : (await_response B (node.subtask request peer_id w.uuid).id node w.polls).result
      with stop | _ | task
    · simp [hr] at h
    · simp only [hr, Except.ok.injEq] at h
      subst h
      simp [result_of_timeout] at hsuccess
    · obtain ⟨hmem, hid⟩ := await_response_polled hr
      exact ⟨task, hmem, hid, hpub, hr⟩

/-- Delegations are authentic exactly when the peer is the first to answer. -/
theorem a_delegation_is_authentic_iff (B : Build) (node : LmaoNode L F)
    (request : DelegationRequest) (peer_id : String) (w : Waits) :
    Authentic B node request peer_id w ↔ PeerAnswersFirst B node request peer_id w := by
  have hfirst : PeerAnswersFirst B node request peer_id w ↔
      ∀ task, Completes B node request peer_id w task →
        task.sender = peer_id ∧ task.result.isSome := by
    unfold PeerAnswersFirst Completes
    simp only [await_response_some_iff]
    constructor
    · rintro h task ⟨hpub, htask⟩
      exact h hpub task htask
    · intro h hpub task htask
      exact h task ⟨hpub, htask⟩
  rw [hfirst]
  refine ⟨And.right, fun hall => ⟨?_, hall⟩⟩
  intro result hresult _ hsuccess
  obtain ⟨task, hmem, hid, hcompletes⟩ := delegate_to_peer_success hresult hsuccess
  exact ⟨task, hmem, hid, hall task hcompletes⟩

namespace Sample

/-- A request of somebody else, who took the id of the subtask from the topic
of the peer. -/
def intruder : Task := .new "sub-1" "02mallory" "02alice" "hi"

def intruder_libs : Libs :=
  .ofTables (.ofTable [((A2AEnvelope.Task intruder).to_vec, "01")] [])
    { public_key := fun _ => List.replicate 32 0
      diffie_hellman := fun _ _ => []
      aead_encrypt := fun _ _ plaintext => some plaintext
      aead_decrypt := fun _ _ ciphertext => some ciphertext }
    [.Task intruder] []

def delegator : LmaoNode intruder_libs (IdSet fun _ => []) :=
  .new "02alice" "alice" "" [] none .default 0

def request : DelegationRequest :=
  { parent_task_id := "task-1", subtask_text := "hi", strategy := .FirstAvailable
    session_id := none }

/-- The subtask goes out, and the first poll drains the given tasks. -/
def one_poll (tasks : List Task) : Waits :=
  { uuid := "sub-1", publish := fun _ _ => .ok (), polls := [one_call tasks] }

end Sample

theorem an_intruder_completes_a_delegation :
    (Sample.delegator.delegate_to_peer (exactBlooms fun _ => none) Sample.request "02bob"
      (Sample.one_poll [Sample.intruder])).result =
        .ok { parent_task_id := "task-1", subtask_id := "sub-1", agent_id := "02bob"
              result_text := none, success := true, error := none } ∧
    ¬ Authentic (exactBlooms fun _ => none) Sample.delegator Sample.request "02bob"
      (Sample.one_poll [Sample.intruder]) := by
  have hrun : (Sample.delegator.delegate_to_peer (exactBlooms fun _ => none) Sample.request
      "02bob" (Sample.one_poll [Sample.intruder])).result =
        .ok { parent_task_id := "task-1", subtask_id := "sub-1", agent_id := "02bob"
              result_text := none, success := true, error := none } ∧
      (Sample.delegator.delegate_to_peer (exactBlooms fun _ => none) Sample.request "02bob"
        (Sample.one_poll [Sample.intruder])).polled (exactBlooms fun _ => none) = [Sample.intruder]
        := by
    decide +kernel
  refine ⟨hrun.1, fun hauth => ?_⟩
  obtain ⟨task, hmem, -, hsender, -⟩ := hauth.1 _ hrun.1 rfl rfl
  rw [hrun.2, List.mem_singleton] at hmem
  subst hmem
  exact absurd hsender (by decide)

/-! ## Payments on the way -/

/-- The payment that a node asks for with a task, 0 if it asks for none. -/
def required (node : LmaoNode L F) : UInt64 :=
  match node.payment with
  | none => 0
  | some cfg => cfg.required_amount

omit [IdFilter F] in
/-- A task without a payment passes the gate exactly when it is free. -/
theorem verify_payment_unpaid (node : LmaoNode L F) (seen : Finset String) {task : Task}
    (h : task.payment_tx = none) :
    node.verify_payment seen task = (seen, decide (required node = 0)) := by
  unfold verify_payment required
  rcases node.payment with _ | cfg
  · simp
  · by_cases hreq : cfg.required_amount = 0
    · simp [hreq]
    · simp [hreq, h]

omit [IdFilter F] in
/-- The same in a batch of any other tasks. -/
theorem unpaid_mem_verify_payments (node : LmaoNode L F) {task : Task}
    (h : task.payment_tx = none) {batch : List Task} (hmem : task ∈ batch)
    (seen : Finset String) :
    task ∈ (node.verify_payments seen batch).2 ↔ required node = 0 := by
  constructor
  · intro hout
    by_contra hreq
    rcases hcfg : node.payment with _ | cfg
    · exact hreq (by simp [required, hcfg])
    · obtain ⟨tx, htx, -⟩ := (verify_payments_verified hcfg (by simpa [required, hcfg] using hreq)
        batch seen).paid task hout
      exact absurd htx (by simp [h])
  · intro hfree
    induction batch generalizing seen with
    | nil => simp at hmem
    | cons first rest ih =>
      unfold verify_payments
      rcases List.mem_cons.mp hmem with rfl | hmem
      · simp [verify_payment_unpaid node seen h, hfree]
      · have := ih hmem (node.verify_payment seen first).1
        by_cases hgood : (node.verify_payment seen first).2 = true
        · simp [hgood, this]
        · simp [hgood, this]

/-- Two batches pass the gates of their readers: one with a subtask of alice's
at bob, and one with bob's response to it at alice. -/
structure PassesBoth (alice bob : LmaoNode L F) (subtask response : Task)
    (at_bob at_alice : List Task) (seen_bob seen_alice : Finset String) : Prop where
  verified_by_bob : (bob.verify_payment seen_bob subtask).2 = true
  verified_by_alice : (alice.verify_payment seen_alice response).2 = true
  returned_to_bob : subtask ∈ (bob.verify_payments seen_bob at_bob).2
  returned_to_alice : response ∈ (alice.verify_payments seen_alice at_alice).2

/-- A delegation between two nodes gets past their payment gates exactly when
neither of them asks for a payment: what the sender would pay makes no
difference. -/
theorem a_delegation_passes_the_gates_iff (B : Build) (display : NodeError → String)
    (alice bob : LmaoNode L F) (call : DelegationCall) {topic : String} {subtask response : Task}
    (hsubtask : (topic, subtask) ∈ (call.run B display alice).published)
    (hresponse : ∃ body, response = subtask.respond body ∨ response = subtask.respond_failed body)
    {at_bob at_alice : List Task} (hbob : subtask ∈ at_bob) (halice : response ∈ at_alice)
    (seen_bob seen_alice : Finset String) :
    PassesBoth alice bob subtask response at_bob at_alice seen_bob seen_alice ↔
      required bob = 0 ∧ required alice = 0 := by
  have hunpaid : subtask.payment_tx = none := by
    obtain ⟨peer_id, uuid, -, -, rfl⟩ := published_picked hsubtask
    exact (subtask_fields alice call.request peer_id uuid).unpaid
  have hunpaid' : response.payment_tx = none := by
    obtain ⟨body, rfl | rfl⟩ := hresponse
    · rfl
    · rfl
  constructor
  · intro h
    exact ⟨(unpaid_mem_verify_payments bob hunpaid hbob seen_bob).mp h.returned_to_bob,
      (unpaid_mem_verify_payments alice hunpaid' halice seen_alice).mp h.returned_to_alice⟩
  · rintro ⟨hfree, hfree'⟩
    refine ⟨?_, ?_, ?_, ?_⟩
    · simp [verify_payment_unpaid bob seen_bob hunpaid, hfree]
    · simp [verify_payment_unpaid alice seen_alice hunpaid', hfree']
    · exact (unpaid_mem_verify_payments bob hunpaid hbob seen_bob).mpr hfree
    · exact (unpaid_mem_verify_payments alice hunpaid' halice seen_alice).mpr hfree'

namespace Sample

/-- Alice, with what she pays for an outgoing task and wants for an incoming
one. -/
def paying_node (required_amount : UInt64) : LmaoNode intruder_libs (IdSet fun _ => []) :=
  { delegator with
    payment := some { five_tokens with required_amount, auto_pay := true, auto_pay_amount := 7 } }

def hired_bob (payment : Option PaymentConfig) : LmaoNode intruder_libs (IdSet fun _ => []) :=
  { LmaoNode.new "02bob" "bob" "" [] none .default 0 with payment }

def bob_call : DelegationCall := .direct request "02bob" (one_poll [])

def sub_1 : Task := .new "sub-1" "02alice" "02bob" "hi"

end Sample

theorem a_free_delegation_passes :
    (task_topic "02bob", Sample.sub_1) ∈ (Sample.bob_call.run (exactBlooms fun _ => none)
      (fun _ => "") (Sample.paying_node 0)).published ∧
    PassesBoth (Sample.paying_node 0) (Sample.hired_bob none) Sample.sub_1
      (Sample.sub_1.respond "ok")
      [Sample.sub_1] [Sample.sub_1.respond "ok"] ∅ ∅ := by
  have hpub : (task_topic "02bob", Sample.sub_1) ∈ (Sample.bob_call.run (exactBlooms fun _ => none)
      (fun _ => "") (Sample.paying_node 0)).published := by
    decide +kernel
  exact ⟨hpub, (a_delegation_passes_the_gates_iff _ _ _ _ _ hpub ⟨"ok", .inl rfl⟩
    List.mem_cons_self List.mem_cons_self ∅ ∅).mpr ⟨rfl, rfl⟩⟩

/-- Alice pays seven tokens for each task that she sends and bob wants five. Her
subtask comes without the payment of a sent task and bob rejects it. As she
wants five herself, she rejects an answer too. -/
theorem a_delegation_is_not_paid_for :
    ((Sample.paying_node 5).maybe_auto_pay Sample.sub_1).map (fun paid =>
      (LmaoNode.verify_payment (Sample.hired_bob (some Sample.five_tokens)) ∅ paid).2) = .ok true ∧
    (task_topic "02bob", Sample.sub_1) ∈ (Sample.bob_call.run (exactBlooms fun _ => none)
      (fun _ => "") (Sample.paying_node 5)).published ∧
    (LmaoNode.verify_payment (Sample.hired_bob (some Sample.five_tokens)) ∅
      Sample.sub_1).2 = false ∧
    (LmaoNode.verify_payment (Sample.paying_node 5) ∅ (Sample.sub_1.respond "ok")).2 = false := by
  decide +kernel

end lmao.node
