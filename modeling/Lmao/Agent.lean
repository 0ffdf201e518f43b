-- The inbox loop of `lmao agent run` (cli crate, agent.rs): each task of a
-- batch is refused, skipped, or run through the executor and answered. At the
-- end, what the answer tells the node that delegated the task.
import Lmao.DelegationLaws

namespace lmao.cli

open sds node

/-! ## The executor -/

structure ExecOutput where
  response : String
  log : String
deriving DecidableEq, Repr

/-- What the agent runs in. The answers of the shell command, of the storage and
of the transport are given for the `n`-th task of a batch, and so are the nonces
of its response. -/
structure Surroundings where
  json : Bool
  run_exec : Nat → String → Option String → String → Except String ExecOutput
  storage : Option (Nat → Bytes → Except StorageError String)
  nonces : Nat → Bytes × Bytes
  publish : Nat → String → Bytes → Except TransportError Unit

/-- An upload that fails is as good as none. -/
def upload_log (storage : Option (Bytes → Except StorageError String)) (log : String) :
    Option String :=
  match storage with
  | none => none
  | some upload => if log.isEmpty then none else (upload (utf8 log)).toOption

def format_response (answer : String) (log_cid : Option String) : String :=
  match log_cid with
  | some cid => answer ++ "\n\n---\nexecution log: codex://" ++ cid
  | none => answer

def reject_payload : String := "[rejected: at capacity, retry later]"

/-- The preview of 200 bytes would end inside of a character. -/
def preview_splits (response : String) : Bool :=
  match (utf8 response)[200]? with
  | none => false
  | some b => b.toNat / 64 == 2

/-! ## One batch -/

/-- What became of a task: what the executor gave, if it ran, the response, if
there is one, and what came of publishing it. -/
structure Handled where
  task : Task
  exec : Option (Except String ExecOutput)
  answer : Option (Task × Except NodeError (String × Bytes))

variable {L : Libs} {F : Type}

/-- The text of the response and whether it is a failure. -/
def response_of (upload : Option (Bytes → Except StorageError String)) :
    Except String ExecOutput → String × Bool
  | .ok out => (format_response out.response (upload_log upload out.log), false)
  | .error e => ("[error] " ++ e, true)

/-- `respond` or `respond_failed`, with the response itself. -/
def answer (node : LmaoNode L F) (env : Surroundings) (n : Nat) (task : Task) (text : String)
    (failed : Bool) : Task × Except NodeError (String × Bytes) :=
  (if failed then task.respond_failed text else task.respond text,
    if failed then node.respond_failed task text (env.nonces n) (env.publish n)
    else node.respond task text (env.nonces n) (env.publish n))

/-- The `n`-th task of a batch, with the number of tasks accepted before it. A
panic ends the loop, after the task has been answered. -/
def handle_task (node : LmaoNode L F) (env : Surroundings) (n : Nat)
    (accepted_this_batch : UInt32) (task : Task) : Handled × UInt32 × Option Panic :=
  if accepted_this_batch ≥ node.max_concurrent then
    ({ task, exec := none, answer := some (answer node env n task reject_payload false) },
      accepted_this_batch, none)
  else
    match task.text with
    | none => ({ task, exec := none, answer := none }, accepted_this_batch, none)
    | some text =>
      let exec := env.run_exec n text task.session_id task.sender
      let (response, failed) := response_of (env.storage.map (· n)) exec
      let sent := answer node env n task response failed
      ({ task, exec := some exec, answer := some sent }, accepted_this_batch + 1,
        match sent.2 with
        | .ok _ => if !env.json ∧ preview_splits response then some .char_boundary else none
        | .error _ => none)

/-- The tasks of a batch from the `n`-th on. -/
def handle_tasks (node : LmaoNode L F) (env : Surroundings) :
    Nat → UInt32 → List Task → List Handled × Option Panic
  | _, _, [] => ([], none)
  | n, accepted, task :: rest =>
    match handle_task node env n accepted task with
    | (h, _, some p) => ([h], some p)
    | (h, accepted, none) =>
      let r := handle_tasks node env (n + 1) accepted rest
      (h :: r.1, r.2)

def handle_batch (node : LmaoNode L F) (env : Surroundings) (tasks : List Task) :
    List Handled × Option Panic :=
  handle_tasks node env 0 0 tasks

/-! ## What becomes of a task -/

/-- As many tasks with a text came before as the agent runs in a batch. -/
def Refused (node : LmaoNode L F) (before : List Task) : Prop :=
  node.max_concurrent.toNat ≤ before.countP fun task => task.text.isSome

/-- How the loop treats a task. -/
inductive Treated (refused : Prop) (task : Task) : Handled → Prop
  | refused (h : refused) (sent : Except NodeError (String × Bytes)) :
    Treated refused task ⟨task, none, some (task.respond reject_payload, sent)⟩
  | skipped (h : ¬ refused) (htext : task.text = none) : Treated refused task ⟨task, none, none⟩
  | succeeded (h : ¬ refused) (out : ExecOutput) (text : String)
      (sent : Except NodeError (String × Bytes)) :
    Treated refused task ⟨task, some (.ok out), some (task.respond text, sent)⟩
  | failed (h : ¬ refused) (e : String) (sent : Except NodeError (String × Bytes)) :
    Treated refused task ⟨task, some (.error e), some (task.respond_failed ("[error] " ++ e), sent)⟩

theorem handle_task_treated (node : LmaoNode L F) (env : Surroundings) (n : Nat)
    (accepted : UInt32) (task : Task) :
    Treated (accepted ≥ node.max_concurrent) task (handle_task node env n accepted task).1 := by
  unfold handle_task
  by_cases hfull : accepted ≥ node.max_concurrent
  · rw [if_pos hfull]
    exact .refused hfull _
  · rw [if_neg hfull]
    rcases htext : task.text with _ | text
    · exact .skipped hfull htext
    · rcases hexec : env.run_exec n text task.session_id task.sender with e | out
      · simp only [hexec, response_of]
        exact .failed hfull e _
      · simp only [hexec, response_of]
        exact .succeeded hfull out _ _

/-- The number of accepted tasks, which stops at the maximum. -/
theorem handle_task_accepted (node : LmaoNode L F) (env : Surroundings) (n : Nat)
    {accepted : UInt32} (task : Task) (h : accepted.toNat ≤ node.max_concurrent.toNat) :
    (handle_task node env n accepted task).2.1.toNat =
      min (accepted.toNat + [task].countP fun t => t.text.isSome) node.max_concurrent.toNat := by
  unfold handle_task
  by_cases hfull : accepted ≥ node.max_concurrent
  · have hnat := UInt32.le_iff_toNat_le.mp hfull
    rw [if_pos hfull]
    dsimp only
    omega
  · have hnat : accepted.toNat < node.max_concurrent.toNat := by
      rw [ge_iff_le, UInt32.le_iff_toNat_le] at hfull
      omega
    rw [if_neg hfull]
    rcases htext : task.text with _ | text
    · simp [htext]
      omega
    · have hmax := node.max_concurrent.toNat_lt
      simp only [List.countP_singleton, htext, Option.isSome_some, if_true, UInt32.toNat_add,
        UInt32.toNat_one]
      omega

theorem handle_tasks_treated {node : LmaoNode L F} {env : Surroundings} {n : Nat}
    {accepted : UInt32} {tasks : List Task} {i : Nat} {h : Handled}
    (hle : accepted.toNat ≤ node.max_concurrent.toNat)
    (hi : (handle_tasks node env n accepted tasks).1[i]? = some h) :
    ∃ task, tasks[i]? = some task ∧
      Treated (node.max_concurrent.toNat ≤
        accepted.toNat + (tasks.take i).countP fun t => t.text.isSome) task h := by
  induction tasks generalizing n accepted i with
  | nil => simp [handle_tasks] at hi
  | cons task rest ih =>
    have hfirst := handle_task_treated node env n accepted task
    have hcount := handle_task_accepted node env n task hle
    unfold handle_tasks at hi
    rcases hr : handle_task node env n accepted task with ⟨h₀, accepted', panic⟩
    simp only [hr] at hi hfirst hcount
    cases i with
    | zero =>
      have hh : h = h₀ := by
        rcases panic with _ | p
        · simpa using hi.symm
        · simpa using hi.symm
      subst hh
      refine ⟨task, rfl, ?_⟩
      rw [ge_iff_le, UInt32.le_iff_toNat_le] at hfirst
      simpa using hfirst
    | succ i =>
      rcases panic with _ | p
      · simp only [List.getElem?_cons_succ] at hi
        obtain ⟨task', htask', htreated⟩ := ih (by omega) hi
        refine ⟨task', by simpa using htask', ?_⟩
        rw [List.take_succ_cons, ← List.singleton_append, List.countP_append]
        convert htreated using 1
        rw [hcount]
        omega
      · simp at hi

/-- The `i`-th task of a batch, in the agent's own terms. -/
theorem handle_batch_treated {node : LmaoNode L F} {env : Surroundings} {tasks : List Task}
    {i : Nat} {h : Handled} (hi : (handle_batch node env tasks).1[i]? = some h) :
    ∃ task, tasks[i]? = some task ∧ Treated (Refused node (tasks.take i)) task h := by
  have := handle_tasks_treated (Nat.zero_le _) hi
  simpa [Refused] using this

/-! ## What the delegator reports -/

/-- Success means that the executor ran and succeeded, and a refused task is a
failure without a result. -/
structure ReportsRightly (refused : Prop) (h : Handled) (r : DelegationResult) : Prop where
  success_iff : r.success = true ↔ ∃ out, h.exec = some (.ok out)
  refused_fails : refused → r.success = false ∧ r.result_text = none

/-- What the delegator makes of an answer, which may have lost its text to the
storage. -/
theorem reports_rightly_iff {refused : Prop} {task response received : Task} {h : Handled}
    {sent : Except NodeError (String × Bytes)} (htreated : Treated refused task h)
    (hanswer : h.answer = some (response, sent))
    (hreceived : received = response ∨ ∃ cid, received = LmaoNode.slim_task response cid)
    (request : DelegationRequest) (subtask_id peer_id : String) :
    ReportsRightly refused h
      (LmaoNode.result_of_response request subtask_id peer_id received) ↔ ¬ refused := by
  have hstate : received.state = response.state := by
    rcases hreceived with rfl | ⟨cid, rfl⟩
    · rfl
    · rfl
  have hsuccess : (LmaoNode.result_of_response request subtask_id peer_id received).success =
      (response.state != .Failed) := by
    unfold LmaoNode.result_of_response
    rw [hstate]
  cases htreated with
  | refused hrefused sent' =>
    cases hanswer
    refine iff_of_false (fun hright => ?_) (fun hno => hno hrefused)
    have hfalse := (hright.refused_fails hrefused).1
    rw [hsuccess] at hfalse
    exact absurd hfalse (by simp [Task.respond, Task.respond_with_state])
  | skipped hno htext => cases hanswer
  | succeeded hno out text sent' =>
    cases hanswer
    refine iff_of_true ⟨?_, fun hrefused => absurd hrefused hno⟩ hno
    rw [hsuccess]
    simp [Task.respond, Task.respond_with_state]
  | failed hno e sent' =>
    cases hanswer
    refine iff_of_true ⟨?_, fun hrefused => absurd hrefused hno⟩ hno
    rw [hsuccess]
    simp [Task.respond_failed, Task.respond_with_state]

/-- An answer that completes the delegation is reported rightly exactly when the
agent did not refuse the task. -/
theorem an_answer_is_reported_rightly_iff {L' : Libs} {F' : Type} [IdFilter F'] (B : Build)
    (agent : LmaoNode L F) (env : Surroundings) (tasks : List Task) {i : Nat} {h : Handled}
    (hi : (handle_batch agent env tasks).1[i]? = some h) {response received : Task}
    {sent : Except NodeError (String × Bytes)} (hanswer : h.answer = some (response, sent))
    (hreceived : received = response ∨ ∃ cid, received = LmaoNode.slim_task response cid)
    (delegator : LmaoNode L' F') (request : DelegationRequest) (peer_id : String)
    (w : LmaoNode.Waits) (hcompletes : Completes B delegator request peer_id w received) :
    machine.Returns (delegator.delegate_to_peer B request peer_id w).result fun r =>
      (ReportsRightly (Refused agent (tasks.take i)) h r ↔ ¬ Refused agent (tasks.take i)) := by
  obtain ⟨task, -, htreated⟩ := handle_batch_treated hi
  obtain ⟨hpublish, hawait⟩ := hcompletes
  refine ⟨LmaoNode.result_of_response request (delegator.subtask request peer_id w.uuid).id peer_id
    received, ?_, reports_rightly_iff htreated hanswer hreceived request _ peer_id⟩
  unfold LmaoNode.delegate_to_peer
  simp only [hpublish, hawait]

/-! ## Two answers -/

namespace Sample

def sub (id : String) : Task := .new id "02alice" "02bob" "hi"

/-- The executor greets everyone. -/
def greeter : Surroundings :=
  { json := true
    run_exec := fun _ _ _ _ => .ok { response := "hello", log := "" }
    storage := none
    nonces := fun _ => ([], [])
    publish := fun _ _ _ => .ok () }

def greeted : Task := (sub "sub-1").respond "hello"

def refused : Task := (sub "sub-2").respond reject_payload

def answer_libs : Libs :=
  .ofTables
    (.ofTable [((A2AEnvelope.Task greeted).to_vec, "01"), ((A2AEnvelope.Task refused).to_vec, "02")]
      [])
    { public_key := fun _ => List.replicate 32 0
      diffie_hellman := fun _ _ => []
      aead_encrypt := fun _ _ plaintext => some plaintext
      aead_decrypt := fun _ _ ciphertext => some ciphertext }
    [.Task greeted, .Task refused] []

def waiting_alice : LmaoNode answer_libs (IdSet fun _ => []) :=
  .new "02alice" "alice" "" [] none .default 0

/-- Bob runs one task of a batch. -/
def busy_bob : LmaoNode answer_libs (IdSet fun _ => []) := .new "02bob" "bob" "" [] none .default 0

def waits_for (id : String) (answer : Task) : LmaoNode.Waits :=
  { uuid := id, publish := fun _ _ => .ok (), polls := [node.Sample.one_call [answer]] }

end Sample

theorem a_greeting_is_reported_rightly :
    Completes (exactBlooms fun _ => none) Sample.waiting_alice node.Sample.request "02bob"
      (Sample.waits_for "sub-1" Sample.greeted) Sample.greeted ∧
    ¬ Refused Sample.busy_bob [] ∧
    machine.Returns (Sample.waiting_alice.delegate_to_peer (exactBlooms fun _ => none)
      node.Sample.request "02bob" (Sample.waits_for "sub-1" Sample.greeted)).result fun r =>
      ReportsRightly (Refused Sample.busy_bob []) ⟨Sample.sub "sub-1", some (.ok ⟨"hello", ""⟩),
        (handle_task Sample.busy_bob Sample.greeter 0 0 (Sample.sub "sub-1")).1.answer⟩ r := by
  have hcompletes : Completes (exactBlooms fun _ => none) Sample.waiting_alice
      node.Sample.request "02bob" (Sample.waits_for "sub-1" Sample.greeted) Sample.greeted := by
    refine ⟨rfl, ?_⟩
    decide +kernel
  have hfree : ¬ Refused Sample.busy_bob [] := by
    unfold Refused
    decide
  obtain ⟨r, hr, hiff⟩ := an_answer_is_reported_rightly_iff (exactBlooms fun _ => none)
    Sample.busy_bob Sample.greeter [Sample.sub "sub-1", Sample.sub "sub-2"] (i := 0) rfl rfl
    (.inl rfl) Sample.waiting_alice node.Sample.request "02bob"
    (Sample.waits_for "sub-1" Sample.greeted)
    hcompletes
  exact ⟨hcompletes, hfree, r, hr, hiff.mpr hfree⟩

/-- The second task of the batch never ran, and alice takes the refusal for its
result. -/
theorem a_refusal_is_reported_as_a_success :
    (handle_batch Sample.busy_bob Sample.greeter [Sample.sub "sub-1", Sample.sub "sub-2"]).1.map
      (fun h => (h.exec.isSome, h.answer.map Prod.fst)) =
        [(true, some Sample.greeted), (false, some Sample.refused)] ∧
    (Sample.waiting_alice.delegate_to_peer (exactBlooms fun _ => none) node.Sample.request "02bob"
      (Sample.waits_for "sub-2" Sample.refused)).result =
        .ok { parent_task_id := "task-1", subtask_id := "sub-2", agent_id := "02bob"
              result_text := some "[rejected: at capacity, retry later]", success := true
              error := none } := by
  decide +kernel

end lmao.cli
