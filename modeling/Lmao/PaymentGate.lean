-- The payment gate of a node (tasks/payment.rs): over any run of calls of
-- `poll_tasks`, one after another, a node that wants payment returns only tasks
-- that are paid, and each payment counts once.
import Mathlib.Data.Finset.Lattice.Lemmas
import Lmao.Machine
import Lmao.Poll

namespace lmao.node

open sds machine

variable {L : Libs} {F : Type} [IdFilter F]

/-! ## One task -/

/-- The payment of the task is enough, by the claim of the task itself or by
the chain. -/
def Covers (L : Libs) (cfg : PaymentConfig) (task : Task) (tx : String) : Prop :=
  if cfg.verify_on_chain then
    ∃ details, cfg.verify_transfer tx = .ok details ∧ cfg.required_amount ≤ details.amount ∧
      (cfg.receiving_account ≠ "" →
        L.to_lowercase details.recipient = L.to_lowercase cfg.receiving_account)
  else ∃ amount, task.payment_amount = some amount ∧ cfg.required_amount ≤ amount

/-- The node asks for no payment. -/
def Free (node : LmaoNode L F) : Prop := ∀ cfg, node.payment = some cfg → cfg.required_amount = 0

namespace LmaoNode

omit [IdFilter F] in
/-- The gate rejects and keeps what it has seen, or asks for nothing, or takes
a new hash that covers the task. -/
theorem verify_payment_cases (node : LmaoNode L F) (seen : Finset String) (task : Task) :
    node.verify_payment seen task = (seen, false) ∨
      (node.verify_payment seen task = (seen, true) ∧ Free node) ∨
      ∃ cfg tx, node.payment = some cfg ∧ cfg.required_amount ≠ 0 ∧ task.payment_tx = some tx ∧
        tx ≠ "" ∧ tx ∉ seen ∧ Covers L cfg task tx ∧
        node.verify_payment seen task = (insert tx seen, true) := by
  unfold verify_payment
  rcases hcfg : node.payment with _ | cfg
  · exact .inr (.inl ⟨rfl, by simp [Free, hcfg]⟩)
  by_cases hreq : cfg.required_amount = 0
  · exact .inr (.inl ⟨by simp [hreq], by simp [Free, hcfg, hreq]⟩)
  simp only [if_neg hreq]
  rcases htx : task.payment_tx with _ | tx
  · exact .inl rfl
  by_cases hempty : tx.isEmpty = true
  · exact .inl (by simp [hempty])
  have hne : tx ≠ "" := by
    rintro rfl
    exact hempty rfl
  by_cases hseen : tx ∈ seen
  · exact .inl (by simp [hempty, hseen])
  simp only [if_neg hempty, if_neg hseen]
  suffices hgate : ∀ r, (r = (seen, false) ∨ r = (insert tx seen, true) ∧ Covers L cfg task tx) →
      r = (seen, false) ∨ (r = (seen, true) ∧ Free node) ∨
        ∃ cfg' tx', some cfg = some cfg' ∧ cfg'.required_amount ≠ 0 ∧ some tx = some tx' ∧
          tx' ≠ "" ∧ tx' ∉ seen ∧ Covers L cfg' task tx' ∧ r = (insert tx' seen, true) by
    apply hgate
    unfold Covers
    by_cases hchain : cfg.verify_on_chain = true
    · simp only [hchain, Bool.not_true, Bool.false_eq_true, if_false, if_true]
      rcases hdetails : cfg.verify_transfer tx with e | details
      · exact .inl rfl
      by_cases hamount : details.amount < cfg.required_amount
      · exact .inl (by simp [hamount])
      by_cases haccount : (!cfg.receiving_account.isEmpty) = true ∧
          L.to_lowercase details.recipient ≠ L.to_lowercase cfg.receiving_account
      · exact .inl (by simp only [if_neg hamount, if_pos haccount])
      · refine .inr ⟨by simp only [if_neg hamount, if_neg haccount], details, rfl,
          UInt64.not_lt.mp hamount, fun hset => ?_⟩
        by_contra hother
        exact haccount ⟨by simpa [String.isEmpty_iff] using hset, hother⟩
    · simp only [Bool.not_eq_true] at hchain
      simp only [hchain, Bool.not_false, if_true, Bool.false_eq_true, if_false]
      rcases task.payment_amount with _ | amount
      · exact .inl rfl
      by_cases henough : amount ≥ cfg.required_amount
      · exact .inr ⟨by simp [henough], amount, rfl, henough⟩
      · exact .inl (by simp [henough])
  rintro r (hr | ⟨hr, hcovers⟩)
  · exact .inl hr
  · exact .inr (.inr ⟨cfg, tx, rfl, hreq, rfl, hne, hseen, hcovers, hr⟩)

/-! ## One batch -/

/-- The hashes that a list of tasks was paid with. -/
def paidWith (tasks : List Task) : List String := tasks.filterMap (·.payment_tx)

/-- What a batch leaves at a node that wants payment: each task that comes out
is covered, with a hash of its own that was not seen before, and these are the
hashes that are new. -/
structure Verified (L : Libs) (cfg : PaymentConfig) (seen seen' : Finset String)
    (out : List Task) : Prop where
  paid : ∀ task ∈ out, ∃ tx, task.payment_tx = some tx ∧ tx ≠ "" ∧ Covers L cfg task tx
  fresh : ∀ tx ∈ paidWith out, tx ∉ seen
  nodup : (paidWith out).Nodup
  seen_eq : seen' = seen ∪ (paidWith out).toFinset

omit [IdFilter F] in
theorem verify_payments_verified {node : LmaoNode L F} {cfg : PaymentConfig}
    (hcfg : node.payment = some cfg) (hreq : cfg.required_amount ≠ 0) (tasks : List Task)
    (seen : Finset String) :
    Verified L cfg seen (node.verify_payments seen tasks).1
      (node.verify_payments seen tasks).2 := by
  induction tasks generalizing seen with
  | nil => exact ⟨by simp [verify_payments], by simp [verify_payments, paidWith],
      by simp [verify_payments, paidWith], by simp [verify_payments, paidWith]⟩
  | cons task rest ih =>
    unfold verify_payments
    rcases node.verify_payment_cases seen task with hr | ⟨-, hfree⟩ |
      ⟨cfg', tx, hcfg', -, htx, hne, hnew, hcovers, hr⟩
    · simp only [hr]
      exact ih seen
    · exact absurd (hfree cfg hcfg) hreq
    · obtain rfl : cfg' = cfg := Option.some.inj (hcfg'.symm.trans hcfg)
      obtain ⟨hpaid, hfresh, hnodup, hseen⟩ := ih (insert tx seen)
      simp only [hr, if_true]
      have hcons : paidWith (task :: (node.verify_payments (insert tx seen) rest).2) =
          tx :: paidWith (node.verify_payments (insert tx seen) rest).2 := by
        simp [paidWith, htx]
      refine ⟨?_, ?_, ?_, ?_⟩
      · intro t ht
        rcases List.mem_cons.mp ht with rfl | ht
        · exact ⟨tx, htx, hne, hcovers⟩
        · exact hpaid t ht
      · rw [hcons]
        intro tx' htx'
        rcases List.mem_cons.mp htx' with rfl | htx'
        · exact hnew
        · exact fun hmem => hfresh tx' htx' (Finset.mem_insert_of_mem hmem)
      · rw [hcons, List.nodup_cons]
        exact ⟨fun hmem => hfresh tx hmem (Finset.mem_insert_self tx seen), hnodup⟩
      · rw [hseen, hcons]
        ext tx'
        simp only [Finset.mem_union, Finset.mem_insert, List.toFinset_cons]
        rw [or_assoc, or_left_comm]

omit [IdFilter F] in
/-- A task that the gate rejects leaves the batch as if it had not come. -/
theorem verify_payments_skip {node : LmaoNode L F} {before rest : List Task} {task : Task}
    {seen : Finset String}
    (h : (node.verify_payment (node.verify_payments seen before).1 task).2 = false) :
    node.verify_payments seen (before ++ task :: rest) =
      node.verify_payments seen (before ++ rest) := by
  induction before generalizing seen with
  | nil =>
    rcases node.verify_payment_cases seen task with hr | ⟨hr, -⟩ | ⟨_, _, -, -, -, -, -, -, hr⟩
    · simp only [List.nil_append, verify_payments, hr]
      simp
    · simp [verify_payments, hr] at h
    · simp [verify_payments, hr] at h
  | cons t before ih =>
    simp only [verify_payments] at h
    simp only [List.cons_append, verify_payments]
    rw [ih h]

/-- What the end of a call makes of the tasks that its loop collected: the
hashes, the sessions, and the tasks that are returned. -/
def paymentStage (node : LmaoNode L F) (now : UInt64) (uuid : Nat → String) (tasks : List Task) :
    Finset String × (AList fun _ : String => ChatSession) × List Task :=
  let r := node.verify_payments node.seen_tx_hashes tasks
  (r.1, track_sessions now uuid 0 node.sessions r.2, r.2)

theorem poll_tasks_stage (B : Build) (node : LmaoNode L F) {msgs : List Bytes} (now : UInt64)
    (uuid : Nat → String) {tasks : List Task}
    (h : (node.turns B node.channel msgs).result = .ok tasks) :
    ((node.poll_tasks B (.ok msgs) now uuid).after.seen_tx_hashes,
      (node.poll_tasks B (.ok msgs) now uuid).after.sessions,
      (node.poll_tasks B (.ok msgs) now uuid).result) =
    ((node.paymentStage now uuid tasks).1, (node.paymentStage now uuid tasks).2.1,
      .ok (node.paymentStage now uuid tasks).2.2) := by
  simp [poll_tasks, h, paymentStage]

end LmaoNode

/-! ## Runs -/

/-- A returned task, and what the chain answered when it was verified. -/
structure Returned where
  task : Task
  verify_transfer : String → Except ExecutionError TransferDetails

/-- One call. An error and a panic end it before the payments are looked at,
and the node goes on. -/
def PollCall.step (B : Build) (node : LmaoNode L F) (call : PollCall) :
    Except Empty (LmaoNode L F × List Returned) :=
  let r := (call.at node).poll_tasks B call.rx call.now call.uuid
  match r.result with
  | .ok tasks => .ok (r.after, tasks.map (⟨·, call.verify_transfer⟩))
  | .error _ => .ok (r.after, [])

/-- The hashes of the tasks that were returned. -/
def txOf (log : List Returned) : List String := LmaoNode.paidWith (log.map Returned.task)

/-- The invariant of a run, from a node that has seen no hash. -/
structure Gate (L : Libs) (cfg : PaymentConfig) (log : List Returned) (node : LmaoNode L F) :
    Prop where
  config : ∃ chain, node.payment = some { cfg with verify_transfer := chain }
  paid : ∀ r ∈ log, ∃ tx, r.task.payment_tx = some tx ∧ tx ≠ "" ∧
    Covers L { cfg with verify_transfer := r.verify_transfer } r.task tx
  nodup : (txOf log).Nodup
  seen : node.seen_tx_hashes = (txOf log).toFinset

theorem txOf_append (log log' : List Returned) : txOf (log ++ log') = txOf log ++ txOf log' := by
  simp [txOf, LmaoNode.paidWith]

omit [IdFilter F] in
theorem Gate.distinct {cfg : PaymentConfig} {log : List Returned} {node : LmaoNode L F}
    (h : Gate L cfg log node) : log.Pairwise fun a b => a.task.payment_tx ≠ b.task.payment_tx := by
  have hnodup := h.nodup
  unfold txOf LmaoNode.paidWith at hnodup
  rw [List.Nodup, List.pairwise_filterMap, List.pairwise_map] at hnodup
  apply hnodup.imp_of_mem
  intro a b ha _ hab heq
  obtain ⟨tx, htx, -⟩ := h.paid a ha
  exact hab tx htx tx (heq ▸ htx) rfl

theorem Gate.step {B : Build} {cfg : PaymentConfig} (hreq : cfg.required_amount ≠ 0)
    {log : List Returned} {node node' : LmaoNode L F} {call : PollCall} {out : List Returned}
    (h : Gate L cfg log node) (hs : call.step B node = .ok (node', out)) :
    Gate L cfg (log ++ out) node' := by
  obtain ⟨chain, hconfig⟩ := h.config
  have hcfg : (call.at node).payment =
      some { cfg with verify_transfer := call.verify_transfer } := by
    simp [PollCall.at, hconfig]
  have hquiet : ∀ ch : MessageChannel F, Gate L cfg log { call.at node with channel := ch } :=
    fun _ => ⟨⟨_, hcfg⟩, h.paid, h.nodup, h.seen⟩
  unfold PollCall.step LmaoNode.poll_tasks at hs
  rcases hrx : call.rx with e | msgs
  · simp only [hrx] at hs
    cases hs
    rw [List.append_nil]
    exact hquiet _
  · simp only [hrx] at hs
    rcases hturns : ((call.at node).turns B (call.at node).channel msgs).result with stop | tasks
    · simp only [hturns] at hs
      cases hs
      rw [List.append_nil]
      exact hquiet _
    · simp only [hturns] at hs
      cases hs
      have hv := LmaoNode.verify_payments_verified hcfg hreq tasks (call.at node).seen_tx_hashes
      have hout : txOf (((call.at node).verify_payments (call.at node).seen_tx_hashes tasks).2.map
          (Returned.mk · call.verify_transfer)) =
          LmaoNode.paidWith
            ((call.at node).verify_payments (call.at node).seen_tx_hashes tasks).2 := by
        simp [txOf, Function.comp_def]
      refine ⟨⟨_, hcfg⟩, ?_, ?_, ?_⟩
      · intro r hr
        rcases List.mem_append.mp hr with hr | hr
        · exact h.paid r hr
        · obtain ⟨task, htask, rfl⟩ := List.mem_map.mp hr
          exact hv.paid task htask
      · rw [txOf_append, hout, List.nodup_append]
        refine ⟨h.nodup, hv.nodup, ?_⟩
        rintro tx htx _ htx' rfl
        apply hv.fresh tx htx'
        change tx ∈ node.seen_tx_hashes
        rw [h.seen]
        exact List.mem_toFinset.mpr htx
      · rw [txOf_append, hout, List.toFinset_append, ← h.seen]
        exact hv.seen_eq

/-- What a rejected task does: nothing. The gate keeps its hashes, and the call
leaves the hashes and the sessions, and gives the answer, of a call that never
saw the task. A call that ends early leaves the hashes and the sessions as they
were. -/
structure RejectsQuietly (B : Build) (node : LmaoNode L F) (call : PollCall) : Prop where
  rejected : ∀ msgs before task after, call.rx = .ok msgs →
    ((call.at node).turns B node.channel msgs).result = .ok (before ++ task :: after) →
    ∀ seen, ((call.at node).verify_payments node.seen_tx_hashes before).1 = seen →
    ((call.at node).verify_payment seen task).2 = false →
      ((call.at node).verify_payment seen task).1 = seen ∧
      let r := (call.at node).poll_tasks B call.rx call.now call.uuid
      (r.after.seen_tx_hashes, r.after.sessions, r.result) =
        (((call.at node).paymentStage call.now call.uuid (before ++ after)).1,
          ((call.at node).paymentStage call.now call.uuid (before ++ after)).2.1,
          .ok ((call.at node).paymentStage call.now call.uuid (before ++ after)).2.2)
  stopped : ∀ stop,
    ((call.at node).poll_tasks B call.rx call.now call.uuid).result = .error stop →
      let r := (call.at node).poll_tasks B call.rx call.now call.uuid
      r.after.seen_tx_hashes = node.seen_tx_hashes ∧ r.after.sessions = node.sessions

theorem rejectsQuietly (B : Build) (node : LmaoNode L F) (call : PollCall) :
    RejectsQuietly B node call where
  rejected := by
    rintro msgs before task after hrx hturns seen rfl hbad
    constructor
    · rcases (call.at node).verify_payment_cases
        ((call.at node).verify_payments node.seen_tx_hashes before).1 task with
        hr | ⟨hr, -⟩ | ⟨_, _, -, -, -, -, -, -, hr⟩
      · rw [hr]
      · simp [hr] at hbad
      · simp [hr] at hbad
    · have hstage := LmaoNode.poll_tasks_stage B (call.at node) call.now call.uuid hturns
      have hskip : (call.at node).paymentStage call.now call.uuid (before ++ task :: after) =
          (call.at node).paymentStage call.now call.uuid (before ++ after) := by
        have hsame : (call.at node).seen_tx_hashes = node.seen_tx_hashes := rfl
        unfold LmaoNode.paymentStage
        rw [hsame, LmaoNode.verify_payments_skip hbad]
      rw [hskip] at hstage
      rw [hrx]
      exact hstage
  stopped := by
    intro stop h
    unfold LmaoNode.poll_tasks at h ⊢
    rcases hrx : call.rx with e | msgs
    · exact ⟨rfl, rfl⟩
    · simp only [hrx] at h ⊢
      rcases hturns : ((call.at node).turns B (call.at node).channel msgs).result with stop' | tasks
      · exact ⟨rfl, rfl⟩
      · simp [hturns] at h

/-- A node that asks for payment, from the start and through any calls: each
task that it returned is covered by a hash of its own, it has seen these hashes
and no other, and the next call does nothing for a task that it rejects. -/
theorem only_paid_tasks_are_returned (B : Build) {cfg : PaymentConfig}
    (hreq : 0 < cfg.required_amount) (node : LmaoNode L F) (hcfg : node.payment = some cfg)
    (hseen : node.seen_tx_hashes = ∅) (calls : List PollCall) :
    Returns (run (PollCall.step B) node calls) fun r =>
      (∀ out ∈ r.2, ∃ tx, out.task.payment_tx = some tx ∧ tx ≠ "" ∧
        Covers L { cfg with verify_transfer := out.verify_transfer } out.task tx) ∧
      r.2.Pairwise (fun a b => a.task.payment_tx ≠ b.task.payment_tx) ∧
      (∀ tx, tx ∈ r.1.seen_tx_hashes ↔ ∃ out ∈ r.2, out.task.payment_tx = some tx) ∧
      ∀ call, RejectsQuietly B r.1 call := by
  have hreq' : cfg.required_amount ≠ 0 := by
    rintro h0
    rw [h0] at hreq
    exact absurd hreq (by decide)
  have hstart : Gate L cfg [] node :=
    ⟨⟨_, hcfg⟩, by simp, by simp [txOf, LmaoNode.paidWith], by simpa [txOf, LmaoNode.paidWith]⟩
  obtain ⟨⟨node', log⟩, hr⟩ := ends_ok (run (PollCall.step B) node calls)
  have hgate : Gate L cfg log node' :=
    run_invariant hstart (fun _ _ _ _ _ h hs => h.step hreq' hs) hr
  refine ⟨_, hr, hgate.paid, ?_, ?_, fun call => rejectsQuietly B node' call⟩
  · exact hgate.distinct
  · intro tx
    rw [hgate.seen]
    simp [txOf, LmaoNode.paidWith]

/-! ## A run -/

namespace Sample

def paid : Task :=
  { Task.new "task-1" "02alice" "02bob" "hi" with
    payment_tx := some "0x01", payment_amount := some 7 }

/-- Another task with the same payment. -/
def replayed : Task := { paid with id := "task-2" }

def gate_libs : Libs :=
  .ofTables
    (.ofTable [((A2AEnvelope.Task paid).to_vec, "01"), ((A2AEnvelope.Task replayed).to_vec, "02")]
      [])
    { public_key := fun _ => List.replicate 32 0
      diffie_hellman := fun _ _ => []
      aead_encrypt := fun _ _ plaintext => some plaintext
      aead_decrypt := fun _ _ ciphertext => some ciphertext }
    [.Task paid, .Task replayed] []

/-- Five tokens for a task, by the word of the sender. -/
def five_tokens : PaymentConfig :=
  { pay := fun _ _ => .ok "0x02"
    verify_transfer := fun _ => .error (.Other "offline")
    required_amount := 5, auto_pay := false, auto_pay_amount := 0, verify_on_chain := false
    receiving_account := "" }

def selling_node : LmaoNode gate_libs (IdSet fun _ => []) :=
  { LmaoNode.new "02bob" "bob" "" [] none .default 0 with payment := some five_tokens }

def one_call (tasks : List Task) : PollCall :=
  { rx := .ok (tasks.map fun t => (A2AEnvelope.Task t).to_vec)
    now := 0
    uuid := fun _ => ""
    download := fun cid => .error (.Http cid)
    verify_transfer := fun _ => .error (.Other "offline") }

end Sample

theorem a_payment_counts_once :
    0 < Sample.five_tokens.required_amount ∧
    (Returns (run (PollCall.step (exactBlooms fun _ => none)) Sample.selling_node
      [Sample.one_call [Sample.paid, Sample.replayed], Sample.one_call [Sample.replayed]])
      fun r => (∀ tx, tx ∈ r.1.seen_tx_hashes ↔ ∃ out ∈ r.2, out.task.payment_tx = some tx)) ∧
    Returns (run (PollCall.step (exactBlooms fun _ => none)) Sample.selling_node
      [Sample.one_call [Sample.paid, Sample.replayed], Sample.one_call [Sample.replayed]])
      fun r => r.2.map Returned.task = [Sample.paid] := by
  obtain ⟨r, hr, -, -, hseen, -⟩ := only_paid_tasks_are_returned (exactBlooms fun _ => none)
    (show 0 < Sample.five_tokens.required_amount by decide) Sample.selling_node rfl rfl
    [Sample.one_call [Sample.paid, Sample.replayed], Sample.one_call [Sample.replayed]]
  exact ⟨by decide, ⟨r, hr, hseen⟩, by decide +kernel⟩

end lmao.node
