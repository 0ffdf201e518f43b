-- Calls of `verify_payment` that overlap (tasks/payment.rs). A call looks its
-- hash up among the stored ones, waits for the chain and stores the hash, and
-- other calls run while it waits. The chain knows a transaction by more than
-- one spelling of its hash (execution crate, status_network.rs).
import Lmao.PaymentGate

namespace lmao.node

open sds machine

variable {L : Libs} {F : Type}

/-! ## The chain -/

namespace StatusNetworkBackend

/-- The hash with the prefix that the RPC node wants. -/
def normalise (tx_hash : String) : String :=
  if ['0', 'x'].isPrefixOf tx_hash.toList then tx_hash else "0x" ++ tx_hash

/-- `receipt` is the transfer that the RPC node reports for a hash, or why
there is none. -/
def verify_transfer (receipt : String → Except ExecutionError TransferDetails)
    (tx_hash : String) : Except ExecutionError TransferDetails :=
  receipt (normalise tx_hash)

end StatusNetworkBackend

/-- The transaction that a hash stands for, in either case of its digits. -/
def transaction (tx_hash : String) : String :=
  (StatusNetworkBackend.normalise tx_hash).map Char.toLower

/-! ## A call, cut where it waits -/

instance (cfg : PaymentConfig) (task : Task) (tx : String) : Decidable (Covers L cfg task tx) := by
  unfold Covers
  exact
    if h : cfg.verify_on_chain then
      match hd : cfg.verify_transfer tx with
      | .error _ => isFalse (by simp [h])
      | .ok details =>
        decidable_of_iff (cfg.required_amount ≤ details.amount ∧
          (cfg.receiving_account ≠ "" →
            L.to_lowercase details.recipient = L.to_lowercase cfg.receiving_account))
          (by simp [h])
    else
      match ha : task.payment_amount with
      | none => isFalse (by simp [h])
      | some amount => decidable_of_iff (cfg.required_amount ≤ amount) (by simp [h])

/-- A call of `verify_payment` that waits for the chain. -/
structure Waiting where
  task : Task
  pay_cfg : PaymentConfig
  tx_hash : String

namespace LmaoNode

/-- The call up to where it waits: it has its answer by then, or it waits. -/
def begin_verify (node : LmaoNode L F) (seen : Finset String) (task : Task) :
    (Finset String × Bool) ⊕ Waiting :=
  match node.payment with
  | none => .inl (seen, true)
  | some pay_cfg =>
    if pay_cfg.required_amount = 0 then .inl (seen, true)
    else
      match task.payment_tx with
      | none => .inl (seen, false)
      | some tx_hash =>
        if tx_hash.isEmpty then .inl (seen, false)
        else if tx_hash ∈ seen then .inl (seen, false)
        else if !pay_cfg.verify_on_chain then
          match task.payment_amount with
          | some amount =>
            .inl (if amount ≥ pay_cfg.required_amount then (insert tx_hash seen, true)
              else (seen, false))
          | none => .inl (seen, false)
        else .inr { task, pay_cfg, tx_hash }

/-- The rest of a call that waited, with the hashes that are stored by then. -/
def end_verify (L : Libs) (w : Waiting) (seen : Finset String) : Finset String × Bool :=
  match w.pay_cfg.verify_transfer w.tx_hash with
  | .error _ => (seen, false)
  | .ok details =>
    if details.amount < w.pay_cfg.required_amount then (seen, false)
    else if !w.pay_cfg.receiving_account.isEmpty ∧
        L.to_lowercase details.recipient ≠ L.to_lowercase w.pay_cfg.receiving_account then
      (seen, false)
    else (insert w.tx_hash seen, true)

/-- A call that nothing interrupts is the call as a whole. -/
theorem verify_payment_cut (node : LmaoNode L F) (seen : Finset String) (task : Task) :
    node.verify_payment seen task =
      match node.begin_verify seen task with
      | .inl answer => answer
      | .inr w => end_verify L w seen := by
  unfold verify_payment begin_verify
  rcases node.payment with _ | pay_cfg
  · rfl
  by_cases hreq : pay_cfg.required_amount = 0
  · simp [hreq]
  rcases task.payment_tx with _ | tx_hash
  · simp [hreq]
  by_cases hempty : tx_hash.isEmpty = true
  · simp [hreq, hempty]
  by_cases hseen : tx_hash ∈ seen
  · simp [hreq, hempty, hseen]
  by_cases hchain : pay_cfg.verify_on_chain = true
  · rcases hverify : pay_cfg.verify_transfer tx_hash with e | details
    · simp [hreq, hempty, hseen, hchain, end_verify, hverify]
    · simp [hreq, hempty, hseen, hchain, end_verify, hverify]
  · rcases task.payment_amount with _ | amount
    · simp [hreq, hempty, hseen, hchain]
    · simp [hreq, hempty, hseen, hchain]

/-- With verification on the chain, a call is rejected at once or waits with a
hash that is not stored. -/
theorem begin_verify_cases {node : LmaoNode L F} {cfg : PaymentConfig}
    (hcfg : node.payment = some cfg) (hreq : cfg.required_amount ≠ 0)
    (hchain : cfg.verify_on_chain = true) (seen : Finset String) (task : Task) :
    (node.begin_verify seen task = .inl (seen, false) ∧
      ∀ tx, task.payment_tx = some tx → tx = "" ∨ tx ∈ seen) ∨
    ∃ tx, task.payment_tx = some tx ∧ tx ≠ "" ∧ tx ∉ seen ∧
      node.begin_verify seen task = .inr ⟨task, cfg, tx⟩ := by
  unfold begin_verify
  simp only [hcfg, if_neg hreq]
  rcases htx : task.payment_tx with _ | tx
  · exact .inl ⟨rfl, by simp⟩
  by_cases hempty : tx.isEmpty = true
  · exact .inl ⟨by simp [hempty], by simpa [String.isEmpty_iff] using Or.inl hempty⟩
  by_cases hseen : tx ∈ seen
  · exact .inl ⟨by simp [hempty, hseen], by simp [hseen]⟩
  refine .inr ⟨tx, rfl, ?_, hseen, by simp [hempty, hseen, hchain]⟩
  rintro rfl
  exact hempty rfl

/-- A call that waited is accepted when the chain confirms its payment. -/
theorem end_verify_of_covers {w : Waiting} (hchain : w.pay_cfg.verify_on_chain = true)
    (h : Covers L w.pay_cfg w.task w.tx_hash) (seen : Finset String) :
    end_verify L w seen = (insert w.tx_hash seen, true) := by
  unfold Covers at h
  rw [if_pos hchain] at h
  obtain ⟨details, hdetails, hamount, haccount⟩ := h
  have hless : ¬ details.amount < w.pay_cfg.required_amount := UInt64.not_lt.mpr hamount
  have hother : ¬ ((!w.pay_cfg.receiving_account.isEmpty) = true ∧
      L.to_lowercase details.recipient ≠ L.to_lowercase w.pay_cfg.receiving_account) := by
    rintro ⟨hset, hne⟩
    exact hne (haccount (by simpa [String.isEmpty_iff] using hset))
  unfold end_verify
  simp only [hdetails, if_neg hless, if_neg hother]

/-- It is rejected when the chain does not, and its hash is not stored. -/
theorem end_verify_of_not_covers {w : Waiting} (hchain : w.pay_cfg.verify_on_chain = true)
    (h : ¬ Covers L w.pay_cfg w.task w.tx_hash) (seen : Finset String) :
    end_verify L w seen = (seen, false) := by
  unfold Covers at h
  rw [if_pos hchain] at h
  unfold end_verify
  rcases hdetails : w.pay_cfg.verify_transfer w.tx_hash with e | details
  · rfl
  by_cases hless : details.amount < w.pay_cfg.required_amount
  · simp only [if_pos hless]
  by_cases hother : (!w.pay_cfg.receiving_account.isEmpty) = true ∧
      L.to_lowercase details.recipient ≠ L.to_lowercase w.pay_cfg.receiving_account
  · simp only [if_neg hless, if_pos hother]
  · refine absurd ⟨details, hdetails, UInt64.not_lt.mp hless, fun hset => ?_⟩ h
    by_contra hne
    exact hother ⟨by simpa [String.isEmpty_iff] using hset, hne⟩

end LmaoNode

/-! ## Calls that overlap -/

/-- A node and its calls of `verify_payment` that wait for the chain. -/
structure Counter (L : Libs) (F : Type) where
  seller : LmaoNode L F
  waiting : List Waiting

inductive CounterOp
  | start (task : Task)
  /-- The chain answers the `i`-th call that waits. -/
  | finish (i : Nat)

namespace Counter

/-- The outputs are the tasks that are accepted. -/
def step (s : Counter L F) : CounterOp → Except Empty (Counter L F × List Task)
  | .start task =>
    match s.seller.begin_verify s.seller.seen_tx_hashes task with
    | .inl (seen, good) =>
      .ok ({ s with seller := { s.seller with seen_tx_hashes := seen } },
        if good then [task] else [])
    | .inr w => .ok ({ s with waiting := s.waiting ++ [w] }, [])
  | .finish i =>
    match s.waiting[i]? with
    | none => .ok (s, [])
    | some w =>
      let (seen, good) := LmaoNode.end_verify L w s.seller.seen_tx_hashes
      .ok ({ seller := { s.seller with seen_tx_hashes := seen }, waiting := s.waiting.eraseIdx i },
        if good then [w.task] else [])

/-- What holds in every state of a run: a call waits with the hash of its task,
and the hashes that are stored are those of the accepted tasks. -/
structure Kept (cfg : PaymentConfig) (log : List Task) (s : Counter L F) : Prop where
  config : s.seller.payment = some cfg
  waits : ∀ w ∈ s.waiting, w.pay_cfg = cfg ∧ w.task.payment_tx = some w.tx_hash
  seen : ∀ tx, tx ∈ s.seller.seen_tx_hashes ↔ ∃ task ∈ log, task.payment_tx = some tx
  paid : ∀ task ∈ log, ∃ tx, task.payment_tx = some tx

/-- What a step can do: nothing, or begin to wait, or accept a call that waited,
or reject it. -/
theorem step_cases {cfg : PaymentConfig} (hreq : cfg.required_amount ≠ 0)
    (hchain : cfg.verify_on_chain = true) {log : List Task} {s s' : Counter L F} {op : CounterOp}
    {out : List Task} (h : Kept cfg log s) (hs : s.step op = .ok (s', out)) :
    (s' = s ∧ out = [] ∧ ∀ task tx, op = .start task → task.payment_tx = some tx →
      tx = "" ∨ tx ∈ s.seller.seen_tx_hashes) ∨
    (∃ task tx, op = .start task ∧ task.payment_tx = some tx ∧ tx ≠ "" ∧
      tx ∉ s.seller.seen_tx_hashes ∧ out = [] ∧
      s' = { s with waiting := s.waiting ++ [⟨task, cfg, tx⟩] }) ∨
    (∃ i w, op = .finish i ∧ s.waiting[i]? = some w ∧ Covers L cfg w.task w.tx_hash ∧
      out = [w.task] ∧
      s' = { seller :=
              { s.seller with seen_tx_hashes := insert w.tx_hash s.seller.seen_tx_hashes }
             waiting := s.waiting.eraseIdx i }) ∨
    (∃ i w, op = .finish i ∧ s.waiting[i]? = some w ∧ ¬ Covers L cfg w.task w.tx_hash ∧
      out = [] ∧ s' = { s with waiting := s.waiting.eraseIdx i }) := by
  cases op with
  | start task =>
    unfold step at hs
    rcases LmaoNode.begin_verify_cases h.config hreq hchain s.seller.seen_tx_hashes task with
      ⟨hr, hwhy⟩ | ⟨tx, htx, hne, hnew, hr⟩
    · simp only [hr] at hs
      cases hs
      refine .inl ⟨rfl, rfl, ?_⟩
      rintro _ tx ⟨⟩ htx
      exact hwhy tx htx
    · simp only [hr] at hs
      cases hs
      exact .inr (.inl ⟨task, tx, rfl, htx, hne, hnew, rfl, rfl⟩)
  | finish i =>
    unfold step at hs
    rcases hw : s.waiting[i]? with _ | w
    · simp only [hw] at hs
      cases hs
      refine .inl ⟨rfl, rfl, ?_⟩
      rintro _ _ ⟨⟩
    · obtain ⟨rfl, -⟩ := h.waits w (List.mem_of_getElem? hw)
      by_cases hcovers : Covers L w.pay_cfg w.task w.tx_hash
      · simp only [hw, LmaoNode.end_verify_of_covers hchain hcovers] at hs
        cases hs
        exact .inr (.inr (.inl ⟨i, w, rfl, hw, hcovers, rfl, rfl⟩))
      · simp only [hw, LmaoNode.end_verify_of_not_covers hchain hcovers] at hs
        cases hs
        exact .inr (.inr (.inr ⟨i, w, rfl, hw, hcovers, rfl, rfl⟩))

theorem Kept.step {cfg : PaymentConfig} (hreq : cfg.required_amount ≠ 0)
    (hchain : cfg.verify_on_chain = true) {log : List Task} {s s' : Counter L F} {op : CounterOp}
    {out : List Task} (h : Kept cfg log s) (hs : s.step op = .ok (s', out)) :
    Kept cfg (log ++ out) s' := by
  obtain ⟨rfl, rfl, -⟩ | ⟨task, tx, -, htx, -, -, rfl, rfl⟩ | ⟨i, w, -, hw, -, rfl, rfl⟩ |
    ⟨i, w, -, -, -, rfl, rfl⟩ := step_cases hreq hchain h hs
  · rw [List.append_nil]
    exact h
  · rw [List.append_nil]
    refine ⟨h.config, ?_, h.seen, h.paid⟩
    intro w hw
    rcases List.mem_append.mp hw with hw | hw
    · exact h.waits w hw
    · obtain rfl := List.mem_singleton.mp hw
      exact ⟨rfl, htx⟩
  · have hpaid := (h.waits w (List.mem_of_getElem? hw)).2
    refine ⟨h.config, fun w' hw' => h.waits w' (List.mem_of_mem_eraseIdx hw'), ?_, ?_⟩
    · intro tx
      simp only [Finset.mem_insert, h.seen, List.mem_append, List.mem_singleton]
      constructor
      · rintro (rfl | ⟨task, htask, htx⟩)
        · exact ⟨w.task, .inr rfl, hpaid⟩
        · exact ⟨task, .inl htask, htx⟩
      · rintro ⟨task, htask | rfl, htx⟩
        · exact .inr ⟨task, htask, htx⟩
        · exact .inl (Option.some.inj (htx.symm.trans hpaid))
    · intro task htask
      rcases List.mem_append.mp htask with htask | htask
      · exact h.paid task htask
      · obtain rfl := List.mem_singleton.mp htask
        exact ⟨w.tx_hash, hpaid⟩
  · rw [List.append_nil]
    exact ⟨h.config, fun w' hw' => h.waits w' (List.mem_of_mem_eraseIdx hw'), h.seen, h.paid⟩

/-! ## How often a transaction counts -/

/-- The transaction that a task was paid with. -/
def paidBy (task : Task) : Option String := task.payment_tx.map transaction

/-- The call waits with a hash of the transaction, and the chain confirms it. -/
def Claims (L : Libs) (t : String) (w : Waiting) : Prop :=
  transaction w.tx_hash = t ∧ Covers L w.pay_cfg w.task w.tx_hash

instance (t : String) (w : Waiting) : Decidable (Claims L t w) :=
  inferInstanceAs (Decidable (_ ∧ _))

/-- The accepted tasks that a transaction paid, and the calls that wait to be
accepted with it. -/
def uses (t : String) (log : List Task) (s : Counter L F) : Nat :=
  (log.map paidBy).count (some t) + s.waiting.countP fun w => Claims L t w

theorem uses_eq_zero {cfg : PaymentConfig} {log : List Task} {s : Counter L F}
    (h : Kept cfg log s) (t : String) :
    uses t log s = 0 ↔
      (∀ tx ∈ s.seller.seen_tx_hashes, transaction tx ≠ t) ∧ ∀ w ∈ s.waiting, ¬ Claims L t w := by
  unfold uses
  rw [Nat.add_eq_zero_iff, List.count_eq_zero, List.countP_eq_zero]
  simp only [decide_eq_true_eq, List.mem_map, not_exists, not_and]
  refine and_congr_left fun _ => ⟨?_, ?_⟩
  · rintro hlog tx htx rfl
    obtain ⟨task, htask, hpaid⟩ := (h.seen tx).mp htx
    exact hlog task htask (by simp [paidBy, hpaid])
  · rintro hseen task htask hpaid
    obtain ⟨tx, htx, rfl⟩ := Option.map_eq_some_iff.mp hpaid
    exact hseen tx ((h.seen tx).mpr ⟨task, htask, htx⟩) rfl

/-- A call that begins to wait adds its transaction once. -/
theorem uses_start (t : String) (log : List Task) (s : Counter L F) (w : Waiting) :
    uses t log { s with waiting := s.waiting ++ [w] } =
      uses t log s + if Claims L t w then 1 else 0 := by
  unfold uses
  simp only [List.countP_append, List.countP_singleton, decide_eq_true_eq]
  exact (Nat.add_assoc _ _ _).symm

/-- A call that is done no longer waits. -/
theorem uses_finish (t : String) (log : List Task) {s : Counter L F} {i : Nat} {w : Waiting}
    (hw : s.waiting[i]? = some w) (seller : LmaoNode L F) :
    uses t log { seller, waiting := s.waiting.eraseIdx i } + (if Claims L t w then 1 else 0) =
      uses t log s := by
  obtain ⟨hi, rfl⟩ := List.getElem?_eq_some_iff.mp hw
  have hcount := (List.getElem_cons_eraseIdx_perm hi).countP_eq fun w => decide (Claims L t w)
  rw [List.countP_cons] at hcount
  simp only [decide_eq_true_eq] at hcount
  unfold uses
  dsimp only
  omega

/-- An accepted task adds its transaction once. -/
theorem uses_accept {t tx : String} {task : Task} (htx : task.payment_tx = some tx)
    (log : List Task) (s : Counter L F) :
    uses t (log ++ [task]) s = uses t log s + if transaction tx = t then 1 else 0 := by
  unfold uses
  simp only [List.map_append, List.map_singleton, List.count_append, List.count_singleton,
    paidBy, htx, Option.map_some, beq_iff_eq, Option.some.injEq]
  omega

/-! ## The first use -/

/-- When the call goes on to wait and the chain will confirm its payment, no
hash of its transaction is stored in any spelling, and no other call waits to
be accepted with it. -/
def FirstUse (s : Counter L F) : CounterOp → Prop
  | .finish _ => True
  | .start task =>
    match s.seller.payment, task.payment_tx with
    | some cfg, some tx =>
      tx ≠ "" → tx ∉ s.seller.seen_tx_hashes → Covers L cfg task tx →
        (∀ tx' ∈ s.seller.seen_tx_hashes, transaction tx' ≠ transaction tx) ∧
        ∀ w ∈ s.waiting, ¬ Claims L (transaction tx) w
    | _, _ => True

instance (s : Counter L F) : DecidablePred (FirstUse s)
  | .finish _ => isTrue trivial
  | .start task =>
    match hcfg : s.seller.payment, htx : task.payment_tx with
    | some cfg, some tx =>
      decidable_of_iff (tx ≠ "" → tx ∉ s.seller.seen_tx_hashes → Covers L cfg task tx →
        (∀ tx' ∈ s.seller.seen_tx_hashes, transaction tx' ≠ transaction tx) ∧
        ∀ w ∈ s.waiting, ¬ Claims L (transaction tx) w) (by simp only [FirstUse, hcfg, htx])
    | some _, none => isTrue (by simp only [FirstUse, hcfg, htx])
    | none, _ => isTrue (by simp only [FirstUse, hcfg])

/-- No transaction counts twice after a step, exactly when none did before it
and the step is a first use. -/
theorem step_uses {cfg : PaymentConfig} (hreq : cfg.required_amount ≠ 0)
    (hchain : cfg.verify_on_chain = true) {log : List Task} {s s' : Counter L F} {op : CounterOp}
    {out : List Task} (h : Kept cfg log s) (hs : s.step op = .ok (s', out)) :
    (∀ t, uses t (log ++ out) s' ≤ 1) ↔ (∀ t, uses t log s ≤ 1) ∧ FirstUse s op := by
  obtain ⟨rfl, rfl, hwhy⟩ | ⟨task, tx, rfl, htx, hne, hnew, rfl, rfl⟩ |
    ⟨i, w, rfl, hw, hcovers, rfl, rfl⟩ | ⟨i, w, rfl, hw, hcovers, rfl, rfl⟩ :=
    step_cases hreq hchain h hs
  · rw [List.append_nil]
    refine (and_iff_left ?_).symm
    cases op with
    | finish i => trivial
    | start task =>
      simp only [FirstUse, h.config]
      rcases htx : task.payment_tx with _ | tx
      · trivial
      · intro hne hnew
        exact absurd (hwhy task tx rfl htx) (by simp [hne, hnew])
  · rw [List.append_nil]
    have hfirst : FirstUse s (.start task) ↔
        (Covers L cfg task tx → uses (transaction tx) log s = 0) := by
      rw [uses_eq_zero h]
      simp [FirstUse, h.config, htx, hne, hnew]
    rw [hfirst]
    simp only [uses_start]
    by_cases hcovers : Covers L cfg task tx
    · have hclaims : ∀ t, Claims L t ⟨task, cfg, tx⟩ ↔ transaction tx = t :=
        fun t => and_iff_left hcovers
      simp only [hclaims, hcovers, forall_const]
      constructor
      · intro hall
        refine ⟨fun t => (Nat.le_add_right _ _).trans (hall t), ?_⟩
        have := hall (transaction tx)
        rw [if_pos rfl] at this
        omega
      · rintro ⟨hall, hzero⟩ t
        by_cases ht : transaction tx = t
        · subst ht
          simp [hzero]
        · simpa [ht] using hall t
    · have hclaims : ∀ t, ¬ Claims L t ⟨task, cfg, tx⟩ := fun t hc => hcovers hc.2
      simp [hclaims, hcovers]
  · obtain ⟨hcfg, hpaid⟩ := h.waits w (List.mem_of_getElem? hw)
    have hclaims : ∀ t, Claims L t w ↔ transaction w.tx_hash = t :=
      fun t => and_iff_left (hcfg ▸ hcovers)
    refine (forall_congr' fun t => ?_).trans (and_iff_left trivial).symm
    have hmoved := uses_finish t log hw
      { s.seller with seen_tx_hashes := insert w.tx_hash s.seller.seen_tx_hashes }
    simp only [hclaims] at hmoved
    rw [uses_accept hpaid, hmoved]
  · obtain ⟨hcfg, -⟩ := h.waits w (List.mem_of_getElem? hw)
    have hclaims : ∀ t, ¬ Claims L t w := fun t hc => hcovers (hcfg ▸ hc.2)
    refine (forall_congr' fun t => ?_).trans (and_iff_left trivial).symm
    have hgone := uses_finish t log hw s.seller
    simp only [hclaims, if_false, Nat.add_zero] at hgone
    rw [List.append_nil, hgone]

/-- Over a whole run, no transaction counts twice exactly when every call is a
first use. -/
theorem run_uses {cfg : PaymentConfig} (hreq : cfg.required_amount ≠ 0)
    (hchain : cfg.verify_on_chain = true) {s₀ : Counter L F} (hstart : Kept cfg [] s₀)
    (hidle : s₀.waiting = []) (ops : List CounterOp) :
    ∃ s log, run Counter.step s₀ ops = .ok (s, log) ∧ Kept cfg log s ∧
      ((∀ t, uses t log s ≤ 1) ↔ Meets Counter.step (fun _ s op => FirstUse s op) s₀ ops) := by
  induction ops using List.reverseRecOn with
  | nil =>
    refine ⟨_, _, rfl, hstart, iff_of_true ?_ ?_⟩
    · intro t
      simp [uses, hidle]
    · intro before op after hnil
      simp at hnil
  | append_singleton ops op ih =>
    obtain ⟨s, log, hr, hkept, hiff⟩ := ih
    obtain ⟨⟨s', out⟩, hs⟩ := ends_ok (s.step op)
    refine ⟨s', log ++ out, run_snoc_ok hr hs, hkept.step hreq hchain hs, ?_⟩
    rw [step_uses hreq hchain hkept hs, hiff, meets_snoc]
    refine and_congr_right fun _ => ⟨?_, fun hlast => hlast s log hr⟩
    intro hfirst t log' ht
    rw [hr] at ht
    cases ht
    exact hfirst

end Counter

/-- No two accepted tasks were paid by one transaction. -/
def OncePerTransaction (accepted : List Task) : Prop := (accepted.map Counter.paidBy).Nodup

instance (accepted : List Task) : Decidable (OncePerTransaction accepted) :=
  inferInstanceAs (Decidable (List.Nodup _))

theorem oncePerTransaction_iff {cfg : PaymentConfig} {log : List Task} {s : Counter L F}
    (h : Counter.Kept cfg log s) :
    OncePerTransaction log ↔ ∀ t, (log.map Counter.paidBy).count (some t) ≤ 1 := by
  unfold OncePerTransaction
  rw [List.nodup_iff_count_le_one]
  constructor
  · intro hall t
    exact hall (some t)
  · intro hall paid
    cases paid with
    | some t => exact hall t
    | none =>
      have hnone : none ∉ log.map Counter.paidBy := by
        intro hmem
        obtain ⟨task, htask, hpaid⟩ := List.mem_map.mp hmem
        obtain ⟨tx, htx⟩ := h.paid task htask
        simp [Counter.paidBy, htx] at hpaid
      rw [List.count_eq_zero_of_not_mem hnone]
      exact Nat.zero_le 1

/-- A node that asks for a payment and verifies it on the chain, from the start
and through calls that overlap in any way: while each call is the first use of
its transaction, no transaction is accepted twice. Once all the calls are done,
this is the only way. -/
theorem a_transaction_is_accepted_once
    (receipt : String → Except ExecutionError TransferDetails) {cfg : PaymentConfig}
    (hreq : 0 < cfg.required_amount) (hchain : cfg.verify_on_chain = true) (node : LmaoNode L F)
    (hcfg : node.payment = some
      { cfg with verify_transfer := StatusNetworkBackend.verify_transfer receipt })
    (hseen : node.seen_tx_hashes = ∅) (ops : List CounterOp) :
    Returns (run Counter.step ⟨node, []⟩ ops) fun r =>
      (Meets Counter.step (fun _ s op => Counter.FirstUse s op) ⟨node, []⟩ ops →
        OncePerTransaction r.2) ∧
      (r.1.waiting = [] → OncePerTransaction r.2 →
        Meets Counter.step (fun _ s op => Counter.FirstUse s op) ⟨node, []⟩ ops) := by
  have hreq' : cfg.required_amount ≠ 0 := by
    intro h0
    rw [h0] at hreq
    exact absurd hreq (by decide)
  have hstart : Counter.Kept
      { cfg with verify_transfer := StatusNetworkBackend.verify_transfer receipt } []
      ⟨node, []⟩ := ⟨hcfg, by simp, by simp [hseen], by simp⟩
  obtain ⟨s, log, hr, hkept, hiff⟩ := Counter.run_uses (by exact hreq') (by exact hchain) hstart
    rfl ops
  refine ⟨_, hr, ?_, ?_⟩
  · intro hmeets
    rw [oncePerTransaction_iff hkept]
    intro t
    exact (Nat.le_add_right _ _).trans (hiff.mpr hmeets t)
  · intro (hdone : s.waiting = []) honce
    apply hiff.mp
    intro t
    have hcount := (oncePerTransaction_iff hkept).mp honce t
    simpa [Counter.uses, hdone] using hcount

/-! ## Two runs -/

namespace Sample

def transfer : TransferDetails :=
  { sender := "0x0a", recipient := "0x0b", amount := 7, block_number := 1 }

/-- The chain has one transaction, `0xab`. -/
def receipt (tx_hash : String) : Except ExecutionError TransferDetails :=
  if tx_hash.map Char.toLower = "0xab" then .ok transfer
  else .error (.Other ("Transaction " ++ tx_hash ++ " not found (not mined yet?)"))

def on_chain : PaymentConfig :=
  { five_tokens with
    verify_on_chain := true
    verify_transfer := StatusNetworkBackend.verify_transfer receipt }

def on_chain_node : LmaoNode gate_libs (IdSet fun _ => []) :=
  { LmaoNode.new "02bob" "bob" "" [] none .default 0 with payment := some on_chain }

def paying (id tx_hash : String) : Task :=
  { Task.new id "02alice" "02bob" "hi" with payment_tx := some tx_hash }

end Sample

/-- One payment, then the same hash again, then a hash that the chain does not
know. -/
theorem a_hash_is_accepted_once :
    0 < Sample.on_chain.required_amount ∧
    Meets Counter.step (fun _ s op => Counter.FirstUse s op) ⟨Sample.on_chain_node, []⟩
      [.start (Sample.paying "task-1" "0xab"), .finish 0, .start (Sample.paying "task-2" "0xab"),
        .start (Sample.paying "task-3" "0xcd"), .finish 0] ∧
    Returns (run Counter.step ⟨Sample.on_chain_node, []⟩
      [.start (Sample.paying "task-1" "0xab"), .finish 0, .start (Sample.paying "task-2" "0xab"),
        .start (Sample.paying "task-3" "0xcd"), .finish 0]) fun r => OncePerTransaction r.2 := by
  have hmeets : Meets Counter.step (fun _ s op => Counter.FirstUse s op) ⟨Sample.on_chain_node, []⟩
      [.start (Sample.paying "task-1" "0xab"), .finish 0, .start (Sample.paying "task-2" "0xab"),
        .start (Sample.paying "task-3" "0xcd"), .finish 0] := by
    decide +kernel
  obtain ⟨r, hr, honce, -⟩ := a_transaction_is_accepted_once Sample.receipt
    (show 0 < Sample.on_chain.required_amount by decide) rfl Sample.on_chain_node rfl rfl
    [.start (Sample.paying "task-1" "0xab"), .finish 0, .start (Sample.paying "task-2" "0xab"),
      .start (Sample.paying "task-3" "0xcd"), .finish 0]
  exact ⟨by decide, hmeets, r, hr, honce hmeets⟩

/-- The same transaction pays two tasks, one call after the other, when the
second task leaves out the `0x`; and with one spelling when the calls overlap. -/
theorem a_transaction_pays_two_tasks :
    StatusNetworkBackend.verify_transfer Sample.receipt "ab" =
      StatusNetworkBackend.verify_transfer Sample.receipt "0xab" ∧
    (Returns (run Counter.step ⟨Sample.on_chain_node, []⟩
      [.start (Sample.paying "task-1" "0xab"), .finish 0, .start (Sample.paying "task-2" "ab"),
        .finish 0]) fun r => r.2.map Task.id = ["task-1", "task-2"] ∧ ¬ OncePerTransaction r.2) ∧
    Returns (run Counter.step ⟨Sample.on_chain_node, []⟩
      [.start (Sample.paying "task-1" "0xab"), .start (Sample.paying "task-2" "0xab"),
        .finish 0, .finish 0])
      fun r => r.2.map Task.id = ["task-1", "task-2"] ∧ ¬ OncePerTransaction r.2 := by
  decide +kernel

end lmao.node
