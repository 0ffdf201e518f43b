-- The payment of a task among the logs of its transaction. The scan of one crate
-- stops at the first transfer of the token, and the gate of another judges what
-- the scan found.
import Lmao.Poll
import Lmao.StatusNetwork

namespace lmao.chain

open json node

/-! ## The gate -/

/-- `verify_payment` of a node that pays over the Status Network, whose backend
may panic. -/
def verify_payment (b : StatusNetworkBackend) (receipt_of : String → Except String Value)
    (pay_cfg : PaymentConfig) (seen : Finset String) (task : Task) :
    Except Panic (Finset String × Bool) :=
  if pay_cfg.required_amount = 0 then .ok (seen, true)
  else
    match task.payment_tx with
    | none => .ok (seen, false)
    | some tx_hash =>
      if tx_hash.isEmpty then .ok (seen, false)
      else if tx_hash ∈ seen then .ok (seen, false)
      else if !pay_cfg.verify_on_chain then
        match task.payment_amount with
        | some amount =>
          if amount ≥ pay_cfg.required_amount then .ok (insert tx_hash seen, true)
          else .ok (seen, false)
        | none => .ok (seen, false)
      else
        match b.verify_transfer receipt_of tx_hash with
        | .error panic => .error panic
        | .ok (.error _) => .ok (seen, false)
        | .ok (.ok details) =>
          if details.amount < pay_cfg.required_amount then .ok (seen, false)
          else if !pay_cfg.receiving_account.isEmpty ∧
              b.lower details.recipient ≠ b.lower pay_cfg.receiving_account then
            .ok (seen, false)
          else .ok (insert tx_hash seen, true)

/-- As long as the backend does not panic, this is the gate of the node. -/
theorem verify_payment_node {L : Libs} {F : Type} {node : LmaoNode L F} {cfg : PaymentConfig}
    (hcfg : node.payment = some cfg) {b : StatusNetworkBackend}
    {receipt_of : String → Except String Value} (hlower : b.lower = L.to_lowercase)
    (hbackend : ∀ tx, b.verify_transfer receipt_of tx = .ok (cfg.verify_transfer tx))
    (seen : Finset String) (task : Task) :
    verify_payment b receipt_of cfg seen task = .ok (node.verify_payment seen task) := by
  unfold verify_payment LmaoNode.verify_payment
  rw [hcfg]
  simp only [hbackend, hlower]
  by_cases hreq : cfg.required_amount = 0
  · simp only [if_pos hreq]
  simp only [if_neg hreq]
  rcases task.payment_tx with _ | tx
  · rfl
  simp only
  split
  · rfl
  split
  · rfl
  split
  · rcases task.payment_amount with _ | amount
    · rfl
    · simp only
      split <;> rfl
  · rcases cfg.verify_transfer tx with e | details
    · rfl
    · simp only
      split
      · rfl
      · split <;> rfl

/-! ## Submissions -/

/-- A task that carries a new transaction hash, at a node that verifies on the
chain. The transaction succeeded, and its receipt has the logs. -/
structure Submission where
  backend : StatusNetworkBackend
  receipt_of : String → Except String Value
  cfg : PaymentConfig
  seen : Finset String
  task : Task
  tx_hash : String
  receipt : Value
  logs : List Value
  on_chain : cfg.verify_on_chain = true
  carried : task.payment_tx = some tx_hash
  nonempty : tx_hash.isEmpty = false
  fresh : tx_hash ∉ seen
  answered : StatusNetworkBackend.rpc_call (receipt_of
    (if tx_hash.startsWith "0x" then tx_hash else "0x" ++ tx_hash)) = .ok receipt
  succeeded : get "status" receipt = some (.str "0x1")
  logged : get "logs" receipt = some (.array logs)

namespace Submission

variable (s : Submission)

def verdict : Except Panic (Finset String × Bool) :=
  verify_payment s.backend s.receipt_of s.cfg s.seen s.task

/-- The address is that of the account, if there is one. -/
def Receives (address : String) : Prop :=
  s.cfg.receiving_account.isEmpty = true ∨
    s.backend.lower address = s.backend.lower s.cfg.receiving_account

/-- The log is a transfer of the token to the account, of at least the amount
that is required. -/
def Qualifies (log : Value) : Prop :=
  ∃ t : TransferLog, t.json = log ∧ s.backend.is_transfer log = true ∧
    s.Receives t.recipient.address ∧ s.cfg.required_amount.toNat ≤ t.amount.value

/-- Some log qualifies. -/
def Paid : Prop := ∃ log ∈ s.logs, s.Qualifies log

/-- The task is accepted if and only if some log qualifies. -/
structure Found : Prop where
  accepts : s.Paid → ∃ seen, s.verdict = .ok (seen, true)
  rejects : ¬ s.Paid → ∃ seen, s.verdict = .ok (seen, false)

/-! ## The first transfer -/

/-- The first log that the scan does not skip. -/
def first_transfer : Option Value := s.logs.find? s.backend.is_transfer

/-- The log is read as a good payment: its recipient is the account, and the low
64 bits of its amount are enough. -/
def Pays (log : Value) : Prop :=
  ∃ sender recipient amount,
    StatusNetworkBackend.decode_transfer log = .ok (sender, recipient, amount) ∧
      s.Receives recipient ∧ s.cfg.required_amount ≤ amount

/-- The log is read, and not as a good payment. -/
def Spares (log : Value) : Prop :=
  ∃ sender recipient amount,
    StatusNetworkBackend.decode_transfer log = .ok (sender, recipient, amount) ∧
      ¬ (s.Receives recipient ∧ s.cfg.required_amount ≤ amount)

/-- The first transfer of the token speaks for all the logs. -/
def FirstDecides : Prop :=
  if s.cfg.required_amount = 0 then s.Paid
  else ∀ log, s.first_transfer = some log → (s.Paid → s.Pays log) ∧ (¬ s.Paid → s.Spares log)

theorem verify_transfer_eq :
    ∃ block_number, s.backend.verify_transfer s.receipt_of s.tx_hash =
      (s.backend.parse_transfer_log s.logs).map fun r => r.map fun (sender, recipient, amount) =>
        { sender, recipient, amount, block_number } := by
  have hnull : StatusNetworkBackend.is_null s.receipt = false := by
    have hstatus := s.succeeded
    cases hreceipt : s.receipt with
    | null =>
      rw [hreceipt] at hstatus
      cases hstatus
    | _ => rfl
  have hstatus : text_or "0x0" (get "status" s.receipt) = "0x1" := by
    rw [s.succeeded]
    rfl
  have hlogs : ((get "logs" s.receipt).bind as_array).getD [] = s.logs := by
    rw [s.logged]
    rfl
  unfold StatusNetworkBackend.verify_transfer
  simp only [s.answered, hnull, hstatus, hlogs]
  exact ⟨_, rfl⟩

/-- The gate is the judgement of what the backend found. -/
theorem verdict_eq (hreq : s.cfg.required_amount ≠ 0) :
    s.verdict = match s.backend.verify_transfer s.receipt_of s.tx_hash with
      | .error panic => .error panic
      | .ok (.error _) => .ok (s.seen, false)
      | .ok (.ok details) =>
        if details.amount < s.cfg.required_amount then .ok (s.seen, false)
        else if !s.cfg.receiving_account.isEmpty ∧
            s.backend.lower details.recipient ≠ s.backend.lower s.cfg.receiving_account then
          .ok (s.seen, false)
        else .ok (insert s.tx_hash s.seen, true) := by
  unfold verdict verify_payment
  simp only [if_neg hreq, s.carried, s.nonempty, s.fresh, s.on_chain]
  rfl

/-- Without a transfer of the token the task is rejected. -/
theorem verdict_none (hreq : s.cfg.required_amount ≠ 0) (h : s.first_transfer = none) :
    s.verdict = .ok (s.seen, false) := by
  obtain ⟨block_number, hverify⟩ := s.verify_transfer_eq
  have hfind : s.logs.find? s.backend.is_transfer = none := h
  have hparse : s.backend.parse_transfer_log s.logs =
      .ok (.error (.Other "No Transfer event found in transaction logs")) := by
    unfold StatusNetworkBackend.parse_transfer_log
    rw [hfind]
  rw [s.verdict_eq hreq, hverify, hparse]
  rfl

theorem parse_of_first {log : Value} (h : s.first_transfer = some log) :
    s.backend.parse_transfer_log s.logs =
      (StatusNetworkBackend.decode_transfer log).map .ok := by
  have hfind : s.logs.find? s.backend.is_transfer = some log := h
  unfold StatusNetworkBackend.parse_transfer_log
  rw [hfind]

/-- The scan panics where the first transfer cannot be cut. -/
theorem verdict_panic (hreq : s.cfg.required_amount ≠ 0) {log : Value}
    (h : s.first_transfer = some log) {panic : Panic}
    (hlog : StatusNetworkBackend.decode_transfer log = .error panic) :
    s.verdict = .error panic := by
  obtain ⟨block_number, hverify⟩ := s.verify_transfer_eq
  rw [s.verdict_eq hreq, hverify, s.parse_of_first h, hlog]
  rfl

/-- The first transfer is the one that is judged. -/
theorem verdict_some (hreq : s.cfg.required_amount ≠ 0) {log : Value}
    (h : s.first_transfer = some log) {sender recipient : String} {amount : UInt64}
    (hlog : StatusNetworkBackend.decode_transfer log = .ok (sender, recipient, amount)) :
    (s.Receives recipient ∧ s.cfg.required_amount ≤ amount →
        s.verdict = .ok (insert s.tx_hash s.seen, true)) ∧
      (¬ (s.Receives recipient ∧ s.cfg.required_amount ≤ amount) →
        s.verdict = .ok (s.seen, false)) := by
  obtain ⟨block_number, hverify⟩ := s.verify_transfer_eq
  have hverdict : s.verdict =
      if amount < s.cfg.required_amount then .ok (s.seen, false)
      else if !s.cfg.receiving_account.isEmpty ∧
          s.backend.lower recipient ≠ s.backend.lower s.cfg.receiving_account then
        .ok (s.seen, false)
      else .ok (insert s.tx_hash s.seen, true) := by
    rw [s.verdict_eq hreq, hverify, s.parse_of_first h, hlog]
    rfl
  have hother : ((!s.cfg.receiving_account.isEmpty) = true ∧
      s.backend.lower recipient ≠ s.backend.lower s.cfg.receiving_account) ↔
        ¬ s.Receives recipient := by
    unfold Receives
    simp
  rw [hverdict, ← UInt64.not_lt]
  constructor
  · rintro ⟨hreceives, hamount⟩
    rw [if_neg hamount, if_neg fun hne => hother.mp hne hreceives]
  · intro hshort
    by_cases hamount : amount < s.cfg.required_amount
    · rw [if_pos hamount]
    · rw [if_neg hamount, if_pos (hother.mpr fun hreceives => hshort ⟨hreceives, hamount⟩)]

/-! ## Transfers -/

/-- A well formed transfer is read as a good payment if its low bits are enough. -/
theorem pays_transfer (t : TransferLog) : s.Pays t.json ↔
    s.Receives t.recipient.address ∧ s.cfg.required_amount.toNat ≤ t.amount.value % 2 ^ 64 := by
  have hlow : ∀ required : UInt64, required ≤ UInt64.ofNat (t.amount.value % 2 ^ 64) ↔
      required.toNat ≤ t.amount.value % 2 ^ 64 := by
    intro required
    rw [UInt64.le_iff_toNat_le, UInt64.toNat_ofNat', Nat.mod_mod]
  unfold Pays
  rw [t.decode_json]
  constructor
  · rintro ⟨sender, recipient, amount, heq, hreceives, hamount⟩
    cases heq
    exact ⟨hreceives, (hlow _).mp hamount⟩
  · rintro ⟨hreceives, hamount⟩
    exact ⟨_, _, _, rfl, hreceives, (hlow _).mpr hamount⟩

/-- A well formed first transfer never pays for nothing: what can go wrong is that
another log qualifies. -/
theorem first_decides_transfer (hreq : s.cfg.required_amount ≠ 0) {t : TransferLog}
    (hfirst : s.first_transfer = some t.json) : s.FirstDecides ↔
      (s.Paid → s.Receives t.recipient.address ∧
        s.cfg.required_amount.toNat ≤ t.amount.value % 2 ^ 64) := by
  unfold FirstDecides
  rw [if_neg hreq]
  constructor
  · intro hdecides hpaid
    exact (s.pays_transfer t).mp ((hdecides _ hfirst).1 hpaid)
  · intro hpays log hlog
    obtain rfl : t.json = log := Option.some.inj (hfirst.symm.trans hlog)
    refine ⟨fun hpaid => (s.pays_transfer t).mpr (hpays hpaid), fun hpaid => ?_⟩
    refine ⟨_, _, _, t.decode_json, fun hgood => hpaid ?_⟩
    have hlow := (s.pays_transfer t).mp ⟨_, _, _, t.decode_json, hgood⟩
    exact ⟨t.json, List.mem_of_find?_eq_some hfirst, t, rfl, List.find?_some hfirst, hlow.1,
      hlow.2.trans (Nat.mod_le _ _)⟩

/-! ## The law -/

/-- A log that qualifies is one that the scan would take. -/
theorem paid_first (hpaid : s.Paid) : ∃ log, s.first_transfer = some log := by
  obtain ⟨log, hlog, t, -, htransfer, -⟩ := hpaid
  rcases hfirst : s.first_transfer with _ | first
  · exact absurd htransfer (List.find?_eq_none.mp hfirst log hlog)
  · exact ⟨first, rfl⟩

/-- A node that asks for nothing accepts every task. -/
theorem found_free (hreq : s.cfg.required_amount = 0) : s.Found ↔ s.Paid := by
  have hverdict : s.verdict = .ok (s.seen, true) := by
    unfold verdict verify_payment
    rw [if_pos hreq]
  constructor
  · intro hfound
    by_contra hpaid
    obtain ⟨seen, hseen⟩ := hfound.rejects hpaid
    rw [hverdict] at hseen
    cases hseen
  · intro hpaid
    exact ⟨fun _ => ⟨_, hverdict⟩, fun hnot => absurd hpaid hnot⟩

/-- If the answer is right, the first transfer is read and gives that answer. -/
theorem first_of_found (hreq : s.cfg.required_amount ≠ 0) (hfound : s.Found) {log : Value}
    (hfirst : s.first_transfer = some log) : (s.Paid → s.Pays log) ∧ (¬ s.Paid → s.Spares log) := by
  rcases hlog : StatusNetworkBackend.decode_transfer log with panic | ⟨sender, recipient, amount⟩
  · -- a panic is neither of the answers
    have hverdict := s.verdict_panic hreq hfirst hlog
    refine ⟨fun hpaid => ?_, fun hpaid => ?_⟩
    · obtain ⟨seen, hseen⟩ := hfound.accepts hpaid
      rw [hverdict] at hseen
      cases hseen
    · obtain ⟨seen, hseen⟩ := hfound.rejects hpaid
      rw [hverdict] at hseen
      cases hseen
  · have hjudged := s.verdict_some hreq hfirst hlog
    refine ⟨fun hpaid => ⟨sender, recipient, amount, hlog, ?_⟩,
      fun hpaid => ⟨sender, recipient, amount, hlog, ?_⟩⟩
    · by_contra hshort
      obtain ⟨seen, hseen⟩ := hfound.accepts hpaid
      rw [hjudged.2 hshort] at hseen
      cases hseen
    · intro hpays
      obtain ⟨seen, hseen⟩ := hfound.rejects hpaid
      rw [hjudged.1 hpays] at hseen
      cases hseen

theorem found_of_first (hreq : s.cfg.required_amount ≠ 0) (hdecides : ∀ log,
    s.first_transfer = some log → (s.Paid → s.Pays log) ∧ (¬ s.Paid → s.Spares log)) :
    s.Found := by
  refine ⟨fun hpaid => ?_, fun hpaid => ?_⟩
  · obtain ⟨log, hfirst⟩ := s.paid_first hpaid
    obtain ⟨sender, recipient, amount, hlog, hpays⟩ := (hdecides log hfirst).1 hpaid
    exact ⟨_, (s.verdict_some hreq hfirst hlog).1 hpays⟩
  · rcases hfirst : s.first_transfer with _ | log
    · exact ⟨_, s.verdict_none hreq hfirst⟩
    · obtain ⟨sender, recipient, amount, hlog, hspares⟩ := (hdecides log hfirst).2 hpaid
      exact ⟨_, (s.verdict_some hreq hfirst hlog).2 hspares⟩

/-- A payment is found wherever it is logged if and only if the first transfer of
the token speaks for all the logs. -/
theorem a_payment_is_found_iff : s.Found ↔ s.FirstDecides := by
  unfold FirstDecides
  by_cases hreq : s.cfg.required_amount = 0
  · rw [if_pos hreq, s.found_free hreq]
  · rw [if_neg hreq]
    constructor
    · intro hfound log hfirst
      exact s.first_of_found hreq hfound hfirst
    · intro hdecides
      exact s.found_of_first hreq hdecides

end Submission

namespace Sample

/-- Five units of a token, from account 1. -/
def five_units (recipient : Nat) : TransferLog :=
  .of "0xa1" (.ofNat 1) (.ofNat recipient) (.ofNat 5)

/-- The node of account 2 asks for five units. -/
def account_two : PaymentConfig where
  pay _ _ := .ok ""
  verify_transfer _ := .error (.Other "")
  required_amount := 5
  auto_pay := false
  auto_pay_amount := 0
  verify_on_chain := true
  receiving_account := (Word.ofNat 2).address

/-- A transaction of two transfers, of five units each. -/
def two_transfers (first second : Nat) : Submission where
  backend := any_token
  receipt_of _ := .ok (.object [("result", .object [("status", .str "0x1"),
    ("logs", .array [(five_units first).json, (five_units second).json])])])
  cfg := account_two
  seen := ∅
  task := { Task.new "t" "a" "b" "hi" with payment_tx := some "0xfe" }
  tx_hash := "0xfe"
  receipt := .object [("status", .str "0x1"),
    ("logs", .array [(five_units first).json, (five_units second).json])]
  logs := [(five_units first).json, (five_units second).json]
  on_chain := rfl
  carried := rfl
  nonempty := by decide
  fresh := Finset.notMem_empty _
  answered := rfl
  succeeded := rfl
  logged := rfl

theorem two_transfers_first (first second : Nat) :
    (two_transfers first second).first_transfer = some (five_units first).json := by
  have htransfer : any_token.is_transfer (five_units first).json = true := by
    rw [TransferLog.is_transfer_json]
    rfl
  exact List.find?_cons_of_pos htransfer

/-- A transfer to the account qualifies wherever it stands. -/
theorem two_transfers_paid {first second : Nat} (h : first = 2 ∨ second = 2) :
    (two_transfers first second).Paid := by
  have hfive : (Word.ofNat 5).value = 5 := Word.value_ofNat (by decide)
  have hqualifies : (two_transfers first second).Qualifies (five_units 2).json := by
    refine ⟨five_units 2, rfl, ?_, .inr rfl, hfive.ge⟩
    exact TransferLog.is_transfer_json any_token (five_units 2)
  rcases h with rfl | rfl
  · exact ⟨_, List.mem_cons_self, hqualifies⟩
  · exact ⟨_, List.mem_cons_of_mem _ List.mem_cons_self, hqualifies⟩

end Sample

/-- The same two transfers are accepted if the one to the account comes first, and
rejected if it comes second. -/
theorem a_second_transfer_is_missed :
    (Sample.two_transfers 2 3).verdict = .ok ({"0xfe"}, true) ∧
      (Sample.two_transfers 3 2).verdict = .ok (∅, false) ∧
      ¬ (Sample.two_transfers 3 2).Found := by
  have hfive : (Word.ofNat 5).value % 2 ^ 64 = 5 := by
    rw [Word.value_ofNat (by decide)]
    rfl
  have hother : (Word.ofNat 3).address ≠ (Word.ofNat 2).address := by decide +kernel
  have haccount : (Word.ofNat 2).address.isEmpty = false := by decide +kernel
  have hgood := ((Sample.two_transfers 2 3).verdict_some (by decide)
    (Sample.two_transfers_first 2 3) (Sample.five_units 2).decode_json).1
      ⟨.inr rfl, by rw [show (Sample.five_units 2).amount = Word.ofNat 5 from rfl, hfive]; decide⟩
  have hmissed := ((Sample.two_transfers 3 2).verdict_some (by decide)
    (Sample.two_transfers_first 3 2) (Sample.five_units 3).decode_json).2 (by
      rintro ⟨hempty | hsame, -⟩
      · exact Bool.false_ne_true (haccount.symm.trans hempty)
      · exact hother hsame)
  refine ⟨hgood, hmissed, ?_⟩
  intro hfound
  obtain ⟨seen, hseen⟩ := hfound.accepts (Sample.two_transfers_paid (.inr rfl))
  rw [hmissed] at hseen
  cases hseen

end lmao.chain
