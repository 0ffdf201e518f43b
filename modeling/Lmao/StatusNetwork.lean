-- The chain behind a payment (status_network.rs of the execution crate): how the
-- receipt of a transaction and the answer about a balance are read. Both are
-- words of 256 bits, and the program has 64 bits for them.
import Lmao.HexNumbers
import Lmao.JsonReading
import Lmao.Node

namespace lmao.chain

open json node text

/-! ## Reading values -/

/-- The entry of an object. The keys of an object are distinct. -/
def get (name : String) : Value → Option Value
  | .object fields => fields.lookup name
  | _ => none

def as_str : Value → Option String
  | .str s => some s
  | _ => none

def as_array : Value → Option (List Value)
  | .array items => some items
  | _ => none

/-- The text of an entry, or the default. -/
def text_or (default : String) (v : Option Value) : String := (v.bind as_str).getD default

/-- A call that may panic, and else gives an answer or an error. -/
abbrev Outcome (α : Type) : Type := Except Panic (Except ExecutionError α)

/-! ## Logs -/

def TRANSFER_EVENT_TOPIC : String :=
  "0xddf252ad1be2c89b69c2b068fc378daa952ba7f163c4a11628f55a4df523b3ef"

/-- The backend. `lower` is `to_lowercase`; the answers of the endpoint are
inputs of the calls. -/
structure StatusNetworkBackend where
  token_contract : String
  lower : String → String

namespace StatusNetworkBackend

def topics (log : Value) : List Value := ((get "topics" log).bind as_array).getD []

/-- The logs that are not skipped: enough topics, the signature of a transfer,
and the address of the token, if there is one. -/
def is_transfer (b : StatusNetworkBackend) (log : Value) : Bool :=
  decide (3 ≤ (topics log).length) && text_or "" (topics log)[0]? == TRANSFER_EVENT_TOPIC &&
    (b.token_contract.isEmpty ||
      b.lower (text_or "" (get "address" log)) == b.lower b.token_contract)

/-- The address in an indexed topic: its last 40 characters. -/
def topic_address (topic : Option Value) : Except Panic String := do
  let address ← last_bytes (text_or "0x0" topic).toList 40
  return "0x" ++ String.ofList address

/-- The low 64 bits of the amount. -/
def decode_amount (data : String) : Except Panic UInt64 := do
  let data_hex := trim_0x data.toList
  if byte_len data_hex > 16 then
    let low ← last_bytes data_hex 16
    return (from_str_radix low).getD 0
  else return (from_str_radix data_hex).getD 0

/-- The two ends of a transfer and its amount. -/
def decode_transfer (log : Value) : Except Panic (String × String × UInt64) := do
  let sender ← topic_address (topics log)[1]?
  let recipient ← topic_address (topics log)[2]?
  let amount ← decode_amount (text_or "0x0" (get "data" log))
  return (sender, recipient, amount)

/-- The first transfer of the token among the logs. -/
def parse_transfer_log (b : StatusNetworkBackend) (logs : List Value) :
    Outcome (String × String × UInt64) :=
  match logs.find? b.is_transfer with
  | some log => (decode_transfer log).map .ok
  | none => .ok (.error (.Other "No Transfer event found in transaction logs"))

/-! ## Calls -/

/-- The answer of the endpoint: an error of the connection, or a JSON value. -/
def rpc_call (resp : Except String Value) : Except ExecutionError Value :=
  match resp with
  | .error e => .error (.Rpc e)
  | .ok resp =>
    match get "error" resp with
    | some error => .error (.Rpc (String.ofList error.render))
    | none =>
      match get "result" resp with
      | some result => .ok result
      | none => .error (.Rpc "Missing result in RPC response")

/-- The data of the call of `balanceOf`: the address, filled up to 64 digits. -/
def balance_calldata (agent : String) : String :=
  let address := trim_0x agent.toList
  "0x70a08231" ++ String.ofList (List.replicate (64 - address.length) '0' ++ address)

/-- The token balance of an agent. `eth_call` gives the answer of the endpoint
for the contract and the data. -/
def balance (b : StatusNetworkBackend) (eth_call : String → String → Except String Value)
    (agent : String) : Except ExecutionError UInt64 := do
  let result ← rpc_call (eth_call b.token_contract (balance_calldata agent))
  return (from_str_radix (trim_0x (text_or "0x0" (some result)).toList)).getD 0

/-- `Value::is_null`. -/
def is_null : Value → Bool
  | .null => true
  | _ => false

/-- Verify a transaction: its receipt says that it succeeded, and has the
transfer. `receipt_of` gives the answer of the endpoint for a hash. -/
def verify_transfer (b : StatusNetworkBackend) (receipt_of : String → Except String Value)
    (tx_hash : String) : Outcome TransferDetails :=
  let tx_hash := if tx_hash.startsWith "0x" then tx_hash else "0x" ++ tx_hash
  match rpc_call (receipt_of tx_hash) with
  | .error e => .ok (.error e)
  | .ok receipt =>
    if is_null receipt then
      .ok (.error (.Other ("Transaction " ++ tx_hash ++ " not found (not mined yet?)")))
    else
      let status := text_or "0x0" (get "status" receipt)
      if status ≠ "0x1" then
        .ok (.error (.Other ("Transaction " ++ tx_hash ++ " failed (status: " ++ status ++ ")")))
      else
        let block_number :=
          (from_str_radix (trim_0x (text_or "0x0" (get "blockNumber" receipt)).toList)).getD 0
        let logs := ((get "logs" receipt).bind as_array).getD []
        (b.parse_transfer_log logs).map fun r => r.map fun (sender, recipient, amount) =>
          { sender, recipient, amount, block_number }

end StatusNetworkBackend

/-! ## Words -/

/-- The digits of a word of 256 bits, in either case. -/
structure Word where
  digits : List Char
  length_eq : digits.length = 64
  hex : Hex digits

namespace Word

def value (w : Word) : Nat := hex_number 0 w.digits

def text (w : Word) : String := String.ofList ('0' :: 'x' :: w.digits)

/-- The address in a word: its last 20 bytes. -/
def address (w : Word) : String := "0x" ++ String.ofList (w.digits.drop 24)

/-- The last `k` digits of a number. -/
def digits_of : Nat → Nat → List Char
  | 0, _ => []
  | k + 1, n => digits_of k (n / 16) ++ [hex_digit (n % 16)]

theorem digits_of_length (k n : Nat) : (digits_of k n).length = k := by
  induction k generalizing n with
  | zero => rfl
  | succ k ih => rw [digits_of, List.length_append, ih, List.length_singleton]

theorem digits_of_hex (k n : Nat) : Hex (digits_of k n) := by
  induction k generalizing n with
  | zero => nofun
  | succ k ih =>
    intro c hc
    rcases List.mem_append.mp hc with hc | hc
    · exact ih _ c hc
    · obtain rfl := List.mem_singleton.mp hc
      rw [hex_val_digit _ (Nat.mod_lt _ (by decide))]
      rfl

theorem digits_of_number (k n : Nat) (h : n < 16 ^ k) : hex_number 0 (digits_of k n) = n := by
  induction k generalizing n with
  | zero =>
    obtain rfl : n = 0 := by simpa using h
    rfl
  | succ k ih =>
    have hhigh := ih (n / 16) (by rw [Nat.pow_succ] at h; omega)
    have hlast : hex_number 0 (digits_of (k + 1) n) =
        hex_number 0 (digits_of k (n / 16)) * 16 + (hex_val (hex_digit (n % 16))).getD 0 :=
      hex_number_append 0 _ _
    rw [hlast, hhigh, hex_val_digit _ (Nat.mod_lt _ (by decide)), Option.getD_some]
    omega

def ofNat (n : Nat) : Word := ⟨digits_of 64 n, digits_of_length 64 n, digits_of_hex 64 n⟩

/-- Every value of 256 bits is that of a word. -/
theorem value_ofNat {n : Nat} (h : n < 2 ^ 256) : (ofNat n).value = n :=
  digits_of_number 64 n (by rwa [show 16 ^ 64 = 2 ^ 256 by decide])

/-- A word has no more than 256 bits. -/
theorem value_lt (w : Word) : w.value < 2 ^ 256 := by
  have hlt := w.hex.number_lt
  rwa [w.length_eq, show 16 ^ 64 = 2 ^ 256 by decide] at hlt

theorem trim_text (w : Word) : trim_0x w.text.toList = w.digits := by
  unfold text
  rw [String.toList_ofList, trim_0x, w.hex.trim_0x]

/-- The last digits of a word are its low bits. -/
theorem low_digits (w : Word) : hex_number 0 (w.digits.drop 48) = w.value % 2 ^ 64 := by
  have hsplit : w.value = hex_number 0 (w.digits.take 48) * 16 ^ (w.digits.drop 48).length +
      hex_number 0 (w.digits.drop 48) := by
    unfold value
    rw [← hex_number_eq, ← hex_number_append, List.take_append_drop]
  have hlen : (w.digits.drop 48).length = 16 := by
    rw [List.length_drop, w.length_eq]
  have hlow := (w.hex.drop 48).number_lt
  rw [hlen, show 16 ^ 16 = 2 ^ 64 by decide] at hlow hsplit
  omega

theorem topic_address_text (w : Word) :
    StatusNetworkBackend.topic_address (some (.str w.text)) = .ok w.address := by
  have hnarrow : Narrow w.text.toList := by
    unfold text
    rw [String.toList_ofList]
    intro c hc
    rcases List.mem_cons.mp hc with rfl | hc
    · decide
    · rcases List.mem_cons.mp hc with rfl | hc
      · decide
      · exact w.hex.narrow c hc
  have htext : text_or "0x0" (some (.str w.text)) = w.text := rfl
  unfold StatusNetworkBackend.topic_address
  rw [htext, hnarrow.last_bytes]
  have hdrop : w.text.toList.drop (w.text.toList.length - 40) = w.digits.drop 24 := by
    unfold text
    rw [String.toList_ofList, List.length_cons, List.length_cons, w.length_eq]
    rfl
  rw [hdrop]
  rfl

theorem decode_amount_text (w : Word) :
    StatusNetworkBackend.decode_amount w.text = .ok (UInt64.ofNat (w.value % 2 ^ 64)) := by
  have hbytes : byte_len w.digits = 64 := by rw [w.hex.narrow.byte_len, w.length_eq]
  have hlow : last_bytes w.digits 16 = .ok (w.digits.drop 48) := by
    rw [w.hex.narrow.last_bytes, w.length_eq]
  have hne : w.digits.drop 48 ≠ [] := by
    intro hnil
    have hlen := congrArg List.length hnil
    rw [List.length_drop, w.length_eq] at hlen
    cases hlen
  unfold StatusNetworkBackend.decode_amount
  simp only [w.trim_text, hbytes, hlow]
  rw [if_pos (by decide)]
  simp only [bind, Except.bind, pure, Except.pure]
  rw [(w.hex.drop 48).from_str_radix hne, w.low_digits, if_pos (Nat.mod_lt _ (by decide)),
    Option.getD_some]

/-- The whole word, up to an overflow. -/
theorem from_str_radix_text (w : Word) :
    from_str_radix (trim_0x w.text.toList) =
      if w.value < 2 ^ 64 then some (UInt64.ofNat w.value) else none := by
  have hne : w.digits ≠ [] := by
    intro hnil
    have hlen := w.length_eq
    rw [hnil] at hlen
    cases hlen
  rw [w.trim_text]
  exact w.hex.from_str_radix hne

end Word

/-! ## Transfers -/

/-- A log of a `Transfer(address,address,uint256)` event: the two ends are topics
and the amount is the data. -/
structure TransferLog where
  json : Value
  address : String
  sender : Word
  recipient : Word
  amount : Word
  more : List Value
  topics_eq : get "topics" json = some (.array
    (.str TRANSFER_EVENT_TOPIC :: .str sender.text :: .str recipient.text :: more))
  address_eq : get "address" json = some (.str address)
  data_eq : get "data" json = some (.str amount.text)

namespace TransferLog

/-- The log as the chain writes it. -/
def of (address : String) (sender recipient amount : Word) : TransferLog where
  json := .object [("address", .str address),
    ("topics", .array [.str TRANSFER_EVENT_TOPIC, .str sender.text, .str recipient.text]),
    ("data", .str amount.text)]
  address := address
  sender := sender
  recipient := recipient
  amount := amount
  more := []
  topics_eq := rfl
  address_eq := rfl
  data_eq := rfl

theorem topics_json (t : TransferLog) : StatusNetworkBackend.topics t.json =
    .str TRANSFER_EVENT_TOPIC :: .str t.sender.text :: .str t.recipient.text :: t.more := by
  unfold StatusNetworkBackend.topics
  rw [t.topics_eq]
  rfl

/-- The log is taken if it comes from the token. -/
theorem is_transfer_json (b : StatusNetworkBackend) (t : TransferLog) :
    b.is_transfer t.json =
      (b.token_contract.isEmpty || b.lower t.address == b.lower b.token_contract) := by
  have hsignature : text_or "" (some (.str TRANSFER_EVENT_TOPIC)) = TRANSFER_EVENT_TOPIC := rfl
  have haddress : text_or "" (some (.str t.address)) = t.address := rfl
  unfold StatusNetworkBackend.is_transfer
  rw [t.topics_json, t.address_eq, haddress, List.getElem?_cons_zero, hsignature]
  simp

/-- The ends are exact, and the amount is that of the low 64 bits. -/
theorem decode_json (t : TransferLog) : StatusNetworkBackend.decode_transfer t.json =
    .ok (t.sender.address, t.recipient.address, UInt64.ofNat (t.amount.value % 2 ^ 64)) := by
  have hdata : text_or "0x0" (some (.str t.amount.text)) = t.amount.text := rfl
  have hsender : (StatusNetworkBackend.topics t.json)[1]? = some (.str t.sender.text) := by
    rw [t.topics_json]
    rfl
  have hrecipient : (StatusNetworkBackend.topics t.json)[2]? = some (.str t.recipient.text) := by
    rw [t.topics_json]
    rfl
  unfold StatusNetworkBackend.decode_transfer
  rw [hsender, hrecipient, t.data_eq, hdata, t.sender.topic_address_text,
    t.recipient.topic_address_text, t.amount.decode_amount_text]
  rfl

end TransferLog

namespace StatusNetworkBackend

/-- The first transfer of the token is the one that is reported, whatever comes
after it. -/
theorem parse_transfer_log_first (b : StatusNetworkBackend) (before after : List Value)
    (t : TransferLog) (hbefore : ∀ log ∈ before, b.is_transfer log = false)
    (ht : b.is_transfer t.json = true) :
    b.parse_transfer_log (before ++ t.json :: after) = .ok (.ok
      (t.sender.address, t.recipient.address, UInt64.ofNat (t.amount.value % 2 ^ 64))) := by
  have hfind : (before ++ t.json :: after).find? b.is_transfer = some t.json := by
    have hnone : before.find? b.is_transfer = none :=
      List.find?_eq_none.mpr fun log hlog => by simp [hbefore log hlog]
    rw [List.find?_append, hnone, Option.none_or, List.find?_cons_of_pos ht]
  unfold parse_transfer_log
  rw [hfind]
  simp only [t.decode_json]
  rfl

/-- The balance is the whole word, or zero after an overflow. -/
theorem balance_word (b : StatusNetworkBackend) (eth_call : String → String → Except String Value)
    (agent : String) (resp : Value) (w : Word)
    (hresp : eth_call b.token_contract (balance_calldata agent) = .ok resp)
    (herror : get "error" resp = none) (hresult : get "result" resp = some (.str w.text)) :
    b.balance eth_call agent =
      .ok (if w.value < 2 ^ 64 then UInt64.ofNat w.value else 0) := by
  have hrpc : rpc_call (.ok resp) = .ok (.str w.text) := by
    simp only [rpc_call, herror, hresult]
  have htext : text_or "0x0" (some (.str w.text)) = w.text := rfl
  unfold balance
  rw [hresp, hrpc]
  simp only [bind, Except.bind, pure, Except.pure]
  rw [htext, w.from_str_radix_text]
  split <;> rfl

end StatusNetworkBackend

/-! ## The law -/

/-- A transfer of the word is reported with its value, or is refused if 64 bits
do not hold it. -/
def ExactTransfer (w : Word) : Prop :=
  ∀ (b : StatusNetworkBackend) (before after : List Value) (t : TransferLog),
    t.amount = w → (∀ log ∈ before, b.is_transfer log = false) → b.is_transfer t.json = true →
      (w.value < 2 ^ 64 → b.parse_transfer_log (before ++ t.json :: after) =
        .ok (.ok (t.sender.address, t.recipient.address, UInt64.ofNat w.value))) ∧
      (2 ^ 64 ≤ w.value →
        ∃ e, b.parse_transfer_log (before ++ t.json :: after) = .ok (.error e))

/-- So is a balance of the word. -/
def ExactBalance (w : Word) : Prop :=
  ∀ (b : StatusNetworkBackend) (eth_call : String → String → Except String Value)
    (agent : String) (resp : Value),
    eth_call b.token_contract (StatusNetworkBackend.balance_calldata agent) = .ok resp →
    get "error" resp = none → get "result" resp = some (.str w.text) →
      (w.value < 2 ^ 64 → b.balance eth_call agent = .ok (UInt64.ofNat w.value)) ∧
      (2 ^ 64 ≤ w.value → ∃ e, b.balance eth_call agent = .error e)

/-- The word is read exactly wherever it stands. -/
structure ExactAmounts (w : Word) : Prop where
  transfer : ExactTransfer w
  balance : ExactBalance w

namespace Sample

/-- A backend that takes the transfers of any token. -/
def any_token : StatusNetworkBackend := ⟨"", id⟩

def lone_transfer (w : Word) : TransferLog := .of "0xa1" (.ofNat 1) (.ofNat 2) w

def balance_answer (w : Word) (_contract _data : String) : Except String Value :=
  .ok (.object [("result", .str w.text)])

/-- Only the low bits of a transfer are reported. -/
theorem parse_lone_transfer (w : Word) :
    any_token.parse_transfer_log [(lone_transfer w).json] = .ok (.ok
      ((Word.ofNat 1).address, (Word.ofNat 2).address, UInt64.ofNat (w.value % 2 ^ 64))) :=
  any_token.parse_transfer_log_first [] [] (lone_transfer w) nofun
    (by rw [TransferLog.is_transfer_json]; rfl)

theorem balance_of_answer (w : Word) : any_token.balance (balance_answer w) "0xb2" =
    .ok (if w.value < 2 ^ 64 then UInt64.ofNat w.value else 0) :=
  any_token.balance_word (balance_answer w) "0xb2" _ w rfl rfl rfl

end Sample

theorem exact_transfer_iff (w : Word) : ExactTransfer w ↔ w.value < 2 ^ 64 := by
  constructor
  · intro hexact
    by_contra hvast
    -- a transfer of the token is never refused
    obtain ⟨e, he⟩ := (hexact Sample.any_token [] [] (Sample.lone_transfer w) rfl nofun
      (by rw [TransferLog.is_transfer_json]; rfl)).2 (Nat.le_of_not_lt hvast)
    rw [List.nil_append, Sample.parse_lone_transfer] at he
    cases he
  · intro hsmall b before after t hamount hbefore ht
    refine ⟨fun _ => ?_, fun hvast => absurd hsmall (Nat.not_lt.mpr hvast)⟩
    rw [b.parse_transfer_log_first before after t hbefore ht, hamount, Nat.mod_eq_of_lt hsmall]

theorem exact_balance_iff (w : Word) : ExactBalance w ↔ w.value < 2 ^ 64 := by
  constructor
  · intro hexact
    by_contra hvast
    -- nor is an answer about a balance
    obtain ⟨e, he⟩ := (hexact Sample.any_token (Sample.balance_answer w) "0xb2" _ rfl rfl rfl).2
      (Nat.le_of_not_lt hvast)
    rw [Sample.balance_of_answer] at he
    cases he
  · intro hsmall b eth_call agent resp hresp herror hresult
    refine ⟨fun _ => ?_, fun hvast => absurd hsmall (Nat.not_lt.mpr hvast)⟩
    rw [b.balance_word eth_call agent resp w hresp herror hresult, if_pos hsmall]

/-- An amount is read exactly if and only if 64 bits hold it. -/
theorem amounts_are_exact_iff (w : Word) : ExactAmounts w ↔ w.value < 2 ^ 64 := by
  constructor
  · intro hexact
    exact (exact_transfer_iff w).mp hexact.transfer
  · intro hsmall
    exact ⟨(exact_transfer_iff w).mpr hsmall, (exact_balance_iff w).mpr hsmall⟩

/-- Of 2 ^ 64 + 5 units five are reported as transferred, and the balance is
reported to be nothing. -/
theorem a_vast_amount_is_replaced :
    (Word.ofNat (2 ^ 64 + 5)).value = 2 ^ 64 + 5 ∧
      Sample.any_token.parse_transfer_log
          [(Sample.lone_transfer (.ofNat (2 ^ 64 + 5))).json] =
        .ok (.ok ((Word.ofNat 1).address, (Word.ofNat 2).address, 5)) ∧
      Sample.any_token.balance (Sample.balance_answer (.ofNat (2 ^ 64 + 5))) "0xb2" = .ok 0 ∧
      ¬ ExactAmounts (.ofNat (2 ^ 64 + 5)) := by
  have hvalue : (Word.ofNat (2 ^ 64 + 5)).value = 2 ^ 64 + 5 := Word.value_ofNat (by decide)
  have hvast : ¬ (Word.ofNat (2 ^ 64 + 5)).value < 2 ^ 64 := by
    rw [hvalue]
    decide
  refine ⟨hvalue, ?_, ?_, ?_⟩
  · rw [Sample.parse_lone_transfer, hvalue]
    rfl
  · rw [Sample.balance_of_answer, if_neg hvast]
  · exact fun hexact => hvast ((exact_transfer_iff _).mp hexact.transfer)

end lmao.chain
