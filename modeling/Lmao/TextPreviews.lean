-- The texts that the agent and the listings of the CLI cut after a number of
-- bytes (agent.rs, task.rs and trust.rs of the cli crate, discovery.rs of the
-- node crate): when a cut falls inside of a character.
import Lmao.Consumers
import Lmao.History
import Lmao.PresencePoll
import Lmao.UnixTime

namespace lmao

/-! ## Boundaries -/

namespace text

/-- The first `n` bytes are whole characters. -/
def Boundary (s : List Char) (n : Nat) : Prop :=
  ∃ head tail, s = head ++ tail ∧ byte_len head = n

theorem byte_len_cons (c : Char) (s : List Char) :
    byte_len (c :: s) = c.utf8Size + byte_len s := by
  simp [byte_len]

theorem boundary_zero (s : List Char) : Boundary s 0 := ⟨[], s, rfl, rfl⟩

theorem boundary_nil_iff (n : Nat) : Boundary [] n ↔ n = 0 := by
  constructor
  · rintro ⟨head, tail, h, rfl⟩
    obtain ⟨rfl, -⟩ := List.append_eq_nil_iff.mp h.symm
    rfl
  · rintro rfl
    exact boundary_zero []

theorem boundary_cons_iff (c : Char) (s : List Char) {n : Nat} (hn : 0 < n) :
    Boundary (c :: s) n ↔ c.utf8Size ≤ n ∧ Boundary s (n - c.utf8Size) := by
  constructor
  · rintro ⟨head, tail, h, rfl⟩
    rcases head with _ | ⟨d, head⟩
    · exact absurd hn (Nat.lt_irrefl 0)
    · obtain ⟨rfl, rfl⟩ := List.cons.inj h
      rw [byte_len_cons, Nat.add_sub_cancel_left]
      exact ⟨Nat.le_add_right _ _, head, tail, rfl, rfl⟩
  · rintro ⟨hle, head, tail, rfl, hlen⟩
    refine ⟨c :: head, tail, rfl, ?_⟩
    rw [byte_len_cons, hlen, Nat.add_sub_cancel' hle]

/-- A text can be cut at its boundaries only. -/
theorem slice_to_ok_iff (s : List Char) (n : Nat) :
    (∃ shown, slice_to s n = .ok shown) ↔ Boundary s n := by
  induction s generalizing n with
  | nil =>
    rw [boundary_nil_iff]
    cases n <;> simp [slice_to]
  | cons c s ih =>
    rcases n with _ | n
    · exact iff_of_true ⟨[], rfl⟩ (boundary_zero _)
    · rw [boundary_cons_iff c s (Nat.succ_pos n), ← ih, slice_to]
      by_cases hc : c.utf8Size ≤ n + 1
      · rw [if_pos hc]
        cases slice_to s (n + 1 - c.utf8Size) <;> simp [hc, Except.map]
      · rw [if_neg hc]
        simp [hc]

/-! ## Bytes -/

/-- A byte that continues a character. -/
def Continues (b : UInt8) : Prop := b.toNat / 64 = 2

/-- The first byte of a character does not continue one, and the others do. -/
theorem utf8EncodeChar_continues (c : Char) : ∃ b bs, String.utf8EncodeChar c = b :: bs ∧
    ¬ Continues b ∧ ∀ b ∈ bs, Continues b := by
  unfold String.utf8EncodeChar Continues
  dsimp only
  have hval := c.val.toNat_lt
  split
  · refine ⟨_, _, rfl, ?_, nofun⟩
    rw [UInt8.toNat_ofNat']
    omega
  · split
    · refine ⟨_, _, rfl, ?_, ?_⟩
      · rw [UInt8.toNat_ofNat']
        omega
      · simp only [List.mem_cons, List.not_mem_nil, or_false, forall_eq, UInt8.toNat_ofNat']
        omega
    · split
      · refine ⟨_, _, rfl, ?_, ?_⟩
        · rw [UInt8.toNat_ofNat']
          omega
        · simp only [List.mem_cons, List.not_mem_nil, or_false, forall_eq_or_imp, forall_eq,
            UInt8.toNat_ofNat']
          omega
      · refine ⟨_, _, rfl, ?_, ?_⟩
        · rw [UInt8.toNat_ofNat']
          omega
        · simp only [List.mem_cons, List.not_mem_nil, or_false, forall_eq_or_imp, forall_eq,
            UInt8.toNat_ofNat']
          omega

theorem toList_loop (bs : ByteArray) (i : Nat) (r : List UInt8) :
    ByteArray.toList.loop bs i r = r.reverse ++ bs.data.toList.drop i := by
  induction h : bs.size - i generalizing i r with
  | zero =>
    have hle : bs.data.toList.length ≤ i := Nat.sub_eq_zero_iff_le.mp h
    rw [ByteArray.toList.loop, if_neg (by omega), List.drop_eq_nil_of_le hle, List.append_nil]
  | succ k ih =>
    have hlt : i < bs.size := by omega
    have hdrop : bs.data.toList.drop i = bs.get! i :: bs.data.toList.drop (i + 1) := by
      rw [List.drop_eq_getElem_cons (by simpa using hlt)]
      congr 1
      exact (getElem!_pos bs.data i hlt).symm
    rw [ByteArray.toList.loop, if_pos hlt, ih _ _ (by omega), hdrop, List.reverse_cons,
      List.append_assoc]
    rfl

/-- The bytes of a text are the bytes of its characters. -/
theorem utf8_eq (s : String) : utf8 s = s.toList.flatMap String.utf8EncodeChar := by
  unfold utf8 ByteArray.toList
  rw [toList_loop, String.toUTF8, ← String.utf8Encode_toList]
  exact List.toList_data_toByteArray

/-- Inside of a text, a byte continues a character if and only if there is no
boundary before it. -/
theorem continues_iff (s : List Char) {n : Nat} (hn : n < byte_len s) :
    ∃ b, (s.flatMap String.utf8EncodeChar)[n]? = some b ∧ (Continues b ↔ ¬ Boundary s n) := by
  induction s generalizing n with
  | nil => cases hn
  | cons c s ih =>
    obtain ⟨b, bs, hbytes, hfirst, hrest⟩ := utf8EncodeChar_continues c
    have hlen : bs.length + 1 = c.utf8Size := by
      rw [← String.length_utf8EncodeChar, hbytes]
      rfl
    rw [byte_len_cons] at hn
    rw [List.flatMap_cons, hbytes]
    rcases n with _ | n
    · exact ⟨b, rfl, iff_of_false hfirst (not_not_intro (boundary_zero _))⟩
    · rw [boundary_cons_iff c s (Nat.succ_pos n), List.cons_append, List.getElem?_cons_succ]
      by_cases hc : c.utf8Size ≤ n + 1
      · rw [List.getElem?_append_right (by omega)]
        obtain ⟨b', hb', hiff⟩ := ih (n := n + 1 - c.utf8Size) (by omega)
        refine ⟨b', ?_, ?_⟩
        · rw [← hb', ← hlen, Nat.add_sub_add_right]
        · rw [hiff, and_iff_right hc]
      · have hlt : n < bs.length := by omega
        rw [List.getElem?_append_left hlt]
        exact ⟨bs[n], List.getElem?_eq_getElem hlt,
          iff_of_true (hrest _ (List.getElem_mem hlt)) fun h => hc h.1⟩

theorem length_flatMap_utf8 (s : List Char) :
    (s.flatMap String.utf8EncodeChar).length = byte_len s := by
  unfold byte_len
  rw [List.length_flatMap]
  simp only [String.length_utf8EncodeChar]

/-- The text is cut after `n` bytes at a boundary, or it is not cut. -/
def Clean (n : Nat) (s : String) : Prop := byte_len s.toList ≤ n ∨ Boundary s.toList n

/-- `&s[..n.min(s.len())]` -/
def shown (n : Nat) (s : String) : Except Panic String :=
  (slice_to s.toList (min n (byte_len s.toList))).map String.ofList

theorem boundary_byte_len (s : List Char) : Boundary s (byte_len s) :=
  ⟨s, [], (List.append_nil s).symm, rfl⟩

theorem boundary_min_iff (n : Nat) (s : String) :
    Boundary s.toList (min n (byte_len s.toList)) ↔ Clean n s := by
  unfold Clean
  rcases Nat.le_total (byte_len s.toList) n with hle | hle
  · rw [Nat.min_eq_right hle]
    exact iff_of_true (boundary_byte_len _) (.inl hle)
  · rw [Nat.min_eq_left hle]
    constructor
    · exact .inr
    · rintro (hge | hcut)
      · rw [Nat.le_antisymm hle hge]
        exact boundary_byte_len _
      · exact hcut

theorem shown_ok_iff (n : Nat) (s : String) : (∃ t, shown n s = .ok t) ↔ Clean n s := by
  rw [← boundary_min_iff, ← slice_to_ok_iff]
  unfold shown
  cases slice_to s.toList (min n (byte_len s.toList)) <;> simp [Except.map]

end text

open text

/-! ## Announcements -/

namespace node.LmaoNode

variable {L : Libs} {F : Type}

theorem cuttable_iff (agent_id : String) : Cuttable agent_id ↔ Clean 8 agent_id := by
  rw [← boundary_min_iff, ← slice_to_ok_iff]
  rfl

/-- Every warning of a poll is about an id that is clean. -/
def CleanWarnings (libs : PresenceLibs) (logs : Logs) (node : LmaoNode L F)
    (rx : List (Bytes × UInt64)) : Prop :=
  logs.warns = true → ∀ m ∈ rx, ∀ ann, node.presence_of m.1 = some ann →
    ann.verify libs.ecdsa ≠ .ok () → Clean 8 ann.agent_id

theorem poll_presence_panics_iff (libs : PresenceLibs) (logs : Logs) (node : LmaoNode L F)
    (rx : List (Bytes × UInt64)) :
    (∃ panic, (node.poll_presence libs logs (.ok rx)).result = .error (.panic panic)) ↔
      ¬ node.CleanWarnings libs logs rx := by
  have hlegible : node.Legible libs logs rx ↔ node.CleanWarnings libs logs rx := by
    unfold Legible CleanWarnings
    simp only [cuttable_iff]
  rw [← hlegible]
  unfold poll_presence
  constructor
  · rintro ⟨panic, hpanic⟩ h
    simp only [presence_loop_legible h] at hpanic
    cases hpanic
  · intro h
    obtain ⟨panic, hpanic⟩ := presence_loop_panics h node.peer_map 0
    refine ⟨panic, ?_⟩
    simp only [hpanic]
    rfl

end node.LmaoNode

namespace cli

open sds node

/-! ## Responses of the inbox loop -/

variable {L : Libs} {F : Type}

theorem preview_splits_iff (response : String) :
    preview_splits response = true ↔ ¬ Clean 200 response := by
  unfold preview_splits Clean
  rw [utf8_eq]
  by_cases hlen : byte_len response.toList ≤ 200
  · have hnone : (response.toList.flatMap String.utf8EncodeChar)[200]? = none :=
      List.getElem?_eq_none (by rw [length_flatMap_utf8]; exact hlen)
    rw [hnone]
    exact iff_of_false nofun (not_not_intro (.inl hlen))
  · obtain ⟨b, hb, hiff⟩ := continues_iff response.toList (Nat.lt_of_not_le hlen)
    rw [hb, or_iff_right hlen, ← hiff]
    exact beq_iff_eq

/-- The response to a task that is run as the `n`-th of a batch, if it is
published. -/
def Responds (node : LmaoNode L F) (env : Surroundings) (n : Nat) (task : Task)
    (response : String) : Prop :=
  ∃ text failed sent, task.text = some text ∧
    response_of (env.storage.map (· n)) (env.run_exec n text task.session_id task.sender) =
      (response, failed) ∧
    (answer node env n task response failed).2 = .ok sent

/-- The preview of the response is clean, if there is one. -/
def CleanPreview (node : LmaoNode L F) (env : Surroundings) (n : Nat) (task : Task) : Prop :=
  env.json = true ∨ ∀ response, Responds node env n task response → Clean 200 response

theorem responds_iff {node : LmaoNode L F} {env : Surroundings} {n : Nat} {task : Task}
    {text response : String} {failed : Bool} (htext : task.text = some text)
    (hresponse : response_of (env.storage.map (· n))
      (env.run_exec n text task.session_id task.sender) = (response, failed)) (response' : String) :
    Responds node env n task response' ↔
      response' = response ∧ ∃ sent, (answer node env n task response failed).2 = .ok sent := by
  constructor
  · rintro ⟨text', failed', sent, htext', hresponse', hsent⟩
    obtain rfl := Option.some.inj (htext.symm.trans htext')
    obtain ⟨rfl, rfl⟩ := Prod.mk.inj (hresponse.symm.trans hresponse')
    exact ⟨rfl, sent, hsent⟩
  · rintro ⟨rfl, sent, hsent⟩
    exact ⟨text, failed, sent, htext, hresponse, hsent⟩

theorem handle_task_panic (node : LmaoNode L F) (env : Surroundings) (n : Nat)
    (accepted : UInt32) (task : Task) :
    (handle_task node env n accepted task).2.2 = none ↔
      (¬ accepted ≥ node.max_concurrent → CleanPreview node env n task) := by
  unfold handle_task CleanPreview
  by_cases hfull : accepted ≥ node.max_concurrent
  · rw [if_pos hfull]
    exact iff_of_true rfl fun h => absurd hfull h
  · rw [if_neg hfull, forall_prop_of_true hfull]
    rcases htext : task.text with _ | text
    · refine iff_of_true rfl (.inr ?_)
      rintro response ⟨text, _, _, htext', _⟩
      cases htext.symm.trans htext'
    · rcases hresponse : response_of (env.storage.map (· n))
        (env.run_exec n text task.session_id task.sender) with ⟨response, failed⟩
      simp only [hresponse, responds_iff htext hresponse]
      rcases hsent : (answer node env n task response failed).2 with e | sent
      · exact iff_of_true rfl (.inr fun _ h => nomatch h.2)
      · have hclean : preview_splits response = false ↔ Clean 200 response := by
          rw [← not_iff_not, ← preview_splits_iff, Bool.not_eq_false]
        simp only [← hclean, Except.ok.injEq, exists_eq', and_true, forall_eq]
        cases env.json <;> cases preview_splits response <;> simp

/-- The loop panics at the first preview that is not clean. -/
theorem handle_tasks_panic (node : LmaoNode L F) (env : Surroundings) (n : Nat)
    (accepted : UInt32) (tasks : List Task) (hle : accepted.toNat ≤ node.max_concurrent.toNat) :
    (handle_tasks node env n accepted tasks).2 = none ↔
      ∀ i task, tasks[i]? = some task →
        ¬ node.max_concurrent.toNat ≤
          accepted.toNat + (tasks.take i).countP (fun t => t.text.isSome) →
        CleanPreview node env (n + i) task := by
  induction tasks generalizing n accepted with
  | nil => simp [handle_tasks]
  | cons task rest ih =>
    have hpanic := handle_task_panic node env n accepted task
    have hcount := handle_task_accepted node env n task hle
    rw [ge_iff_le, UInt32.le_iff_toNat_le] at hpanic
    unfold handle_tasks
    rcases hr : handle_task node env n accepted task with ⟨h₀, accepted', panic⟩
    rw [hr] at hpanic hcount
    dsimp only at hpanic hcount
    rcases panic with _ | panic
    · have hfirst := hpanic.mp rfl
      have hroom : ∀ i, node.max_concurrent.toNat ≤
          accepted'.toNat + (rest.take i).countP (fun t => t.text.isSome) ↔
          node.max_concurrent.toNat ≤
            accepted.toNat + ((task :: rest).take (i + 1)).countP fun t => t.text.isSome := by
        intro i
        rw [List.take_succ_cons, ← List.singleton_append, List.countP_append, hcount]
        omega
      dsimp only
      rw [ih (n + 1) accepted' (hcount ▸ Nat.min_le_right _ _)]
      simp only [hroom, Nat.add_assoc, Nat.add_comm 1]
      constructor
      · rintro hrest (_ | i) task' hi hfree
        · obtain rfl := Option.some.inj hi
          exact hfirst hfree
        · exact hrest i task' hi hfree
      · intro h i task' hi hfree
        exact h (i + 1) task' hi hfree
    · apply iff_of_false (Option.some_ne_none panic)
      intro h
      cases hpanic.mpr fun hfree => h 0 task rfl hfree

theorem handle_batch_panic (node : LmaoNode L F) (env : Surroundings) (tasks : List Task) :
    (handle_batch node env tasks).2 = none ↔
      ∀ i task, tasks[i]? = some task → ¬ Refused node (tasks.take i) →
        CleanPreview node env i task := by
  have h := handle_tasks_panic node env 0 0 tasks (Nat.zero_le _)
  simp only [UInt32.toNat_zero, Nat.zero_add] at h
  exact h

/-! ## Listings -/

/-- A line on stdout or on stderr. -/
inductive Line
  | out (text : String)
  | err (text : String)
deriving DecidableEq, Repr

/-- What is printed, and the panic that ends it, if there is one. -/
abbrev Printed := List Line × Option Panic

/-- The rows are printed one after the other. -/
def print_each {α : Type} (row : α → Except Panic (List Line)) : List α → Printed
  | [] => ([], none)
  | a :: rest =>
    match row a with
    | .error panic => ([], some panic)
    | .ok lines =>
      let r := print_each row rest
      (lines ++ r.1, r.2)

def Printed.after (head : List Line) (printed : Printed) : Printed :=
  (head ++ printed.1, printed.2)

theorem print_each_panic {α : Type} (row : α → Except Panic (List Line)) (l : List α) :
    (print_each row l).2 = none ↔ ∀ a ∈ l, ∃ lines, row a = .ok lines := by
  induction l with
  | nil => exact iff_of_true rfl nofun
  | cons a rest ih =>
    rw [List.forall_mem_cons, ← ih, print_each]
    rcases row a with panic | lines
    · exact iff_of_false nofun fun h => nomatch h.1
    · exact (and_iff_right ⟨lines, rfl⟩).symm

/-- Rows that show one prefix each are printed if every prefix is clean. -/
theorem print_each_shown {α : Type} (width : α → Nat) (key : α → String)
    (line : α → String → List Line) (l : List α) :
    (print_each (fun a => (shown (width a) (key a)).map (line a)) l).2 = none ↔
      ∀ a ∈ l, Clean (width a) (key a) := by
  rw [print_each_panic]
  apply forall₂_congr
  intro a _
  rw [← shown_ok_iff]
  cases shown (width a) (key a) <;> simp [Except.map]

namespace task

/-- How a front end lays out the rows of a delegation. -/
structure Layout where
  head : String
  result : String
  error : String

def daemon_layout : Layout := { head := "", result := "  Result: ", error := "  Error:  " }

def broadcast_layout : Layout := { head := "  ", result := "    Result: ", error := "    Error: " }

def single_layout : Layout := { head := "", result := "Result: ", error := "Error: " }

def delegation_lines (layout : Layout) (r : DelegationResult) (agent : String) : List Line :=
  let status := if r.success then "OK" else "FAIL"
  [Line.out (layout.head ++ "[" ++ status ++ "] agent=" ++ agent ++ " subtask=" ++
      r.subtask_id)] ++
    r.result_text.toList.map (fun text => Line.out (layout.result ++ text)) ++
    r.error.toList.map (fun err => Line.out (layout.error ++ err))

def delegation_row (layout : Layout) (r : DelegationResult) : Except Panic (List Line) :=
  (shown 12 r.agent_id).map (delegation_lines layout r)

/-- The first 80 characters, which are never cut in two. -/
def preview (text : String) : String := String.ofList (text.toList.take 80)

/-- The width of the prefix of a key, which is shorter beside a name. -/
def peer_width (e : history.HistoryEntry) : Nat := if e.peer_name.isEmpty then 12 else 8

def history_lines (e : history.HistoryEntry) (pubkey : String) : List Line :=
  let status := if e.success then "OK  " else "FAIL"
  let dir :=
    if e.direction = "delegated" then ">" else if e.direction = "received" then "<" else "?"
  let peer := if e.peer_name.isEmpty then pubkey else e.peer_name ++ " (" ++ pubkey ++ ")"
  let cap := if e.capability.isEmpty then "-" else e.capability
  [Line.out (typed.timestamp e.created_at_ms ++ " [" ++ status ++ "] " ++ dir ++ " " ++ peer ++
      "  cap=" ++ cap ++ "  " ++ toString e.elapsed_ms ++ "ms"),
    Line.out ("    text: " ++ preview e.text)] ++
    (if e.body.isEmpty then [] else [Line.out ("    body: " ++ preview e.body)]) ++
    e.error.toList.map (fun err => Line.out ("    err:  " ++ err)) ++
    [Line.out ("    id:   " ++ e.task_id)]

def history_row (e : history.HistoryEntry) : Except Panic (List Line) :=
  (shown (peer_width e) e.peer_pubkey).map (history_lines e)

/-- The responses of the daemon that the `task` commands print. The wire types
mirror the types of the node field by field. -/
inductive Response
  | TaskSend (task_id sender : String) (acked : Bool)
  | TaskStatus (results : List TaskWire)
  | TaskDelegate (results : List DelegationResult)
  | TaskHistoryList (entries : List history.HistoryEntry) (history_path : Option String)
  | Error (message : String)

def status_row (t : TaskWire) : List Line :=
  [Line.out ("Task:   " ++ t.id), Line.out ("State:  " ++ t.state)] ++
    t.result_text.toList.map fun text => Line.out ("Result: " ++ text)

/-- The response as a text. With `--json` it is printed whole. -/
def print_daemon_response : Response → Except String Printed
  | .TaskSend task_id sender acked =>
    .ok ([.err "Source: daemon", .out ("Task ID: " ++ task_id), .out ("From:    " ++ sender),
      .out ("Status:  " ++ if acked then "ACKed by recipient" else "Sent (no ACK yet)")], none)
  | .TaskStatus [] => .ok ([.out "No matching task in this daemon's inbox yet."], none)
  | .TaskStatus results => .ok (.err "Source: daemon" :: results.flatMap status_row, none)
  | .TaskDelegate results =>
    .ok ((print_each (delegation_row daemon_layout) results).after
      (.err "Source: daemon" ::
        if results.isEmpty then [.out "Delegation produced no results."] else []))
  | .TaskHistoryList entries history_path =>
    .ok ((print_each history_row entries).after
      (.err "Source: daemon" :: history_path.toList.map (fun p => .err ("History: " ++ p)) ++
        if entries.isEmpty then [.out "No history entries yet."] else []))
  | .Error message => .error ("daemon error: " ++ message)

/-- The results of a broadcast, without a daemon. -/
def print_broadcast (results : List DelegationResult) : Printed :=
  (print_each (delegation_row broadcast_layout) results).after
    [.out ("Received " ++ toString results.length ++ " result(s):")]

/-- The result of a delegation to one peer, without a daemon. -/
def print_delegation (r : DelegationResult) : Printed :=
  print_each (delegation_row single_layout) [r]

/-- The prefixes that a response shows are clean. -/
def Response.CleanKeys : Response → Prop
  | .TaskDelegate results => ∀ r ∈ results, Clean 12 r.agent_id
  | .TaskHistoryList entries _ => ∀ e ∈ entries, Clean (peer_width e) e.peer_pubkey
  | _ => True

theorem delegation_rows_panic (layout : Layout) (results : List DelegationResult) :
    (print_each (delegation_row layout) results).2 = none ↔ ∀ r ∈ results, Clean 12 r.agent_id :=
  print_each_shown (fun _ => 12) DelegationResult.agent_id (delegation_lines layout) results

theorem history_rows_panic (entries : List history.HistoryEntry) :
    (print_each history_row entries).2 = none ↔
      ∀ e ∈ entries, Clean (peer_width e) e.peer_pubkey :=
  print_each_shown peer_width history.HistoryEntry.peer_pubkey history_lines entries

theorem print_daemon_response_panic (resp : Response) :
    (∀ printed, print_daemon_response resp = .ok printed → printed.2 = none) ↔
      resp.CleanKeys := by
  rcases resp with _ | (_ | ⟨t, results⟩) | results | ⟨entries, history_path⟩ | message
  · exact iff_of_true (by rintro _ ⟨⟩; rfl) trivial
  · exact iff_of_true (by rintro _ ⟨⟩; rfl) trivial
  · exact iff_of_true (by rintro _ ⟨⟩; rfl) trivial
  · rw [Response.CleanKeys, ← delegation_rows_panic daemon_layout]
    constructor
    · intro h
      have hnone := h _ rfl
      exact hnone
    · rintro h _ ⟨⟩
      exact h
  · rw [Response.CleanKeys, ← history_rows_panic]
    constructor
    · intro h
      have hnone := h _ rfl
      exact hnone
    · rintro h _ ⟨⟩
      exact h
  · exact iff_of_true nofun trivial

end task

namespace trust

def mode_debug : TrustMode → String
  | .Off => "Off"
  | .Enforce => "Enforce"
  | .Log => "Log"

/-- A text with spaces behind it, up to `width` characters. -/
def left_aligned (width : Nat) (text : String) : String :=
  text ++ String.ofList (List.replicate (width - text.length) ' ')

def entry_lines (entry : TrustEntry) (pubkey : String) : List Line :=
  let caps := if entry.capabilities.isEmpty then "(any)" else ", ".intercalate entry.capabilities
  [.out ("  " ++ pubkey ++ "  " ++ left_aligned 24 entry.nickname ++ " caps=[" ++ caps ++ "] " ++
    entry.notes.getD "")]

def entry_row (entry : TrustEntry) : Except Panic (List Line) :=
  (shown 16 entry.pubkey).map (entry_lines entry)

/-- `lmao trust list`, on the file. -/
def list (T : Toml) (files : Files) (path : String) (clock : Nat → SystemTime) :
    Except TrustError Printed :=
  (TrustList.load_from T files path clock).map fun list =>
    (print_each entry_row list.iter).after
      [.err ("trust file: " ++ path), .err ("mode:       " ++ mode_debug list.mode),
        .err ("entries:    " ++ toString list.len)]

/-- `lmao trust list`, on what the daemon answers. -/
def list_via_daemon (mode : String) (entries : List TrustEntry) (trust_file : Option String) :
    Printed :=
  (print_each entry_row entries).after
    (.err "Source: daemon" :: trust_file.toList.map (fun p => Line.err ("trust file: " ++ p)) ++
      [Line.err ("mode:       " ++ mode), Line.err ("entries:    " ++ toString entries.length)])

theorem entry_rows_panic (entries : List TrustEntry) :
    (print_each entry_row entries).2 = none ↔ ∀ e ∈ entries, Clean 16 e.pubkey :=
  print_each_shown (fun _ => 16) TrustEntry.pubkey entry_lines entries

/-- The keys in a file are clean. -/
def CleanFile (T : Toml) (files : Files) (path : String) (clock : Nat → SystemTime) : Prop :=
  ∀ text file, files path = some text → T.from_str clock text = some file →
    ∀ e ∈ file.peers, Clean 16 e.pubkey

/-- The list that is made of a file has the keys of the file. -/
theorem of_file_keys (file : TrustFile) (P : String → Prop) :
    (∀ e ∈ (TrustList.of_file file).iter, P e.pubkey) ↔ ∀ e ∈ file.peers, P e.pubkey := by
  have hkeys : ∀ pubkey, (∃ e ∈ (TrustList.of_file file).iter, e.pubkey = pubkey) ↔
      ∃ e ∈ file.peers, e.pubkey = pubkey := by
    intro pubkey
    rw [← TrustList.mem_entries_iff]
    unfold TrustList.of_file
    rw [TrustList.mem_foldl_add_iff]
    simp
  constructor
  · intro h e he
    obtain ⟨e', he', heq⟩ := (hkeys e.pubkey).mpr ⟨e, he, rfl⟩
    exact heq ▸ h e' he'
  · intro h e he
    obtain ⟨e', he', heq⟩ := (hkeys e.pubkey).mp ⟨e, he, rfl⟩
    exact heq ▸ h e' he'

theorem list_panic (T : Toml) (files : Files) (path : String) (clock : Nat → SystemTime) :
    (∀ printed, list T files path clock = .ok printed → printed.2 = none) ↔
      CleanFile T files path clock := by
  unfold list TrustList.load_from TrustList.from_toml_str CleanFile
  rcases hfile : files path with _ | text
  · refine iff_of_true ?_ nofun
    rintro _ ⟨⟩
    exact (entry_rows_panic _).mpr (by simp [TrustList.iter, TrustList.empty])
  · rcases hread : T.from_str clock text with _ | file
    · apply iff_of_true (by simp [hread, Except.map])
      rintro _ _ ⟨⟩ h
      cases hread.symm.trans h
    · simp only [hread, Option.map_some, Except.map]
      constructor
      · rintro h _ _ ⟨⟩ hfile'
        obtain rfl := Option.some.inj (hread.symm.trans hfile')
        have hnone := h _ rfl
        exact (of_file_keys file _).mp ((entry_rows_panic _).mp hnone)
      · rintro h _ ⟨⟩
        exact (entry_rows_panic _).mpr ((of_file_keys file _).mpr (h text file rfl hread))

end trust

/-! ## The law -/

/-- On each path, no panic happens if and only if every text that is cut there is
cut at a boundary, or is too short to be cut. -/
theorem previews_are_cut_at_boundaries_iff (libs : PresenceLibs) (node : LmaoNode L F)
    (rx : List (Bytes × UInt64)) (agent : LmaoNode L F) (env : Surroundings) (tasks : List Task)
    (resp : task.Response) (results : List DelegationResult) (T : Toml) (files : Files)
    (path : String) (clock : Nat → SystemTime) (mode : String) (entries : List TrustEntry)
    (trust_file : Option String) :
    ((∀ panic, (node.poll_presence libs ⟨true, true⟩ (.ok rx)).result ≠ .error (.panic panic)) ↔
      node.CleanWarnings libs ⟨true, true⟩ rx) ∧
    ((handle_batch agent env tasks).2 = none ↔
      ∀ i task, tasks[i]? = some task → ¬ Refused agent (tasks.take i) →
        CleanPreview agent env i task) ∧
    ((∀ printed, task.print_daemon_response resp = .ok printed → printed.2 = none) ↔
      resp.CleanKeys) ∧
    ((task.print_broadcast results).2 = none ↔ ∀ r ∈ results, Clean 12 r.agent_id) ∧
    (∀ r, (task.print_delegation r).2 = none ↔ Clean 12 r.agent_id) ∧
    ((∀ printed, trust.list T files path clock = .ok printed → printed.2 = none) ↔
      trust.CleanFile T files path clock) ∧
    ((trust.list_via_daemon mode entries trust_file).2 = none ↔
      ∀ e ∈ entries, Clean 16 e.pubkey) := by
  refine ⟨?_, handle_batch_panic agent env tasks, task.print_daemon_response_panic resp,
    task.delegation_rows_panic task.broadcast_layout results, fun r => ?_,
    trust.list_panic T files path clock, trust.entry_rows_panic entries⟩
  · rw [← not_iff_not, ← LmaoNode.poll_presence_panics_iff]
    simp
  · unfold task.print_delegation
    rw [task.delegation_rows_panic, List.forall_mem_singleton]

namespace Sample

/-- An id whose twelfth byte is inside of a character. -/
def odd_result : DelegationResult :=
  { parent_task_id := "t", subtask_id := "s", agent_id := "aaaaaaaaaaaé", result_text := none
    success := false, error := some "timeout" }

/-- The executor answers with one letter of one byte and a hundred of two. -/
def wordy : Surroundings :=
  { json := false
    run_exec := fun _ _ _ _ =>
      .ok { response := String.ofList ('a' :: List.replicate 100 'é'), log := "" }
    storage := none
    nonces := fun _ => ([], [])
    publish := fun _ _ _ => .ok () }

end Sample

/-- The agent and the listing panic on texts that are not ASCII. -/
theorem a_text_that_is_not_ascii_panics :
    (handle_batch Sample.busy_bob Sample.wordy [Sample.sub "sub-1"]).2 = some .char_boundary ∧
      task.print_daemon_response (.TaskDelegate [Sample.odd_result]) =
        .ok ([.err "Source: daemon"], some .char_boundary) ∧
      (trust.list_via_daemon "off"
        [{ pubkey := "aaaaaaaaaaaaaaaé", nickname := "n", capabilities := [], notes := none,
           encryption_pubkey := none, added_at := 0 }] none).2 = some .char_boundary := by
  decide +kernel

end cli

end lmao
