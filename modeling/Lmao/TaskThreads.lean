-- The list of tasks of the Basecamp UI (`tasksModel` of agent-ui/Main.qml): one list for all
-- tasks, that looks threaded as long as the tasks of a session stand next to each other.
import Mathlib.Order.Lattice
import Mathlib.Data.Prod.Lex
import Lmao.GroupedLists
import Lmao.Machine
import Lmao.StableSort

namespace lmao.basecamp.ui

open lists machine stable_sort

/-! ## The rows -/

inductive Status
  | running
  | done
  | error
deriving DecidableEq, Repr

/-- A row of `tasksModel`. -/
structure Row where
  task_id : String
  status : Status
  capability : String
  text : String
  agent_id : String
  body : String
  cid : String
  cidPayload : String
  cidLoading : Bool
  cidExpanded : Bool
  elapsedSecs : String
  error : String
  startedAt : Nat
  session_id : String
deriving DecidableEq, Repr

/-- The group of a task. A task without a session joins the session that is named after
it. -/
def _sessionKey (tasks : List Row) (t : Row) : String :=
  if t.session_id ≠ "" then t.session_id
  else if tasks.any fun r => r.session_id ≠ "" && r.session_id = t.task_id then t.task_id
  else "solo:" ++ t.task_id

/-- The loop for the first and the last index of a group. -/
def group_range (key : Row → String) (sid : String) :
    Nat → List Row → Option Nat × Option Nat → Option Nat × Option Nat
  | _, [], range => range
  | i, t :: ts, (firstIdx, lastIdx) =>
    if key t = sid then group_range key sid (i + 1) ts (firstIdx.or (some i), some i)
    else group_range key sid (i + 1) ts (firstIdx, lastIdx)

/-- `insert` of a list model. -/
def insert (i : Nat) (t : Row) (tasks : List Row) : List Row := tasks.take i ++ t :: tasks.drop i

/-- `move` of a list model, to the index 0. -/
def move_to_top (i n : Nat) (tasks : List Row) : List Row :=
  (tasks.drop i).take n ++ (tasks.take i ++ tasks.drop (i + n))

def insertTaskInOrder (tasks : List Row) (t : Row) : List Row :=
  let sid := _sessionKey tasks t
  match group_range (_sessionKey tasks) sid 0 tasks (none, none) with
  | (some firstIdx, some lastIdx) =>
    let insertAt := lastIdx + 1
    let blockLen := insertAt - firstIdx + 1
    if firstIdx > 0 then move_to_top firstIdx blockLen (insert insertAt t tasks)
    else insert insertAt t tasks
  | _ => insert 0 t tasks

/-- The time of the latest task of each group. -/
def recency (tasks : List Row) : String → Nat :=
  tasks.foldl (fun latest r =>
    let sk := _sessionKey tasks r
    if latest sk = 0 ∨ r.startedAt > latest sk then Function.update latest sk r.startedAt
    else latest) fun _ => 0

/-- What the rows are sorted by: the latest group first, and in a group the oldest row. -/
def order (tasks : List Row) (t : Row) : Nat ᵒᵈ ×ₗ Nat :=
  toLex (OrderDual.toDual (recency tasks (_sessionKey tasks t)), t.startedAt)

def reorderTasksBySession (tasks : List Row) : List Row :=
  if tasks.length ≤ 1 then tasks else sort_by_key (order tasks) tasks

/-! ## The events -/

/-- The white space of regular expressions and of `trim`. -/
def js_space (c : Char) : Bool :=
  let n := c.toNat
  (9 ≤ n && n ≤ 13) || n == 32 || n == 0xa0 || n == 0x1680 || (0x2000 ≤ n && n ≤ 0x200a) ||
    n == 0x2028 || n == 0x2029 || n == 0x202f || n == 0x205f || n == 0x3000 || n == 0xfeff

def js_trim (s : List Char) : List Char :=
  ((s.dropWhile js_space).reverse.dropWhile js_space).reverse

/-- The rest behind a text, if it stands in front. -/
def skip (text : String) (s : List Char) : Option (List Char) :=
  if text.toList.isPrefixOf s then some (s.drop text.length) else none

/-- The whole of a text is a footer with the link to the execution log. -/
def is_footer (s : List Char) : Bool :=
  let dashes := s.dropWhile js_space
  let label := (dashes.dropWhile (· = '-')).dropWhile js_space
  dashes.head? = some '-' &&
    match skip "execution log:" label with
    | none => false
    | some link =>
      match skip "codex://" (link.dropWhile js_space) with
      | none => false
      | some cid =>
        (cid.takeWhile Char.isAlphanum).length > 0 &&
          (cid.dropWhile Char.isAlphanum).all js_space

/-- The text without the footer at its end. -/
def strip_footer : List Char → List Char
  | [] => []
  | c :: cs => if is_footer (c :: cs) then [] else c :: strip_footer cs

/-- What an event says, with "" for what is not there. -/
structure DelegateComplete where
  task_id : String
  success : Bool
  agent_id : String
  body : String
  cid : String
  error : String
  elapsed_ms : Nat

structure FetchCidComplete where
  cid : String
  success : Bool
  payload_b64 : String
  error : String

/-- `(ms / 1000).toFixed(1)`, and `_decodeBase64Utf8`. -/
structure Texts where
  seconds : Nat → String
  decode : String → String

variable (T : Texts)

def Row.complete (e : DelegateComplete) (t : Row) : Row :=
  { t with
    status := if e.success then .done else .error
    agent_id := e.agent_id
    body := String.ofList (js_trim (strip_footer e.body.toList))
    cid := e.cid
    elapsedSecs := T.seconds e.elapsed_ms
    error := e.error }

/-- Only the first row of the task changes. -/
def complete_first (e : DelegateComplete) : List Row → List Row
  | [] => []
  | t :: ts => if t.task_id = e.task_id then t.complete T e :: ts else t :: complete_first e ts

def handleDelegateComplete (e : DelegateComplete) (tasks : List Row) : List Row :=
  if e.task_id = "" then tasks else complete_first T e tasks

def handleFetchCidComplete (e : FetchCidComplete) (tasks : List Row) : List Row :=
  if e.cid = "" then tasks
  else
    let payload :=
      if e.success then T.decode e.payload_b64
      else "Error: " ++ if e.error = "" then "fetch failed" else e.error
    tasks.map fun t =>
      if t.cid = e.cid then { t with cidPayload := payload, cidLoading := false } else t

/-- A row of the history of the daemon. -/
structure HistoryRow where
  task_id : String
  success : Bool
  capability : String
  text : String
  peer_pubkey : String
  body : String
  cid : String
  elapsed_ms : Nat
  error : String
  created_at_ms : Nat
  session_id : String

def HistoryRow.row (e : HistoryRow) : Row where
  task_id := e.task_id
  status := if e.success then .done else .error
  capability := e.capability
  text := e.text
  agent_id := e.peer_pubkey
  body := e.body
  cid := e.cid
  cidPayload := ""
  cidLoading := false
  cidExpanded := false
  elapsedSecs := T.seconds e.elapsed_ms
  error := e.error
  startedAt := e.created_at_ms
  session_id := e.session_id

/-- The row of a task that the module accepted. -/
def Row.delegated (task_id capability text session_id : String) (now : Nat) : Row where
  task_id := task_id
  status := .running
  capability := capability
  text := text
  agent_id := ""
  body := ""
  cid := ""
  cidPayload := ""
  cidLoading := false
  cidExpanded := false
  elapsedSecs := "0"
  error := ""
  startedAt := now
  session_id := session_id

/-- The row of a task that it did not. The clock is read twice. -/
def Row.refused (capability text session_id error : String) (now startedAt : Nat) : Row :=
  { Row.delegated ("err-" ++ toString now) capability text session_id startedAt with
    status := .error, error := if error = "" then "no task_id from agent" else error }

/-- A click on the chip of the log. -/
def Row.view_log (t : Row) : Row :=
  if t.cidExpanded then { t with cidExpanded := false }
  else if t.cidPayload ≠ "" then { t with cidExpanded := true }
  else { t with cidLoading := true, cidExpanded := true }

/-! ## The list -/

structure Tasks where
  tasks : List Row
  historyLoaded : Bool

inductive UiOp
  | loadHistory (entries : List HistoryRow)
  | delegated (task_id capability text session_id : String) (now : Nat)
  | refused (capability text session_id error : String) (now startedAt : Nat)
  | delegate_complete (e : DelegateComplete)
  | fetch_cid_complete (e : FetchCidComplete)
  | clear_done
  | view_log (i : Nat)

namespace Tasks

def new : Tasks := { tasks := [], historyLoaded := false }

def step (s : Tasks) : UiOp → Except Empty (Tasks × List Unit)
  | .loadHistory entries =>
    if s.historyLoaded then .ok (s, [])
    else
      .ok ({ tasks := reorderTasksBySession (s.tasks ++ entries.map (HistoryRow.row T)),
             historyLoaded := true }, [])
  | .delegated task_id capability text session_id now =>
    .ok ({ s with tasks := insertTaskInOrder s.tasks
                    (.delegated task_id capability text session_id now) }, [])
  | .refused capability text session_id error now startedAt =>
    .ok ({ s with tasks := insertTaskInOrder s.tasks
                    (.refused capability text session_id error now startedAt) }, [])
  | .delegate_complete e => .ok ({ s with tasks := handleDelegateComplete T e s.tasks }, [])
  | .fetch_cid_complete e => .ok ({ s with tasks := handleFetchCidComplete T e s.tasks }, [])
  | .clear_done => .ok ({ s with tasks := s.tasks.filter (·.status = .running) }, [])
  | .view_log i => .ok ({ s with tasks := s.tasks.modify i Row.view_log }, [])

end Tasks

/-! ## Threads -/

/-- The session of a task, or the one that is named after it. -/
def Row.thread (t : Row) : String := if t.session_id ≠ "" then t.session_id else t.task_id

/-- Some row belongs to the session. -/
def Named (tasks : List Row) (session : String) : Prop := ∃ r ∈ tasks, r.session_id = session

/-- A name that is no key of a single task. -/
def PlainName (name : String) : Prop := ¬ "solo:".toList <+: name.toList

instance (name : String) : Decidable (PlainName name) := inferInstanceAs (Decidable (¬ _))

def Row.Plain (t : Row) : Prop := PlainName t.task_id ∧ PlainName t.session_id

instance (t : Row) : Decidable t.Plain := inferInstanceAs (Decidable (_ ∧ _))

theorem PlainName.ne_solo {name : String} (h : PlainName name) (task_id : String) :
    name ≠ "solo:" ++ task_id := by
  intro heq
  apply h
  rw [heq, String.toList_append]
  exact List.prefix_append ..

theorem _sessionKey_stamped {tasks : List Row} {t : Row} (h : t.session_id ≠ "") :
    _sessionKey tasks t = t.session_id := if_pos h

theorem _sessionKey_named {tasks : List Row} {t : Row} (h : t.session_id = "")
    (hne : t.task_id ≠ "") (hnamed : Named tasks t.task_id) :
    _sessionKey tasks t = t.task_id := by
  obtain ⟨r, hr, hsession⟩ := hnamed
  unfold _sessionKey
  rw [if_neg (not_not.mpr h), if_pos]
  apply List.any_eq_true.mpr
  refine ⟨r, hr, ?_⟩
  rw [hsession]
  simpa using hne

theorem _sessionKey_solo {tasks : List Row} {t : Row} (h : t.session_id = "")
    (hnamed : t.task_id = "" ∨ ¬ Named tasks t.task_id) :
    _sessionKey tasks t = "solo:" ++ t.task_id := by
  unfold _sessionKey
  rw [if_neg (not_not.mpr h), if_neg]
  intro hany
  obtain ⟨r, hr, hsession⟩ := List.any_eq_true.mp hany
  rw [Bool.and_eq_true, decide_eq_true_eq, decide_eq_true_eq] at hsession
  rcases hnamed with hempty | hnone
  · exact hsession.1 (hsession.2.trans hempty)
  · exact hnone ⟨r, hr, hsession.2⟩

/-- What the key of a task is. -/
inductive KeyOf (tasks : List Row) (t : Row) : Prop
  | stamped (h : t.session_id ≠ "") (hkey : _sessionKey tasks t = t.session_id)
      (hthread : t.thread = t.session_id)
  | named (h : t.session_id = "") (hne : t.task_id ≠ "") (hnamed : Named tasks t.task_id)
      (hkey : _sessionKey tasks t = t.task_id) (hthread : t.thread = t.task_id)
  | solo (h : t.session_id = "") (hnone : t.task_id ≠ "" → ¬ Named tasks t.task_id)
      (hkey : _sessionKey tasks t = "solo:" ++ t.task_id) (hthread : t.thread = t.task_id)

theorem key_of (tasks : List Row) (t : Row) : KeyOf tasks t := by
  by_cases h : t.session_id = ""
  · have hthread : t.thread = t.task_id := if_neg (not_not.mpr h)
    by_cases hnamed : t.task_id ≠ "" ∧ Named tasks t.task_id
    · exact .named h hnamed.1 hnamed.2 (_sessionKey_named h hnamed.1 hnamed.2) hthread
    · rw [not_and] at hnamed
      exact .solo h hnamed (_sessionKey_solo h (or_iff_not_imp_left.mpr hnamed)) hthread
  · exact .stamped h (_sessionKey_stamped h) (if_pos h)

/-- A row of the list is in the group of a task, new or old, if it is in its thread, and the
task is not the first that names its session. -/
theorem _sessionKey_eq_iff {tasks : List Row} {r t : Row} (hr : r ∈ tasks) (hrplain : r.Plain)
    (htplain : t.Plain) :
    _sessionKey tasks r = _sessionKey tasks t ↔
      r.thread = t.thread ∧ (t.session_id = "" ∨ Named tasks t.session_id) := by
  cases key_of tasks t with
  | stamped ht hkey hthread =>
    rw [hkey, hthread]
    cases key_of tasks r with
    | stamped hr' hrkey hrthread =>
      rw [hrkey, hrthread]
      exact ⟨fun heq => ⟨heq, .inr ⟨r, hr, heq⟩⟩, And.left⟩
    | named hr' hne hnamed hrkey hrthread =>
      rw [hrkey, hrthread]
      exact ⟨fun heq => ⟨heq, .inr (heq ▸ hnamed)⟩, And.left⟩
    | solo hr' hnone hrkey hrthread =>
      rw [hrkey, hrthread]
      refine ⟨fun heq => absurd heq.symm (htplain.2.ne_solo _), ?_⟩
      rintro ⟨heq, hnamed⟩
      rw [← heq] at ht hnamed
      exact absurd (hnamed.resolve_left ht) (hnone ht)
  | named ht hne hnamed hkey hthread =>
    rw [hkey, hthread, and_iff_left (.inl ht)]
    cases key_of tasks r with
    | stamped hr' hrkey hrthread => rw [hrkey, hrthread]
    | named hr' hrne hrnamed hrkey hrthread => rw [hrkey, hrthread]
    | solo hr' hnone hrkey hrthread =>
      rw [hrkey, hrthread]
      refine ⟨fun heq => absurd heq.symm (htplain.1.ne_solo _), ?_⟩
      intro heq
      rw [← heq] at hne hnamed
      exact absurd hnamed (hnone hne)
  | solo ht hnone hkey hthread =>
    rw [hkey, hthread, and_iff_left (.inl ht)]
    cases key_of tasks r with
    | stamped hr' hrkey hrthread =>
      rw [hrkey, hrthread]
      refine ⟨fun heq => absurd heq (hrplain.2.ne_solo _), ?_⟩
      intro heq
      exact absurd ⟨r, hr, heq⟩ (hnone (heq ▸ hr'))
    | named hr' hrne hrnamed hrkey hrthread =>
      rw [hrkey, hrthread]
      refine ⟨fun heq => absurd heq (hrplain.1.ne_solo _), ?_⟩
      intro heq
      exact absurd (heq ▸ hrnamed) (hnone (heq ▸ hrne))
    | solo hr' hrnone hrkey hrthread =>
      rw [hrkey, hrthread]
      exact String.append_right_inj _

/-- In the list itself, the groups are the threads. -/
theorem _sessionKey_eq_iff_thread {tasks : List Row} (hplain : ∀ r ∈ tasks, r.Plain) {r t : Row}
    (hr : r ∈ tasks) (ht : t ∈ tasks) :
    _sessionKey tasks r = _sessionKey tasks t ↔ r.thread = t.thread := by
  rw [_sessionKey_eq_iff hr (hplain r hr) (hplain t ht), and_iff_left (.inr ⟨t, ht, rfl⟩)]

/-- The tasks of each session stand next to each other. -/
def Threaded (tasks : List Row) : Prop := Grouped (_sessionKey tasks) tasks

theorem threaded_iff {tasks : List Row} (hplain : ∀ r ∈ tasks, r.Plain) :
    Threaded tasks ↔ Grouped Row.thread tasks := by
  have hsame : ∀ a ∈ tasks, ∀ b ∈ tasks,
      _sessionKey tasks a = _sessionKey tasks b ↔ a.thread = b.thread :=
    fun a ha b hb => _sessionKey_eq_iff_thread hplain ha hb
  exact ⟨fun h => h.congr fun a ha b hb => (hsame a ha b hb).symm, fun h => h.congr hsame⟩

/-! ## A new task -/

theorem group_range_cons (key : Row → String) (sid : String) (i : Nat) (t : Row) (ts : List Row)
    (range : Option Nat × Option Nat) :
    group_range key sid i (t :: ts) range = group_range key sid (i + 1) ts
      (if key t = sid then (range.1.or (some i), some i) else range) := by
  rw [group_range]
  split <;> rfl

/-- The loop passes over the rows of other groups. -/
theorem group_range_other {key : Row → String} {sid : String} {tasks : List Row}
    (h : ∀ r ∈ tasks, key r ≠ sid) (i : Nat) (range : Option Nat × Option Nat) :
    group_range key sid i tasks range = range := by
  induction tasks generalizing i with
  | nil => rfl
  | cons t ts ih =>
    rw [group_range_cons, if_neg (h t (List.mem_cons_self ..))]
    exact ih (fun r hr => h r (List.mem_cons_of_mem t hr)) (i + 1)

theorem group_range_append (key : Row → String) (sid : String) (xs ys : List Row) (i : Nat)
    (range : Option Nat × Option Nat) :
    group_range key sid i (xs ++ ys) range =
      group_range key sid (i + xs.length) ys (group_range key sid i xs range) := by
  induction xs generalizing i range with
  | nil => rfl
  | cons x xs ih =>
    rw [List.cons_append, group_range_cons, group_range_cons, ih, List.length_cons]
    congr 1
    omega

theorem group_range_block {key : Row → String} {sid : String} {xs : List Row}
    (h : ∀ r ∈ xs, key r = sid) (i first last : Nat) :
    group_range key sid i xs (some first, some last) =
      (some first, some (if xs = [] then last else i + xs.length - 1)) := by
  induction xs generalizing i last with
  | nil => rfl
  | cons x xs ih =>
    rw [group_range_cons, if_pos (h x (List.mem_cons_self ..)), Option.some_or,
      ih (fun r hr => h r (List.mem_cons_of_mem x hr)), if_neg (List.cons_ne_nil x xs)]
    split
    case isTrue hnil =>
      subst hnil
      rfl
    case isFalse =>
      rw [List.length_cons]
      congr 2
      omega

theorem insert_append (xs ys : List Row) (t : Row) :
    insert xs.length t (xs ++ ys) = xs ++ t :: ys := by
  unfold insert
  rw [List.take_left, List.drop_left]

theorem move_to_top_append (pre block post : List Row) :
    move_to_top pre.length block.length (pre ++ (block ++ post)) = block ++ (pre ++ post) := by
  unfold move_to_top
  rw [List.drop_left, List.take_left, List.take_left, ← List.append_assoc pre block post,
    ← List.length_append, List.drop_left]

/-- The group of the new task goes to the top, and the task is its last row. -/
theorem insertTaskInOrder_eq {tasks : List Row} (h : Threaded tasks) (t : Row) :
    insertTaskInOrder tasks t =
      tasks.filter (_sessionKey tasks · = _sessionKey tasks t) ++
        t :: tasks.filter (_sessionKey tasks · ≠ _sessionKey tasks t) := by
  obtain ⟨pre, post, hsplit, hpre, hpost⟩ := h.split (_sessionKey tasks t)
  unfold insertTaskInOrder
  generalize _sessionKey tasks t = sid at hsplit hpre hpost ⊢
  generalize _sessionKey tasks = key at hsplit hpre hpost ⊢
  have hblock : ∀ r ∈ tasks.filter (key · = sid), key r = sid :=
    fun r hr => of_decide_eq_true (List.mem_filter.mp hr).2
  generalize tasks.filter (key · = sid) = block at hsplit hblock ⊢
  subst hsplit
  have hothers : (pre ++ block ++ post).filter (key · ≠ sid) = pre ++ post := by
    have hkeep : ∀ ys : List Row, (∀ r ∈ ys, key r ≠ sid) → ys.filter (key · ≠ sid) = ys :=
      fun ys hys => List.filter_eq_self.mpr fun r hr => decide_eq_true (hys r hr)
    have hnone : block.filter (key · ≠ sid) = [] :=
      List.filter_eq_nil_iff.mpr fun r hr heq => of_decide_eq_true heq (hblock r hr)
    rw [List.filter_append, List.filter_append, hkeep pre hpre, hkeep post hpost, hnone,
      List.append_nil]
  rw [hothers]
  dsimp only
  rw [group_range_append, group_range_append, group_range_other hpre]
  cases block with
  | nil =>
    rw [List.append_nil]
    dsimp only [group_range]
    rw [group_range_other hpost]
    rfl
  | cons b bs =>
    rw [group_range_cons, if_pos (hblock b (List.mem_cons_self ..)), Option.none_or,
      group_range_block fun r hr => hblock r (List.mem_cons_of_mem b hr),
      group_range_other hpost]
    have hlast : (if bs = [] then 0 + pre.length else 0 + pre.length + 1 + bs.length - 1) + 1 =
        (pre ++ b :: bs).length := by
      rw [List.length_append, List.length_cons]
      split
      case isTrue hnil =>
        subst hnil
        rw [List.length_nil]
        omega
      case isFalse => omega
    dsimp only
    rw [hlast, insert_append, Nat.zero_add]
    split
    case isTrue =>
      have hlen : (pre ++ b :: bs).length - pre.length + 1 = (b :: bs ++ [t]).length := by
        rw [List.length_append, List.length_append, List.length_singleton]
        omega
      have hlist : pre ++ b :: bs ++ t :: post = pre ++ (b :: bs ++ [t] ++ post) := by
        simp only [List.append_assoc, List.cons_append, List.nil_append]
      rw [hlen, hlist, move_to_top_append]
      simp only [List.append_assoc, List.cons_append, List.nil_append]
    case isFalse hfirst =>
      have hnil : pre = [] := List.length_eq_zero_iff.mp (Nat.eq_zero_of_not_pos hfirst)
      subst hnil
      rfl

theorem insert_perm (i : Nat) (t : Row) (tasks : List Row) :
    (insert i t tasks).Perm (t :: tasks) := by
  unfold insert
  apply List.perm_middle.trans
  rw [List.take_append_drop]

theorem move_to_top_perm (i n : Nat) (tasks : List Row) : (move_to_top i n tasks).Perm tasks := by
  unfold move_to_top
  rw [← List.append_assoc, ← List.drop_drop]
  apply (List.perm_append_comm.append_right _).trans
  rw [List.append_assoc, List.take_append_drop, List.take_append_drop]

theorem insertTaskInOrder_perm (tasks : List Row) (t : Row) :
    (insertTaskInOrder tasks t).Perm (t :: tasks) := by
  unfold insertTaskInOrder
  dsimp only
  split
  · split
    · exact (move_to_top_perm ..).trans (insert_perm ..)
    · exact insert_perm ..
  · exact insert_perm ..

theorem mem_insertTaskInOrder {tasks : List Row} {t r : Row} :
    r ∈ insertTaskInOrder tasks t ↔ r = t ∨ r ∈ tasks := by
  rw [(insertTaskInOrder_perm tasks t).mem_iff, List.mem_cons]

/-- The task has no session, or one that a row has. If only rows without a session are in its
thread, they are at the top. -/
def Follows (tasks : List Row) (t : Row) : Prop :=
  t.session_id = "" ∨ Named tasks t.session_id ∨
    ∀ r ∈ tasks, r.thread = t.thread → ∀ c ∈ tasks.head?, c.thread = t.thread

instance (tasks : List Row) (session : String) : Decidable (Named tasks session) :=
  inferInstanceAs (Decidable (∃ r ∈ tasks, _))

instance (tasks : List Row) (t : Row) : Decidable (Follows tasks t) :=
  inferInstanceAs (Decidable (_ ∨ _ ∨ _))

/-- The thread of the new task goes to the top, with the task as its last row. -/
theorem insertTaskInOrder_named {tasks : List Row} (h : Threaded tasks)
    (hplain : ∀ r ∈ tasks, r.Plain) {t : Row} (ht : t.Plain)
    (hnamed : t.session_id = "" ∨ Named tasks t.session_id) :
    insertTaskInOrder tasks t =
      tasks.filter (Row.thread · = t.thread) ++ t :: tasks.filter (Row.thread · ≠ t.thread) := by
  have hiff : ∀ r ∈ tasks, _sessionKey tasks r = _sessionKey tasks t ↔ r.thread = t.thread := by
    intro r hr
    rw [_sessionKey_eq_iff hr (hplain r hr) ht, and_iff_left hnamed]
  rw [insertTaskInOrder_eq h]
  congr 1
  · exact List.filter_congr fun r hr => decide_eq_decide.mpr (hiff r hr)
  · congr 1
    exact List.filter_congr fun r hr => decide_eq_decide.mpr (not_congr (hiff r hr))

/-- The first task that names its session comes on top of everything. -/
theorem insertTaskInOrder_first {tasks : List Row} (h : Threaded tasks)
    (hplain : ∀ r ∈ tasks, r.Plain) {t : Row} (ht : t.Plain)
    (hfirst : ¬ (t.session_id = "" ∨ Named tasks t.session_id)) :
    insertTaskInOrder tasks t = t :: tasks := by
  have hother : ∀ r ∈ tasks, _sessionKey tasks r ≠ _sessionKey tasks t := by
    intro r hr heq
    exact hfirst ((_sessionKey_eq_iff hr (hplain r hr) ht).mp heq).2
  rw [insertTaskInOrder_eq h, List.filter_eq_self.mpr fun r hr => decide_eq_true (hother r hr),
    List.filter_eq_nil_iff.mpr fun r hr heq => hother r hr (of_decide_eq_true heq)]
  rfl

/-- A new task keeps the threads together, unless it is the first follow-up of a task without
a session that is not at the top. -/
theorem threaded_insertTaskInOrder_iff {tasks : List Row} (h : Threaded tasks)
    (hplain : ∀ r ∈ tasks, r.Plain) {t : Row} (ht : t.Plain) :
    Threaded (insertTaskInOrder tasks t) ↔ Follows tasks t := by
  have hgrouped : Grouped Row.thread tasks := (threaded_iff hplain).mp h
  have hplain' : ∀ r ∈ insertTaskInOrder tasks t, r.Plain := by
    intro r hr
    rcases mem_insertTaskInOrder.mp hr with rfl | hr
    · exact ht
    · exact hplain r hr
  rw [threaded_iff hplain']
  by_cases hnamed : t.session_id = "" ∨ Named tasks t.session_id
  · rw [insertTaskInOrder_named h hplain ht hnamed]
    refine ⟨fun _ => ?_, fun _ => hgrouped.to_front t⟩
    exact hnamed.imp id .inl
  · rw [insertTaskInOrder_first h hplain ht hnamed, grouped_cons_iff, and_iff_right hgrouped]
    rw [not_or] at hnamed
    unfold Follows
    rw [or_iff_right hnamed.1, or_iff_right hnamed.2]

/-! ## The history -/

/-- No two groups have their latest task at the same time. -/
def Apart (tasks : List Row) : Prop :=
  ∀ a ∈ tasks, ∀ b ∈ tasks,
    recency tasks (_sessionKey tasks a) = recency tasks (_sessionKey tasks b) →
      _sessionKey tasks a = _sessionKey tasks b

instance (tasks : List Row) : Decidable (Apart tasks) :=
  inferInstanceAs (Decidable (∀ a ∈ tasks, ∀ b ∈ tasks, _))

theorem mem_reorderTasksBySession {tasks : List Row} {r : Row} :
    r ∈ reorderTasksBySession tasks ↔ r ∈ tasks := by
  unfold reorderTasksBySession
  split
  · rfl
  · exact mem_sort_by_key

/-- Sorted by the latest task of each group, the threads stand together. -/
theorem grouped_reorderTasksBySession {tasks : List Row} (hplain : ∀ r ∈ tasks, r.Plain)
    (hapart : Apart tasks) : Grouped Row.thread (reorderTasksBySession tasks) := by
  have hsorted : (reorderTasksBySession tasks).Pairwise fun a b =>
      OrderDual.toDual (recency tasks (_sessionKey tasks a)) ≤
        OrderDual.toDual (recency tasks (_sessionKey tasks b)) := by
    unfold reorderTasksBySession
    split
    case isTrue hshort =>
      rcases tasks with _ | ⟨a, _ | ⟨b, rest⟩⟩
      · exact .nil
      · exact List.pairwise_singleton _ a
      · simp only [List.length_cons] at hshort
        omega
    case isFalse =>
      apply (sort_by_key_sorts (order tasks) tasks).sorted.imp
      intro a b hab
      rcases Prod.Lex.le_iff.mp hab with hlt | ⟨heq, -⟩
      · exact le_of_lt hlt
      · exact le_of_eq heq
  apply Grouped.of_sorted hsorted
  intro a ha b hb
  rw [mem_reorderTasksBySession] at ha hb
  rw [← _sessionKey_eq_iff_thread hplain ha hb]
  refine ⟨fun heq => hapart a ha b hb (OrderDual.toDual_inj.mp heq), ?_⟩
  intro heq
  rw [heq]

/-! ## Threads along a run -/

/-- What the other events leave alone. -/
def Row.ids (t : Row) : String × String := (t.task_id, t.session_id)

theorem Row.plain_iff_ids (t : Row) : t.Plain ↔ PlainName t.ids.1 ∧ PlainName t.ids.2 := Iff.rfl

variable {T : Texts}

theorem ids_complete_first (e : DelegateComplete) (tasks : List Row) :
    (complete_first T e tasks).map Row.ids = tasks.map Row.ids := by
  induction tasks with
  | nil => rfl
  | cons t ts ih =>
    unfold complete_first
    split
    · rfl
    · rw [List.map_cons, List.map_cons, ih]

theorem ids_handleDelegateComplete (e : DelegateComplete) (tasks : List Row) :
    (handleDelegateComplete T e tasks).map Row.ids = tasks.map Row.ids := by
  unfold handleDelegateComplete
  split
  · rfl
  · exact ids_complete_first e tasks

theorem ids_handleFetchCidComplete (e : FetchCidComplete) (tasks : List Row) :
    (handleFetchCidComplete T e tasks).map Row.ids = tasks.map Row.ids := by
  unfold handleFetchCidComplete
  split
  · rfl
  · dsimp only
    rw [List.map_map]
    apply List.map_congr_left
    intro t _
    rw [Function.comp_apply]
    split <;> rfl

theorem Row.view_log_cases (t : Row) :
    ∃ loading expanded, t.view_log = { t with cidLoading := loading, cidExpanded := expanded } := by
  unfold Row.view_log
  split
  · exact ⟨_, _, rfl⟩
  · split
    · exact ⟨_, _, rfl⟩
    · exact ⟨_, _, rfl⟩

theorem map_modify_view_log {β : Type} (f : Row → β) (hf : ∀ t : Row, f t.view_log = f t) (i : Nat)
    (tasks : List Row) : (tasks.modify i Row.view_log).map f = tasks.map f := by
  induction tasks generalizing i with
  | nil => cases i <;> rfl
  | cons t ts ih =>
    cases i with
    | zero =>
      rw [List.modify_zero_cons, List.map_cons, List.map_cons, hf]
    | succ i => rw [List.modify_succ_cons, List.map_cons, List.map_cons, ih]

theorem ids_view_log (t : Row) : t.view_log.ids = t.ids := by
  obtain ⟨loading, expanded, heq⟩ := t.view_log_cases
  rw [heq]
  rfl

def UiOp.Plain : UiOp → Prop
  | .loadHistory entries => ∀ e ∈ entries, PlainName e.task_id ∧ PlainName e.session_id
  | .delegated task_id _ _ session_id _ => PlainName task_id ∧ PlainName session_id
  | .refused _ _ session_id _ _ _ => PlainName session_id
  | _ => True

namespace Tasks

variable {s s' : Tasks}

/-- A history that is loaded has no two groups with the same time. -/
def LoadsApart (T : Texts) (s : Tasks) : UiOp → Prop
  | .loadHistory entries =>
    s.historyLoaded = false → Apart (s.tasks ++ entries.map (HistoryRow.row T))
  | _ => True

/-- A new task is no first follow-up of an older one below the top. -/
def FollowsOn (s : Tasks) : UiOp → Prop
  | .delegated task_id capability text session_id now =>
    Follows s.tasks (.delegated task_id capability text session_id now)
  | .refused capability text session_id error now startedAt =>
    Follows s.tasks (.refused capability text session_id error now startedAt)
  | _ => True

instance (T : Texts) (s : Tasks) : (op : UiOp) → Decidable (s.LoadsApart T op)
  | .loadHistory _ => inferInstanceAs (Decidable (_ → _))
  | .delegated .. => .isTrue trivial
  | .refused .. => .isTrue trivial
  | .delegate_complete _ => .isTrue trivial
  | .fetch_cid_complete _ => .isTrue trivial
  | .clear_done => .isTrue trivial
  | .view_log _ => .isTrue trivial

instance (s : Tasks) : (op : UiOp) → Decidable (s.FollowsOn op)
  | .loadHistory _ => .isTrue trivial
  | .delegated .. => inferInstanceAs (Decidable (Follows _ _))
  | .refused .. => inferInstanceAs (Decidable (Follows _ _))
  | .delegate_complete _ => .isTrue trivial
  | .fetch_cid_complete _ => .isTrue trivial
  | .clear_done => .isTrue trivial
  | .view_log _ => .isTrue trivial

theorem refused_plain {capability text session_id error : String} {now startedAt : Nat}
    (h : PlainName session_id) :
    (Row.refused capability text session_id error now startedAt).Plain := by
  have hname : PlainName ("err-" ++ toString now) := by
    intro hprefix
    rw [String.toList_append] at hprefix
    obtain ⟨rest, hrest⟩ := hprefix
    have hfirst : 's' = 'e' := (List.cons.inj hrest).1
    exact absurd hfirst (by decide)
  exact ⟨hname, h⟩

/-- The names stay plain. -/
theorem step_plain (hplain : ∀ r ∈ s.tasks, r.Plain) {op : UiOp} (hop : op.Plain)
    {out : List Unit} (hstep : s.step T op = .ok (s', out)) : ∀ r ∈ s'.tasks, r.Plain := by
  have hids : s'.tasks.map Row.ids = s.tasks.map Row.ids → ∀ r ∈ s'.tasks, r.Plain := by
    intro hsame r hr
    have hmem : r.ids ∈ s.tasks.map Row.ids := hsame ▸ List.mem_map_of_mem hr
    obtain ⟨r₀, hr₀, heq⟩ := List.mem_map.mp hmem
    rw [Row.plain_iff_ids, ← heq, ← Row.plain_iff_ids]
    exact hplain r₀ hr₀
  cases op with
  | loadHistory entries =>
    unfold step at hstep
    dsimp only at hstep
    split at hstep
    case isTrue =>
      cases hstep
      exact hplain
    case isFalse =>
      cases hstep
      intro r hr
      rcases List.mem_append.mp (mem_reorderTasksBySession.mp hr) with hr | hr
      · exact hplain r hr
      · obtain ⟨e, he, rfl⟩ := List.mem_map.mp hr
        exact hop e he
  | delegated task_id capability text session_id now =>
    cases hstep
    intro r hr
    rcases mem_insertTaskInOrder.mp hr with rfl | hr
    · exact hop
    · exact hplain r hr
  | refused capability text session_id error now startedAt =>
    cases hstep
    intro r hr
    rcases mem_insertTaskInOrder.mp hr with rfl | hr
    · exact refused_plain hop
    · exact hplain r hr
  | delegate_complete e =>
    cases hstep
    exact hids (ids_handleDelegateComplete e s.tasks)
  | fetch_cid_complete e =>
    cases hstep
    exact hids (ids_handleFetchCidComplete e s.tasks)
  | clear_done =>
    cases hstep
    exact fun r hr => hplain r (List.mem_filter.mp hr).1
  | view_log i =>
    cases hstep
    exact hids (map_modify_view_log Row.ids ids_view_log i s.tasks)

/-- One step from a threaded list. -/
theorem step_threaded_iff (hplain : ∀ r ∈ s.tasks, r.Plain) (h : Threaded s.tasks) {op : UiOp}
    (hop : op.Plain) (hapart : s.LoadsApart T op) {out : List Unit}
    (hstep : s.step T op = .ok (s', out)) : Threaded s'.tasks ↔ s.FollowsOn op := by
  have hplain' := step_plain hplain hop hstep
  have hgrouped := (threaded_iff hplain).mp h
  have hids : s'.tasks.map Row.ids = s.tasks.map Row.ids → Threaded s'.tasks := by
    intro hsame
    have hthreads : s'.tasks.map Row.thread = s.tasks.map Row.thread := by
      have hmap := congrArg (List.map fun ids : String × String =>
        if ids.2 ≠ "" then ids.2 else ids.1) hsame
      rw [List.map_map, List.map_map] at hmap
      exact hmap
    exact (threaded_iff hplain').mpr (hgrouped.of_map hthreads)
  cases op with
  | loadHistory entries =>
    unfold step at hstep
    dsimp only at hstep
    split at hstep
    case isTrue =>
      cases hstep
      exact ⟨fun _ => trivial, fun _ => h⟩
    case isFalse hloaded =>
      cases hstep
      refine ⟨fun _ => trivial, fun _ => (threaded_iff hplain').mpr ?_⟩
      apply grouped_reorderTasksBySession _ (hapart (Bool.not_eq_true _ ▸ hloaded))
      exact fun r hr => hplain' r (mem_reorderTasksBySession.mpr hr)
  | delegated task_id capability text session_id now =>
    cases hstep
    exact threaded_insertTaskInOrder_iff h hplain hop
  | refused capability text session_id error now startedAt =>
    cases hstep
    exact threaded_insertTaskInOrder_iff h hplain (refused_plain hop)
  | delegate_complete e =>
    cases hstep
    exact ⟨fun _ => trivial, fun _ => hids (ids_handleDelegateComplete e s.tasks)⟩
  | fetch_cid_complete e =>
    cases hstep
    exact ⟨fun _ => trivial, fun _ => hids (ids_handleFetchCidComplete e s.tasks)⟩
  | clear_done =>
    cases hstep
    exact ⟨fun _ => trivial, fun _ => (threaded_iff hplain').mpr (hgrouped.filter _)⟩
  | view_log i =>
    cases hstep
    exact ⟨fun _ => trivial, fun _ => hids (map_modify_view_log Row.ids ids_view_log i s.tasks)⟩

theorem step_total (T : Texts) (s : Tasks) (op : UiOp) : ∃ r, s.step T op = .ok r :=
  ends_ok (s.step T op)

theorem run_plain {ops : List UiOp} (hops : ∀ op ∈ ops, op.Plain) {log : List Unit}
    (hrun : run (step T) new ops = .ok (s, log)) : ∀ r ∈ s.tasks, r.Plain := by
  induction ops using List.reverseRecOn generalizing s log with
  | nil =>
    cases hrun
    nofun
  | append_singleton ops op ih =>
    obtain ⟨s₀, log₀, out, hrun₀, hstep, -⟩ := run_snoc_cases hrun
    exact step_plain (ih (fun op hop => hops op (List.mem_append_left _ hop)) hrun₀)
      (hops op (List.mem_append_right _ (List.mem_singleton_self op))) hstep

theorem always_threaded_iff {ops : List UiOp} (hops : ∀ op ∈ ops, op.Plain)
    (hapart : Meets (step T) (fun _ s op => s.LoadsApart T op) new ops) :
    Always (step T) (fun s => Threaded s.tasks) new ops ↔
      Meets (step T) (fun _ s op => s.FollowsOn op) new ops := by
  induction ops using List.reverseRecOn with
  | nil =>
    refine ⟨fun _ before op after heq => ?_, fun _ before after heq s log hrun => ?_⟩
    · exact absurd heq.symm (List.append_ne_nil_of_right_ne_nil _ (List.cons_ne_nil _ _))
    · rw [(List.append_eq_nil_iff.mp heq.symm).1] at hrun
      cases hrun
      exact grouped_nil
  | append_singleton ops op ih =>
    have hops₀ : ∀ op ∈ ops, op.Plain := fun op hop => hops op (List.mem_append_left _ hop)
    obtain ⟨hapart₀, hload⟩ := meets_snoc.mp hapart
    obtain ⟨⟨s, log⟩, hrun⟩ := run_total (step_total T) new ops
    obtain ⟨⟨s', out⟩, hstep⟩ := step_total T s op
    have hplain := run_plain hops₀ hrun
    have hop := hops op (List.mem_append_right _ (List.mem_singleton_self op))
    rw [always_snoc, meets_snoc, ← ih hops₀ hapart₀]
    have hnext : Threaded s.tasks → (Threaded s'.tasks ↔ s.FollowsOn op) := fun h =>
      step_threaded_iff hplain h hop (hload s log hrun) hstep
    have hthreaded : Always (step T) (fun s => Threaded s.tasks) new ops → Threaded s.tasks :=
      fun h => h ops [] (List.append_nil ops).symm s log hrun
    refine and_congr_right fun h => ⟨?_, ?_⟩
    · intro hlast s₁ log₁ hrun₁
      cases hrun.symm.trans hrun₁
      exact (hnext (hthreaded h)).mp (hlast _ _ (run_snoc_ok hrun hstep))
    · intro hfollows s₁ log₁ hrun₁
      cases (run_snoc_ok hrun hstep).symm.trans hrun₁
      exact (hnext (hthreaded h)).mpr (hfollows s log hrun)

end Tasks

namespace Sample

def texts : Texts := { seconds := fun _ => "0.0", decode := id }

/-- A task of the history, from before there were sessions. -/
def old_task (task_id : String) (created_at_ms : Nat) : HistoryRow where
  task_id := task_id
  success := true
  capability := "text"
  text := "hi"
  peer_pubkey := "02"
  body := "ok"
  cid := ""
  elapsed_ms := 1000
  error := ""
  created_at_ms := created_at_ms
  session_id := ""

/-- Two old tasks, of which the later one is at the top, and a follow-up. -/
def follow_up (task_id : String) : List UiOp :=
  [.loadHistory [old_task "a" 1, old_task "b" 2], .delegated "c" "text" "and?" task_id 3]

def answer (task_id : String) : UiOp :=
  .delegate_complete
    { task_id, success := true, agent_id := "02", body := "ok", cid := "", error := "",
      elapsed_ms := 5 }

end Sample

/-- A row without the state of its log. -/
def Row.card (t : Row) : Row :=
  { t with cidPayload := "", cidLoading := false, cidExpanded := false }

/-- What the list is for: the card of each task, and whether the history is there. -/
structure Cards where
  card : String → Option Row
  historyLoaded : Bool

namespace Cards

def new : Cards := { card := fun _ => none, historyLoaded := false }

def put (c : Cards) (t : Row) : Cards :=
  { c with card := Function.update c.card t.task_id (some t) }

def step (T : Texts) (c : Cards) : UiOp → Cards
  | .loadHistory entries =>
    if c.historyLoaded then c
    else { ((entries.map (HistoryRow.row T)).foldl put c) with historyLoaded := true }
  | .delegated task_id capability text session_id now =>
    c.put (.delegated task_id capability text session_id now)
  | .refused capability text session_id error now startedAt =>
    c.put (.refused capability text session_id error now startedAt)
  | .delegate_complete e =>
    if e.task_id = "" then c
    else { c with card := Function.update c.card e.task_id
                    ((c.card e.task_id).map (Row.complete T e)) }
  | .clear_done => { c with card := fun id => (c.card id).filter (·.status = .running) }
  | .fetch_cid_complete _ => c
  | .view_log _ => c

end Cards

namespace Tasks

variable {s s' : Tasks} {c : Cards}

/-- The list shows each card, and each once. -/
structure Shows (s : Tasks) (c : Cards) : Prop where
  once : (s.tasks.map Row.task_id).Nodup
  card : ∀ id r, c.card id = some r ↔ ∃ t ∈ s.tasks, t.task_id = id ∧ t.card = r
  loaded : s.historyLoaded = c.historyLoaded

/-- A new task has a new id. -/
def FreshIds (s : Tasks) : UiOp → Prop
  | .loadHistory entries =>
    s.historyLoaded = false →
      (s.tasks.map Row.task_id ++ entries.map HistoryRow.task_id).Nodup
  | .delegated task_id _ _ _ _ => task_id ∉ s.tasks.map Row.task_id
  | .refused _ _ _ _ now _ => "err-" ++ toString now ∉ s.tasks.map Row.task_id
  | _ => True

instance (s : Tasks) : (op : UiOp) → Decidable (s.FreshIds op)
  | .loadHistory _ => inferInstanceAs (Decidable (_ → _))
  | .delegated .. => inferInstanceAs (Decidable (¬ _))
  | .refused .. => inferInstanceAs (Decidable (¬ _))
  | .delegate_complete _ => .isTrue trivial
  | .fetch_cid_complete _ => .isTrue trivial
  | .clear_done => .isTrue trivial
  | .view_log _ => .isTrue trivial

/-- One more row, wherever it stands. -/
theorem Shows.put (h : s.Shows c) {t : Row} (hcard : t.card = t)
    (hfresh : t.task_id ∉ s.tasks.map Row.task_id) {tasks : List Row}
    (hperm : tasks.Perm (t :: s.tasks)) : Shows { s with tasks := tasks } (c.put t) := by
  refine ⟨?_, ?_, h.loaded⟩
  · rw [(hperm.map Row.task_id).nodup_iff, List.map_cons, List.nodup_cons]
    exact ⟨hfresh, h.once⟩
  · intro id r
    unfold Cards.put
    dsimp only
    by_cases hid : id = t.task_id
    · subst hid
      rw [Function.update_self, Option.some.injEq]
      constructor
      · rintro rfl
        exact ⟨t, hperm.mem_iff.mpr (List.mem_cons_self ..), rfl, hcard⟩
      · rintro ⟨t', ht', hid, rfl⟩
        rcases List.mem_cons.mp (hperm.mem_iff.mp ht') with rfl | ht'
        · exact hcard.symm
        · exact absurd (hid ▸ List.mem_map_of_mem ht') hfresh
    · rw [Function.update_of_ne hid, h.card]
      constructor
      · rintro ⟨t', ht', hshows⟩
        exact ⟨t', hperm.mem_iff.mpr (List.mem_cons_of_mem t ht'), hshows⟩
      · rintro ⟨t', ht', hsame, hshows⟩
        rcases List.mem_cons.mp (hperm.mem_iff.mp ht') with rfl | ht'
        · exact absurd hsame.symm hid
        · exact ⟨t', ht', hsame, hshows⟩

/-- Rows one after the other. -/
theorem Shows.put_all (h : s.Shows c) {rows tasks : List Row} (hcards : ∀ t ∈ rows, t.card = t)
    (hfresh : (s.tasks.map Row.task_id ++ rows.map Row.task_id).Nodup)
    (hperm : tasks.Perm (s.tasks ++ rows)) :
    Shows { s with tasks := tasks } (rows.foldl Cards.put c) := by
  induction rows generalizing s c with
  | nil =>
    rw [List.append_nil] at hperm
    refine ⟨?_, ?_, h.loaded⟩
    · rw [(hperm.map Row.task_id).nodup_iff]
      exact h.once
    · intro id r
      rw [List.foldl_nil, h.card]
      simp only [hperm.mem_iff]
  | cons t rows ih =>
    rw [List.map_cons] at hfresh
    have hout : t.task_id ∉ s.tasks.map Row.task_id := by
      intro hmem
      exact (List.nodup_append.mp hfresh).2.2 _ hmem _ (List.mem_cons_self ..) rfl
    have hput : Shows { s with tasks := t :: s.tasks } (c.put t) :=
      h.put (hcards t (List.mem_cons_self ..)) hout (.refl _)
    have hrest : ((t :: s.tasks).map Row.task_id ++ rows.map Row.task_id).Nodup :=
      List.perm_middle.nodup_iff.mp hfresh
    have hall := ih hput (fun t' ht' => hcards t' (List.mem_cons_of_mem t ht')) hrest
      (hperm.trans List.perm_middle)
    exact hall

/-- Rows that change in their logs only. -/
theorem Shows.same_cards (h : s.Shows c) {tasks : List Row}
    (hcards : tasks.map Row.card = s.tasks.map Row.card) : Shows { s with tasks := tasks } c := by
  have hids : tasks.map Row.task_id = s.tasks.map Row.task_id := by
    have hmap := congrArg (List.map Row.task_id) hcards
    rw [List.map_map, List.map_map] at hmap
    exact hmap
  have hmem : ∀ (xs ys : List Row), xs.map Row.card = ys.map Row.card → ∀ id r,
      (∃ t ∈ xs, t.task_id = id ∧ t.card = r) → ∃ t ∈ ys, t.task_id = id ∧ t.card = r := by
    rintro xs ys hsame id r ⟨t, ht, rfl, rfl⟩
    have hcard : t.card ∈ ys.map Row.card := hsame ▸ List.mem_map_of_mem ht
    obtain ⟨t', ht', heq⟩ := List.mem_map.mp hcard
    have hid : t'.card.task_id = t.card.task_id := congrArg Row.task_id heq
    exact ⟨t', ht', hid, heq⟩
  refine ⟨?_, ?_, h.loaded⟩
  · dsimp only
    rw [hids]
    exact h.once
  · intro id r
    rw [h.card]
    exact ⟨hmem _ _ hcards.symm id r, hmem _ _ hcards id r⟩

theorem card_view_log (t : Row) : t.view_log.card = t.card := by
  obtain ⟨loading, expanded, heq⟩ := t.view_log_cases
  rw [heq]
  rfl

theorem cards_handleFetchCidComplete (e : FetchCidComplete) (tasks : List Row) :
    (handleFetchCidComplete T e tasks).map Row.card = tasks.map Row.card := by
  unfold handleFetchCidComplete
  split
  · rfl
  · dsimp only
    rw [List.map_map]
    apply List.map_congr_left
    intro t _
    rw [Function.comp_apply]
    split <;> rfl

theorem card_complete (e : DelegateComplete) (t : Row) :
    (t.complete T e).card = t.card.complete T e := rfl

/-- With each id once, the first row of a task is the only one. -/
theorem mem_complete_first {e : DelegateComplete} {tasks : List Row}
    (hnodup : (tasks.map Row.task_id).Nodup) {r : Row} :
    r ∈ complete_first T e tasks ↔
      ∃ t ∈ tasks, r = if t.task_id = e.task_id then t.complete T e else t := by
  induction tasks with
  | nil =>
    refine ⟨nofun, ?_⟩
    rintro ⟨t, ht, -⟩
    cases ht
  | cons t ts ih =>
    rw [List.map_cons, List.nodup_cons] at hnodup
    unfold complete_first
    split
    case isTrue hown =>
      have hothers : ∀ t' ∈ ts, t'.task_id ≠ e.task_id := by
        intro t' ht' heq
        exact hnodup.1 (hown ▸ heq ▸ List.mem_map_of_mem ht')
      rw [List.mem_cons]
      constructor
      · rintro (rfl | hr)
        · exact ⟨t, List.mem_cons_self .., (if_pos hown).symm⟩
        · exact ⟨r, List.mem_cons_of_mem t hr, (if_neg (hothers r hr)).symm⟩
      · rintro ⟨t', ht', rfl⟩
        rcases List.mem_cons.mp ht' with rfl | ht'
        · exact .inl (if_pos hown)
        · rw [if_neg (hothers t' ht')]
          exact .inr ht'
    case isFalse hother =>
      rw [List.mem_cons, ih hnodup.2]
      constructor
      · rintro (rfl | ⟨t', ht', rfl⟩)
        · exact ⟨r, List.mem_cons_self .., (if_neg hother).symm⟩
        · exact ⟨t', List.mem_cons_of_mem t ht', rfl⟩
      · rintro ⟨t', ht', rfl⟩
        rcases List.mem_cons.mp ht' with rfl | ht'
        · exact .inl (if_neg hother)
        · exact .inr ⟨t', ht', rfl⟩

theorem Shows.delegate_complete (h : s.Shows c) (e : DelegateComplete) :
    Shows { s with tasks := handleDelegateComplete T e s.tasks }
      (c.step T (.delegate_complete e)) := by
  unfold handleDelegateComplete Cards.step
  dsimp only
  split
  case isTrue => exact h
  case isFalse =>
    refine ⟨?_, ?_, h.loaded⟩
    · have hids := congrArg (List.map Prod.fst) (ids_complete_first (T := T) e s.tasks)
      rw [List.map_map, List.map_map] at hids
      exact (congrArg List.Nodup hids).mpr h.once
    · intro id r
      dsimp only
      simp only [mem_complete_first h.once]
      by_cases hid : id = e.task_id
      · subst hid
        rw [Function.update_self, Option.map_eq_some_iff]
        constructor
        · rintro ⟨r₀, hr₀, rfl⟩
          obtain ⟨t, ht, hown, rfl⟩ := (h.card _ _).mp hr₀
          refine ⟨_, ⟨t, ht, rfl⟩, ?_⟩
          rw [if_pos hown]
          exact ⟨hown, card_complete e t⟩
        · rintro ⟨_, ⟨t, ht, rfl⟩, hown, rfl⟩
          by_cases hsame : t.task_id = e.task_id
          · rw [if_pos hsame]
            exact ⟨t.card, (h.card _ _).mpr ⟨t, ht, hsame, rfl⟩, (card_complete e t).symm⟩
          · rw [if_neg hsame] at hown
            exact absurd hown hsame
      · rw [Function.update_of_ne hid, h.card]
        constructor
        · rintro ⟨t, ht, rfl, rfl⟩
          refine ⟨_, ⟨t, ht, rfl⟩, ?_⟩
          rw [if_neg hid]
          exact ⟨rfl, rfl⟩
        · rintro ⟨_, ⟨t, ht, rfl⟩, hown, rfl⟩
          by_cases hsame : t.task_id = e.task_id
          · rw [if_pos hsame] at hown
            exact absurd (hown.symm.trans hsame) hid
          · rw [if_neg hsame] at hown ⊢
            exact ⟨t, ht, hown, rfl⟩

theorem Shows.clear_done (h : s.Shows c) :
    Shows { s with tasks := s.tasks.filter (·.status = .running) } (c.step T .clear_done) := by
  refine ⟨?_, ?_, h.loaded⟩
  · exact h.once.sublist (List.Sublist.map _ List.filter_sublist)
  · intro id r
    unfold Cards.step
    dsimp only
    rw [Option.filter_eq_some_iff, h.card]
    constructor
    · rintro ⟨⟨t, ht, hid, rfl⟩, hrunning⟩
      exact ⟨t, List.mem_filter.mpr ⟨ht, hrunning⟩, hid, rfl⟩
    · rintro ⟨t, ht, hid, rfl⟩
      obtain ⟨ht, hrunning⟩ := List.mem_filter.mp ht
      exact ⟨⟨t, ht, hid, rfl⟩, hrunning⟩

theorem Shows.step (h : s.Shows c) {op : UiOp} (hfresh : s.FreshIds op) {out : List Unit}
    (hstep : s.step T op = .ok (s', out)) : s'.Shows (c.step T op) := by
  cases op with
  | loadHistory entries =>
    unfold Tasks.step at hstep
    unfold Cards.step
    dsimp only at hstep ⊢
    rw [← h.loaded]
    split at hstep
    case isTrue hloaded =>
      cases hstep
      rw [if_pos hloaded]
      exact h
    case isFalse hloaded =>
      cases hstep
      rw [if_neg hloaded]
      have hids : entries.map HistoryRow.task_id =
          (entries.map (HistoryRow.row T)).map Row.task_id := by
        rw [List.map_map]
        rfl
      have hperm : (reorderTasksBySession (s.tasks ++ entries.map (HistoryRow.row T))).Perm
          (s.tasks ++ entries.map (HistoryRow.row T)) := by
        unfold reorderTasksBySession
        split
        · exact .refl _
        · exact perm_sort_by_key ..
      have hnodup := hfresh (Bool.not_eq_true _ ▸ hloaded)
      rw [hids] at hnodup
      have hcards : ∀ t ∈ entries.map (HistoryRow.row T), t.card = t := by
        intro t ht
        obtain ⟨e, -, rfl⟩ := List.mem_map.mp ht
        rfl
      have hall := h.put_all hcards hnodup hperm
      exact ⟨hall.once, hall.card, rfl⟩
  | delegated task_id capability text session_id now =>
    cases hstep
    exact h.put (t := .delegated task_id capability text session_id now) rfl hfresh
      (insertTaskInOrder_perm ..)
  | refused capability text session_id error now startedAt =>
    cases hstep
    exact h.put (t := .refused capability text session_id error now startedAt) rfl hfresh
      (insertTaskInOrder_perm ..)
  | delegate_complete e =>
    cases hstep
    exact h.delegate_complete e
  | fetch_cid_complete e =>
    cases hstep
    exact h.same_cards (cards_handleFetchCidComplete e s.tasks)
  | clear_done =>
    cases hstep
    exact h.clear_done
  | view_log i =>
    cases hstep
    exact h.same_cards (map_modify_view_log Row.card card_view_log i s.tasks)

/-- The task is in the list, and it runs. -/
def Runs (tasks : List Row) (id : String) : Prop :=
  ∃ t ∈ tasks, t.task_id = id ∧ t.status = .running

theorem Runs.of_cards {tasks tasks' : List Row} {id : String} (h : Runs tasks id)
    (hcards : tasks'.map Row.card = tasks.map Row.card) : Runs tasks' id := by
  obtain ⟨t, ht, hid, hstatus⟩ := h
  have hmem : t.card ∈ tasks'.map Row.card := hcards ▸ List.mem_map_of_mem ht
  obtain ⟨t', ht', heq⟩ := List.mem_map.mp hmem
  have hid' : t'.card.task_id = t.card.task_id := congrArg Row.task_id heq
  have hstatus' : t'.card.status = t.card.status := congrArg Row.status heq
  exact ⟨t', ht', hid'.trans hid, hstatus'.trans hstatus⟩

theorem mem_complete_first_of_ne {e : DelegateComplete} {tasks : List Row} {t : Row}
    (ht : t ∈ tasks) (hne : t.task_id ≠ e.task_id) : t ∈ complete_first T e tasks := by
  induction tasks with
  | nil => cases ht
  | cons t' ts ih =>
    unfold complete_first
    rcases List.mem_cons.mp ht with rfl | ht
    · rw [if_neg hne]
      exact List.mem_cons_self ..
    · split
      · exact List.mem_cons_of_mem _ ht
      · exact List.mem_cons_of_mem _ (ih ht)

/-- A running task stays in the list until its event comes. -/
theorem Runs.step {op : UiOp} {id : String} (h : Runs s.tasks id)
    (hop : ∀ e, op = .delegate_complete e → e.task_id ≠ id) {out : List Unit}
    (hstep : s.step T op = .ok (s', out)) : Runs s'.tasks id := by
  cases op with
  | loadHistory entries =>
    obtain ⟨t, ht, hruns⟩ := h
    unfold Tasks.step at hstep
    dsimp only at hstep
    split at hstep
    case isTrue =>
      cases hstep
      exact ⟨t, ht, hruns⟩
    case isFalse =>
      cases hstep
      exact ⟨t, mem_reorderTasksBySession.mpr (List.mem_append_left _ ht), hruns⟩
  | delegated task_id capability text session_id now =>
    cases hstep
    obtain ⟨t, ht, hruns⟩ := h
    exact ⟨t, mem_insertTaskInOrder.mpr (.inr ht), hruns⟩
  | refused capability text session_id error now startedAt =>
    cases hstep
    obtain ⟨t, ht, hruns⟩ := h
    exact ⟨t, mem_insertTaskInOrder.mpr (.inr ht), hruns⟩
  | delegate_complete e =>
    cases hstep
    unfold handleDelegateComplete
    obtain ⟨t, ht, rfl, hstatus⟩ := h
    split
    · exact ⟨t, ht, rfl, hstatus⟩
    · exact ⟨t, mem_complete_first_of_ne ht (hop e rfl).symm, rfl, hstatus⟩
  | fetch_cid_complete e =>
    cases hstep
    exact h.of_cards (cards_handleFetchCidComplete e s.tasks)
  | clear_done =>
    cases hstep
    obtain ⟨t, ht, hid, hstatus⟩ := h
    exact ⟨t, List.mem_filter.mpr ⟨ht, decide_eq_true hstatus⟩, hid, hstatus⟩
  | view_log i =>
    cases hstep
    exact h.of_cards (map_modify_view_log Row.card card_view_log i s.tasks)

/-- So does a task that was delegated in a run. -/
theorem Runs.of_run {before after : List UiOp} {task_id capability text session_id : String}
    {now : Nat} (hafter : ∀ e, UiOp.delegate_complete e ∈ after → e.task_id ≠ task_id)
    {log : List Unit}
    (hrun : run (Tasks.step T) new
      (before ++ .delegated task_id capability text session_id now :: after) = .ok (s, log)) :
    Runs s.tasks task_id := by
  induction after using List.reverseRecOn generalizing s log with
  | nil =>
    obtain ⟨s₀, log₀, out, -, hstep, -⟩ := run_snoc_cases hrun
    cases hstep
    exact ⟨_, mem_insertTaskInOrder.mpr (.inl rfl), rfl, rfl⟩
  | append_singleton after op ih =>
    rw [← List.cons_append, ← List.append_assoc] at hrun
    obtain ⟨s₀, log₀, out, hrun₀, hstep, -⟩ := run_snoc_cases hrun
    have h₀ := ih (fun e he => hafter e (List.mem_append_left _ he)) hrun₀
    apply h₀.step _ hstep
    rintro e rfl
    exact hafter e (List.mem_append_right _ (List.mem_singleton_self _))

/-- Whatever the order of the rows, the list shows the cards of the tasks, each once: a new
task runs until its event comes, its event says how it ended, and a card that is done goes
with the next clearing. So a task whose event has not come is there and runs. The ids of the
tasks are new. -/
theorem the_list_shows_each_task_once {ops : List UiOp}
    (hfresh : Meets (step T) (fun _ s op => s.FreshIds op) new ops) {log : List Unit}
    (hrun : run (step T) new ops = .ok (s, log)) :
    s.Shows (ops.foldl (Cards.step T) .new) ∧
    ∀ before after task_id capability text session_id now,
      ops = before ++ .delegated task_id capability text session_id now :: after →
      (∀ e, UiOp.delegate_complete e ∈ after → e.task_id ≠ task_id) → Runs s.tasks task_id := by
  refine ⟨?_, ?_⟩
  · induction ops using List.reverseRecOn generalizing s log with
    | nil =>
      cases hrun
      refine ⟨.nil, ?_, rfl⟩
      intro id r
      refine ⟨nofun, ?_⟩
      rintro ⟨t, ht, -⟩
      cases ht
    | append_singleton ops op ih =>
      obtain ⟨hfresh₀, hop⟩ := meets_snoc.mp hfresh
      obtain ⟨s₀, log₀, out, hrun₀, hstep, -⟩ := run_snoc_cases hrun
      rw [List.foldl_append]
      exact (ih hfresh₀ hrun₀).step (hop s₀ log₀ hrun₀) hstep
  · rintro before after task_id capability text session_id now rfl hafter
    exact Runs.of_run hafter hrun

end Tasks

/-- One of two new tasks has ended. -/
theorem the_list_shows_each_task_once_two_tasks :
    ∃ s log, run (Tasks.step Sample.texts) .new
        [.delegated "c" "text" "hi" "s" 3, .delegated "d" "text" "ho" "s" 4, Sample.answer "d"] =
        .ok (s, log) ∧ Tasks.Runs s.tasks "c" := by
  obtain ⟨⟨s, log⟩, hrun⟩ := ends_ok (run (Tasks.step Sample.texts) .new
    [.delegated "c" "text" "hi" "s" 3, .delegated "d" "text" "ho" "s" 4, Sample.answer "d"])
  refine ⟨s, log, hrun, ?_⟩
  refine (Tasks.the_list_shows_each_task_once (by decide +kernel) hrun).2 [] _ "c" "text" "hi" "s"
    3 rfl ?_
  intro e he
  simp only [Sample.answer, List.mem_cons, reduceCtorEq, UiOp.delegate_complete.injEq,
    List.not_mem_nil, or_false, false_or] at he
  rw [he]
  decide

end lmao.basecamp.ui
