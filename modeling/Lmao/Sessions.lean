-- The conversations of a node (session.rs, lib.rs and tasks/ of the node crate).
-- A session is opened at two places and gets its tasks at two others, and only
-- one of each keeps all that the map of the sessions should keep.
import Lmao.PaymentGate

set_option linter.unusedSectionVars false

namespace lmao.node

open sds machine
open sds.MessageChannel (AckTransport)

variable {L : Libs} {F : Type} [IdFilter F]

/-! ## The calls -/

/-- Part of the entries of a map (`retain`). -/
def retain {β : Type} (keep : β → Bool) (map : AList fun _ : String => β) :
    AList fun _ : String => β where
  entries := map.entries.filter fun e => keep e.2
  nodupKeys := map.nodupKeys.sublist List.filter_sublist

theorem lookup_of_retain {β : Type} {keep : β → Bool} {map : AList fun _ : String => β}
    {key : String} {b : β} (h : (retain keep map).lookup key = some b) :
    map.lookup key = some b := by
  rw [← Option.mem_def, AList.mem_lookup_iff] at h ⊢
  exact (List.mem_filter.mp h).1

/-- `now.saturating_sub(last_seen)` is a subtraction of naturals. -/
def ChatSession.is_idle (s : ChatSession) (now max_age_secs : UInt64) : Bool :=
  decide (max_age_secs.toNat < now.toNat - s.last_seen.toNat)

/-- The send appends to the session itself, where a poll calls `push_task`. -/
def ChatSession.append_task (s : ChatSession) (task_id : String) : ChatSession :=
  { s with task_ids := s.task_ids ++ [task_id] }

namespace LmaoNode

/-- Create a new session with a peer. -/
def create_session (node : LmaoNode L F) (peer_pubkey uuid : String) (now : UInt64) :
    LmaoNode L F × ChatSession :=
  let session := ChatSession.new uuid now peer_pubkey
  ({ node with sessions := node.sessions.insert session.id session }, session)

/-- Drop the sessions that have not seen a task for so long, and count them. -/
def evict_idle_sessions (node : LmaoNode L F) (now max_age_secs : UInt64) : LmaoNode L F × Nat :=
  let sessions := retain (fun s => !s.is_idle now max_age_secs) node.sessions
  ({ node with sessions }, node.sessions.entries.length - sessions.entries.length)

/-- The first part of `send_in_session`, which reads the map of the sessions. -/
def task_in_session (node : LmaoNode L F) (session_id text task_id : String) :
    Except NodeError Task :=
  match node.sessions.lookup session_id with
  | none => .error (.Other ("Session " ++ session_id ++ " not found"))
  | some session =>
    .ok (Task.new_in_session task_id node.pubkey session.peer text session_id)

/-- The last part, which changes the map if the session is still there. -/
def note_sent (node : LmaoNode L F) (session_id task_id : String) : LmaoNode L F :=
  match node.sessions.lookup session_id with
  | none => node
  | some session =>
    { node with sessions := node.sessions.insert session_id (session.append_task task_id) }

end LmaoNode

/-- The send of a task: what the transport, the storage and the chain answer,
and when it is. -/
structure SendCall where
  nonces : Bytes × Bytes
  transport : Nat → AckTransport
  upload : Bytes → Except StorageError String
  pay : String → UInt64 → Except ExecutionError String
  now : UInt64

def SendCall.at (call : SendCall) (node : LmaoNode L F) : LmaoNode L F :=
  { node with
    storage_offload := node.storage_offload.map fun o => { o with upload := call.upload }
    payment := node.payment.map fun c => { c with pay := call.pay } }

def SendCall.send_task (call : SendCall) (node : LmaoNode L F) (task : Task) :
    LmaoNode L F × Except Stop Bool :=
  (call.at node).send_task task call.nonces call.transport

/-- The parts of `send_in_session` that come after the first. -/
def SendCall.finish (call : SendCall) (node : LmaoNode L F) (session_id : String) (task : Task) :
    LmaoNode L F × Except Stop Task :=
  let r := call.send_task node task
  match r.2 with
  | .error stop => (r.1, .error stop)
  | .ok _ => (r.1.note_sent session_id task.id, .ok task)

/-- Send a text message within an existing session. -/
def SendCall.send_in_session (call : SendCall) (node : LmaoNode L F)
    (session_id text task_id : String) : LmaoNode L F × Except Stop Task :=
  match node.task_in_session session_id text task_id with
  | .error e => (node, .error (.error e))
  | .ok task => call.finish node session_id task

/-! ## The machine -/

/-- A node, the time of the latest task of each session, and the tasks that are
being sent, each with the session of its call. -/
structure Conversing (L : Libs) (F : Type) where
  host : LmaoNode L F
  latest : String → Option UInt64
  sending : List (String × Task)

/-- `begin_send` and `finish_send` are the parts of a call of `send_in_session`:
other calls run while it waits for the transport. -/
inductive SessionOp
  | create_session (peer_pubkey uuid : String) (now : UInt64)
  | begin_send (session_id text task_id : String)
  | finish_send (i : Nat) (call : SendCall)
  | poll_tasks (call : PollCall)
  | evict_idle_sessions (now max_age_secs : UInt64)

/-- The tasks that a poll goes on with, after their payments were verified. -/
def PollCall.verified (B : Build) (call : PollCall) (node : LmaoNode L F) : List Task :=
  match call.rx with
  | .error _ => []
  | .ok msgs =>
    match ((call.at node).turns B node.channel msgs).result with
    | .error _ => []
    | .ok tasks => ((call.at node).verify_payments node.seen_tx_hashes tasks).2

/-- The time at which a session had its latest task, after more tasks. -/
def seenAt (now : UInt64) (latest : String → Option UInt64) : List Task → String → Option UInt64
  | [], sid => latest sid
  | task :: rest, sid =>
    seenAt now (fun k => if task.session_id = some k then some now else latest k) rest sid

namespace Conversing

def step (B : Build) (s : Conversing L F) : SessionOp → Except Empty (Conversing L F × List Empty)
  | .create_session peer_pubkey uuid now =>
    .ok ({ s with
      host := (s.host.create_session peer_pubkey uuid now).1
      latest := fun k => if k = uuid then none else s.latest k }, [])
  | .begin_send session_id text task_id =>
    match s.host.task_in_session session_id text task_id with
    | .error _ => .ok (s, [])
    | .ok task => .ok ({ s with sending := s.sending ++ [(session_id, task)] }, [])
  | .finish_send i call =>
    match s.sending[i]? with
    | none => .ok (s, [])
    | some (session_id, task) =>
      let r := call.finish s.host session_id task
      let sending := s.sending.eraseIdx i
      match r.2 with
      | .error _ => .ok ({ s with host := r.1, sending }, [])
      | .ok _ =>
        .ok ({ host := r.1, sending
               latest := fun k => if k = session_id then some call.now else s.latest k }, [])
  | .poll_tasks call =>
    .ok ({ s with
      host := (call.poll_tasks B s.host).after
      latest := seenAt call.now s.latest (call.verified B s.host) }, [])
  | .evict_idle_sessions now max_age_secs =>
    .ok ({ s with host := (s.host.evict_idle_sessions now max_age_secs).1 }, [])

/-- The node has no session yet. -/
def start (node : LmaoNode L F) : Conversing L F :=
  { host := { node with sessions := ∅ }, latest := fun _ => none, sending := [] }

/-- A call of `send_in_session` that nothing interrupts is its two parts. -/
theorem run_send_in_session (B : Build) (s : Conversing L F) (session_id text task_id : String)
    (call : SendCall) :
    Returns (run (Conversing.step B) s
        [.begin_send session_id text task_id, .finish_send s.sending.length call])
      fun r => r.1.host = (call.send_in_session s.host session_id text task_id).1 ∧
        r.1.sending = s.sending := by
  unfold SendCall.send_in_session
  rcases htask : s.host.task_in_session session_id text task_id with e | task
  · refine ⟨(s, []), ?_, rfl, rfl⟩
    simp [run, step, htask, bind, Except.bind]
  · unfold Returns
    simp only [run, step, htask, bind, Except.bind, List.getElem?_concat_length]
    have herase : (s.sending ++ [(session_id, task)]).eraseIdx s.sending.length = s.sending := by
      rw [List.eraseIdx_append_of_length_le (Nat.le_refl _)]
      simp
    rcases (call.finish s.host session_id task).2 with stop | sent
    · exact ⟨_, rfl, rfl, herase⟩
    · exact ⟨_, rfl, rfl, herase⟩

end Conversing

/-! ## The law -/

/-- A session: its task ids, and the time of its latest task. -/
structure Trim (latest : Option UInt64) (session : ChatSession) : Prop where
  nodup : session.task_ids.Nodup
  capped : session.task_ids.length ≤ MAX_TASK_IDS
  fresh : ∀ time, latest = some time → time ≤ session.last_seen

/-- An entry of the map, with its key. -/
structure Orderly (latest : Option UInt64) (sid : String) (session : ChatSession) : Prop
    extends Trim latest session where
  own_id : session.id = sid

def Conversing.Lawful (s : Conversing L F) : Prop :=
  ∀ sid session, s.host.sessions.lookup sid = some session → Orderly (s.latest sid) sid session

theorem Trim.new (uuid peer : String) (now : UInt64) : Trim none (ChatSession.new uuid now peer) :=
  ⟨List.nodup_nil, Nat.zero_le _, by simp⟩

/-- A session that gets its task by `push_task` is trim, whatever its times
were. -/
theorem Trim.push_task {latest : Option UInt64} {session : ChatSession} (h : Trim latest session)
    (now : UInt64) (task_id : String) : Trim (some now) (session.push_task now task_id) := by
  have hfresh : ∀ time, some now = some time → time ≤ now := by
    rintro _ ⟨⟩
    exact UInt64.le_refl _
  unfold ChatSession.push_task
  by_cases hmem : task_id ∈ session.task_ids
  · simp only [if_pos hmem]
    exact ⟨h.nodup, h.capped, hfresh⟩
  · simp only [if_neg hmem]
    refine ⟨?_, ?_, hfresh⟩
    · have hall : (session.task_ids ++ [task_id]).Nodup := by
        simpa using h.nodup.concat hmem
      exact hall.sublist (List.drop_sublist _ _)
    · rw [List.length_drop]
      omega

/-- The other way to get a task keeps the law only in a session that has room,
does not have the task, and was seen in the same second. -/
theorem Trim.append_task_iff {latest : Option UInt64} {session : ChatSession}
    (h : Trim latest session) (now : UInt64) (task_id : String) :
    Trim (some now) (session.append_task task_id) ↔
      task_id ∉ session.task_ids ∧ session.task_ids.length < MAX_TASK_IDS ∧
        now ≤ session.last_seen := by
  unfold ChatSession.append_task
  constructor
  · rintro ⟨hnodup, hcapped, hfresh⟩
    refine ⟨?_, ?_, hfresh now rfl⟩
    · intro hmem
      rw [List.nodup_append] at hnodup
      exact hnodup.2.2 task_id hmem task_id (List.mem_singleton_self _) rfl
    · simp only [List.length_append, List.length_singleton] at hcapped
      omega
  · rintro ⟨hmem, hroom, hseen⟩
    refine ⟨?_, ?_, ?_⟩
    · simpa using h.nodup.concat hmem
    · simp only [List.length_append, List.length_singleton]
      omega
    · rintro time ⟨⟩
      exact hseen

/-! ## The tasks of a poll -/

/-- Every session has the key of its id. -/
def Named (sessions : AList fun _ : String => ChatSession) : Prop :=
  ∀ sid session, sessions.lookup sid = some session → session.id = sid

/-- Where the tasks of a poll open a session, its id is the one they name. The
id is a fresh one, so this asks that they open none. -/
def NamesFresh (uuid : Nat → String) (sessions : AList fun _ : String => ChatSession)
    (tasks : List Task) : Prop :=
  ∀ (before : List Task) task after sid, tasks = before ++ task :: after →
    task.session_id = some sid → sid ∉ sessions →
    (∀ t ∈ before, t.session_id ≠ some sid) → uuid before.length = sid

theorem namesFresh_cons {uuid : Nat → String} {sessions : AList fun _ : String => ChatSession}
    {task : Task} {rest : List Task} :
    NamesFresh uuid sessions (task :: rest) ↔
      (∀ sid, task.session_id = some sid → sid ∈ sessions ∨ uuid 0 = sid) ∧
      ∀ (before : List Task) t after sid, rest = before ++ t :: after → t.session_id = some sid →
        sid ∉ sessions → task.session_id ≠ some sid → (∀ t ∈ before, t.session_id ≠ some sid) →
        uuid (before.length + 1) = sid := by
  constructor
  · intro h
    constructor
    · intro sid hsid
      by_cases hmem : sid ∈ sessions
      · exact .inl hmem
      · exact .inr (h [] task rest sid rfl hsid hmem (by simp))
    · rintro before t after sid rfl hsid hmem htask hbefore
      exact h (task :: before) t after sid rfl hsid hmem (List.forall_mem_cons.mpr ⟨htask, hbefore⟩)
  · rintro ⟨hfirst, hrest⟩ before t after sid heq hsid hmem hbefore
    rcases before with _ | ⟨b, before⟩
    · obtain ⟨rfl, rfl⟩ := List.cons.inj heq
      exact (hfirst sid hsid).resolve_left hmem
    · obtain ⟨rfl, rfl⟩ := List.cons.inj heq
      exact hrest before t after sid rfl hsid hmem (hbefore _ (by simp))
        fun t ht => hbefore t (by simp [ht])

/-- The id of a session stays as it is. -/
theorem track_sessions_id (now : UInt64) (uuid : Nat → String) (tasks : List Task) (n : Nat)
    {sessions : AList fun _ : String => ChatSession} {sid : String} {session : ChatSession}
    (h : sessions.lookup sid = some session) :
    ∃ session', (LmaoNode.track_sessions now uuid n sessions tasks).lookup sid = some session' ∧
      session'.id = session.id := by
  induction tasks generalizing n sessions session with
  | nil => exact ⟨session, h, rfl⟩
  | cons task rest ih =>
    unfold LmaoNode.track_sessions
    rcases hsid : task.session_id with _ | key
    · exact ih (n + 1) h
    · dsimp only
      by_cases hkey : sid = key
      · subst hkey
        rw [h, Option.getD_some]
        have hnew : (sessions.insert sid (session.push_task now task.id)).lookup sid =
            some (session.push_task now task.id) := AList.lookup_insert sessions
        obtain ⟨session', hs, hid⟩ := ih (n + 1) hnew
        exact ⟨session', hs, hid⟩
      · exact ih (n + 1) (by rw [AList.lookup_insert_ne hkey, h])

theorem Named.insert {sessions : AList fun _ : String => ChatSession} (h : Named sessions)
    {key : String} {session : ChatSession} (hid : session.id = key) :
    Named (sessions.insert key session) := by
  intro sid s hs
  by_cases hk : sid = key
  · subst hk
    rw [AList.lookup_insert] at hs
    cases hs
    exact hid
  · rw [AList.lookup_insert_ne hk] at hs
    exact h sid s hs

/-- The session of a task has the right id if it is there, or if its new id is
the name. -/
theorem Named.session_id_iff {sessions : AList fun _ : String => ChatSession} (h : Named sessions)
    (key id peer : String) (now : UInt64) :
    ((sessions.lookup key).getD (ChatSession.new id now peer)).id = key ↔
      key ∈ sessions ∨ id = key := by
  rcases hlook : sessions.lookup key with _ | old
  · have hmem : key ∉ sessions := AList.lookup_eq_none.mp hlook
    simp [ChatSession.new, hmem]
  · have hmem : key ∈ sessions := AList.lookup_isSome.mp (by simp [hlook])
    simp [hmem, h key old hlook]

/-- The tasks of a poll leave the names right exactly if they open no session
under a name that is not its id. -/
theorem track_sessions_named_iff (now : UInt64) (uuid : Nat → String) (tasks : List Task) (n : Nat)
    {sessions : AList fun _ : String => ChatSession} (h : Named sessions) :
    Named (LmaoNode.track_sessions now uuid n sessions tasks) ↔
      NamesFresh (fun k => uuid (n + k)) sessions tasks := by
  induction tasks generalizing n sessions with
  | nil =>
    apply iff_of_true h
    intro before task after sid heq
    simp at heq
  | cons task rest ih =>
    rw [namesFresh_cons]
    unfold LmaoNode.track_sessions
    rcases hsid : task.session_id with _ | key
    · dsimp only
      rw [ih (n + 1) h]
      simp [NamesFresh, Nat.add_assoc, Nat.add_comm 1]
    · dsimp only
      have hid := h.session_id_iff key (uuid n) task.sender now
      set session := (sessions.lookup key).getD (ChatSession.new (uuid n) now task.sender)
      by_cases hgood : session.id = key
      · have hnamed : Named (sessions.insert key (session.push_task now task.id)) :=
          h.insert hgood
        rw [ih (n + 1) hnamed]
        have hfirst := hid.mp hgood
        simp only [NamesFresh, AList.mem_insert, not_or, Nat.add_zero, Option.some.injEq,
          forall_eq', hfirst, true_and, Nat.add_assoc, Nat.add_comm 1]
        constructor
        · intro hrest before t after sid heq ht hmem hkey hbefore
          exact hrest before t after sid heq ht ⟨fun hk => hkey (hk ▸ rfl), hmem⟩ hbefore
        · intro hrest before t after sid heq ht hmem hbefore
          exact hrest before t after sid heq ht hmem.2
            (fun hk => hmem.1 (Option.some.inj hk).symm) hbefore
      · refine iff_of_false ?_ ?_
        · intro hnamed
          obtain ⟨session', hs, heq⟩ := track_sessions_id now uuid rest (n + 1)
            (AList.lookup_insert sessions (a := key) (b := session.push_task now task.id))
          exact hgood (heq.symm.trans (hnamed key session' hs))
        · rintro ⟨hfirst, -⟩
          exact hgood (hid.mpr (hfirst key rfl))

/-- And they keep all else. -/
theorem track_sessions_trim (now : UInt64) (uuid : Nat → String) (tasks : List Task) (n : Nat)
    {sessions : AList fun _ : String => ChatSession} {latest : String → Option UInt64}
    (h : ∀ sid session, sessions.lookup sid = some session → Trim (latest sid) session) :
    ∀ sid session, (LmaoNode.track_sessions now uuid n sessions tasks).lookup sid = some session →
      Trim (seenAt now latest tasks sid) session := by
  induction tasks generalizing n sessions latest with
  | nil => exact h
  | cons task rest ih =>
    unfold LmaoNode.track_sessions seenAt
    rcases hsid : task.session_id with _ | key
    · simp only [reduceCtorEq, if_false]
      exact ih (n + 1) h
    · dsimp only
      apply ih (n + 1)
      intro sid session hs
      by_cases hk : sid = key
      · subst hk
        rw [AList.lookup_insert] at hs
        cases hs
        rw [if_pos rfl]
        rcases hlook : sessions.lookup sid with _ | old
        · exact (Trim.new _ _ _).push_task now task.id
        · exact (h sid old hlook).push_task now task.id
      · rw [AList.lookup_insert_ne hk] at hs
        rw [if_neg (by simpa using Ne.symm hk)]
        exact h sid session hs

/-! ## Every run -/

theorem PollCall.poll_tasks_sessions (B : Build) (call : PollCall) (node : LmaoNode L F) :
    (call.poll_tasks B node).after.sessions =
      LmaoNode.track_sessions call.now call.uuid 0 node.sessions (call.verified B node) := by
  unfold PollCall.poll_tasks LmaoNode.poll_tasks PollCall.verified
  rcases call.rx with e | msgs
  · rfl
  · have hsame : (call.at node).channel = node.channel := rfl
    simp only [hsame]
    rcases ((call.at node).turns B node.channel msgs).result with stop | tasks
    · rfl
    · rfl

theorem SendCall.send_task_sessions (call : SendCall) (node : LmaoNode L F) (task : Task) :
    (call.send_task node task).1.sessions = node.sessions := by
  have hsame : (call.at node).sessions = node.sessions := rfl
  unfold SendCall.send_task LmaoNode.send_task LmaoNode.send_task_to
  split
  · exact hsame
  · split
    · exact hsame
    · dsimp only
      split
      · exact hsame
      · split
        · exact hsame
        · exact hsame

/-- A poll opens no session under a name that is not its id, and a send is in a
session that has room, does not have the task, and was seen in the second of the
send. -/
def Conversing.Allowed (B : Build) (s : Conversing L F) : SessionOp → Prop
  | .finish_send i call =>
    ∀ sid task session, s.sending[i]? = some (sid, task) →
      s.host.sessions.lookup sid = some session → (call.send_task s.host task).2.isOk →
      task.id ∉ session.task_ids ∧ session.task_ids.length < MAX_TASK_IDS ∧
        call.now ≤ session.last_seen
  | .poll_tasks call => NamesFresh call.uuid s.host.sessions (call.verified B s.host)
  | _ => True

namespace Conversing

theorem Lawful.insert {s s' : Conversing L F} (h : s.Lawful) {key : String}
    {session : ChatSession} (hsessions : s'.host.sessions = s.host.sessions.insert key session)
    (hlatest : ∀ sid, sid ≠ key → s'.latest sid = s.latest sid) :
    s'.Lawful ↔ Orderly (s'.latest key) key session := by
  constructor
  · intro h'
    exact h' key session (by rw [hsessions, AList.lookup_insert])
  · intro hnew sid t ht
    rw [hsessions] at ht
    by_cases hk : sid = key
    · subst hk
      rw [AList.lookup_insert] at ht
      cases ht
      exact hnew
    · rw [AList.lookup_insert_ne hk] at ht
      rw [hlatest sid hk]
      exact h sid t ht

theorem note_sent_gone {node after : LmaoNode L F} {sid : String} (task_id : String)
    (hsame : after.sessions = node.sessions) (hlook : node.sessions.lookup sid = none) :
    (after.note_sent sid task_id).sessions = node.sessions := by
  unfold LmaoNode.note_sent
  rw [hsame, hlook]
  exact hsame

theorem note_sent_held {node after : LmaoNode L F} {sid : String} (task_id : String)
    (hsame : after.sessions = node.sessions) {session : ChatSession}
    (hlook : node.sessions.lookup sid = some session) :
    (after.note_sent sid task_id).sessions =
      node.sessions.insert sid (session.append_task task_id) := by
  unfold LmaoNode.note_sent
  rw [hsame, hlook]

theorem finish_send_lawful_iff {B : Build} {s s' : Conversing L F} {i : Nat} {call : SendCall}
    {out : List Empty} (h : s.Lawful) (hs : s.step B (.finish_send i call) = .ok (s', out)) :
    s'.Lawful ↔ s.Allowed B (.finish_send i call) := by
  unfold step at hs
  simp only [Allowed]
  rcases hi : s.sending[i]? with _ | ⟨sid, task⟩
  · simp only [hi] at hs
    cases hs
    exact iff_of_true h (by simp)
  · simp only [hi, Option.some.injEq, Prod.mk.injEq, and_imp] at hs ⊢
    have hsame := call.send_task_sessions s.host task
    rcases hsent : (call.send_task s.host task).2 with stop | acked
    · simp only [SendCall.finish, hsent] at hs
      cases hs
      refine iff_of_true ?_ ?_
      · intro k session hk
        exact h k session (hsame ▸ hk)
      · rintro _ _ session rfl rfl _ hok
        simp [hsent, Except.isOk, Except.toBool] at hok
    · simp only [SendCall.finish, hsent] at hs
      cases hs
      rcases hlook : s.host.sessions.lookup sid with _ | session
      · -- The session is gone, and its task is noted nowhere.
        have hnote := note_sent_gone task.id hsame hlook
        refine iff_of_true ?_ ?_
        · intro k session hk
          rw [hnote] at hk
          have hne : k ≠ sid := by
            rintro rfl
            rw [hlook] at hk
            cases hk
          simp only [if_neg hne]
          exact h k session hk
        · rintro _ _ session rfl rfl hsome
          rw [hlook] at hsome
          cases hsome
      · have hnote := note_sent_held task.id hsame hlook
        have hold := h sid session hlook
        rw [h.insert hnote (fun k hk => if_neg hk)]
        dsimp only
        rw [if_pos rfl]
        constructor
        · rintro hnew _ _ t rfl rfl ht -
          rw [hlook] at ht
          cases ht
          exact (hold.append_task_iff call.now task.id).mp hnew.toTrim
        · intro hcond
          refine ⟨(hold.append_task_iff call.now task.id).mpr ?_, hold.own_id⟩
          exact hcond sid task session rfl rfl hlook (by rw [hsent]; rfl)

theorem poll_lawful_iff {B : Build} {s : Conversing L F} {call : PollCall} (h : s.Lawful) :
    Lawful { s with
      host := (call.poll_tasks B s.host).after
      latest := seenAt call.now s.latest (call.verified B s.host) } ↔
      NamesFresh call.uuid s.host.sessions (call.verified B s.host) := by
  have hnamed : Named s.host.sessions := fun sid session hs => (h sid session hs).own_id
  have htrim := track_sessions_trim call.now call.uuid (call.verified B s.host) 0
    fun sid session hs => (h sid session hs).toTrim
  have hiff := track_sessions_named_iff call.now call.uuid (call.verified B s.host) 0 hnamed
  simp only [Nat.zero_add] at hiff
  rw [← hiff, Lawful]
  simp only [call.poll_tasks_sessions]
  constructor
  · intro hall sid session hs
    exact (hall sid session hs).own_id
  · intro hnames sid session hs
    exact ⟨htrim sid session hs, hnames sid session hs⟩

theorem step_lawful_iff {B : Build} {s s' : Conversing L F} {op : SessionOp} {out : List Empty}
    (h : s.Lawful) (hs : s.step B op = .ok (s', out)) : s'.Lawful ↔ s.Allowed B op := by
  cases op with
  | create_session peer_pubkey uuid now =>
    cases hs
    refine iff_of_true ?_ trivial
    have hsessions : (s.host.create_session peer_pubkey uuid now).1.sessions =
        s.host.sessions.insert uuid (ChatSession.new uuid now peer_pubkey) := rfl
    rw [h.insert hsessions fun sid hk => if_neg hk]
    dsimp only
    rw [if_pos rfl]
    exact ⟨Trim.new uuid peer_pubkey now, rfl⟩
  | begin_send session_id text task_id =>
    refine iff_of_true ?_ trivial
    simp only [step] at hs
    split at hs
    · cases hs
      exact h
    · cases hs
      exact h
  | finish_send i call => exact finish_send_lawful_iff h hs
  | poll_tasks call =>
    cases hs
    exact poll_lawful_iff h
  | evict_idle_sessions now max_age_secs =>
    cases hs
    refine iff_of_true ?_ trivial
    intro sid session hk
    exact h sid session (lookup_of_retain hk)

theorem step_total (B : Build) (s : Conversing L F) (op : SessionOp) :
    ∃ s' out, s.step B op = .ok (s', out) := by
  rcases hs : s.step B op with e | ⟨s', out⟩
  · cases e
  · exact ⟨s', out, rfl⟩

end Conversing

/-- In all the states of a run every session is under its own id, with at most
as many task ids as it may have, all different, and seen since its latest task,
exactly when every step of the run is allowed. -/
theorem the_sessions_are_orderly_iff (B : Build) (node : LmaoNode L F) (ops : List SessionOp) :
    Always (Conversing.step B) Conversing.Lawful (.start node) ops ↔
      Meets (Conversing.step B) (fun _ s op => s.Allowed B op) (.start node) ops := by
  refine always_iff_meets (J := fun _ => True) trivial ?_ ?_ ?_ ops
  · intro sid session hs
    simp [Conversing.start] at hs
  · intro s op _
    obtain ⟨s', out, hs⟩ := s.step_total B op
    exact ⟨s', out, hs, trivial⟩
  · intro s op s' out _ h hs
    exact Conversing.step_lawful_iff h hs

namespace Sample

/-- A task in a session that the peer has opened. -/
def chat_task : Task := Task.new_in_session "t" "02ann" "02bob" "hi" "chat"

def chat_libs : Libs :=
  .ofTables (.ofTable [((A2AEnvelope.Task chat_task).to_vec, "01")] [])
    { public_key := fun _ => List.replicate 32 0
      diffie_hellman := fun _ _ => []
      aead_encrypt := fun _ _ plaintext => some plaintext
      aead_decrypt := fun _ _ ciphertext => some ciphertext }
    [.Task chat_task] []

def chat_node : LmaoNode chat_libs (IdSet fun _ => []) :=
  .new "02bob" "bob" "" [] none .default 0

/-- A send at the given time, over a transport that brings no ACK. -/
def unheard_send (now : UInt64) : SendCall :=
  { nonces := ([], [])
    transport := fun _ =>
      { subscribe := fun _ => .ok (), publish := fun _ _ _ => .ok (), recv := fun _ => none }
    upload := fun _ => .error (.Http "down")
    pay := fun _ _ => .error (.Other "offline")
    now }

end Sample

/-- A peer's task opens a session that is not under its id, and a send leaves a
session that was last seen before it. -/
theorem two_sessions_are_not_orderly :
    (Returns (run (Conversing.step (exactBlooms fun _ => none)) (.start Sample.chat_node)
        [.poll_tasks (Sample.one_call [Sample.chat_task])])
      fun r => (r.1.host.sessions.lookup "chat").map (·.id) = some "" ∧ ¬ r.1.Lawful) ∧
    Returns (run (Conversing.step (exactBlooms fun _ => none)) (.start Sample.chat_node)
        [.create_session "02ann" "s" 5, .begin_send "s" "hi" "t",
          .finish_send 0 (Sample.unheard_send 9)])
      fun r => r.1.latest "s" = some 9 ∧
        (r.1.host.sessions.lookup "s").map (·.last_seen) = some 5 ∧ ¬ r.1.Lawful := by
  have hpoll : Returns (run (Conversing.step (exactBlooms fun _ => none))
      (.start Sample.chat_node) [.poll_tasks (Sample.one_call [Sample.chat_task])])
      fun r => (r.1.host.sessions.lookup "chat").map (·.id) = some "" := by
    decide +kernel
  have hsend : Returns (run (Conversing.step (exactBlooms fun _ => none)) (.start Sample.chat_node)
      [.create_session "02ann" "s" 5, .begin_send "s" "hi" "t",
        .finish_send 0 (Sample.unheard_send 9)])
      fun r => r.1.latest "s" = some 9 ∧
        (r.1.host.sessions.lookup "s").map (·.last_seen) = some 5 := by
    decide +kernel
  constructor
  · obtain ⟨r, hr, hid⟩ := hpoll
    refine ⟨r, hr, hid, ?_⟩
    intro h
    obtain ⟨session, hlook, hempty⟩ := Option.map_eq_some_iff.mp hid
    have hown := (h "chat" session hlook).own_id
    rw [hempty] at hown
    exact absurd hown (by decide)
  · obtain ⟨r, hr, hlatest, hseen⟩ := hsend
    refine ⟨r, hr, hlatest, hseen, ?_⟩
    intro h
    obtain ⟨session, hlook, hfive⟩ := Option.map_eq_some_iff.mp hseen
    have hfresh := (h "s" session hlook).fresh 9 hlatest
    rw [hfive] at hfresh
    exact absurd hfresh (by decide)

end lmao.node
