-- The trust list of a node at work (tasks/poll.rs, delegation.rs): over any
-- run of polls and delegations, what comes in is from listed peers, what goes
-- out goes to them, and each task from anyone else is counted.
import Lmao.Delegation
import Lmao.PaymentGate

namespace lmao.node

open sds machine LmaoNode

variable {L : Libs} {F : Type} [IdFilter F]

/-! ## The counter -/

namespace LmaoNode

/-- `accept_or_drop`, with the counter `tasks_dropped_untrusted`. -/
def accept_or_drop_counting (node : LmaoNode L F) (dropped : UInt64) (task : Task) :
    UInt64 × Bool :=
  if node.trust_list.is_trusted task.sender then (dropped, true)
  else
    (dropped + 1,
      match node.trust_list.mode with
      | .Off => true
      | .Enforce => false
      | .Log => true)

def take_arrivals_counting (node : LmaoNode L F) :
    UInt64 → List Arrival → UInt64 × Except Stop (List Task)
  | dropped, [] => (dropped, .ok [])
  | dropped, a :: rest =>
    match node.extract_arrival a with
    | .error stop => (dropped, .error stop)
    | .ok none => node.take_arrivals_counting dropped rest
    | .ok (some task) =>
      let (dropped, accepted) := node.accept_or_drop_counting dropped task
      let r := node.take_arrivals_counting dropped rest
      (r.1, r.2.map fun tasks => if accepted then task :: tasks else tasks)

/-- The loop of `poll_tasks`, with the counter. -/
def turns_counting (B : Build) (node : LmaoNode L F) :
    UInt64 → MessageChannel F → List Bytes → UInt64 × Except Stop (List Task)
  | dropped, _, [] => (dropped, .ok [])
  | dropped, ch, msg :: rest =>
    match take_message L B ch msg with
    | .error p => (dropped, .error (.panic p))
    | .ok (ch, arrivals) =>
      let r := node.take_arrivals_counting dropped arrivals
      match r.2 with
      | .error stop => (r.1, .error stop)
      | .ok tasks =>
        let r' := node.turns_counting B r.1 ch rest
        (r'.1, r'.2.map (tasks ++ ·))

/-- The tasks that the arrivals hold, up to the first error. -/
def extracted_arrivals (node : LmaoNode L F) : List Arrival → List Task
  | [] => []
  | a :: rest =>
    match node.extract_arrival a with
    | .error _ => []
    | .ok task => task.toList ++ node.extracted_arrivals rest

/-- The tasks that the messages of a call hold, up to where it stops. -/
def extracted_turns (B : Build) (node : LmaoNode L F) : MessageChannel F → List Bytes → List Task
  | _, [] => []
  | ch, msg :: rest =>
    match take_message L B ch msg with
    | .error _ => []
    | .ok (ch, arrivals) =>
      node.extracted_arrivals arrivals ++
        match (node.take_arrivals arrivals).2 with
        | .error _ => []
        | .ok _ => node.extracted_turns B ch rest

/-- The tasks that the trust list counts. -/
def unlisted (node : LmaoNode L F) (tasks : List Task) : Nat :=
  tasks.countP fun task => !node.trust_list.is_trusted task.sender

omit [IdFilter F] in
theorem unlisted_append (node : LmaoNode L F) (tasks tasks' : List Task) :
    node.unlisted (tasks ++ tasks') = node.unlisted tasks + node.unlisted tasks' :=
  List.countP_append

omit [IdFilter F] in
theorem accept_or_drop_counting_eq (node : LmaoNode L F) (dropped : UInt64) (task : Task) :
    node.accept_or_drop_counting dropped task =
      (dropped + UInt64.ofNat (node.unlisted [task]), node.accept_or_drop task) := by
  unfold accept_or_drop_counting accept_or_drop unlisted
  by_cases htrust : node.trust_list.is_trusted task.sender = true
  · simp [htrust]
  · simp only [Bool.not_eq_true] at htrust
    simp only [htrust, Bool.false_eq_true, if_false, Bool.false_or, List.countP_singleton,
      Bool.not_false, if_true]
    rcases node.trust_list.mode with _ | _ | _ <;> rfl

omit [IdFilter F] in
/-- The counter grows by the tasks of unlisted senders, and changes nothing
else. -/
theorem take_arrivals_counting_eq (node : LmaoNode L F) (dropped : UInt64)
    (arrivals : List Arrival) :
    node.take_arrivals_counting dropped arrivals =
      (dropped + UInt64.ofNat (node.unlisted (node.extracted_arrivals arrivals)),
        (node.take_arrivals arrivals).2) := by
  induction arrivals generalizing dropped with
  | nil => simp [take_arrivals_counting, extracted_arrivals, take_arrivals, unlisted]
  | cons a rest ih =>
    unfold take_arrivals_counting extracted_arrivals take_arrivals
    rcases node.extract_arrival a with stop | _ | task
    · simp [unlisted]
    · simp only [ih, Option.toList_none, List.nil_append, Option.filter_none]
      rcases (node.take_arrivals rest).2 with stop | tasks
      · rfl
      · rfl
    · simp only [accept_or_drop_counting_eq, ih, Option.toList_some, unlisted_append]
      refine Prod.ext ?_ ?_
      · simp only [UInt64.ofNat_add, UInt64.add_assoc]
      · by_cases haccept : node.accept_or_drop task = true
        · simp [Option.filter, haccept]
        · simp only [Bool.not_eq_true] at haccept
          simp [Option.filter, haccept]

theorem turns_counting_eq (B : Build) (node : LmaoNode L F) (dropped : UInt64)
    (ch : MessageChannel F) (msgs : List Bytes) :
    node.turns_counting B dropped ch msgs =
      (dropped + UInt64.ofNat (node.unlisted (node.extracted_turns B ch msgs)),
        (node.turns B ch msgs).result) := by
  induction msgs generalizing dropped ch with
  | nil => simp [turns_counting, extracted_turns, turns, unlisted]
  | cons msg rest ih =>
    unfold turns_counting extracted_turns turns turn
    rcases take_message L B ch msg with p | ⟨ch', arrivals⟩
    · simp [unlisted]
    · simp only [take_arrivals_counting_eq]
      rcases (node.take_arrivals arrivals).2 with stop | tasks
      · simp
      · simp only [ih, unlisted_append, UInt64.ofNat_add, UInt64.add_assoc]

/-! ## What the loop returns -/

omit [IdFilter F] in
theorem take_arrivals_accepted {node : LmaoNode L F} {arrivals : List Arrival} {tasks : List Task}
    (h : (node.take_arrivals arrivals).2 = .ok tasks) :
    ∀ task ∈ tasks, node.accept_or_drop task = true := by
  induction arrivals generalizing tasks with
  | nil =>
    cases h
    simp
  | cons a rest ih =>
    unfold take_arrivals at h
    rcases hextract : node.extract_arrival a with stop | extracted
    · simp [hextract] at h
    · rcases hrest : (node.take_arrivals rest).2 with stop | tasks'
      · simp [hextract, hrest, Except.map] at h
      · simp only [hextract, hrest, Except.map, Except.ok.injEq] at h
        subst h
        intro task htask
        rcases List.mem_append.mp htask with htask | htask
        · have := Option.mem_toList.mp htask
          exact (Option.filter_eq_some_iff.mp this).2
        · exact ih hrest task htask

theorem turns_accepted {B : Build} {node : LmaoNode L F} {ch : MessageChannel F}
    {msgs : List Bytes} {tasks : List Task} (h : (node.turns B ch msgs).result = .ok tasks) :
    ∀ task ∈ tasks, node.accept_or_drop task = true := by
  induction msgs generalizing ch tasks with
  | nil =>
    cases h
    simp
  | cons msg rest ih =>
    unfold turns at h
    rcases hturn : (node.turn B ch msg).result with stop | tasks₁
    · simp [hturn] at h
    · simp only [hturn] at h
      rcases hrest : (node.turns B (node.turn B ch msg).channel rest).result with stop | tasks₂
      · simp [hrest, Except.map] at h
      · simp only [hrest, Except.map, Except.ok.injEq] at h
        subst h
        intro task htask
        rcases List.mem_append.mp htask with htask | htask
        · unfold turn at hturn
          rcases hmsg : take_message L B ch msg with p | ⟨ch', arrivals⟩
          · simp [hmsg] at hturn
          · simp only [hmsg] at hturn
            exact take_arrivals_accepted hturn task htask
        · exact ih hrest task htask

/-- Each task that a poll returns has passed the trust list. -/
theorem returned_accepted {B : Build} {node : LmaoNode L F} {call : PollCall} {task : Task}
    (h : task ∈ returned B (node, call)) : node.accept_or_drop task = true := by
  unfold returned PollCall.poll_tasks poll_tasks at h
  rcases hrx : call.rx with e | msgs
  · simp [hrx] at h
  · simp only [hrx] at h
    rcases hturns : ((call.at node).turns B (call.at node).channel msgs).result with stop | tasks
    · simp [hturns] at h
    · simp only [hturns] at h
      exact turns_accepted hturns task ((verify_payments_sublist _ _ _).subset h)

end LmaoNode

/-! ## Where delegations go -/

section

variable {L : Libs} {F : Type}

theorem TrustList.is_trusted_iff {l : TrustList} (hmode : l.mode = .Enforce) (pubkey : String) :
    l.is_trusted pubkey = true ↔ pubkey ∈ l.entries := by
  simp [TrustList.is_trusted, hmode]

/-- The entry of the peer is for every capability, or for this one. -/
def ListedFor (l : TrustList) (peer_id capability : String) : Prop :=
  ∃ entry, l.entries[peer_id]? = some entry ∧
    (entry.capabilities = [] ∨ capability ∈ entry.capabilities)

theorem TrustList.is_trusted_for_iff {l : TrustList} (hmode : l.mode = .Enforce)
    (pubkey capability : String) :
    l.is_trusted_for pubkey capability = true ↔ ListedFor l pubkey capability := by
  unfold TrustList.is_trusted_for ListedFor
  simp only [hmode]
  rcases l.entries[pubkey]? with _ | entry
  · simp
  · simp [List.isEmpty_iff]

theorem ListedFor.mem {l : TrustList} {peer_id capability : String}
    (h : ListedFor l peer_id capability) : peer_id ∈ l.entries := by
  obtain ⟨entry, hentry, -⟩ := h
  exact Std.ExtTreeMap.mem_iff_isSome_getElem?.mpr (by simp [hentry])

/-- The strategy of the call asks for the capability at the given time. Direct
calls go past the strategy. -/
def LmaoNode.DelegationCall.Matches (capability : String) (now_secs : UInt64) :
    DelegationCall → Prop
  | .task request now _ => request.strategy = .CapabilityMatch capability ∧ now = now_secs
  | .direct _ _ _ => False
  | .broadcast request now _ => request.strategy = .CapabilityMatch capability ∧ now = now_secs

/-- The peer is live and advertises the capability. -/
def Advertises (map : PeerMap) (now_secs : UInt64) (peer_id capability : String) : Prop :=
  ∃ info, (peer_id, info) ∈ map.toList ∧ info.is_expired_at now_secs = false ∧
    capability ∈ info.capabilities

theorem advertises_of_mem {map : PeerMap} {now_secs : UInt64} {peer_id capability : String}
    (h : peer_id ∈ (map.find_by_capability now_secs capability).map Prod.fst) :
    Advertises map now_secs peer_id capability := by
  obtain ⟨⟨_, info⟩, hmem, rfl⟩ := List.mem_map.mp h
  obtain ⟨hmem, hlive⟩ := List.mem_filter.mp hmem
  simp only [Bool.and_eq_true, Bool.not_eq_true', List.contains_iff_mem] at hlive
  exact ⟨info, hmem, hlive⟩

theorem mem_sort_by_load {peers : List (String × PeerInfo)} {peer_id : String} :
    peer_id ∈ (sort_by_load peers).map Prod.fst ↔ peer_id ∈ peers.map Prod.fst := by
  unfold sort_by_load
  simp only [List.mem_map, List.mem_insertionSort]

/-- A peer that is picked for a capability is live, advertises it and is trusted
for it. -/
theorem picked_for_capability {node : LmaoNode L F} {call : DelegationCall}
    {peer_id capability : String} {now_secs : UInt64} (h : call.Picks node peer_id)
    (hmatch : call.Matches capability now_secs) :
    Advertises node.peer_map now_secs peer_id capability ∧
      node.trust_list.is_trusted_for peer_id capability = true := by
  cases call with
  | direct request peer_pubkey w => exact hmatch.elim
  | task request now w =>
    obtain ⟨hstrategy, rfl⟩ := hmatch
    simp only [DelegationCall.Picks, hstrategy, select_peer] at h
    split at h
    · rename_i id hfind
      cases h
      refine ⟨advertises_of_mem (mem_sort_by_load.mp (List.mem_of_find?_eq_some hfind)), ?_⟩
      simpa using List.find?_some hfind
    · cases h
  | broadcast request now w =>
    obtain ⟨hstrategy, rfl⟩ := hmatch
    simp only [DelegationCall.Picks, hstrategy] at h
    obtain ⟨hmem, htrust⟩ := List.mem_filter.mp h
    exact ⟨advertises_of_mem hmem, htrust⟩

/-- A peer that a call picks is listed, and for a capability it is live,
advertises it and is listed for it. -/
theorem picked_allowed {node : LmaoNode L F} (hmode : node.trust_list.mode = .Enforce)
    {call : DelegationCall} {peer_id : String} (h : call.Picks node peer_id) :
    peer_id ∈ node.trust_list.entries ∧ ∀ capability now_secs, call.Matches capability now_secs →
      Advertises node.peer_map now_secs peer_id capability ∧
        ListedFor node.trust_list peer_id capability := by
  have hfor : ∀ capability now_secs, call.Matches capability now_secs →
      Advertises node.peer_map now_secs peer_id capability ∧
        ListedFor node.trust_list peer_id capability := by
    intro capability now_secs hmatch
    obtain ⟨hadvertises, htrust⟩ := picked_for_capability h hmatch
    exact ⟨hadvertises, (TrustList.is_trusted_for_iff hmode _ _).mp htrust⟩
  refine ⟨?_, hfor⟩
  cases call with
  | direct request peer_pubkey w =>
    obtain ⟨rfl, htrust⟩ := h
    exact (TrustList.is_trusted_iff hmode _).mp htrust
  | task request now w =>
    simp only [DelegationCall.Picks] at h
    rcases hstrategy : request.strategy with _ | _ | _ | capability
    · simp only [hstrategy, select_peer] at h
      split at h
      · rename_i id hfind
        cases h
        exact (TrustList.is_trusted_iff hmode _).mp (List.find?_some hfind)
      · cases h
    · simp only [hstrategy, select_peer] at h
      split at h
      · rename_i id hfind
        cases h
        exact (TrustList.is_trusted_iff hmode _).mp (List.find?_some hfind)
      · cases h
    · simp only [hstrategy, select_peer] at h
      split at h
      · cases h
      · rename_i first rest hpeers
        cases h
        have htrusted : ∀ id ∈ first :: rest, node.trust_list.is_trusted id = true := by
          rw [← hpeers]
          intro id hid
          exact (List.mem_filter.mp hid).2
        exact (TrustList.is_trusted_iff hmode _).mp (htrusted _ (List.get_mem _ _))
    · exact (hfor capability now ⟨hstrategy, rfl⟩).2.mem
  | broadcast request now w =>
    simp only [DelegationCall.Picks] at h
    rcases hstrategy : request.strategy with _ | _ | _ | capability
    · rw [hstrategy] at h
      exact (TrustList.is_trusted_iff hmode _).mp (List.mem_filter.mp h).2
    · rw [hstrategy] at h
      exact (TrustList.is_trusted_iff hmode _).mp (List.mem_filter.mp h).2
    · rw [hstrategy] at h
      exact (TrustList.is_trusted_iff hmode _).mp (List.mem_filter.mp h).2
    · exact (hfor capability now ⟨hstrategy, rfl⟩).2.mem

end

/-! ## Only logging -/

/-- The node with another mode of its trust list. -/
def LmaoNode.with_mode (node : LmaoNode L F) (mode : TrustMode) : LmaoNode L F :=
  { node with trust_list := node.trust_list.set_mode mode }

omit [IdFilter F] in
theorem with_mode_self {node : LmaoNode L F} {mode : TrustMode}
    (h : node.trust_list.mode = mode) : node.with_mode mode = node := by
  subst h
  rfl

omit [IdFilter F] in
theorem accept_or_drop_log (node : LmaoNode L F) (task : Task) :
    (node.with_mode .Log).accept_or_drop task = true ∧
      (node.with_mode .Off).accept_or_drop task = true := by
  simp [accept_or_drop, LmaoNode.with_mode, TrustList.set_mode]

omit [IdFilter F] in
theorem extract_arrival_with_mode (node : LmaoNode L F) (mode : TrustMode) (a : Arrival) :
    (node.with_mode mode).extract_arrival a = node.extract_arrival a := by
  cases a with
  | content m => rfl
  | envelope e => cases e <;> rfl

omit [IdFilter F] in
theorem take_arrivals_log (node : LmaoNode L F) (arrivals : List Arrival) :
    (node.with_mode .Log).take_arrivals arrivals =
      (node.with_mode .Off).take_arrivals arrivals := by
  induction arrivals with
  | nil => rfl
  | cons a rest ih =>
    unfold take_arrivals
    simp only [extract_arrival_with_mode, ih]
    rcases node.extract_arrival a with stop | _ | task
    · rfl
    · rfl
    · simp [Option.filter, accept_or_drop_log node task]

theorem turns_log (B : Build) (node : LmaoNode L F) (ch : MessageChannel F) (msgs : List Bytes) :
    (node.with_mode .Log).turns B ch msgs = (node.with_mode .Off).turns B ch msgs := by
  induction msgs generalizing ch with
  | nil => rfl
  | cons msg rest ih =>
    have hturn : (node.with_mode .Log).turn B ch msg = (node.with_mode .Off).turn B ch msg := by
      unfold turn
      simp only [take_arrivals_log]
    unfold turns
    simp only [hturn, ih]

omit [IdFilter F] in
theorem verify_payments_with_mode (node : LmaoNode L F) (mode : TrustMode)
    (seen : Finset String) (tasks : List Task) :
    (node.with_mode mode).verify_payments seen tasks = node.verify_payments seen tasks := by
  induction tasks generalizing seen with
  | nil => rfl
  | cons task rest ih =>
    have hverify : (node.with_mode mode).verify_payment seen task =
        node.verify_payment seen task := rfl
    unfold verify_payments
    simp only [hverify, ih]

/-- In `Log` mode a call returns what it returns in `Off` mode, and leaves the
same but for the mode. -/
theorem poll_tasks_log (B : Build) (node : LmaoNode L F) (call : PollCall) :
    (call.poll_tasks B (node.with_mode .Log)).result =
        (call.poll_tasks B (node.with_mode .Off)).result ∧
      ∃ node' : LmaoNode L F,
        (call.poll_tasks B (node.with_mode .Log)).after = node'.with_mode .Log ∧
        (call.poll_tasks B (node.with_mode .Off)).after = node'.with_mode .Off := by
  have hlog : call.poll_tasks B (node.with_mode .Log) =
      { call.poll_tasks B (node.with_mode .Off) with
        after := (call.poll_tasks B (node.with_mode .Off)).after.with_mode .Log } := by
    have hat : ∀ mode, call.at (node.with_mode mode) = (call.at node).with_mode mode :=
      fun _ => rfl
    unfold PollCall.poll_tasks poll_tasks
    rcases call.rx with e | msgs
    · rfl
    · have hturns := turns_log B (call.at node) (call.at node).channel msgs
      have hpaid := fun mode => verify_payments_with_mode (call.at node) mode
        (call.at node).seen_tx_hashes
      simp only [hat]
      simp only [LmaoNode.with_mode] at hturns hpaid ⊢
      simp only [hturns, hpaid]
      split
      · rfl
      · rfl
  have hoff : (call.poll_tasks B (node.with_mode .Off)).after.with_mode .Off =
      (call.poll_tasks B (node.with_mode .Off)).after := by
    apply with_mode_self
    rw [(poll_tasks_same B call (node.with_mode .Off)).trust_list]
    rfl
  rw [hlog]
  exact ⟨rfl, _, rfl, hoff.symm⟩

/-- The same over any number of calls. -/
theorem run_log (B : Build) (node : LmaoNode L F) (calls : List PollCall) :
    ∃ (node' : LmaoNode L F) (out : List Returned),
      run (PollCall.step B) (node.with_mode .Log) calls = .ok (node'.with_mode .Log, out) ∧
      run (PollCall.step B) (node.with_mode .Off) calls = .ok (node'.with_mode .Off, out) := by
  induction calls generalizing node with
  | nil => exact ⟨node, [], rfl, rfl⟩
  | cons call rest ih =>
    obtain ⟨hresult, node₁, hlog, hoff⟩ := poll_tasks_log B node call
    unfold PollCall.poll_tasks at hresult hlog hoff
    have hstep : ∃ out, call.step B (node.with_mode .Log) = .ok (node₁.with_mode .Log, out) ∧
        call.step B (node.with_mode .Off) = .ok (node₁.with_mode .Off, out) := by
      unfold PollCall.step
      simp only [hresult, hlog, hoff]
      split
      · exact ⟨_, rfl, rfl⟩
      · exact ⟨_, rfl, rfl⟩
    obtain ⟨out, hs, hs'⟩ := hstep
    obtain ⟨node', out', hr, hr'⟩ := ih node₁
    refine ⟨node', out ++ out', ?_, ?_⟩
    · simp [run, hs, hr, bind, Except.bind]
    · simp [run, hs', hr', bind, Except.bind]

/-! ## Runs -/

namespace LmaoNode

/-- The tasks that the messages of a poll hold. -/
def extracted (B : Build) (poll : LmaoNode L F × PollCall) : List Task :=
  match poll.2.rx with
  | .error _ => []
  | .ok msgs => (poll.2.at poll.1).extracted_turns B poll.1.channel msgs

/-- The counter after a poll. -/
def poll_counting (B : Build) (dropped : UInt64) (poll : LmaoNode L F × PollCall) : UInt64 :=
  match poll.2.rx with
  | .error _ => dropped
  | .ok msgs => ((poll.2.at poll.1).turns_counting B dropped poll.1.channel msgs).1

theorem poll_counting_eq (B : Build) (dropped : UInt64) (poll : LmaoNode L F × PollCall) :
    poll_counting B dropped poll =
      dropped + UInt64.ofNat (poll.1.unlisted (extracted B poll)) := by
  unfold poll_counting extracted
  rcases poll.2.rx with e | msgs
  · simp [unlisted]
  · simp only [turns_counting_eq]
    rfl

end LmaoNode

/-- A node with its counter `tasks_dropped_untrusted`. -/
structure Watched (L : Libs) (F : Type) where
  agent : LmaoNode L F
  tasks_dropped_untrusted : UInt64

inductive TrustOp
  | poll (call : PollCall)
  | delegate (call : DelegationCall)
  /-- The map of the peers is another one. -/
  | presence (map : PeerMap)

/-- A task that a poll found in its messages, a task that it returned, and a
subtask that was published, with the peers of that moment. -/
inductive TrustEvent
  | extracted (task : Task)
  | returned (task : Task)
  | published (map : PeerMap) (call : DelegationCall) (topic : String) (task : Task)

def poll_events (B : Build) (poll : LmaoNode L F × PollCall) : List TrustEvent :=
  (LmaoNode.extracted B poll).map .extracted ++ (LmaoNode.returned B poll).map .returned

namespace Watched

def step (B : Build) (display : NodeError → String) (s : Watched L F) :
    TrustOp → Except Empty (Watched L F × List TrustEvent)
  | .poll call =>
    .ok (⟨(call.poll_tasks B s.agent).after,
        poll_counting B s.tasks_dropped_untrusted (s.agent, call)⟩,
      poll_events B (s.agent, call))
  | .delegate call =>
    let d := call.run B display s.agent
    .ok (⟨d.after, d.polls.foldl (poll_counting B) s.tasks_dropped_untrusted⟩,
      d.polls.flatMap (poll_events B) ++
        d.published.map fun p => .published s.agent.peer_map call p.1 p.2)
  | .presence map => .ok (⟨{ s.agent with peer_map := map }, s.tasks_dropped_untrusted⟩, [])

end Watched

/-- What the list allows. -/
def Allowed (l : TrustList) : TrustEvent → Prop
  | .extracted _ => True
  | .returned task => task.sender ∈ l.entries
  | .published map call topic task =>
    ∃ peer_id, topic = task_topic peer_id ∧ task.recipient = peer_id ∧ peer_id ∈ l.entries ∧
      ∀ capability now_secs, call.Matches capability now_secs →
        Advertises map now_secs peer_id capability ∧ ListedFor l peer_id capability

/-- A task that was found, from a sender who is not listed. -/
def Unlisted (l : TrustList) : TrustEvent → Bool
  | .extracted task => decide (task.sender ∉ l.entries)
  | _ => false

omit [IdFilter F] in
theorem unlisted_eq {node : LmaoNode L F} {l : TrustList} (hlist : node.trust_list = l)
    (hmode : l.mode = .Enforce) (tasks : List Task) :
    node.unlisted tasks = (tasks.map TrustEvent.extracted).countP (Unlisted l) := by
  unfold LmaoNode.unlisted
  rw [List.countP_map]
  apply List.countP_congr
  intro task _
  simp [Unlisted, hlist, TrustList.is_trusted, hmode]

theorem poll_events_spec (B : Build) (poll : LmaoNode L F × PollCall) {l : TrustList}
    (hlist : poll.1.trust_list = l) (hmode : l.mode = .Enforce) :
    (∀ e ∈ poll_events B poll, Allowed l e) ∧
      ∀ dropped, poll_counting B dropped poll =
        dropped + UInt64.ofNat ((poll_events B poll).countP (Unlisted l)) := by
  constructor
  · intro e he
    rcases List.mem_append.mp he with he | he
    · obtain ⟨task, -, rfl⟩ := List.mem_map.mp he
      trivial
    · obtain ⟨task, htask, rfl⟩ := List.mem_map.mp he
      have haccept := returned_accepted htask
      simp only [accept_or_drop, hlist, hmode, Bool.or_false] at haccept
      exact (TrustList.is_trusted_iff hmode _).mp haccept
  · intro dropped
    have hnone : ((LmaoNode.returned B poll).map TrustEvent.returned).countP (Unlisted l) = 0 := by
      rw [List.countP_eq_zero]
      intro e he
      obtain ⟨task, -, rfl⟩ := List.mem_map.mp he
      simp [Unlisted]
    unfold poll_events
    rw [poll_counting_eq, unlisted_eq hlist hmode, List.countP_append, hnone, Nat.add_zero]

theorem polls_spec (B : Build) (polls : List (LmaoNode L F × PollCall)) {l : TrustList}
    (hlist : ∀ poll ∈ polls, poll.1.trust_list = l) (hmode : l.mode = .Enforce) :
    (∀ e ∈ polls.flatMap (poll_events B), Allowed l e) ∧
      ∀ dropped, polls.foldl (poll_counting B) dropped =
        dropped + UInt64.ofNat ((polls.flatMap (poll_events B)).countP (Unlisted l)) := by
  induction polls with
  | nil => simp
  | cons poll rest ih =>
    obtain ⟨hallowed, hcount⟩ := poll_events_spec B poll (hlist poll List.mem_cons_self) hmode
    obtain ⟨hallowed', hcount'⟩ := ih fun p hp => hlist p (List.mem_cons_of_mem _ hp)
    constructor
    · intro e he
      rcases List.mem_append.mp he with he | he
      · exact hallowed e he
      · exact hallowed' e he
    · intro dropped
      simp only [List.foldl_cons, List.flatMap_cons, List.countP_append, UInt64.ofNat_add, hcount,
        hcount', UInt64.add_assoc]

/-- The invariant of a run. -/
structure Enforced (l : TrustList) (dropped : UInt64) (log : List TrustEvent) (s : Watched L F) :
    Prop where
  list : s.agent.trust_list = l
  allowed : ∀ e ∈ log, Allowed l e
  counted : s.tasks_dropped_untrusted = dropped + UInt64.ofNat (log.countP (Unlisted l))

theorem Enforced.step {B : Build} {display : NodeError → String} {l : TrustList}
    (hmode : l.mode = .Enforce) {dropped : UInt64} {log : List TrustEvent} {s s' : Watched L F}
    {op : TrustOp} {out : List TrustEvent} (h : Enforced l dropped log s)
    (hs : s.step B display op = .ok (s', out)) : Enforced l dropped (log ++ out) s' := by
  have hlog : ∀ {out}, (∀ e ∈ out, Allowed l e) → ∀ e ∈ log ++ out, Allowed l e := by
    intro out hout e he
    rcases List.mem_append.mp he with he | he
    · exact h.allowed e he
    · exact hout e he
  cases op with
  | poll call =>
    cases hs
    obtain ⟨hallowed, hcount⟩ := poll_events_spec B (s.agent, call) h.list hmode
    refine ⟨?_, hlog hallowed, ?_⟩
    · rw [(poll_tasks_same B call s.agent).trust_list]
      exact h.list
    · rw [hcount, h.counted, List.countP_append, UInt64.ofNat_add, UInt64.add_assoc]
  | delegate call =>
    cases hs
    obtain ⟨hafter, hpolls⟩ := delegation_same B display s.agent call
    obtain ⟨hallowed, hcount⟩ := polls_spec B (call.run B display s.agent).polls
      (fun poll hpoll => (hpolls poll hpoll).trust_list.trans h.list) hmode
    have hsent : ∀ e ∈ (call.run B display s.agent).published.map
        (fun p => TrustEvent.published s.agent.peer_map call p.1 p.2),
        Allowed l e ∧ Unlisted l e = false := by
      intro e he
      obtain ⟨⟨topic, task⟩, hpub, rfl⟩ := List.mem_map.mp he
      obtain ⟨peer_id, uuid, hpicks, htopic, htask⟩ := published_picked hpub
      have hmode' : s.agent.trust_list.mode = .Enforce := by rw [h.list, hmode]
      obtain ⟨hlisted, hcapability⟩ := picked_allowed hmode' hpicks
      rw [h.list] at hlisted hcapability
      refine ⟨⟨peer_id, htopic, ?_, hlisted, hcapability⟩, rfl⟩
      rw [htask]
      exact (subtask_fields s.agent call.request peer_id uuid).recipient
    refine ⟨hafter.trust_list.trans h.list, hlog ?_, ?_⟩
    · intro e he
      rcases List.mem_append.mp he with he | he
      · exact hallowed e he
      · exact (hsent e he).1
    · have hnone : ((call.run B display s.agent).published.map
          fun p => TrustEvent.published s.agent.peer_map call p.1 p.2).countP (Unlisted l) = 0 := by
        rw [List.countP_eq_zero]
        intro e he
        rw [(hsent e he).2]
        exact Bool.false_ne_true
      rw [hcount, h.counted, List.countP_append, List.countP_append, hnone, Nat.add_zero,
        UInt64.ofNat_add, UInt64.add_assoc]
  | presence map =>
    cases hs
    rw [List.append_nil]
    exact ⟨h.list, h.allowed, h.counted⟩

/-- Over any run of polls and delegations, with any messages and any peers, a
node with its list in `Enforce` mode returns tasks of listed senders only and
sends subtasks to listed peers only, and its counter grows by the tasks of
unlisted senders. With the list in `Log` mode, polls return what they return in
`Off` mode. -/
theorem the_trust_list_is_enforced (B : Build) (display : NodeError → String) (s : Watched L F)
    (hmode : s.agent.trust_list.mode = .Enforce) (ops : List TrustOp) :
    (Returns (run (Watched.step B display) s ops) fun r =>
      (∀ e ∈ r.2, Allowed s.agent.trust_list e) ∧
      r.1.tasks_dropped_untrusted = s.tasks_dropped_untrusted +
        UInt64.ofNat (r.2.countP (Unlisted s.agent.trust_list))) ∧
    ∀ (node : LmaoNode L F) (calls : List PollCall), ∃ (node' : LmaoNode L F)
      (out : List Returned),
      run (PollCall.step B) (node.with_mode .Log) calls = .ok (node'.with_mode .Log, out) ∧
      run (PollCall.step B) (node.with_mode .Off) calls = .ok (node'.with_mode .Off, out) := by
  refine ⟨?_, run_log B⟩
  have hstart : Enforced s.agent.trust_list s.tasks_dropped_untrusted [] s :=
    ⟨rfl, by simp, by simp⟩
  obtain ⟨⟨s', log⟩, hr⟩ := ends_ok (run (Watched.step B display) s ops)
  have hend := run_invariant hstart (fun _ _ _ _ _ h hs => h.step hmode hs) hr
  exact ⟨_, hr, hend.allowed, hend.counted⟩

/-! ## A run -/

namespace Sample

def listed : Task := .new "task-1" "02alice" "02bob" "hi"

def stranger : Task := .new "task-2" "02mallory" "02bob" "hi"

def trust_libs : Libs :=
  .ofTables
    (.ofTable [((A2AEnvelope.Task listed).to_vec, "01"),
      ((A2AEnvelope.Task stranger).to_vec, "02")] [])
    { public_key := fun _ => List.replicate 32 0
      diffie_hellman := fun _ _ => []
      aead_encrypt := fun _ _ plaintext => some plaintext
      aead_decrypt := fun _ _ ciphertext => some ciphertext }
    [.Task listed, .Task stranger] []

/-- Bob, who trusts alice for translations. -/
def careful_bob : Watched trust_libs (IdSet fun _ => []) :=
  { agent := { LmaoNode.new "02bob" "bob" "" [] none .default 0 with
      trust_list := (TrustList.empty.add
        { pubkey := "02alice", nickname := "alice", capabilities := ["translate"]
          notes := none, encryption_pubkey := none, added_at := 0 }).set_mode .Enforce }
    tasks_dropped_untrusted := 0 }

/-- Both of them are live and translate. -/
def two_peers : PeerMap :=
  let info : PeerInfo :=
    { name := "", capabilities := ["translate"], waku_topic := "", ttl_secs := 60
      last_seen := 100, load := none }
  { peers := (AList.insert "02mallory" info ∅).insert "02alice" info }

def translation : DelegationRequest :=
  { parent_task_id := "task-1", subtask_text := "hi", strategy := .CapabilityMatch "translate"
    session_id := none }

def trust_ops : List TrustOp :=
  [.poll (one_call [listed, stranger]), .presence two_peers,
    .delegate (.broadcast translation 110 fun _ =>
      { uuid := "sub-1", publish := fun _ _ => .ok (), polls := [] })]

end Sample

/-- Two tasks come in and two peers could get a subtask. One of each is
alice's. -/
theorem only_alice_gets_through :
    Sample.careful_bob.agent.trust_list.mode = .Enforce ∧
    (Returns (run (Watched.step (exactBlooms fun _ => none) fun _ => "") Sample.careful_bob
      Sample.trust_ops) fun r => ∀ e ∈ r.2, Allowed Sample.careful_bob.agent.trust_list e) ∧
    Returns (run (Watched.step (exactBlooms fun _ => none) fun _ => "") Sample.careful_bob
      Sample.trust_ops) fun r => r.1.tasks_dropped_untrusted = 1 ∧
        r.2.filterMap (fun | .published _ _ topic _ => some topic | _ => none) =
          [task_topic "02alice"] := by
  obtain ⟨r, hr, hallowed, -⟩ := (the_trust_list_is_enforced (exactBlooms fun _ => none)
    (fun _ => "") Sample.careful_bob rfl Sample.trust_ops).1
  exact ⟨rfl, ⟨r, hr, hallowed⟩, by decide +kernel⟩

end lmao.node
