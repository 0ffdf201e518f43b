-- The requests for a delegation (cli crate: daemon/server.rs and task.rs). A
-- request can name a strategy and a capability, and a strategy that has a name
-- forgets the capability.
import Lmao.PeerSelection
import Lmao.TrustEnforcement

namespace lmao.cli

open sds node node.LmaoNode

variable {L : Libs} {F : Type} [IdFilter F]

/-! ## The request -/

/-- `recipient` is `to` of the Rust request. The timeout is left out, as in the
request of the node. -/
structure TaskDelegate where
  recipient : Option String
  capability : Option String
  text : String
  parent_id : String
  broadcast : Bool
  strategy : Option String
  session_id : Option String
deriving DecidableEq, Repr

/-- The strategy of the daemon. With a recipient it is not used. -/
def build_strategy (recipient capability strategy_name : Option String) : DelegationStrategy :=
  if recipient.isSome then .FirstAvailable
  else
    match strategy_name with
    | some "round-robin" => .RoundRobin
    | some "broadcast" => .BroadcastCollect
    | some "first-available" => .FirstAvailable
    | _ =>
      match capability with
      | some c => .CapabilityMatch c
      | none => .FirstAvailable

/-- The strategy of the command line, which has none for a direct
delegation. -/
def local_strategy (recipient capability strategy : Option String) : Option DelegationStrategy :=
  match recipient with
  | some _ => none
  | none =>
    match strategy with
    | some s =>
      match s with
      | "round-robin" => some .RoundRobin
      | "broadcast" => some .BroadcastCollect
      | "first-available" => some .FirstAvailable
      | _ =>
        match capability with
        | some cap => some (.CapabilityMatch cap)
        | none => some .FirstAvailable
    | none =>
      match capability with
      | some cap => some (.CapabilityMatch cap)
      | none => some .FirstAvailable

inductive DelegateResponse
  | TaskDelegate (results : List DelegationResult)
  | Error (message : String)
deriving DecidableEq, Repr

namespace TaskDelegate

def request (r : TaskDelegate) : DelegationRequest :=
  { parent_task_id := r.parent_id
    subtask_text := r.text
    strategy := build_strategy r.recipient r.capability r.strategy
    session_id := r.session_id }

/-- The call of the node that a request leads to. -/
def call (r : TaskDelegate) (now_secs : UInt64) (w : Nat → Waits) : Except String DelegationCall :=
  match r.recipient with
  | some pk =>
    if r.broadcast then
      .error ("--broadcast cannot be combined with --to (direct delegation " ++
        "targets a single peer)")
    else .ok (.direct r.request pk (w 0))
  | none =>
    .ok (if r.broadcast then .broadcast r.request now_secs w else .task r.request now_secs (w 0))

/-- The request at the daemon. -/
def dispatch (B : Build) (display : NodeError → String) (node : LmaoNode L F) (r : TaskDelegate)
    (now_secs : UInt64) (w : Nat → Waits) : Delegated L F DelegateResponse :=
  match r.call now_secs w with
  | .error message =>
    { after := node, published := [], polls := [], result := .ok (.Error message) }
  | .ok call =>
    let d := call.run B display node
    { after := d.after, published := d.published, polls := d.polls
      result := d.result.map .TaskDelegate }

/-- The request with a capability and without a recipient. -/
def for_capability (r : TaskDelegate) (capability : String) : TaskDelegate :=
  { r with recipient := none, capability := some capability }

end TaskDelegate

/-! ## The law -/

/-- Whatever the peers and the trust list, each peer that gets the subtask
advertises the capability and is trusted for it. And the command line chooses
the strategy of the daemon. -/
structure HonoursCapability (L : Libs) (F : Type) [IdFilter F] (B : Build)
    (display : NodeError → String) (r : TaskDelegate) (capability : String) : Prop where
  published : ∀ (node : LmaoNode L F) now_secs w topic task,
    (topic, task) ∈ (r.dispatch B display node now_secs w).published →
      topic = task_topic task.recipient ∧
      Advertises node.peer_map now_secs task.recipient capability ∧
      node.trust_list.is_trusted_for task.recipient capability = true
  same_strategy : local_strategy r.recipient r.capability r.strategy =
    some (build_strategy r.recipient r.capability r.strategy)

/-- The strategies that have a name. -/
def strategy_names : List String := ["round-robin", "broadcast", "first-available"]

theorem local_strategy_eq (capability strategy : Option String) :
    local_strategy none capability strategy = some (build_strategy none capability strategy) := by
  rcases strategy with _ | s
  · rcases capability with _ | c <;> rfl
  · by_cases hrobin : s = "round-robin"
    · subst hrobin
      rfl
    by_cases hbroadcast : s = "broadcast"
    · subst hbroadcast
      rfl
    by_cases hfirst : s = "first-available"
    · subst hfirst
      rfl
    rcases capability with _ | c
    · simp [local_strategy, build_strategy, hrobin, hbroadcast, hfirst]
    · simp [local_strategy, build_strategy, hrobin, hbroadcast, hfirst]

/-- Without a name the strategy is that of the capability. -/
theorem build_strategy_unnamed {capability : String} {strategy : Option String}
    (h : ∀ s ∈ strategy, s ∉ strategy_names) :
    build_strategy none (some capability) strategy = .CapabilityMatch capability := by
  unfold build_strategy
  rw [if_neg (by simp)]
  split
  · exact absurd (h _ rfl) (by decide)
  · exact absurd (h _ rfl) (by decide)
  · exact absurd (h _ rfl) (by decide)
  · rfl

/-- A request that goes by its capability picks only peers that have it. -/
theorem published_for_capability {B : Build} {display : NodeError → String} {node : LmaoNode L F}
    {r : TaskDelegate} {capability : String} (hto : r.recipient = none)
    (hstrategy : r.request.strategy = .CapabilityMatch capability) {now_secs : UInt64}
    {w : Nat → Waits} {topic : String} {task : Task}
    (h : (topic, task) ∈ (r.dispatch B display node now_secs w).published) :
    topic = task_topic task.recipient ∧
      Advertises node.peer_map now_secs task.recipient capability ∧
      node.trust_list.is_trusted_for task.recipient capability = true := by
  obtain ⟨call, hcall, hmatch⟩ : ∃ call, r.call now_secs w = .ok call ∧
      call.Matches capability now_secs := by
    unfold TaskDelegate.call
    rw [hto]
    rcases r.broadcast with _ | _
    · exact ⟨_, rfl, hstrategy, rfl⟩
    · exact ⟨_, rfl, hstrategy, rfl⟩
  unfold TaskDelegate.dispatch at h
  simp only [hcall] at h
  obtain ⟨peer_id, uuid, hpicks, rfl, rfl⟩ := published_picked h
  rw [(node.subtask_fields call.request peer_id uuid).recipient]
  exact ⟨rfl, picked_for_capability hpicks hmatch⟩

/-! ## The names -/

/-- A peer that can do nothing. -/
def idle_bob : PeerInfo :=
  { name := "", capabilities := [], waku_topic := "", ttl_secs := 60, last_seen := 100
    load := none }

/-- A node that trusts everybody, and its one peer. -/
def lone_node (L : Libs) (F : Type) [IdFilter F] : LmaoNode L F :=
  { LmaoNode.new "02alice" "alice" "" [] none .default 0 with
    peer_map := { peers := AList.singleton "02bob" idle_bob } }

/-- The transport takes everything and brings nothing. -/
def no_answers (_ : Nat) : Waits :=
  { uuid := "sub-1", publish := fun _ _ => .ok (), polls := [] }

theorem lone_candidates {strategy : DelegationStrategy}
    (h : ∀ capability, strategy ≠ .CapabilityMatch capability) :
    (lone_node L F).candidates 110 strategy = [("02bob", idle_bob)] ∧
      (lone_node L F).broadcast_peers 110 strategy = ["02bob"] ∧
      (lone_node L F).peer_map.all_live 110 = [("02bob", idle_bob)] := by
  cases strategy with
  | CapabilityMatch capability => exact absurd rfl (h capability)
  | _ => exact ⟨rfl, rfl, rfl⟩

/-- Whatever the strategy but for a capability, bob gets the subtask. -/
theorem lone_published (B : Build) (display : NodeError → String) {r : TaskDelegate}
    (hto : r.recipient = none)
    (hstrategy : ∀ capability, r.request.strategy ≠ .CapabilityMatch capability) :
    ∃ topic task,
      (topic, task) ∈ (r.dispatch B display (lone_node L F) 110 no_answers).published ∧
        task.recipient = "02bob" := by
  obtain ⟨hcandidates, hbroadcast, hlive⟩ := lone_candidates (L := L) (F := F) hstrategy
  unfold TaskDelegate.dispatch TaskDelegate.call
  rw [hto]
  dsimp only
  rcases r.broadcast with _ | _
  · have hranks : RanksTrusted (lone_node L F) 110 r.request.strategy := by
      refine .inr (.inr ⟨("02bob", idle_bob), ?_, ?_⟩)
      · rw [hcandidates]
        exact List.mem_singleton_self _
      · intro q hq
        rw [hlive] at hq
        rw [List.mem_singleton.mp hq]
    have hdelegated := (wellDelegated_iff_chooses B (lone_node L F) r.request 110
      (no_answers 0)).mpr ((select_peer_chooses_iff _ _ _).mpr hranks)
    obtain ⟨id, hpub, p, hp, hid, -⟩ := hdelegated.somebody (by rw [hcandidates]; simp)
    rw [hcandidates] at hp
    obtain rfl := List.mem_singleton.mp hp
    subst hid
    refine ⟨task_topic "02bob", (lone_node L F).subtask r.request "02bob" "sub-1", ?_,
      ((lone_node L F).subtask_fields r.request "02bob" "sub-1").recipient⟩
    change _ ∈ ((lone_node L F).delegate_task B r.request 110 (no_answers 0)).published
    rw [hpub]
    exact List.mem_singleton_self _
  · refine ⟨task_topic "02bob", (lone_node L F).subtask r.request "02bob" "sub-1", ?_,
      ((lone_node L F).subtask_fields r.request "02bob" "sub-1").recipient⟩
    change _ ∈ ((lone_node L F).delegate_broadcast B display r.request 110 no_answers).published
    unfold delegate_broadcast
    rw [hbroadcast]
    rw [if_neg (by decide)]
    unfold delegate_each
    dsimp only
    split
    · rw [delegate_to_peer_published]
      exact List.mem_singleton_self _
    · rw [delegate_to_peer_published]
      exact List.mem_append_left _ (List.mem_singleton_self _)

/-- A request honours its capability exactly if it does not name a strategy
besides. -/
theorem a_capability_is_honoured_iff (B : Build) (display : NodeError → String) (r : TaskDelegate)
    (capability : String) :
    HonoursCapability L F B display (r.for_capability capability) capability ↔
      ∀ s ∈ r.strategy, s ∉ strategy_names := by
  constructor
  · intro h s hs hname
    have hstrategy : ∀ c, (r.for_capability capability).request.strategy ≠ .CapabilityMatch c := by
      intro c
      have hr : r.strategy = some s := hs
      simp only [strategy_names, List.mem_cons, List.not_mem_nil, or_false] at hname
      simp only [TaskDelegate.request, TaskDelegate.for_capability, hr]
      rcases hname with rfl | rfl | rfl
      · nofun
      · nofun
      · nofun
    obtain ⟨topic, task, hmem, hbob⟩ := lone_published (L := L) (F := F) B display rfl hstrategy
    obtain ⟨-, ⟨info, hinfo, -, hcap⟩, -⟩ := h.published _ 110 no_answers topic task hmem
    have hentry : (task.recipient, info) ∈ [("02bob", idle_bob)] := hinfo
    obtain ⟨-, rfl⟩ := Prod.mk.inj (List.mem_singleton.mp hentry)
    cases hcap
  · intro h
    refine ⟨?_, local_strategy_eq (some capability) r.strategy⟩
    have hstrategy : (r.for_capability capability).request.strategy =
        .CapabilityMatch capability := build_strategy_unnamed h
    intro node now_secs w topic task hmem
    exact published_for_capability rfl hstrategy hmem

/-- A translation, in turn. -/
def Sample.in_turn_for : TaskDelegate :=
  { recipient := none, capability := some "translate", text := "hi", parent_id := "cli"
    broadcast := false, strategy := some "round-robin", session_id := none }

/-- Bob gets the text, though he does not translate. -/
theorem a_named_strategy_forgets_the_capability :
    (Sample.in_turn_for.dispatch (exactBlooms fun _ => none) (fun _ => "")
      (lone_node Sample.quiet_libs (IdSet fun _ => [])) 110 no_answers).published.map
        (fun p => (p.1, p.2.recipient)) = [(task_topic "02bob", "02bob")] ∧
    ¬ Advertises (lone_node Sample.quiet_libs (IdSet fun _ => [])).peer_map 110 "02bob"
      "translate" ∧
    ¬ HonoursCapability Sample.quiet_libs (IdSet fun _ => []) (exactBlooms fun _ => none)
      (fun _ => "") Sample.in_turn_for "translate" := by
  have hpub : (Sample.in_turn_for.dispatch (exactBlooms fun _ => none) (fun _ => "")
      (lone_node Sample.quiet_libs (IdSet fun _ => [])) 110 no_answers).published.map
        (fun p => (p.1, p.2.recipient)) = [(task_topic "02bob", "02bob")] := by
    decide +kernel
  have hnot : ¬ Advertises (lone_node Sample.quiet_libs (IdSet fun _ => [])).peer_map 110 "02bob"
      "translate" := by
    rintro ⟨info, hinfo, -, hcap⟩
    have hentry : ("02bob", info) ∈ [("02bob", idle_bob)] := hinfo
    obtain ⟨-, rfl⟩ := Prod.mk.inj (List.mem_singleton.mp hentry)
    cases hcap
  refine ⟨hpub, hnot, ?_⟩
  intro h
  obtain ⟨⟨topic, task⟩, hmem, heq⟩ : ∃ p ∈ (Sample.in_turn_for.dispatch (exactBlooms fun _ => none)
      (fun _ => "") (lone_node Sample.quiet_libs (IdSet fun _ => [])) 110 no_answers).published,
      (p.1, p.2.recipient) = (task_topic "02bob", "02bob") := by
    rw [← List.mem_map, hpub]
    exact List.mem_singleton_self _
  have hadvertises := (h.published _ 110 no_answers topic task hmem).2.1
  rw [show task.recipient = "02bob" from (Prod.mk.inj heq).2] at hadvertises
  exact hnot hadvertises

end lmao.cli
