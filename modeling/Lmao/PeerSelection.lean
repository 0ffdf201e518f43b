-- The choice of a peer (delegation.rs of the node crate). Every strategy should
-- find a candidate where there is one, and the least loaded of them; round robin
-- looks for the least load before it looks for trust.
import Lmao.Delegation

namespace lmao.node

open sds

variable {L : Libs} {F : Type}

/-! ## Candidates -/

/-- The live peers that the strategy may choose. -/
def LmaoNode.candidates (node : LmaoNode L F) (now_secs : UInt64) :
    DelegationStrategy → List (String × PeerInfo)
  | .CapabilityMatch capability =>
    (node.peer_map.find_by_capability now_secs capability).filter fun p =>
      node.trust_list.is_trusted_for p.1 capability
  | _ => (node.peer_map.all_live now_secs).filter fun p => node.trust_list.is_trusted p.1

/-- The peer is one of them, and none has less load. -/
def LeastLoaded (peers : List (String × PeerInfo)) (id : String) : Prop :=
  ∃ p ∈ peers, p.1 = id ∧ ∀ q ∈ peers, load_rank p.2 ≤ load_rank q.2

/-- A choice among the candidates: the least loaded, or an error if there is
none. -/
def Chooses (peers : List (String × PeerInfo)) (r : Except NodeError String) : Prop :=
  (peers = [] → ∃ e, r = .error e) ∧ (peers ≠ [] → ∃ id, r = .ok id ∧ LeastLoaded peers id)

/-! ## The first of the sorted -/

instance load_total : Std.Total fun a b : String × PeerInfo => load_rank a.2 ≤ load_rank b.2 :=
  ⟨fun a b => Nat.le_total (load_rank a.2) (load_rank b.2)⟩

instance load_trans : IsTrans (String × PeerInfo) fun a b => load_rank a.2 ≤ load_rank b.2 :=
  ⟨fun _ _ _ => Nat.le_trans⟩

theorem sort_by_load_sorted (peers : List (String × PeerInfo)) :
    (sort_by_load peers).Pairwise fun a b => load_rank a.2 ≤ load_rank b.2 :=
  List.pairwise_insertionSort _ _

theorem mem_sort_by_load_iff {peers : List (String × PeerInfo)} {p : String × PeerInfo} :
    p ∈ sort_by_load peers ↔ p ∈ peers := List.mem_insertionSort _

/-- The first element of a sorted list that will do has the least load of all
that will do. -/
theorem find?_least {peers : List (String × PeerInfo)} {good : String → Bool}
    (hsorted : peers.Pairwise fun a b => load_rank a.2 ≤ load_rank b.2) {id : String}
    (h : (peers.map Prod.fst).find? good = some id) :
    LeastLoaded (peers.filter fun p => good p.1) id := by
  induction peers with
  | nil => cases h
  | cons p rest ih =>
    rw [List.map_cons, List.find?_cons] at h
    rcases hgood : good p.1 with _ | _
    · simp only [hgood] at h
      rw [List.filter_cons_of_neg (by simp [hgood])]
      exact ih hsorted.of_cons h
    · simp only [hgood, Option.some.injEq] at h
      rw [List.filter_cons_of_pos (by simpa using hgood)]
      refine ⟨p, by simp, h, ?_⟩
      intro q hq
      rcases List.mem_cons.mp hq with rfl | hq
      · exact Nat.le_refl _
      · exact List.rel_of_pairwise_cons hsorted (List.mem_filter.mp hq).1

theorem find?_none_filter {peers : List (String × PeerInfo)} {good : String → Bool}
    (h : (peers.map Prod.fst).find? good = none) : peers.filter (fun p => good p.1) = [] := by
  apply List.filter_eq_nil_iff.mpr
  intro p hp
  exact List.find?_eq_none.mp h p.1 (List.mem_map_of_mem hp)

/-- The choice of the three strategies that sort. -/
theorem chooses_first (good : String → Bool) {peers : List (String × PeerInfo)}
    {r : Except NodeError String}
    (hfound : ∀ id, ((sort_by_load peers).map Prod.fst).find? good = some id → r = .ok id)
    (hnone : ((sort_by_load peers).map Prod.fst).find? good = none → ∃ e, r = .error e) :
    Chooses (peers.filter fun p => good p.1) r := by
  have hmem : ∀ p, p ∈ (sort_by_load peers).filter (fun p => good p.1) ↔
      p ∈ peers.filter fun p => good p.1 := by
    intro p
    simp only [List.mem_filter, mem_sort_by_load_iff]
  rcases hfind : ((sort_by_load peers).map Prod.fst).find? good with _ | id
  · have hempty : peers.filter (fun p => good p.1) = [] := by
      apply List.eq_nil_iff_forall_not_mem.mpr
      intro p hp
      have hp' := (hmem p).mpr hp
      rw [find?_none_filter hfind] at hp'
      cases hp'
    exact ⟨fun _ => hnone hfind, fun hne => absurd hempty hne⟩
  · obtain ⟨p, hp, heq, hleast⟩ := find?_least (sort_by_load_sorted peers) hfind
    refine ⟨?_, fun _ => ⟨id, hfound id hfind, p, (hmem p).mp hp, heq, ?_⟩⟩
    · intro hempty
      have hp' := (hmem p).mp hp
      rw [hempty] at hp'
      cases hp'
    · exact fun q hq => hleast q ((hmem q).mpr hq)

/-! ## Round robin -/

/-- The peers of the best tier of all the live ones. -/
def best_tier (live : List (String × PeerInfo)) : List (String × PeerInfo) :=
  live.filter fun p => load_rank p.2 == ((live.map fun p => load_rank p.2).min?).getD 2

theorem mem_best_tier {live : List (String × PeerInfo)} {p : String × PeerInfo} :
    p ∈ best_tier live ↔ p ∈ live ∧ ∀ q ∈ live, load_rank p.2 ≤ load_rank q.2 := by
  unfold best_tier
  rw [List.mem_filter, beq_iff_eq]
  apply and_congr_right
  intro hp
  obtain ⟨least, hleast⟩ : ∃ least, (live.map fun p => load_rank p.2).min? = some least := by
    apply Option.ne_none_iff_exists'.mp
    intro hnone
    rw [List.min?_eq_none_iff, List.map_eq_nil_iff] at hnone
    rw [hnone] at hp
    cases hp
  rw [hleast, Option.getD_some]
  obtain ⟨hmem, hle⟩ := List.min?_eq_some_iff.mp hleast
  constructor
  · rintro heq q hq
    rw [heq]
    exact hle _ (List.mem_map_of_mem hq)
  · intro hall
    obtain ⟨q, hq, rfl⟩ := List.mem_map.mp hmem
    exact Nat.le_antisymm (hall q hq) (hle _ (List.mem_map_of_mem hp))

theorem mem_round_robin_candidates {node : LmaoNode L F} {now_secs : UInt64}
    {p : String × PeerInfo} : p ∈ node.candidates now_secs .RoundRobin ↔
      p ∈ node.peer_map.all_live now_secs ∧ node.trust_list.is_trusted p.1 = true :=
  List.mem_filter

/-- The peers that round robin turns over are the candidates in the best tier of
all. -/
theorem mem_round_robin_peers (node : LmaoNode L F) (now_secs : UInt64) (id : String) :
    id ∈ ((best_tier (node.peer_map.all_live now_secs)).map Prod.fst).filter
      node.trust_list.is_trusted ↔ ∃ p ∈ node.candidates now_secs .RoundRobin, p.1 = id ∧
        ∀ q ∈ node.peer_map.all_live now_secs, load_rank p.2 ≤ load_rank q.2 := by
  rw [List.mem_filter, List.mem_map]
  constructor
  · rintro ⟨⟨p, hp, rfl⟩, htrust⟩
    obtain ⟨hlive, hleast⟩ := mem_best_tier.mp hp
    exact ⟨p, mem_round_robin_candidates.mpr ⟨hlive, htrust⟩, rfl, hleast⟩
  · rintro ⟨p, hp, rfl, hleast⟩
    obtain ⟨hlive, htrust⟩ := mem_round_robin_candidates.mp hp
    exact ⟨⟨p, mem_best_tier.mpr ⟨hlive, hleast⟩, rfl⟩, htrust⟩

/-- Round robin chooses well exactly if it has no candidate, or one of them is
in the best tier of all. -/
theorem round_robin_chooses_iff (node : LmaoNode L F) (now_secs : UInt64) :
    Chooses (node.candidates now_secs .RoundRobin) (node.select_peer now_secs .RoundRobin).2 ↔
      node.candidates now_secs .RoundRobin = [] ∨
        ∃ p ∈ node.candidates now_secs .RoundRobin,
          ∀ q ∈ node.peer_map.all_live now_secs, load_rank p.2 ≤ load_rank q.2 := by
  have hpeer := mem_round_robin_peers node now_secs
  unfold LmaoNode.select_peer
  dsimp only
  split
  · rename_i hnone
    have hno : ¬ ∃ p ∈ node.candidates now_secs .RoundRobin,
        ∀ q ∈ node.peer_map.all_live now_secs, load_rank p.2 ≤ load_rank q.2 := by
      rintro ⟨p, hp, hleast⟩
      have hmem := (hpeer p.1).mpr ⟨p, hp, rfl, hleast⟩
      unfold best_tier at hmem
      rw [hnone] at hmem
      cases hmem
    constructor
    · rintro ⟨-, hsome⟩
      refine .inl ?_
      by_contra hne
      obtain ⟨id, hid, -⟩ := hsome hne
      cases hid
    · rintro (hempty | hyes)
      · exact ⟨fun _ => ⟨_, rfl⟩, fun hne => absurd hempty hne⟩
      · exact absurd hyes hno
  · rename_i first rest hpeers
    obtain ⟨p, hp, hid, hleast⟩ := (hpeer _).mp (by
      unfold best_tier
      rw [hpeers]
      exact List.get_mem (first :: rest)
        ⟨node.round_robin_counter.toNat % (first :: rest).length,
          Nat.mod_lt _ (Nat.zero_lt_succ _)⟩)
    refine iff_of_true ⟨?_, ?_⟩ (.inr ⟨p, hp, hleast⟩)
    · intro hempty
      rw [hempty] at hp
      cases hp
    · intro _
      refine ⟨_, rfl, p, hp, hid, ?_⟩
      intro q hq
      exact hleast q (mem_round_robin_candidates.mp hq).1

/-! ## The law -/

/-- The strategy is not round robin, or it has no candidate, or no live peer
has less load than all its candidates. -/
def RanksTrusted (node : LmaoNode L F) (now_secs : UInt64) (strategy : DelegationStrategy) : Prop :=
  strategy ≠ .RoundRobin ∨ node.candidates now_secs strategy = [] ∨
    ∃ p ∈ node.candidates now_secs strategy,
      ∀ q ∈ node.peer_map.all_live now_secs, load_rank p.2 ≤ load_rank q.2

theorem select_peer_chooses_iff (node : LmaoNode L F) (now_secs : UInt64)
    (strategy : DelegationStrategy) :
    Chooses (node.candidates now_secs strategy) (node.select_peer now_secs strategy).2 ↔
      RanksTrusted node now_secs strategy := by
  cases strategy with
  | FirstAvailable =>
    refine iff_of_true (chooses_first node.trust_list.is_trusted ?_ ?_) (.inl nofun)
    · intro id hfind
      simp only [LmaoNode.select_peer, hfind]
    · intro hfind
      simp only [LmaoNode.select_peer, hfind]
      exact ⟨_, rfl⟩
  | BroadcastCollect =>
    refine iff_of_true (chooses_first node.trust_list.is_trusted ?_ ?_) (.inl nofun)
    · intro id hfind
      simp only [LmaoNode.select_peer, hfind]
    · intro hfind
      simp only [LmaoNode.select_peer, hfind]
      exact ⟨_, rfl⟩
  | CapabilityMatch capability =>
    refine iff_of_true (chooses_first (node.trust_list.is_trusted_for · capability) ?_ ?_)
      (.inl nofun)
    · intro id hfind
      simp only [LmaoNode.select_peer, hfind]
    · intro hfind
      simp only [LmaoNode.select_peer, hfind]
      exact ⟨_, rfl⟩
  | RoundRobin =>
    rw [round_robin_chooses_iff]
    unfold RanksTrusted
    simp

variable [IdFilter F]

/-- A delegation without a candidate fails and publishes nothing, and one with
candidates publishes one subtask, to the least loaded of them. -/
structure WellDelegated (B : Build) (node : LmaoNode L F) (request : DelegationRequest)
    (now_secs : UInt64) (w : LmaoNode.Waits) : Prop where
  nobody : node.candidates now_secs request.strategy = [] →
    (node.delegate_task B request now_secs w).published = [] ∧
    ∃ e, (node.delegate_task B request now_secs w).result = .error (.error e)
  somebody : node.candidates now_secs request.strategy ≠ [] → ∃ id,
    (node.delegate_task B request now_secs w).published =
      [(task_topic id, node.subtask request id w.uuid)] ∧
    LeastLoaded (node.candidates now_secs request.strategy) id

omit [IdFilter F] in
/-- A subtask names the peer that it is for. -/
theorem subtask_recipient {node : LmaoNode L F} {request : DelegationRequest}
    {id id' uuid : String} (h : node.subtask request id uuid = node.subtask request id' uuid) :
    id = id' := by
  rw [← (node.subtask_fields request id uuid).recipient, h,
    (node.subtask_fields request id' uuid).recipient]

theorem wellDelegated_iff_chooses (B : Build) (node : LmaoNode L F) (request : DelegationRequest)
    (now_secs : UInt64) (w : LmaoNode.Waits) :
    WellDelegated B node request now_secs w ↔
      Chooses (node.candidates now_secs request.strategy)
        (node.select_peer now_secs request.strategy).2 := by
  rcases hselect : node.select_peer now_secs request.strategy with ⟨node', e | id⟩
  · have hcall : node.delegate_task B request now_secs w =
        { after := node', published := [], polls := [], result := .error (.error e) } := by
      simp only [LmaoNode.delegate_task, hselect]
    constructor
    · rintro ⟨-, hsome⟩
      refine ⟨fun _ => ⟨e, rfl⟩, fun hne => ?_⟩
      obtain ⟨id, hpub, -⟩ := hsome hne
      rw [hcall] at hpub
      cases hpub
    · rintro ⟨-, hsome⟩
      refine ⟨fun _ => ?_, fun hne => ?_⟩
      · rw [hcall]
        exact ⟨rfl, e, rfl⟩
      · obtain ⟨id, hid, -⟩ := hsome hne
        cases hid
  · have hsame := node.select_peer_same now_secs request.strategy
    rw [hselect] at hsame
    have hpub : (node.delegate_task B request now_secs w).published =
        [(task_topic id, node.subtask request id w.uuid)] := by
      simp only [LmaoNode.delegate_task, hselect]
      rw [LmaoNode.delegate_to_peer_published, hsame.subtask]
    constructor
    · rintro ⟨hnone, hsome⟩
      refine ⟨fun hempty => ?_, fun hne => ?_⟩
      · have hno := (hnone hempty).1
        rw [hpub] at hno
        cases hno
      · obtain ⟨id', hpub', hleast⟩ := hsome hne
        rw [hpub] at hpub'
        obtain rfl := subtask_recipient (Prod.mk.inj (List.cons.inj hpub').1).2
        exact ⟨id, rfl, hleast⟩
    · rintro ⟨hnone, hsome⟩
      refine ⟨fun hempty => ?_, fun hne => ?_⟩
      · obtain ⟨e, he⟩ := hnone hempty
        cases he
      · obtain ⟨id', hid', hleast⟩ := hsome hne
        cases hid'
        exact ⟨id, hpub, hleast⟩

/-- A delegation finds the least loaded candidate exactly if its strategy does
not rank the candidates behind a peer that is none. -/
theorem the_least_loaded_is_chosen_iff (B : Build) (node : LmaoNode L F)
    (request : DelegationRequest) (now_secs : UInt64) (w : LmaoNode.Waits) :
    WellDelegated B node request now_secs w ↔ RanksTrusted node now_secs request.strategy := by
  rw [wellDelegated_iff_chooses, select_peer_chooses_iff]

namespace Sample

def quiet_libs : Libs :=
  .ofTables (.ofTable [] [])
    { public_key := fun _ => List.replicate 32 0
      diffie_hellman := fun _ _ => []
      aead_encrypt := fun _ _ plaintext => some plaintext
      aead_decrypt := fun _ _ ciphertext => some ciphertext } [] []

def peer_with (bucket : LoadBucket) : PeerInfo :=
  { name := "", capabilities := ["translate"], waku_topic := "", ttl_secs := 60, last_seen := 100
    load := some { bucket, queue_depth := 0, max_concurrent := 1, avg_latency_ms := 0 } }

/-- Alice trusts bob, who is busy, and not eve, who is free. -/
def choosy_alice : LmaoNode quiet_libs (IdSet fun _ => []) :=
  { LmaoNode.new "02alice" "alice" "" [] none .default 0 with
    trust_list := (TrustList.empty.add
      { pubkey := "02bob", nickname := "bob", capabilities := [], notes := none
        encryption_pubkey := none, added_at := 0 }).set_mode .Enforce
    peer_map := {
      peers := (AList.insert "02eve" (peer_with .Free) ∅).insert "02bob" (peer_with .Busy) } }

def in_turn : DelegationRequest :=
  { parent_task_id := "task-1", subtask_text := "hi", strategy := .RoundRobin, session_id := none }

def no_wait : LmaoNode.Waits :=
  { uuid := "sub-1", publish := fun _ _ => .ok (), polls := [] }

end Sample

/-- Bob is a candidate, and round robin finds nobody. -/
theorem round_robin_misses_bob :
    Sample.choosy_alice.candidates 110 .RoundRobin = [("02bob", Sample.peer_with .Busy)] ∧
    (Sample.choosy_alice.delegate_task (exactBlooms fun _ => none) Sample.in_turn 110
      Sample.no_wait).published = [] ∧
    (Sample.choosy_alice.delegate_task (exactBlooms fun _ => none) Sample.in_turn 110
      Sample.no_wait).result =
        .error (.error (.Other "no live peers available for round-robin delegation")) ∧
    ¬ WellDelegated (exactBlooms fun _ => none) Sample.choosy_alice Sample.in_turn 110
      Sample.no_wait := by
  have hcandidates : Sample.choosy_alice.candidates 110 .RoundRobin =
      [("02bob", Sample.peer_with .Busy)] := by
    decide +kernel
  have hnone : (Sample.choosy_alice.delegate_task (exactBlooms fun _ => none) Sample.in_turn 110
      Sample.no_wait).published = [] := by
    decide +kernel
  refine ⟨hcandidates, hnone, by decide +kernel, ?_⟩
  intro h
  obtain ⟨id, hpub, -⟩ := h.somebody (by
    rw [show Sample.in_turn.strategy = .RoundRobin from rfl, hcandidates]
    simp)
  rw [hnone] at hpub
  cases hpub

end lmao.node
