-- The peer map over time (presence.rs of the node crate): announcements, evictions and
-- questions in any order. An eviction never changes an answer.
import Lmao.DelegationHistory
import Lmao.PresencePoll

namespace lmao.node

open machine

/-! ## Evictions -/

namespace PeerMap

def len (map : PeerMap) : Nat := map.peers.entries.length

/-- The map without its expired entries, and how many there were. -/
def evict_expired (map : PeerMap) (now_secs : UInt64) : PeerMap × Nat :=
  let kept := map.peers.entries.filter fun e => !e.2.is_expired_at now_secs
  ({ peers := ⟨kept, map.peers.nodupKeys.sublist List.filter_sublist⟩ }, map.len - kept.length)

theorem mem_toList (map : PeerMap) (id : String) (info : PeerInfo) :
    (id, info) ∈ map.toList ↔ map.peers.lookup id = some info := by
  rw [toList, List.mem_map]
  constructor
  · rintro ⟨⟨k, i⟩, hmem, heq⟩
    cases heq
    exact AList.mem_lookup_iff.mpr hmem
  · intro hlookup
    exact ⟨⟨id, info⟩, AList.mem_lookup_iff.mp hlookup, rfl⟩

theorem toList_keys (map : PeerMap) : map.toList.map Prod.fst = map.peers.keys := by
  rw [toList, List.map_map]
  rfl

theorem evict_expired_toList (map : PeerMap) (now : UInt64) :
    (map.evict_expired now).1.toList = map.all_live now := by
  rw [all_live, toList, toList, evict_expired, List.filter_map]
  rfl

theorem lookup_evict_expired (map : PeerMap) (now : UInt64) (id : String) :
    (map.evict_expired now).1.peers.lookup id = map.get now id := by
  rw [get]
  apply Option.ext
  intro info
  rw [← mem_toList, evict_expired_toList, all_live, List.mem_filter, mem_toList,
    Option.filter_eq_some_iff]

/-- The peers that were there are the ones that stay and the ones that are counted. -/
theorem evict_expired_count (map : PeerMap) (now : UInt64) :
    (map.evict_expired now).2 + (map.all_live now).length = map.len := by
  have hkept : (map.all_live now).length = (map.evict_expired now).1.len := by
    rw [← evict_expired_toList, toList, List.length_map]
    rfl
  rw [hkept]
  exact Nat.sub_add_cancel (List.length_filter_le _ _)

end PeerMap

/-- What is expired stays expired. -/
theorem PeerInfo.expired_mono {info : PeerInfo} {t now : UInt64} (h : t ≤ now)
    (hexpired : info.is_expired_at t = true) : info.is_expired_at now = true := by
  have hle : t.toNat ≤ now.toNat := UInt64.le_iff_toNat_le.mp h
  rw [PeerInfo.is_expired_at, Bool.or_eq_true, decide_eq_true_iff] at hexpired ⊢
  apply hexpired.imp id
  intro hlate
  omega

/-! ## Runs -/

namespace peers

/-- What happens to the map, with the clock as the call reads it. -/
inductive PeerOp
  | update (now : UInt64) (announcement : PresenceAnnouncement) (load : Option LoadStatus)
  | evict_expired (now : UInt64)
  | get (now : UInt64) (agent_id : String)
  | all_live (now : UInt64)
  | find_by_capability (now : UInt64) (capability : String)

inductive PeerAnswer
  | evicted (n : Nat)
  | got (info : Option PeerInfo)
  | live (peers : List (String × PeerInfo))

def step (map : PeerMap) : PeerOp → Except Empty (PeerMap × List PeerAnswer)
  | .update now announcement load => .ok (map.update_with_load now announcement load, [])
  | .evict_expired now =>
    .ok ((map.evict_expired now).1, [.evicted (map.evict_expired now).2])
  | .get now agent_id => .ok (map, [.got (map.get now agent_id)])
  | .all_live now => .ok (map, [.live (map.all_live now)])
  | .find_by_capability now capability =>
    .ok (map, [.live (map.find_by_capability now capability)])

/-! ## What was announced -/

def announced (id : String) : PeerOp → Option PeerInfo
  | .update now announcement load =>
    if announcement.agent_id = id then some (.of_announcement now announcement load) else none
  | _ => none

/-- The last announcement of an agent. -/
def last_announced (ops : List PeerOp) (id : String) : Option PeerInfo :=
  (ops.filterMap (announced id)).getLast?

/-- The times of the evictions. -/
def evictions (ops : List PeerOp) : List UInt64 :=
  ops.filterMap fun
    | .evict_expired now => some now
    | _ => none

theorem last_announced_snoc (ops : List PeerOp) (op : PeerOp) (id : String) :
    last_announced (ops ++ [op]) id = (announced id op).or (last_announced ops id) := by
  rw [last_announced, List.filterMap_append]
  cases hop : announced id op with
  | none =>
    rw [List.filterMap_cons_none hop, List.filterMap_nil, List.append_nil]
    rfl
  | some info =>
    rw [List.filterMap_cons_some hop, List.filterMap_nil, List.getLast?_concat]
    rfl

theorem mem_evictions_snoc {ops : List PeerOp} {op : PeerOp} {t : UInt64}
    (h : t ∈ evictions ops) : t ∈ evictions (ops ++ [op]) := by
  rw [evictions, List.filterMap_append]
  exact List.mem_append_left _ h

/-- The map has the last announcement of an agent, or an eviction took it when it was
expired. -/
def Holds (ops : List PeerOp) (map : PeerMap) (id : String) : Prop :=
  map.peers.lookup id = last_announced ops id ∨
    map.peers.lookup id = none ∧
      ∃ info, last_announced ops id = some info ∧
        ∃ t ∈ evictions ops, info.is_expired_at t = true

variable {ops : List PeerOp} {op : PeerOp} {map map' : PeerMap} {log out : List PeerAnswer}
  {id : String}

/-- A question. -/
theorem Holds.ask (h : Holds ops map id) (hop : announced id op = none) :
    Holds (ops ++ [op]) map id := by
  have hsame : last_announced (ops ++ [op]) id = last_announced ops id := by
    rw [last_announced_snoc, hop, Option.none_or]
  rw [Holds, hsame]
  apply h.imp_right
  rintro ⟨hnone, info, hlast, t, ht, hexpired⟩
  exact ⟨hnone, info, hlast, t, mem_evictions_snoc ht, hexpired⟩

theorem Holds.update (h : Holds ops map id) (now : UInt64) (announcement : PresenceAnnouncement)
    (load : Option LoadStatus) :
    Holds (ops ++ [.update now announcement load])
      (map.update_with_load now announcement load) id := by
  by_cases hid : announcement.agent_id = id
  · left
    rw [last_announced_snoc, announced, if_pos hid, PeerMap.update_with_load, hid,
      AList.lookup_insert]
    rfl
  · have hlookup : (map.update_with_load now announcement load).peers.lookup id =
        map.peers.lookup id := AList.lookup_insert_ne (Ne.symm hid)
    have hasked : Holds (ops ++ [.update now announcement load]) map id := h.ask (if_neg hid)
    rw [Holds, hlookup]
    exact hasked

theorem Holds.evict (h : Holds ops map id) (now : UInt64) :
    Holds (ops ++ [.evict_expired now]) (map.evict_expired now).1 id := by
  have hnow : now ∈ evictions (ops ++ [.evict_expired now]) := by
    rw [evictions, List.filterMap_append]
    exact List.mem_append_right _ (List.mem_singleton_self now)
  have hasked : Holds (ops ++ [.evict_expired now]) map id := h.ask rfl
  rw [Holds, PeerMap.lookup_evict_expired, PeerMap.get]
  rcases hasked with hlookup | ⟨hnone, hgone⟩
  · rw [hlookup]
    cases hlast : last_announced (ops ++ [.evict_expired now]) id with
    | none => exact .inl rfl
    | some info =>
      by_cases hexpired : info.is_expired_at now = true
      · right
        refine ⟨?_, info, rfl, now, hnow, hexpired⟩
        rw [Option.filter_some, hexpired]
        rfl
      · left
        rw [Bool.not_eq_true] at hexpired
        rw [Option.filter_some, hexpired]
        rfl
  · right
    rw [hnone]
    exact ⟨rfl, hgone⟩

theorem Holds.step (h : Holds ops map id) (hstep : peers.step map op = .ok (map', out)) :
    Holds (ops ++ [op]) map' id := by
  cases op with
  | update now announcement load =>
    cases hstep
    exact h.update now announcement load
  | evict_expired now =>
    cases hstep
    exact h.evict now
  | get now agent_id =>
    cases hstep
    exact h.ask rfl
  | all_live now =>
    cases hstep
    exact h.ask rfl
  | find_by_capability now capability =>
    cases hstep
    exact h.ask rfl

theorem holds (hrun : run peers.step PeerMap.new ops = .ok (map, log)) (id : String) :
    Holds ops map id := by
  induction ops using List.reverseRecOn generalizing map log with
  | nil =>
    cases hrun
    exact .inl rfl
  | append_singleton ops op ih =>
    obtain ⟨s, log₁, log₂, hbefore, hstep, -⟩ := run_snoc_cases hrun
    exact (ih hbefore).step hstep

/-- A question that comes after the evictions sees the last announcement, if it is not
expired. -/
theorem Holds.get (h : Holds ops map id) {now : UInt64} (hnow : ∀ t ∈ evictions ops, t ≤ now) :
    map.get now id = (last_announced ops id).filter fun info => !info.is_expired_at now := by
  rw [PeerMap.get]
  rcases h with hlookup | ⟨hnone, info, hlast, t, ht, hexpired⟩
  · rw [hlookup]
  · rw [hnone, hlast, Option.filter_some, PeerInfo.expired_mono (hnow t ht) hexpired]
    rfl

/-! ## The laws -/

/-- The last announcement of an agent, while it lasts. -/
def live_announced (ops : List PeerOp) (now : UInt64) (id : String) : Option PeerInfo :=
  (last_announced ops id).filter fun info => !info.is_expired_at now

theorem mem_all_live (map : PeerMap) (now : UInt64) (id : String) (info : PeerInfo) :
    (id, info) ∈ map.all_live now ↔ map.get now id = some info := by
  rw [← PeerMap.evict_expired_toList, PeerMap.mem_toList, PeerMap.lookup_evict_expired]

theorem all_live_nodup (map : PeerMap) (now : UInt64) :
    ((map.all_live now).map Prod.fst).Nodup := by
  rw [← PeerMap.evict_expired_toList, PeerMap.toList_keys]
  exact AList.keys_nodup _

theorem mem_find_by_capability (map : PeerMap) (now : UInt64) (capability id : String)
    (info : PeerInfo) :
    (id, info) ∈ map.find_by_capability now capability ↔
      map.get now id = some info ∧ capability ∈ info.capabilities := by
  rw [← mem_all_live, PeerMap.find_by_capability, PeerMap.all_live, List.mem_filter,
    List.mem_filter, Bool.and_eq_true, and_assoc, List.contains_iff_mem]

theorem find_by_capability_nodup (map : PeerMap) (now : UInt64) (capability : String) :
    ((map.find_by_capability now capability).map Prod.fst).Nodup := by
  have hsub : (map.find_by_capability now capability).Sublist (map.all_live now) := by
    apply List.monotone_filter_right
    intro p hp
    exact (Bool.and_eq_true _ _ ▸ hp).1
  exact (all_live_nodup map now).sublist (hsub.map _)

/-- Whatever was announced, evicted and asked in whatever order: a question that comes
after the evictions shows each agent by its last announcement, while that lasts, and no
other. An eviction leaves what is live and counts the rest. -/
theorem the_live_peers_are_the_last_announcements
    (hrun : run step PeerMap.new ops = .ok (map, log)) {now : UInt64}
    (hnow : ∀ t ∈ evictions ops, t ≤ now) :
    (∀ id, map.get now id = live_announced ops now id) ∧
      (∀ id info, (id, info) ∈ map.all_live now ↔ live_announced ops now id = some info) ∧
      ((map.all_live now).map Prod.fst).Nodup ∧
      (∀ capability id info, (id, info) ∈ map.find_by_capability now capability ↔
        live_announced ops now id = some info ∧ capability ∈ info.capabilities) ∧
      (∀ capability, ((map.find_by_capability now capability).map Prod.fst).Nodup) ∧
      (map.evict_expired now).1.toList = map.all_live now ∧
      (map.evict_expired now).2 + (map.all_live now).length = map.len := by
  have hget := fun id => (holds hrun id).get hnow
  refine ⟨hget, ?_, all_live_nodup map now, ?_, find_by_capability_nodup map now,
    map.evict_expired_toList now, map.evict_expired_count now⟩
  · intro id info
    rw [mem_all_live, hget]
    rfl
  · intro capability id info
    rw [mem_find_by_capability, hget]
    rfl

def sample_announcement (agent_id : String) : PresenceAnnouncement where
  agent_id := agent_id
  name := "echo"
  capabilities := ["text"]
  waku_topic := "/lmao/1/task/proto"
  ttl_secs := 300
  sealed_status := []
  signature := none

def two_announcements : List PeerOp :=
  [.update 10 (sample_announcement "02aa") none, .update 400 (sample_announcement "02bb") none,
    .evict_expired 400]

theorem two_announcements_past : ∀ t ∈ evictions two_announcements, t ≤ (500 : UInt64) := by
  intro t ht
  have hone : evictions two_announcements = [400] := rfl
  rw [hone] at ht
  cases List.mem_singleton.mp ht
  exact UInt64.le_iff_toNat_le.mpr (by decide)

theorem the_live_peers_are_the_last_announcements_two_peers :
    ∃ map log, run step PeerMap.new two_announcements = .ok (map, log) ∧
      map.get 500 "02aa" = none ∧ (map.get 500 "02bb").isSome = true := by
  obtain ⟨⟨map, log⟩, hrun⟩ := ends_ok (run step PeerMap.new two_announcements)
  obtain ⟨hget, -⟩ :=
    the_live_peers_are_the_last_announcements hrun two_announcements_past
  refine ⟨map, log, hrun, ?_, ?_⟩
  · rw [hget]
    decide
  · rw [hget]
    decide

def keeps : PeerOp → Bool
  | .evict_expired _ => false
  | _ => true

theorem last_announced_filter (ops : List PeerOp) (id : String) :
    last_announced (ops.filter keeps) id = last_announced ops id := by
  rw [last_announced, last_announced, List.filterMap_filter]
  congr 1
  apply List.filterMap_congr
  intro op hop
  cases op <;> rfl

theorem evictions_filter (ops : List PeerOp) : evictions (ops.filter keeps) = [] := by
  rw [evictions, List.filterMap_eq_nil_iff]
  intro op hop
  cases op with
  | evict_expired now => exact absurd (List.mem_filter.mp hop).2 Bool.false_ne_true
  | _ => rfl

/-- Without its evictions a run would answer the same. -/
theorem an_eviction_changes_no_answer {plain : PeerMap} {log' : List PeerAnswer}
    (hrun : run step PeerMap.new ops = .ok (map, log))
    (hplain : run step PeerMap.new (ops.filter keeps) = .ok (plain, log')) {now : UInt64}
    (hnow : ∀ t ∈ evictions ops, t ≤ now) :
    (∀ id, map.get now id = plain.get now id) ∧
      (map.all_live now).Perm (plain.all_live now) ∧
      ∀ capability, (map.find_by_capability now capability).Perm
        (plain.find_by_capability now capability) := by
  have hget : ∀ id, map.get now id = plain.get now id := by
    intro id
    have hnone : ∀ t ∈ evictions (ops.filter keeps), t ≤ now := by
      rw [evictions_filter]
      exact fun t ht => absurd ht List.not_mem_nil
    rw [(holds hrun id).get hnow, (holds hplain id).get hnone, last_announced_filter]
  refine ⟨hget, ?_, fun capability => ?_⟩
  · apply (List.perm_ext_iff_of_nodup (all_live_nodup map now).of_map
      (all_live_nodup plain now).of_map).mpr
    rintro ⟨id, info⟩
    rw [mem_all_live, mem_all_live, hget]
  · apply (List.perm_ext_iff_of_nodup (find_by_capability_nodup map now capability).of_map
      (find_by_capability_nodup plain now capability).of_map).mpr
    rintro ⟨id, info⟩
    rw [mem_find_by_capability, mem_find_by_capability, hget]

theorem an_eviction_changes_no_answer_two_peers :
    ∃ map log plain log', run step PeerMap.new two_announcements = .ok (map, log) ∧
      run step PeerMap.new (two_announcements.filter keeps) = .ok (plain, log') ∧
      (map.all_live 500).Perm (plain.all_live 500) := by
  obtain ⟨⟨map, log⟩, hrun⟩ := ends_ok (run step PeerMap.new two_announcements)
  obtain ⟨⟨plain, log'⟩, hplain⟩ := ends_ok (run step PeerMap.new (two_announcements.filter keeps))
  obtain ⟨-, hperm, -⟩ :=
    an_eviction_changes_no_answer hrun hplain two_announcements_past
  exact ⟨map, log, plain, log', hrun, hplain, hperm⟩

end peers

end lmao.node
