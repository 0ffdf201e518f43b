-- The MCP bridge (server.rs of the mcp crate): what it keeps of the agents that it heard
-- of, and what its tool calls answer, when they come in any order and overlap.
import Lmao.Discovery
import Lmao.FirstOccurrences
import Lmao.Poll
import Lmao.TextPreviews

namespace lmao.mcp

open discovery lists machine text
open node (Libs LmaoNode NodeError PollCall Stop)
open sds (Build IdFilter IdSet TransportError exactBlooms)
open sds.MessageChannel (AckTransport)

/-! ## The answers -/

inductive ErrorCode
  | INTERNAL_ERROR
  | INVALID_PARAMS
deriving DecidableEq, Repr

structure McpError where
  code : ErrorCode
  message : String
deriving DecidableEq, Repr

inductive CallToolResult
  | success (text : String)
  | error (text : String)
deriving DecidableEq, Repr

/-- `join` of the texts. -/
def join (separator : String) (texts : List String) : String := separator.intercalate texts

/-- The entry of a card, with the first 16 bytes of its key. -/
def format_card (index : Nat) (c : AgentCard) : Except Panic String :=
  (slice_to c.public_key.toList 16).map fun shown =>
    toString index ++ ". **" ++ c.name ++ "** (v" ++ c.version ++ ") — " ++ c.description ++
      "\n   Capabilities: [" ++ join ", " c.capabilities ++ "]\n   Public key: " ++
      String.ofList shown ++ "..."

/-- The entries in their order. The first one that panics ends the call. -/
def summary : Nat → List AgentCard → Except Panic (List String)
  | _, [] => .ok []
  | index, c :: cards =>
    match format_card index c with
    | .error p => .error p
    | .ok entry => (summary (index + 1) cards).map (entry :: ·)

/-- What `discover_agents` answers from its copy of the cache. -/
def found_agents (cards : List AgentCard) : Except Panic CallToolResult :=
  if cards.isEmpty then
    .ok (.success ("No agents found on the network. Make sure nwaku is running and agents " ++
      "are announced."))
  else
    (summary 1 cards).map fun entries =>
      .success ("Found " ++ toString cards.length ++ " agent(s):\n\n" ++ join "\n\n" entries)

/-- What `list_cached_agents` answers. -/
def listed_agents (agents : List AgentCard) : CallToolResult :=
  if agents.isEmpty then .success "No cached agents. Call discover_agents first."
  else .success (join "\n" (agents.map fun c => "• " ++ c.name ++ " — " ++ c.description))

/-- The agent that `send_to_agent` sends to. -/
def agent_of_name (agents : List AgentCard) (agent_name : String) : Except McpError AgentCard :=
  match agents.find? fun c => c.name = agent_name with
  | some card => .ok card
  | none =>
    .error { code := .INVALID_PARAMS,
             message := "Agent '" ++ agent_name ++
               "' not found. Call discover_agents first to refresh the list." }

/-! ## The bridge -/

/-- The node with its receiver, the cache, and for each call of `discover_agents` the
cards that it has still to merge. -/
structure LogosA2ABridge where
  node : DiscoveryNode
  agents : List AgentCard
  calls : List (Option (List AgentCard))

/-- A call of `discover_agents` reads the topic and later, under the lock of the cache,
merges what it read. Calls overlap. -/
inductive BridgeOp
  | deliver (msg : Bytes)
  | discover (subscribed : Except TransportError (List Bytes))
  | merge (k : Nat)
  | list_cached_agents

inductive BridgeOutput
  | arrived (msgs : List Bytes)
  | failed (error : McpError)
  | drained (cards : List AgentCard)
  | merged (k : Nat) (cards : List AgentCard)
  | answered (k : Nat) (result : Except Panic CallToolResult)
  | listed (result : CallToolResult)

namespace LogosA2ABridge

def from_node (card : AgentCard) : LogosA2ABridge where
  node := { card, discover_rx := none }
  agents := []
  calls := []

/-- The cards of a call go into the cache by their keys. -/
def merge_cards (agents new_cards : List AgentCard) : List AgentCard :=
  upsert_all AgentCard.public_key agents new_cards

def step (L : Libs) (display : NodeError → String) (t : LogosA2ABridge) :
    BridgeOp → Except Empty (LogosA2ABridge × List BridgeOutput)
  | .deliver msg =>
    match t.node.discover_rx with
    | none => .ok (t, [])
    | some rx =>
      .ok ({ t with node := { t.node with discover_rx := some (rx ++ [msg]) } }, [.arrived [msg]])
  | .discover subscribed =>
    match t.node.discover L subscribed with
    | (_, .error e) =>
      .ok (t, [.failed { code := .INTERNAL_ERROR, message := "Discovery failed: " ++ display e }])
    | (node, .ok new_cards) =>
      .ok ({ t with node, calls := t.calls ++ [some new_cards] },
        [.arrived (Network.replayed t.node subscribed), .drained new_cards])
  | .merge k =>
    match t.calls[k]? with
    | some (some new_cards) =>
      let agents := merge_cards t.agents new_cards
      .ok ({ t with agents, calls := t.calls.set k none },
        [.merged k new_cards, .answered k (found_agents agents)])
    | _ => .ok (t, [])
  | .list_cached_agents => .ok (t, [.listed (listed_agents t.agents)])

end LogosA2ABridge

/-! ## What a run says -/

def arrived (log : List BridgeOutput) : List Bytes :=
  log.flatMap fun
    | .arrived msgs => msgs
    | _ => []

/-- What each call read, in the order of the calls. -/
def drained (log : List BridgeOutput) : List (List AgentCard) :=
  log.filterMap fun
    | .drained cards => some cards
    | _ => none

/-- The merges in their order. -/
def merges (log : List BridgeOutput) : List (Nat × List AgentCard) :=
  log.filterMap fun
    | .merged k cards => some (k, cards)
    | _ => none

/-- All the cards that were merged, in the order of the merges. -/
def merged (log : List BridgeOutput) : List AgentCard := (merges log).flatMap Prod.snd

theorem arrived_append (log log' : List BridgeOutput) :
    arrived (log ++ log') = arrived log ++ arrived log' := List.flatMap_append

theorem drained_append (log log' : List BridgeOutput) :
    drained (log ++ log') = drained log ++ drained log' := List.filterMap_append

theorem merges_append (log log' : List BridgeOutput) :
    merges (log ++ log') = merges log ++ merges log' := List.filterMap_append

namespace LogosA2ABridge

/-- The cache is what the merges made, and what was merged, what calls hold and what
waits is what arrived. -/
structure Tracks (L : Libs) (own : String) (log : List BridgeOutput) (t : LogosA2ABridge) :
    Prop where
  same : t.node.card.public_key = own
  cache : t.agents = upsert_all AgentCard.public_key [] (merged log)
  heard : (drained log).flatten ++ t.node.waiting.filterMap (card_in L own) =
    (arrived log).filterMap (card_in L own)
  calls : t.calls.length = (drained log).length
  holds : ∀ (k : Nat) cards, t.calls[k]? = some (some cards) → (drained log)[k]? = some cards
  taken : ∀ k cards, (k, cards) ∈ merges log → (drained log)[k]? = some cards
  once : ((merges log).map Prod.fst).Nodup
  gone : ∀ k, k ∈ (merges log).map Prod.fst ↔ t.calls[k]? = some none

variable {L : Libs} {display : NodeError → String} {own : String} {ops : List BridgeOp}
  {log out : List BridgeOutput} {t t' : LogosA2ABridge}

theorem Tracks.start (card : AgentCard) : Tracks L card.public_key [] (from_node card) where
  same := rfl
  cache := rfl
  heard := rfl
  calls := rfl
  holds k cards hk := by cases hk
  taken k cards hk := by cases hk
  once := .nil
  gone k := by
    constructor
    · intro hk
      cases hk
    · intro hk
      cases hk

/-- A step that tells nothing of what was read or merged. -/
theorem Tracks.quiet (h : Tracks L own log t) (harrived : arrived out = [])
    (hdrained : drained out = []) (hmerges : merges out = []) : Tracks L own (log ++ out) t := by
  apply Tracks.mk
  · exact h.same
  · rw [merged, merges_append, hmerges, List.append_nil]
    exact h.cache
  · rw [drained_append, arrived_append, hdrained, harrived, List.append_nil, List.append_nil]
    exact h.heard
  · rw [drained_append, hdrained, List.append_nil]
    exact h.calls
  · rw [drained_append, hdrained, List.append_nil]
    exact h.holds
  · rw [merges_append, drained_append, hmerges, hdrained, List.append_nil, List.append_nil]
    exact h.taken
  · rw [merges_append, hmerges, List.append_nil]
    exact h.once
  · rw [merges_append, hmerges, List.append_nil]
    exact h.gone

theorem Tracks.deliver (h : Tracks L own log t) {rx : List Bytes}
    (hrx : t.node.discover_rx = some rx) (msg : Bytes) :
    Tracks L own (log ++ [.arrived [msg]])
      { t with node := { t.node with discover_rx := some (rx ++ [msg]) } } := by
  have harrived : arrived (log ++ [.arrived [msg]]) = arrived log ++ [msg] := arrived_append ..
  have hdrained : drained (log ++ [.arrived [msg]]) = drained log := by
    rw [drained_append]
    exact List.append_nil _
  have hmerges : merges (log ++ [.arrived [msg]]) = merges log := by
    rw [merges_append]
    exact List.append_nil _
  apply Tracks.mk
  · exact h.same
  · rw [merged, hmerges]
    exact h.cache
  · have hheard := h.heard
    rw [DiscoveryNode.waiting, hrx, Option.getD_some] at hheard
    rw [hdrained, harrived, DiscoveryNode.waiting, Option.getD_some, List.filterMap_append,
      List.filterMap_append, ← hheard, List.append_assoc]
  · rw [hdrained]
    exact h.calls
  · rw [hdrained]
    exact h.holds
  · rw [hmerges, hdrained]
    exact h.taken
  · rw [hmerges]
    exact h.once
  · rw [hmerges]
    exact h.gone

theorem Tracks.drain (h : Tracks L own log t) {subscribed : Except TransportError (List Bytes)}
    {node : DiscoveryNode} {cards : List AgentCard}
    (hread : t.node.discover L subscribed = (node, .ok cards)) :
    Tracks L own (log ++ [.arrived (Network.replayed t.node subscribed), .drained cards])
      { t with node, calls := t.calls ++ [some cards] } := by
  generalize hnew : [BridgeOutput.arrived (Network.replayed t.node subscribed), .drained cards] =
    new
  have harrived : arrived (log ++ new) = arrived log ++ Network.replayed t.node subscribed := by
    rw [arrived_append, ← hnew]
    exact congrArg _ (List.append_nil _)
  have hdrained : drained (log ++ new) = drained log ++ [cards] := by
    rw [drained_append, ← hnew]
    rfl
  have hmerges : merges (log ++ new) = merges log := by
    rw [merges_append, ← hnew]
    exact List.append_nil _
  obtain ⟨hempty, hcards⟩ := Network.discover_drains hread
  have hkeeps := Network.discover_keeps_card L t.node subscribed
  rw [hread] at hkeeps
  have hlast : ∀ (k : Nat) cards', (drained log)[k]? = some cards' →
      (drained log ++ [cards])[k]? = some cards' := by
    intro k cards' hk
    rw [List.getElem?_append_left (List.getElem?_eq_some_iff.mp hk).1, hk]
  apply Tracks.mk
  · exact (congrArg AgentCard.public_key hkeeps).trans h.same
  · rw [merged, hmerges]
    exact h.cache
  · rw [hdrained, harrived, hempty, List.filterMap_nil, List.append_nil, List.flatten_append,
      List.filterMap_append, ← h.heard, hcards, h.same, List.append_assoc, List.flatten_singleton]
  · rw [hdrained, List.length_append, List.length_append, h.calls]
    rfl
  · intro k cards' hk
    rw [hdrained]
    by_cases hlt : k < t.calls.length
    · rw [List.getElem?_append_left hlt] at hk
      exact hlast k cards' (h.holds k cards' hk)
    · rw [List.getElem?_append_right (Nat.le_of_not_lt hlt)] at hk
      rw [List.getElem?_append_right (h.calls ▸ Nat.le_of_not_lt hlt), ← h.calls]
      rw [List.getElem?_singleton] at hk ⊢
      split at hk
      case isTrue hzero =>
        rw [if_pos hzero]
        exact Option.some.inj hk
      case isFalse => cases hk
  · intro k cards' hk
    rw [hmerges] at hk
    rw [hdrained]
    exact hlast k cards' (h.taken k cards' hk)
  · rw [hmerges]
    exact h.once
  · intro k
    rw [hmerges, h.gone]
    by_cases hlt : k < t.calls.length
    · rw [List.getElem?_append_left hlt]
    · rw [List.getElem?_append_right (Nat.le_of_not_lt hlt), List.getElem?_singleton,
        List.getElem?_eq_none (Nat.le_of_not_lt hlt)]
      apply iff_of_false
      · exact fun hnone => nomatch hnone
      · split
        · exact fun hnone => nomatch hnone
        · exact fun hnone => nomatch hnone

theorem Tracks.merge (h : Tracks L own log t) {k : Nat} {cards : List AgentCard}
    (hk : t.calls[k]? = some (some cards)) (result : Except Panic CallToolResult) :
    Tracks L own (log ++ [.merged k cards, .answered k result])
      { t with agents := merge_cards t.agents cards, calls := t.calls.set k none } := by
  generalize hnew : [BridgeOutput.merged k cards, .answered k result] = new
  have harrived : arrived (log ++ new) = arrived log := by
    rw [arrived_append, ← hnew]
    exact List.append_nil _
  have hdrained : drained (log ++ new) = drained log := by
    rw [drained_append, ← hnew]
    exact List.append_nil _
  have hmerges : merges (log ++ new) = merges log ++ [(k, cards)] := by
    rw [merges_append, ← hnew]
    rfl
  have hlt := (List.getElem?_eq_some_iff.mp hk).1
  apply Tracks.mk
  · exact h.same
  · have hmerged : merged (log ++ new) = merged log ++ cards := by
      rw [merged, hmerges, List.flatMap_append, List.flatMap_singleton]
      rfl
    rw [hmerged, upsert_all, List.foldl_append]
    exact congrArg (fun m => merge_cards m cards) h.cache
  · rw [hdrained, harrived]
    exact h.heard
  · rw [hdrained, List.length_set]
    exact h.calls
  · intro j cards' hj
    rw [hdrained]
    rw [List.getElem?_set] at hj
    by_cases hkj : k = j
    · rw [if_pos hkj, if_pos hlt] at hj
      cases hj
    · rw [if_neg hkj] at hj
      exact h.holds j cards' hj
  · intro j cards' hj
    rw [hdrained]
    rw [hmerges] at hj
    rcases List.mem_append.mp hj with hj | hj
    · exact h.taken j cards' hj
    · cases List.mem_singleton.mp hj
      exact h.holds k cards hk
  · rw [hmerges, List.map_append, List.nodup_append]
    refine ⟨h.once, List.nodup_singleton _, ?_⟩
    rintro j hj _ hlast rfl
    rw [List.mem_singleton.mp hlast, h.gone, hk] at hj
    cases hj
  · intro j
    rw [hmerges, List.map_append, List.mem_append, h.gone, List.getElem?_set]
    by_cases hj : k = j
    · subst hj
      rw [if_pos rfl, if_pos hlt]
      exact iff_of_true (.inr List.mem_cons_self) rfl
    · rw [if_neg hj]
      apply or_iff_left
      intro hlast
      exact hj (List.mem_singleton.mp hlast).symm

theorem Tracks.step {op : BridgeOp} (h : Tracks L own log t)
    (hstep : step L display t op = .ok (t', out)) : Tracks L own (log ++ out) t' := by
  cases op with
  | deliver msg =>
    rw [LogosA2ABridge.step] at hstep
    split at hstep
    case h_1 =>
      cases hstep
      exact h.quiet rfl rfl rfl
    case h_2 rx hrx =>
      cases hstep
      exact h.deliver hrx msg
  | discover subscribed =>
    rw [LogosA2ABridge.step] at hstep
    split at hstep
    case h_1 =>
      cases hstep
      exact h.quiet rfl rfl rfl
    case h_2 node cards hread =>
      cases hstep
      exact h.drain hread
  | merge k =>
    rw [LogosA2ABridge.step] at hstep
    split at hstep
    case h_1 cards hk =>
      cases hstep
      exact h.merge hk _
    case h_2 =>
      cases hstep
      exact h.quiet rfl rfl rfl
  | list_cached_agents =>
    cases hstep
    exact h.quiet rfl rfl rfl

theorem tracks {card : AgentCard}
    (hrun : run (LogosA2ABridge.step L display) (from_node card) ops = .ok (t, log)) :
    Tracks L card.public_key log t := by
  induction ops using List.reverseRecOn generalizing t log with
  | nil =>
    cases hrun
    exact .start card
  | append_singleton ops op ih =>
    obtain ⟨s, log₁, log₂, hbefore, hstep, rfl⟩ := run_snoc_cases hrun
    exact (ih hbefore).step hstep

/-! ## The laws of the bridge -/

/-- The entries of cards are there when every key can be cut. -/
theorem summary_ok_iff (index : Nat) (cards : List AgentCard) :
    (∃ entries, summary index cards = .ok entries) ↔
      ∀ c ∈ cards, Boundary c.public_key.toList 16 := by
  induction cards generalizing index with
  | nil => exact iff_of_true ⟨[], rfl⟩ fun c hc => absurd hc List.not_mem_nil
  | cons c cards ih =>
    rw [List.forall_mem_cons, ← slice_to_ok_iff, ← ih (index + 1), summary, format_card]
    cases slice_to c.public_key.toList 16 with
    | error p =>
      apply iff_of_false
      · rintro ⟨entries, hentries⟩
        cases hentries
      · rintro ⟨⟨shown, hshown⟩, -⟩
        cases hshown
    | ok shown =>
      cases hrest : summary (index + 1) cards with
      | error p =>
        apply iff_of_false
        · rintro ⟨entries, hentries⟩
          simp [Except.map] at hentries
        · rintro ⟨-, entries, hentries⟩
          cases hentries
      | ok entries =>
        apply iff_of_true
        · exact ⟨_, rfl⟩
        · exact ⟨⟨shown, rfl⟩, entries, rfl⟩

theorem found_agents_ok_iff (cards : List AgentCard) :
    (∃ result, found_agents cards = .ok result) ↔
      ∀ c ∈ cards, Boundary c.public_key.toList 16 := by
  rw [← summary_ok_iff 1, found_agents]
  cases cards with
  | nil => exact iff_of_true ⟨_, rfl⟩ ⟨[], rfl⟩
  | cons c cards =>
    rw [List.isEmpty_cons, if_neg Bool.false_ne_true]
    cases summary 1 (c :: cards) with
    | error p =>
      apply iff_of_false
      · rintro ⟨result, hresult⟩
        cases hresult
      · rintro ⟨entries, hentries⟩
        cases hentries
    | ok entries => exact iff_of_true ⟨_, rfl⟩ ⟨entries, rfl⟩

/-- The keys of the cache are the keys of all that was merged. -/
theorem boundary_cache_iff (l : List AgentCard) :
    (∀ c ∈ upsert_all AgentCard.public_key [] l, Boundary c.public_key.toList 16) ↔
      ∀ c ∈ l, Boundary c.public_key.toList 16 := by
  have hkeys : ∀ k, k ∈ (upsert_all AgentCard.public_key [] l).map AgentCard.public_key ↔
      k ∈ l.map AgentCard.public_key := by
    intro k
    rw [upsert_all_keys]
    exact mem_first_of_each (fun _ _ _ _ h => h) k
  constructor
  · intro h c hc
    obtain ⟨d, hd, hkey⟩ := List.mem_map.mp ((hkeys _).mpr (List.mem_map_of_mem hc))
    rw [← hkey]
    exact h d hd
  · intro h c hc
    obtain ⟨d, hd, hkey⟩ := List.mem_map.mp ((hkeys _).mp (List.mem_map_of_mem hc))
    rw [← hkey]
    exact h d hd

/-- In every order of calls, also of calls that overlap: the cache has one entry for each
key that was merged, in the order in which the keys came, with the card that was merged
last. A call of `discover_agents` answers when the first 16 bytes of all of these keys
are whole characters, so after one other key every later call panics. -/
theorem the_cache_has_the_last_card_of_each_key {card : AgentCard}
    (hrun : run (LogosA2ABridge.step L display) (from_node card) ops = .ok (t, log)) :
    t.agents = (first_of_each id [] ((merged log).map AgentCard.public_key)).filterMap
        (last_with AgentCard.public_key (merged log)) ∧
      (∀ c ∈ merged log, c.public_key ≠ card.public_key) ∧
      ∀ (k : Nat) cards, t.calls[k]? = some (some cards) →
        ∃ t' result, step L display t (.merge k) =
            .ok (t', [.merged k cards, .answered k result]) ∧
          ((∃ answer, result = .ok answer) ↔
            ∀ c ∈ merged log ++ cards, Boundary c.public_key.toList 16) := by
  have h := tracks hrun
  refine ⟨h.cache.trans (upsert_all_eq _ _), ?_, ?_⟩
  · intro c hc
    obtain ⟨⟨k, cards⟩, hmerge, hcard⟩ := List.mem_flatMap.mp hc
    have hdrained : c ∈ (drained log).flatten :=
      List.mem_flatten.mpr ⟨cards, List.mem_of_getElem? (h.taken k cards hmerge), hcard⟩
    have hheard : c ∈ (arrived log).filterMap (card_in L card.public_key) := by
      rw [← h.heard]
      exact List.mem_append_left _ hdrained
    obtain ⟨msg, -, hmsg⟩ := List.mem_filterMap.mp hheard
    exact Network.card_in_other hmsg
  · intro k cards hk
    refine ⟨{ t with agents := merge_cards t.agents cards, calls := t.calls.set k none },
      found_agents (merge_cards t.agents cards), ?_, ?_⟩
    · rw [LogosA2ABridge.step, hk]
    · have hcache : merge_cards t.agents cards =
          upsert_all AgentCard.public_key [] (merged log ++ cards) := by
        rw [upsert_all, List.foldl_append]
        exact congrArg (fun m => merge_cards m cards) h.cache
      rw [found_agents_ok_iff, hcache, boundary_cache_iff]

/-- Two calls that overlap. Bob's announcement comes between them. -/
def two_calls : List BridgeOp :=
  [.discover (.ok []), .deliver (A2AEnvelope.AgentCard Network.bob).to_vec, .discover (.ok []),
    .merge 0, .merge 1]

theorem the_cache_has_the_last_card_of_each_key_two_calls :
    ∃ t log, run (LogosA2ABridge.step Network.bob_libs fun _ => "") (from_node Network.ada)
        two_calls = .ok (t, log) ∧
      t.agents = (first_of_each id [] ((merged log).map AgentCard.public_key)).filterMap
        (last_with AgentCard.public_key (merged log)) := by
  obtain ⟨⟨t, log⟩, hrun⟩ := ends_ok (run (LogosA2ABridge.step Network.bob_libs fun _ => "")
    (from_node Network.ada) two_calls)
  exact ⟨t, log, hrun, (the_cache_has_the_last_card_of_each_key hrun).1⟩

/-- When the calls merge in their order, the cache has every agent that was ever heard
of, with the card that came last. -/
theorem the_latest_announcement_wins {card : AgentCard}
    (hrun : run (LogosA2ABridge.step L display) (from_node card) ops = .ok (t, log))
    (horder : (merges log).map Prod.fst = List.range t.calls.length) :
    ∃ heard, heard ++ t.node.waiting.filterMap (card_in L card.public_key) =
        (arrived log).filterMap (card_in L card.public_key) ∧
      t.agents = (first_of_each id [] (heard.map AgentCard.public_key)).filterMap
        (last_with AgentCard.public_key heard) := by
  have h := tracks hrun
  have hmerged : merged log = (drained log).flatten := by
    have hcards : (merges log).map Prod.snd = drained log := by
      apply List.ext_getElem?
      intro k
      have hk : ((merges log).map Prod.fst)[k]? = (List.range (drained log).length)[k]? := by
        rw [horder, h.calls]
      rw [List.getElem?_map] at hk ⊢
      cases hmerge : (merges log)[k]? with
      | none =>
        rw [hmerge, Option.map_none, eq_comm, List.getElem?_eq_none_iff, List.length_range] at hk
        exact (List.getElem?_eq_none hk).symm
      | some merge =>
        obtain ⟨j, cards⟩ := merge
        obtain ⟨hlt, hj⟩ := List.getElem?_eq_some_iff.mp (hmerge ▸ hk).symm
        rw [List.getElem_range] at hj
        subst hj
        exact (h.taken k cards (List.mem_of_getElem? hmerge)).symm
    rw [← hcards, List.flatten_eq_flatMap, List.flatMap_map]
    rfl
  refine ⟨merged log, ?_, h.cache.trans (upsert_all_eq _ _)⟩
  rw [hmerged]
  exact h.heard

theorem the_latest_announcement_wins_two_calls :
    ∃ t log heard, run (LogosA2ABridge.step Network.bob_libs fun _ => "")
        (from_node Network.ada) two_calls = .ok (t, log) ∧
      t.agents = (first_of_each id [] (heard.map AgentCard.public_key)).filterMap
        (last_with AgentCard.public_key heard) := by
  obtain ⟨⟨t, log⟩, hrun⟩ := ends_ok (run (LogosA2ABridge.step Network.bob_libs fun _ => "")
    (from_node Network.ada) two_calls)
  have horder : (run (LogosA2ABridge.step Network.bob_libs fun _ => "") (from_node Network.ada)
      two_calls).toOption.map (fun r => ((merges r.2).map Prod.fst, r.1.calls.length)) =
      some ([0, 1], 2) := by decide +kernel
  rw [hrun] at horder
  obtain ⟨hmerges, hcalls⟩ := Prod.mk.inj (Option.some.inj horder)
  obtain ⟨heard, -, hagents⟩ := the_latest_announcement_wins hrun (by rw [hmerges, hcalls]; rfl)
  exact ⟨t, log, heard, hrun, hagents⟩

end LogosA2ABridge

/-! ## Calls that wait for a response -/

/-- The text of the result of a task. -/
def response_text (response : Task) : String :=
  match response.result with
  | none => "(no result body)"
  | some m => join "\n" (m.parts.map fun | .Text text => text)

/-- What `send_to_agent` returns after a poll, if it returns. Only the first task with
its id counts, and the rest of the batch is gone. -/
def after_poll (agent_name task_id : String) (tasks : List Task) : Option CallToolResult :=
  match tasks.find? fun t => t.id = task_id with
  | none => none
  | some response =>
    match response.state with
    | .Completed =>
      some (.success ("Response from '" ++ agent_name ++ "':\n\n" ++ response_text response))
    | .Failed =>
      some (.error ("Agent '" ++ agent_name ++ "' reported task failed (task " ++ task_id ++ ")"))
    | _ => none

def timed_out (agent_name task_id : String) : CallToolResult :=
  .success ("Timeout waiting for response from '" ++ agent_name ++ "' (task " ++ task_id ++
    "). The agent may still be processing.")

/-- A call of `send_to_agent` whose task is sent. -/
structure Waiting where
  agent_name : String
  task_id : String
  answer : Option (Except McpError CallToolResult)
deriving DecidableEq

variable {L : Libs} {F : Type} [IdFilter F]

/-- The calls share the node, and with it the receiver on the topic of its tasks, which
is there after the first poll. -/
structure SharedNode (L : Libs) (F : Type) where
  node : LmaoNode L F
  task_rx : Option (List Bytes)
  calls : List Waiting

/-- The polls of the calls come in any order, each as a whole. `call.rx` is what the
transport answers when the poll is the one that subscribes. -/
inductive SendOp
  | arrive (msg : Bytes)
  | send (agents : List AgentCard) (agent_name message id : String) (nonces : Bytes × Bytes)
      (transport : Nat → AckTransport)
  | poll (j : Nat) (call : PollCall)
  | timeout (j : Nat)

/-- A poll of the `caller`-th call: the node before it, and what it gave to the node. -/
structure NodePoll (L : Libs) (F : Type) where
  caller : Nat
  node : LmaoNode L F
  call : PollCall

inductive SendOutput (L : Libs) (F : Type)
  | arrived (msgs : List Bytes)
  | refused (error : McpError)
  | polled (poll : NodePoll L F)

/-- The messages that a poll takes from the topic. -/
def messages (call : PollCall) : List Bytes :=
  match call.rx with
  | .error _ => []
  | .ok msgs => msgs

namespace SharedNode

def new (node : LmaoNode L F) : SharedNode L F := { node, task_rx := none, calls := [] }

/-- A call that has no answer yet. -/
def waiting (t : SharedNode L F) (j : Nat) : Option Waiting :=
  t.calls[j]?.filter (·.answer.isNone)

def answer (t : SharedNode L F) (j : Nat) (c : Waiting) (result : Except McpError CallToolResult) :
    SharedNode L F := { t with calls := t.calls.set j { c with answer := some result } }

/-- The call on the receiver that is there. -/
def drain (t : SharedNode L F) (call : PollCall) : PollCall :=
  match t.task_rx with
  | none => call
  | some rx => { call with rx := .ok rx }

/-- What the transport replays to a poll that subscribes. -/
def replayed (t : SharedNode L F) (call : PollCall) : List Bytes :=
  match t.task_rx with
  | none => messages call
  | some _ => []

/-- The receiver after a poll. It is empty, also when the poll fails later on. -/
def drained_rx (t : SharedNode L F) (call : PollCall) : Option (List Bytes) :=
  match (t.drain call).rx with
  | .error _ => none
  | .ok _ => some []

/-- A call that panics ends the run. -/
def step (B : Build) (display : NodeError → String) (t : SharedNode L F) :
    SendOp → Except Panic (SharedNode L F × List (SendOutput L F))
  | .arrive msg =>
    match t.task_rx with
    | none => .ok (t, [])
    | some rx => .ok ({ t with task_rx := some (rx ++ [msg]) }, [.arrived [msg]])
  | .send agents agent_name message id nonces transport =>
    match agent_of_name agents agent_name with
    | .error e => .ok (t, [.refused e])
    | .ok card =>
      let task := Task.new id t.node.pubkey card.public_key message
      match t.node.send_task task nonces transport with
      | (_, .error (.panic p)) => .error p
      | (node, .error (.error e)) =>
        .ok ({ t with node }, [.refused { code := .INTERNAL_ERROR,
                                          message := "Failed to send task: " ++ display e }])
      | (node, .ok _) =>
        .ok ({ t with node, calls := t.calls ++ [{ agent_name, task_id := id, answer := none }] },
          [])
  | .poll j call =>
    match t.waiting j with
    | none => .ok (t, [])
    | some c =>
      let r := (t.drain call).poll_tasks B t.node
      let polled := { t with node := r.after, task_rx := t.drained_rx call }
      let out := [.arrived (t.replayed call),
        .polled { caller := j, node := t.node, call := t.drain call }]
      match r.result with
      | .error (.panic p) => .error p
      | .error (.error e) =>
        .ok (polled.answer j c (.error { code := .INTERNAL_ERROR,
                                         message := "Poll failed: " ++ display e }), out)
      | .ok tasks =>
        match after_poll c.agent_name c.task_id tasks with
        | none => .ok (polled, out)
        | some result => .ok (polled.answer j c (.ok result), out)
  | .timeout j =>
    match t.waiting j with
    | none => .ok (t, [])
    | some c => .ok (t.answer j c (.ok (timed_out c.agent_name c.task_id)), [])

/-- The messages that came to the receiver, oldest first. -/
def came (log : List (SendOutput L F)) : List Bytes :=
  log.flatMap fun
    | .arrived msgs => msgs
    | _ => []

/-- The polls of all the calls. -/
def polls (log : List (SendOutput L F)) : List (NodePoll L F) :=
  log.filterMap fun
    | .polled poll => some poll
    | _ => none

/-- What `poll_tasks` returned to a call, poll by poll. -/
def batches (B : Build) (j : Nat) (log : List (SendOutput L F)) :
    List (Except Stop (List Task)) :=
  ((polls log).filter (·.caller = j)).map fun poll => (poll.call.poll_tasks B poll.node).result

omit [IdFilter F] in
theorem came_append (log log' : List (SendOutput L F)) :
    came (log ++ log') = came log ++ came log' := List.flatMap_append

omit [IdFilter F] in
theorem polls_append (log log' : List (SendOutput L F)) :
    polls (log ++ log') = polls log ++ polls log' := List.filterMap_append

theorem batches_append (B : Build) (j : Nat) (log log' : List (SendOutput L F)) :
    batches B j (log ++ log') = batches B j log ++ batches B j log' := by
  rw [batches, polls_append, List.filter_append, List.map_append]
  rfl

/-- The poll gives no answer to the call. -/
def Passes (c : Waiting) (batch : Except Stop (List Task)) : Prop :=
  ∃ tasks, batch = .ok tasks ∧ after_poll c.agent_name c.task_id tasks = none

/-- The batches of a call decide its answer. -/
inductive Decided (display : NodeError → String) (c : Waiting)
    (polled : List (Except Stop (List Task))) : Prop
  | waits (hnone : c.answer = none) (hpolled : ∀ batch ∈ polled, Passes c batch)
  | response (earlier : List (Except Stop (List Task))) (tasks : List Task)
      (result : CallToolResult) (hanswer : c.answer = some (.ok result))
      (hpolled : polled = earlier ++ [.ok tasks]) (hearlier : ∀ batch ∈ earlier, Passes c batch)
      (hlast : after_poll c.agent_name c.task_id tasks = some result)
  | poll_failed (earlier : List (Except Stop (List Task))) (e : NodeError)
      (hanswer : c.answer = some (.error { code := .INTERNAL_ERROR,
                                           message := "Poll failed: " ++ display e }))
      (hpolled : polled = earlier ++ [.error (.error e)])
      (hearlier : ∀ batch ∈ earlier, Passes c batch)
  | gave_up (hanswer : c.answer = some (.ok (timed_out c.agent_name c.task_id)))
      (hpolled : ∀ batch ∈ polled, Passes c batch)

/-- What the polls took and what waits is what came, each message once. -/
structure Shares (B : Build) (display : NodeError → String) (log : List (SendOutput L F))
    (t : SharedNode L F) : Prop where
  each_once : ((polls log).flatMap fun poll => messages poll.call) ++ t.task_rx.getD [] = came log
  decided : ∀ (j : Nat) c, t.calls[j]? = some c → Decided display c (batches B j log)
  later : ∀ j, t.calls.length ≤ j → batches B j log = []

variable {B : Build} {display : NodeError → String} {ops : List SendOp} {op : SendOp}
  {log out : List (SendOutput L F)} {t t' : SharedNode L F}

omit [IdFilter F] in
theorem waiting_some {j : Nat} {c : Waiting} (h : t.waiting j = some c) :
    t.calls[j]? = some c ∧ c.answer = none := by
  obtain ⟨hget, hnone⟩ := Option.filter_eq_some_iff.mp h
  exact ⟨hget, Option.isNone_iff_eq_none.mp hnone⟩

theorem Decided.waiting {c : Waiting} {polled : List (Except Stop (List Task))}
    (h : Decided display c polled) (hnone : c.answer = none) :
    ∀ batch ∈ polled, Passes c batch := by
  cases h with
  | waits _ hpolled => exact hpolled
  | response earlier tasks result hanswer => rw [hnone] at hanswer; cases hanswer
  | poll_failed earlier e hanswer => rw [hnone] at hanswer; cases hanswer
  | gave_up hanswer => rw [hnone] at hanswer; cases hanswer

/-- One more poll that gives no answer. -/
theorem Decided.passes {c : Waiting} {polled : List (Except Stop (List Task))}
    {batch : Except Stop (List Task)} (h : Decided display c polled) (hnone : c.answer = none)
    (hbatch : Passes c batch) : Decided display c (polled ++ [batch]) := by
  apply Decided.waits hnone
  intro other hmem
  rcases List.mem_append.mp hmem with hmem | hmem
  · exact h.waiting hnone other hmem
  · rw [List.mem_singleton.mp hmem]
    exact hbatch

omit [IdFilter F] in
/-- What a poll takes and leaves is what waited and what the transport replays. -/
theorem drain_splits (t : SharedNode L F) (call : PollCall) :
    messages (t.drain call) ++ (t.drained_rx call).getD [] =
      t.task_rx.getD [] ++ t.replayed call := by
  have hleft : (t.drained_rx call).getD [] = [] := by
    unfold drained_rx
    split
    · rfl
    · rfl
  rw [hleft, List.append_nil]
  unfold drain replayed
  cases t.task_rx with
  | none => exact (List.nil_append _).symm
  | some rx => exact (List.append_nil _).symm

/-- A step that changes no call and polls nothing. -/
theorem Shares.quiet (h : Shares B display log t) (hpolls : polls out = [])
    (hcame : t'.task_rx.getD [] = t.task_rx.getD [] ++ came out) (hcalls : t'.calls = t.calls) :
    Shares B display (log ++ out) t' := by
  have hbatches : ∀ j, batches B j (log ++ out) = batches B j log := by
    intro j
    rw [batches_append, batches, batches, hpolls]
    exact List.append_nil _
  apply Shares.mk
  · rw [polls_append, came_append, hpolls, List.append_nil, hcame, ← List.append_assoc, h.each_once]
  · intro j c hc
    rw [hbatches]
    exact h.decided j c (hcalls ▸ hc)
  · intro j hj
    rw [hbatches]
    exact h.later j (hcalls ▸ hj)

/-- The deadline of a call passes. -/
theorem Shares.timeout (h : Shares B display log t) {j : Nat} {c : Waiting}
    (hwaiting : t.waiting j = some c) :
    Shares B display (log ++ []) (t.answer j c (.ok (timed_out c.agent_name c.task_id))) := by
  obtain ⟨hget, hnone⟩ := waiting_some hwaiting
  rw [List.append_nil]
  apply Shares.mk
  · exact h.each_once
  · intro i d hd
    rw [answer, List.getElem?_set] at hd
    by_cases hij : j = i
    · subst hij
      rw [if_pos rfl, if_pos (List.getElem?_eq_some_iff.mp hget).1] at hd
      cases hd
      exact .gave_up rfl ((h.decided j c hget).waiting hnone)
    · rw [if_neg hij] at hd
      exact h.decided i d hd
  · intro i hi
    rw [answer, List.length_set] at hi
    exact h.later i hi

theorem Shares.send (h : Shares B display log t) (c : Waiting) (hnone : c.answer = none)
    (node : LmaoNode L F) :
    Shares B display (log ++ []) { t with node, calls := t.calls ++ [c] } := by
  rw [List.append_nil]
  apply Shares.mk
  · exact h.each_once
  · intro i d hd
    by_cases hi : i < t.calls.length
    · rw [List.getElem?_append_left hi] at hd
      exact h.decided i d hd
    · rw [List.getElem?_append_right (Nat.le_of_not_lt hi), List.getElem?_singleton] at hd
      split at hd
      case isTrue =>
        cases hd
        rw [h.later i (Nat.le_of_not_lt hi)]
        exact .waits hnone fun batch hmem => absurd hmem List.not_mem_nil
      case isFalse => cases hd
  · intro i hi
    rw [List.length_append] at hi
    exact h.later i (by omega)

/-- A poll, after which the call is `d`. -/
theorem Shares.poll (h : Shares B display log t) {j : Nat} {c : Waiting}
    (hwaiting : t.waiting j = some c) (call : PollCall) (node : LmaoNode L F) {d : Waiting}
    (hd : Decided display d
      (batches B j log ++ [((t.drain call).poll_tasks B t.node).result])) :
    Shares B display
      (log ++ [.arrived (t.replayed call),
        .polled { caller := j, node := t.node, call := t.drain call }])
      { node, task_rx := t.drained_rx call, calls := t.calls.set j d } := by
  generalize hout : [SendOutput.arrived (t.replayed call),
    .polled { caller := j, node := t.node, call := t.drain call }] = out
  obtain ⟨hget, -⟩ := waiting_some hwaiting
  have hpolls : polls out = [{ caller := j, node := t.node, call := t.drain call }] := by
    rw [← hout]
    rfl
  have hcame : came out = t.replayed call := by
    rw [← hout]
    exact List.append_nil _
  have hself : batches B j out = [((t.drain call).poll_tasks B t.node).result] := by
    simp [batches, hpolls]
  have hother : ∀ i, j ≠ i → batches B i out = [] := by
    intro i hij
    simp [batches, hpolls, hij]
  apply Shares.mk
  · rw [polls_append, came_append, hpolls, hcame, List.flatMap_append, List.flatMap_singleton,
      List.append_assoc, drain_splits, ← List.append_assoc, h.each_once]
  · intro i e he
    rw [batches_append]
    rw [List.getElem?_set] at he
    by_cases hij : j = i
    · subst hij
      rw [if_pos rfl, if_pos (List.getElem?_eq_some_iff.mp hget).1] at he
      cases he
      rw [hself]
      exact hd
    · rw [if_neg hij] at he
      rw [hother i hij, List.append_nil]
      exact h.decided i e he
  · intro i hi
    rw [List.length_set] at hi
    have hij : j ≠ i := by
      rintro rfl
      exact absurd (List.getElem?_eq_some_iff.mp hget).1 (Nat.not_lt.mpr hi)
    rw [batches_append, h.later i hi, hother i hij]
    rfl

omit [IdFilter F] in
theorem set_same {j : Nat} {c : Waiting} (h : t.calls[j]? = some c) :
    t.calls.set j c = t.calls := by
  obtain ⟨hlt, rfl⟩ := List.getElem?_eq_some_iff.mp h
  exact List.set_getElem_self hlt

theorem Shares.step (h : Shares B display log t) (hstep : step B display t op = .ok (t', out)) :
    Shares B display (log ++ out) t' := by
  cases op with
  | arrive msg =>
    rw [SharedNode.step] at hstep
    split at hstep
    case h_1 hrx =>
      cases hstep
      exact h.quiet rfl (List.append_nil _).symm rfl
    case h_2 rx hrx =>
      cases hstep
      apply h.quiet rfl
      · rw [hrx]
        rfl
      · rfl
  | send agents agent_name message id nonces transport =>
    rw [SharedNode.step] at hstep
    split at hstep
    case h_1 =>
      cases hstep
      exact h.quiet rfl (List.append_nil _).symm rfl
    case h_2 card _ =>
      dsimp only at hstep
      split at hstep
      case h_1 => cases hstep
      case h_2 =>
        cases hstep
        exact h.quiet rfl (List.append_nil _).symm rfl
      case h_3 node _ _ =>
        cases hstep
        exact h.send { agent_name, task_id := id, answer := none } rfl node
  | poll j call =>
    rw [SharedNode.step] at hstep
    split at hstep
    case h_1 =>
      cases hstep
      exact h.quiet rfl (List.append_nil _).symm rfl
    case h_2 c hwaiting =>
      obtain ⟨hget, hnone⟩ := waiting_some hwaiting
      have hearlier := (h.decided j c hget).waiting hnone
      dsimp only at hstep
      split at hstep
      case h_1 => cases hstep
      case h_2 e hfails =>
        cases hstep
        apply h.poll hwaiting
        rw [hfails]
        exact .poll_failed _ e rfl rfl hearlier
      case h_3 tasks htasks =>
        split at hstep
        case h_1 hpass =>
          cases hstep
          have hd := (h.decided j c hget).passes hnone ⟨tasks, htasks, hpass⟩
          have hshares := h.poll hwaiting call ((t.drain call).poll_tasks B t.node).after hd
          rw [set_same hget] at hshares
          exact hshares
        case h_2 result hlast =>
          cases hstep
          apply h.poll hwaiting
          rw [htasks]
          exact .response _ tasks result rfl rfl hearlier hlast
  | timeout j =>
    rw [SharedNode.step] at hstep
    split at hstep
    case h_1 =>
      cases hstep
      exact h.quiet rfl (List.append_nil _).symm rfl
    case h_2 c hwaiting =>
      cases hstep
      exact h.timeout hwaiting

theorem shares {node : LmaoNode L F}
    (hrun : run (SharedNode.step B display) (new node) ops = .ok (t, log)) :
    Shares B display log t := by
  induction ops using List.reverseRecOn generalizing t log with
  | nil =>
    cases hrun
    apply Shares.mk rfl
    · intro j c hc
      cases hc
    · intro j _
      rfl
  | append_singleton ops op ih =>
    obtain ⟨s, log₁, log₂, hbefore, hstep, rfl⟩ := run_snoc_cases hrun
    exact (ih hbefore).step hstep

/-- Bob's answer to the second call, and a task that he put into the storage. -/
def answered : Task := (Task.new "t2" "02ad" "02b0" "hi").respond "hello"

def offloaded : Task := { Task.new "t3" "02b0" "02ad" "hi" with payload_cid := some "zDv" }

def crossed_libs : Libs :=
  .ofTables
    (.ofTable [((A2AEnvelope.Task answered).to_vec, "01"),
      ((A2AEnvelope.Task offloaded).to_vec, "02")] [])
    { public_key := fun _ => []
      diffie_hellman := fun _ _ => []
      aead_encrypt := fun _ _ _ => none
      aead_decrypt := fun _ _ _ => none } [.Task answered, .Task offloaded] []

/-- Ada's node, with a storage that is down. -/
def crossed_node : LmaoNode crossed_libs (IdSet fun _ => []) :=
  { LmaoNode.new "02ad" "ada" "" [] none .default 0 with
    storage_offload := some {
      upload := fun _ => .error (.Http "down")
      download := fun _ => .error (.Http "down")
      threshold_bytes := 1024 } }

/-- A send that no peer confirms. -/
def unconfirmed (_ : Nat) : AckTransport :=
  { subscribe := fun _ => .ok (), publish := fun _ _ _ => .ok (), recv := fun _ => none }

def storage_down : PollCall :=
  { rx := .ok []
    now := 0
    uuid := fun _ => ""
    download := fun _ => .error (.Http "down")
    verify_transfer := fun _ => .error (.Other "offline") }

/-- Two calls wait for bob. The first one polls the response to the second, and then a
task that it cannot fetch. -/
def crossed : List SendOp :=
  [.send [Network.bob] "bob" "hi" "t1" ([], []) unconfirmed, .poll 0 storage_down,
    .send [Network.bob] "bob" "hi" "t2" ([], []) unconfirmed,
    .arrive (A2AEnvelope.Task answered).to_vec, .poll 0 storage_down, .poll 1 storage_down,
    .arrive (A2AEnvelope.Task offloaded).to_vec, .poll 0 storage_down, .poll 1 storage_down,
    .timeout 1]

abbrev crossed_run :=
  run (SharedNode.step (exactBlooms fun _ => none) fun _ => "") (new crossed_node) crossed

theorem crossed_calls : crossed_run.toOption.map (fun r => (r.1.calls,
      (polls r.2).flatMap fun poll => messages poll.call)) =
    some ([⟨"bob", "t1", some (.error ⟨.INTERNAL_ERROR, "Poll failed: "⟩)⟩,
        ⟨"bob", "t2", some (.ok (timed_out "bob" "t2"))⟩],
      [(A2AEnvelope.Task answered).to_vec, (A2AEnvelope.Task offloaded).to_vec]) := by
  decide +kernel

theorem crossed_batches : crossed_run.toOption.map (fun r =>
      (batches (exactBlooms fun _ => none) 0 r.2, batches (exactBlooms fun _ => none) 1 r.2)) =
    some ([.ok [], .ok [answered], .error (.error (.Other
        "storage fetch by CID failed: storage HTTP error: down"))], [.ok [], .ok []]) := by
  decide +kernel

end SharedNode

end lmao.mcp
