-- Discovery (discovery.rs of the node crate): nodes share a registry and hear the
-- announcements on the discovery topic, and each lists the agents that it knows of.
import Lmao.Node
import Lmao.PresencePoll
import Lmao.Registry

namespace lmao

open machine
open node (Libs NodeError)
open sds (TransportError)

/-! ## The nodes -/

namespace discovery

/-- What discovery reads of a node. The receiver is there after the first call, with
the messages that wait in it. -/
structure DiscoveryNode where
  card : AgentCard
  discover_rx : Option (List Bytes)
deriving DecidableEq

/-- The card in a message, if it is one of another agent. -/
def card_in (L : Libs) (own : String) (msg : Bytes) : Option AgentCard :=
  match L.envelope_from_slice msg with
  | some (.AgentCard card) => if card.public_key ≠ own then some card else none
  | _ => none

namespace DiscoveryNode

def described (node : DiscoveryNode) (card : AgentCard) : DiscoveryNode :=
  { node with card := { card with public_key := node.card.public_key } }

/-- The message that `announce` publishes. -/
def announce (node : DiscoveryNode) : Bytes := (A2AEnvelope.AgentCard node.card).to_vec

/-- The transport answers a subscription with the messages that it replays. -/
def discover (L : Libs) (node : DiscoveryNode) (subscribed : Except TransportError (List Bytes)) :
    DiscoveryNode × Except NodeError (List AgentCard) :=
  match node.discover_rx, subscribed with
  | none, .error e => (node, .error (.Transport e))
  | none, .ok replay =>
    ({ node with discover_rx := some [] }, .ok (replay.filterMap (card_in L node.card.public_key)))
  | some rx, _ =>
    ({ node with discover_rx := some [] }, .ok (rx.filterMap (card_in L node.card.public_key)))

/-- The cards by their keys. A card of the registry takes the place of one that was
announced. -/
def by_key (node : DiscoveryNode) (waku_cards : List AgentCard)
    (listed : Option (Except RegistryError (List AgentCard))) : AList fun _ : String => AgentCard :=
  let announced := waku_cards.foldl (fun m card => m.insert card.public_key card) ∅
  match listed with
  | some (.ok reg_cards) =>
    (reg_cards.filter fun card => card.public_key ≠ node.card.public_key).foldl
      (fun m card => m.insert card.public_key card) announced
  | _ => announced

def discover_all (L : Libs) (node : DiscoveryNode)
    (subscribed : Except TransportError (List Bytes))
    (registry : Option (Except RegistryError (List AgentCard))) :
    DiscoveryNode × Except NodeError (List AgentCard) :=
  match node.discover L subscribed with
  | (after, .error e) => (after, .error e)
  | (after, .ok waku_cards) => (after, .ok (cards_of (node.by_key waku_cards registry)))

def register_in_registry (node : DiscoveryNode) (registry : InMemoryRegistry) :
    InMemoryRegistry × Except NodeError Unit :=
  let r := registry.register node.card
  (r.1, r.2.mapError fun e => .Other e.display)

def update_registry (node : DiscoveryNode) (registry : InMemoryRegistry) :
    InMemoryRegistry × Except NodeError Unit :=
  let r := registry.update node.card
  (r.1, r.2.mapError fun e => .Other e.display)

def deregister_from_registry (node : DiscoveryNode) (registry : InMemoryRegistry) :
    InMemoryRegistry × Except NodeError Unit :=
  let r := registry.deregister node.card.public_key
  (r.1, r.2.mapError fun e => .Other e.display)

end DiscoveryNode

/-! ## The network -/

/-- Nodes with one registry. -/
structure Network where
  nodes : List DiscoveryNode
  registry : InMemoryRegistry

/-- The card of a node is a field that its owner may write. Its key is not changed: the
identity of the node goes with it. -/
inductive NetworkOp
  | describe (i : Nat) (card : AgentCard)
  | deliver (i : Nat) (msg : Bytes)
  | discover (i : Nat) (subscribed : Except TransportError (List Bytes))
  | discover_all (i : Nat) (subscribed : Except TransportError (List Bytes))
  | register (i : Nat)
  | update (i : Nat)
  | deregister (i : Nat)

/-- Messages that came to a receiver, cards that were found, and what calls
returned. -/
inductive NetworkOutput
  | arrived (i : Nat) (msgs : List Bytes)
  | found (i : Nat) (cards : List AgentCard)
  | listed (i : Nat) (cards : List AgentCard)
  | returned (i : Nat) (result : Except NodeError Unit)

namespace Network

def start (cards : List AgentCard) : Network where
  nodes := cards.map fun card => { card, discover_rx := none }
  registry := .new

/-- What a call that subscribed got from the transport. -/
def replayed (node : DiscoveryNode) (subscribed : Except TransportError (List Bytes)) :
    List Bytes :=
  match node.discover_rx, subscribed with
  | none, .ok replay => replay
  | _, _ => []

/-- A number without a node does nothing. -/
def step (L : Libs) (t : Network) (op : NetworkOp) : Except Empty (Network × List NetworkOutput) :=
  match op with
  | .describe i card =>
    match t.nodes[i]? with
    | none => .ok (t, [])
    | some node => .ok ({ t with nodes := t.nodes.set i (node.described card) }, [])
  | .deliver i msg =>
    match t.nodes[i]? with
    | some { card, discover_rx := some rx } =>
      .ok ({ t with nodes := t.nodes.set i { card, discover_rx := some (rx ++ [msg]) } },
        [.arrived i [msg]])
    | _ => .ok (t, [])
  | .discover i subscribed =>
    match t.nodes[i]? with
    | none => .ok (t, [])
    | some node =>
      match node.discover L subscribed with
      | (_, .error e) => .ok (t, [.returned i (.error e)])
      | (after, .ok cards) =>
        .ok ({ t with nodes := t.nodes.set i after },
          [.arrived i (replayed node subscribed), .found i cards])
  | .discover_all i subscribed =>
    match t.nodes[i]? with
    | none => .ok (t, [])
    | some node =>
      -- what the call of `discover` inside it found
      let cards := (node.discover L subscribed).2.toOption.getD []
      match node.discover_all L subscribed (some t.registry.list) with
      | (_, .error e) => .ok (t, [.returned i (.error e)])
      | (after, .ok all) =>
        .ok ({ t with nodes := t.nodes.set i after },
          [.arrived i (replayed node subscribed), .found i cards, .listed i all])
  | .register i =>
    match t.nodes[i]? with
    | none => .ok (t, [])
    | some node =>
      let r := node.register_in_registry t.registry
      .ok ({ t with registry := r.1 }, [.returned i r.2])
  | .update i =>
    match t.nodes[i]? with
    | none => .ok (t, [])
    | some node =>
      let r := node.update_registry t.registry
      .ok ({ t with registry := r.1 }, [.returned i r.2])
  | .deregister i =>
    match t.nodes[i]? with
    | none => .ok (t, [])
    | some node =>
      let r := node.deregister_from_registry t.registry
      .ok ({ t with registry := r.1 }, [.returned i r.2])

end Network

/-! ## What a run says -/

/-- The card of a node, and the one that stands in the registry for it. -/
structure Standing where
  card : AgentCard
  entry : Option AgentCard

def NetworkOp.note (j : Nat) (s : Standing) : NetworkOp → Standing
  | .describe i card =>
    if i = j then { s with card := { card with public_key := s.card.public_key } } else s
  | .register i => if i = j then { s with entry := some (s.entry.getD s.card) } else s
  | .update i => if i = j then { s with entry := s.entry.map fun _ => s.card } else s
  | .deregister i => if i = j then { s with entry := none } else s
  | _ => s

/-- What the operations leave of a node that started with a card. -/
def standing (ops : List NetworkOp) (j : Nat) (card : AgentCard) : Standing :=
  ops.foldl (fun s op => op.note j s) { card, entry := none }

def found_by (i : Nat) (log : List NetworkOutput) : List AgentCard :=
  log.flatMap fun
    | .found j cards => if j = i then cards else []
    | _ => []

def arrived_at (i : Nat) (log : List NetworkOutput) : List Bytes :=
  log.flatMap fun
    | .arrived j msgs => if j = i then msgs else []
    | _ => []

theorem standing_snoc (ops : List NetworkOp) (op : NetworkOp) (j : Nat) (card : AgentCard) :
    standing (ops ++ [op]) j card = op.note j (standing ops j card) := by
  rw [standing, List.foldl_append]
  rfl

theorem note_key (op : NetworkOp) (j : Nat) (s : Standing) :
    (op.note j s).card.public_key = s.card.public_key := by
  cases op <;> unfold NetworkOp.note <;> first | rfl | (dsimp only; split <;> rfl)

theorem standing_key (ops : List NetworkOp) (j : Nat) (card : AgentCard) :
    (standing ops j card).card.public_key = card.public_key := by
  induction ops using List.reverseRecOn with
  | nil => rfl
  | append_singleton ops op ih => rw [standing_snoc, note_key, ih]

theorem found_by_append (i : Nat) (log log' : List NetworkOutput) :
    found_by i (log ++ log') = found_by i log ++ found_by i log' := List.flatMap_append

theorem arrived_at_append (i : Nat) (log log' : List NetworkOutput) :
    arrived_at i (log ++ log') = arrived_at i log ++ arrived_at i log' := List.flatMap_append

/-- The messages that wait for a node. -/
def DiscoveryNode.waiting (node : DiscoveryNode) : List Bytes := node.discover_rx.getD []

namespace Network

/-- The nodes and the registry stand as the operations left them, and what a node found
and what waits for it is what arrived. -/
structure Tracks (L : Libs) (cards : List AgentCard) (ops : List NetworkOp)
    (log : List NetworkOutput) (t : Network) : Prop where
  same : ∀ j : Nat, t.nodes[j]?.map DiscoveryNode.card =
    cards[j]?.map fun card => (standing ops j card).card
  keyed : Keyed t.registry.agents
  entries : (cards.map AgentCard.public_key).Nodup → ∀ (j : Nat) card, cards[j]? = some card →
    t.registry.agents.lookup card.public_key = (standing ops j card).entry
  others : ∀ k, (∀ card ∈ cards, card.public_key ≠ k) → t.registry.agents.lookup k = none
  heard : ∀ (i : Nat) node, t.nodes[i]? = some node →
    found_by i log ++ node.waiting.filterMap (card_in L node.card.public_key) =
      (arrived_at i log).filterMap (card_in L node.card.public_key)

variable {L : Libs} {cards : List AgentCard} {ops : List NetworkOp} {log out : List NetworkOutput}
  {t : Network} {op : NetworkOp}

theorem Tracks.start : Tracks L cards [] [] (start cards) where
  same j := by
    rw [Network.start, List.getElem?_map, Option.map_map]
    rfl
  keyed := .empty
  entries _ _ _ _ := rfl
  others _ _ := rfl
  heard i node hnode := by
    rw [Network.start, List.getElem?_map] at hnode
    obtain ⟨card, -, rfl⟩ := Option.map_eq_some_iff.mp hnode
    rfl

theorem Tracks.card_of (h : Tracks L cards ops log t) {i : Nat} {node : DiscoveryNode}
    (hnode : t.nodes[i]? = some node) :
    ∃ card, cards[i]? = some card ∧ (standing ops i card).card = node.card := by
  have hsame := h.same i
  rw [hnode, Option.map_some] at hsame
  exact Option.map_eq_some_iff.mp hsame.symm

theorem Tracks.key_of (h : Tracks L cards ops log t) {i : Nat} {node : DiscoveryNode}
    {card : AgentCard} (hnode : t.nodes[i]? = some node) (hcard : cards[i]? = some card) :
    card.public_key = node.card.public_key := by
  obtain ⟨c, hc, heq⟩ := h.card_of hnode
  obtain rfl := Option.some.inj (hc.symm.trans hcard)
  rw [← heq, standing_key]

/-- A row of nodes in which one is set. -/
theorem cards_set {nodes : List DiscoveryNode} {i : Nat} {node after : DiscoveryNode}
    (hnode : nodes[i]? = some node) (j : Nat) :
    (nodes.set i after)[j]?.map DiscoveryNode.card =
      if i = j then some after.card else nodes[j]?.map DiscoveryNode.card := by
  rw [List.getElem?_set]
  by_cases hj : i = j
  · rw [if_pos hj, if_pos hj, if_pos (hj ▸ (List.getElem?_eq_some_iff.mp hnode).1)]
    rfl
  · rw [if_neg hj, if_neg hj]

/-- An operation that does nothing. -/
theorem Tracks.idle (h : Tracks L cards ops log t)
    (hnote : ∀ (j : Nat) s, j < cards.length → op.note j s = s)
    (hfound : ∀ i, found_by i out = []) (harrived : ∀ i, arrived_at i out = []) :
    Tracks L cards (ops ++ [op]) (log ++ out) t where
  same j := by
    rw [h.same]
    apply Option.map_congr
    intro card hj
    rw [standing_snoc, hnote j _ (List.getElem?_eq_some_iff.mp hj).1]
  keyed := h.keyed
  entries hkeys j card hj := by
    rw [standing_snoc, hnote j _ (List.getElem?_eq_some_iff.mp hj).1]
    exact h.entries hkeys j card hj
  others := h.others
  heard i node hnode := by
    rw [found_by_append, arrived_at_append, hfound, harrived, List.append_nil, List.append_nil]
    exact h.heard i node hnode

/-- Messages come to one node, or it reads them. -/
theorem Tracks.receive (h : Tracks L cards ops log t) {i : Nat} {node after : DiscoveryNode}
    (hnode : t.nodes[i]? = some node) (hcard : after.card = node.card)
    (hnote : ∀ j s, op.note j s = s)
    (hfound : ∀ j, j ≠ i → found_by j out = []) (harrived : ∀ j, j ≠ i → arrived_at j out = [])
    (hown : found_by i out ++ after.waiting.filterMap (card_in L node.card.public_key) =
      node.waiting.filterMap (card_in L node.card.public_key) ++
        (arrived_at i out).filterMap (card_in L node.card.public_key)) :
    Tracks L cards (ops ++ [op]) (log ++ out) { t with nodes := t.nodes.set i after } where
  same j := by
    have hsame := h.same j
    rw [cards_set hnode, hcard]
    simp only [standing_snoc, hnote]
    by_cases hj : i = j
    · subst hj
      rw [if_pos rfl, ← hsame, hnode]
      rfl
    · rw [if_neg hj, hsame]
  keyed := h.keyed
  entries hkeys j card hj := by
    rw [standing_snoc, hnote]
    exact h.entries hkeys j card hj
  others := h.others
  heard j other hother := by
    rw [found_by_append, arrived_at_append]
    rw [List.getElem?_set] at hother
    by_cases hj : i = j
    · subst hj
      rw [if_pos rfl, if_pos (List.getElem?_eq_some_iff.mp hnode).1, Option.some.injEq] at hother
      subst hother
      rw [hcard, List.append_assoc, hown, List.filterMap_append, ← List.append_assoc,
        h.heard i node hnode]
    · rw [if_neg hj] at hother
      rw [hfound j (Ne.symm hj), harrived j (Ne.symm hj), List.append_nil, List.append_nil]
      exact h.heard j other hother

/-- The card of one node changes. -/
theorem Tracks.describe (h : Tracks L cards ops log t) {i : Nat} {node : DiscoveryNode}
    (hnode : t.nodes[i]? = some node) (card : AgentCard) :
    Tracks L cards (ops ++ [.describe i card]) (log ++ [])
      { t with nodes := t.nodes.set i (node.described card) } where
  same j := by
    rw [cards_set hnode]
    by_cases hj : i = j
    · subst hj
      obtain ⟨c, hc, heq⟩ := h.card_of hnode
      rw [if_pos rfl, hc, Option.map_some, standing_snoc, NetworkOp.note, if_pos rfl, heq]
      rfl
    · rw [if_neg hj, h.same]
      apply Option.map_congr
      intro c hc
      rw [standing_snoc, NetworkOp.note, if_neg hj]
  keyed := h.keyed
  entries hkeys j c hj := by
    have hentry : (standing (ops ++ [.describe i card]) j c).entry = (standing ops j c).entry := by
      rw [standing_snoc, NetworkOp.note]
      split <;> rfl
    rw [hentry]
    exact h.entries hkeys j c hj
  others := h.others
  heard j other hother := by
    rw [List.append_nil]
    rw [List.getElem?_set] at hother
    by_cases hj : i = j
    · subst hj
      rw [if_pos rfl, if_pos (List.getElem?_eq_some_iff.mp hnode).1, Option.some.injEq] at hother
      subst hother
      exact h.heard i node hnode
    · rw [if_neg hj] at hother
      exact h.heard j other hother

/-- The registry changes at the key of one node. -/
theorem Tracks.enter (h : Tracks L cards ops log t) {i : Nat} {node : DiscoveryNode}
    (hnode : t.nodes[i]? = some node) {registry : InMemoryRegistry} {value : Option AgentCard}
    (hsets : Sets t.registry registry node.card.public_key value)
    (hcard : ∀ j s, (op.note j s).card = s.card)
    (hvalue : ∀ s, s.card = node.card →
      t.registry.agents.lookup node.card.public_key = s.entry → value = (op.note i s).entry)
    (hnote : ∀ j s, j ≠ i → op.note j s = s)
    (hfound : ∀ j, found_by j out = []) (harrived : ∀ j, arrived_at j out = []) :
    Tracks L cards (ops ++ [op]) (log ++ out) { t with registry } where
  same j := by
    simp only [standing_snoc, hcard]
    exact h.same j
  keyed := hsets.keyed
  entries hkeys j c hj := by
    obtain ⟨own, hi, hown⟩ := h.card_of hnode
    have hkey := h.key_of hnode hi
    rw [standing_snoc]
    by_cases hji : j = i
    · subst hji
      obtain rfl : own = c := Option.some.inj (hi.symm.trans hj)
      rw [hkey, hsets.own]
      apply hvalue _ hown
      rw [← hkey]
      exact h.entries hkeys j own hj
    · have hne : c.public_key ≠ node.card.public_key := by
        intro heq
        apply hji
        have hlt : j < (cards.map AgentCard.public_key).length := by
          rw [List.length_map]
          exact (List.getElem?_eq_some_iff.mp hj).1
        apply (List.getElem?_inj hlt hkeys).mp
        rw [List.getElem?_map, List.getElem?_map, hj, hi, Option.map_some, Option.map_some, heq,
          hkey]
      rw [hnote j _ hji, hsets.rest _ hne]
      exact h.entries hkeys j c hj
  others k hk := by
    obtain ⟨own, hi, -⟩ := h.card_of hnode
    have hne : k ≠ node.card.public_key := by
      rintro rfl
      exact hk own (List.mem_of_getElem? hi) (h.key_of hnode hi)
    rw [hsets.rest k hne]
    exact h.others k hk
  heard j other hother := by
    rw [found_by_append, arrived_at_append, hfound, harrived, List.append_nil, List.append_nil]
    exact h.heard j other hother

theorem discover_keeps_card (L : Libs) (node : DiscoveryNode)
    (subscribed : Except TransportError (List Bytes)) :
    (node.discover L subscribed).1.card = node.card := by
  obtain ⟨card, rx⟩ := node
  cases rx with
  | none => cases subscribed <;> rfl
  | some rx => rfl

/-- A call of `discover` empties the receiver. -/
theorem discover_drains {node after : DiscoveryNode}
    {subscribed : Except TransportError (List Bytes)} {found : List AgentCard}
    (h : node.discover L subscribed = (after, .ok found)) :
    after.waiting = [] ∧
      found = node.waiting.filterMap (card_in L node.card.public_key) ++
        (replayed node subscribed).filterMap (card_in L node.card.public_key) := by
  obtain ⟨card, rx⟩ := node
  cases rx with
  | none =>
    cases subscribed with
    | error e => cases h
    | ok replay =>
      cases h
      exact ⟨rfl, rfl⟩
  | some rx =>
    cases h
    exact ⟨rfl, (List.append_nil _).symm⟩

/-- What a node reads in one call. -/
theorem Tracks.drain (h : Tracks L cards ops log t) {i : Nat} {node after : DiscoveryNode}
    {subscribed : Except TransportError (List Bytes)} {found : List AgentCard}
    (hnode : t.nodes[i]? = some node) (hread : node.discover L subscribed = (after, .ok found))
    (hnote : ∀ j s, op.note j s = s)
    (hfound : ∀ j, found_by j out = if i = j then found else [])
    (harrived : ∀ j, arrived_at j out = if i = j then replayed node subscribed else []) :
    Tracks L cards (ops ++ [op]) (log ++ out) { t with nodes := t.nodes.set i after } := by
  obtain ⟨hempty, rfl⟩ := discover_drains hread
  have hcard := discover_keeps_card L node subscribed
  rw [hread] at hcard
  apply h.receive hnode hcard hnote
  · intro j hj
    rw [hfound, if_neg (Ne.symm hj)]
  · intro j hj
    rw [harrived, if_neg (Ne.symm hj)]
  · rw [hfound, harrived, if_pos rfl, if_pos rfl, hempty, List.filterMap_nil, List.append_nil]

/-- An operation on no node. -/
theorem Tracks.nobody (h : Tracks L cards ops log t) {i : Nat} (hnode : t.nodes[i]? = none)
    (hnote : ∀ j s, j ≠ i → op.note j s = s) : Tracks L cards (ops ++ [op]) (log ++ []) t := by
  apply h.idle
  · intro j s hj
    apply hnote
    rintro rfl
    have hsame := h.same j
    rw [hnode, List.getElem?_eq_getElem hj] at hsame
    cases hsame
  · intro j
    rfl
  · intro j
    rfl

/-- A call on the registry by the node `i`. `entry` is what it leaves of the entry of a
node, by the card of the node and the entry before it. -/
theorem Tracks.call (h : Tracks L cards ops log t) {t' : Network} {i : Nat}
    {call : DiscoveryNode → InMemoryRegistry × Except NodeError Unit}
    (entry : AgentCard → Option AgentCard → Option AgentCard)
    (hsets : ∀ node : DiscoveryNode, Sets t.registry (call node).1 node.card.public_key
      (entry node.card (t.registry.agents.lookup node.card.public_key)))
    (hnote : ∀ j s, op.note j s = if i = j then { s with entry := entry s.card s.entry } else s)
    (hstep : (match t.nodes[i]? with
      | none => .ok (t, [])
      | some node => .ok ({ t with registry := (call node).1 }, [.returned i (call node).2]) :
        Except Empty (Network × List NetworkOutput)) = .ok (t', out)) :
    Tracks L cards (ops ++ [op]) (log ++ out) t' := by
  have hothers : ∀ j s, j ≠ i → op.note j s = s := by
    intro j s hj
    rw [hnote, if_neg (Ne.symm hj)]
  split at hstep
  case h_1 hnode =>
    cases hstep
    exact h.nobody hnode hothers
  case h_2 node hnode =>
    cases hstep
    apply h.enter hnode (hsets node) _ _ hothers
    · intro j
      rfl
    · intro j
      rfl
    · intro j s
      rw [hnote]
      split
      · rfl
      · rfl
    · intro s hcard hentry
      rw [hnote, if_pos rfl, hcard, hentry]

theorem Tracks.step {t' : Network} (h : Tracks L cards ops log t)
    (hstep : step L t op = .ok (t', out)) : Tracks L cards (ops ++ [op]) (log ++ out) t' := by
  cases op with
  | describe i card =>
    rw [Network.step] at hstep
    split at hstep
    case h_1 hnode =>
      cases hstep
      exact h.nobody hnode fun j s hj => if_neg (Ne.symm hj)
    case h_2 node hnode =>
      cases hstep
      exact h.describe hnode card
  | deliver i msg =>
    rw [Network.step] at hstep
    split at hstep
    case h_1 card rx hnode =>
      cases hstep
      apply h.receive hnode
        (rfl : ({ card, discover_rx := some (rx ++ [msg]) } : DiscoveryNode).card = card)
      · intro j before
        rfl
      · intro j hj
        rfl
      · intro j hj
        exact (List.append_nil _).trans (if_neg (Ne.symm hj))
      · have harrived : arrived_at i [.arrived i [msg]] = [msg] :=
          (List.append_nil _).trans (if_pos rfl)
        rw [harrived]
        exact List.filterMap_append
    case h_2 =>
      cases hstep
      exact h.idle (fun _ _ _ => rfl) (fun _ => rfl) (fun _ => rfl)
  | discover i subscribed =>
    rw [Network.step] at hstep
    split at hstep
    case h_1 hnode =>
      cases hstep
      exact h.nobody hnode fun _ _ _ => rfl
    case h_2 node hnode =>
      split at hstep
      case h_1 hread =>
        cases hstep
        exact h.idle (fun _ _ _ => rfl) (fun _ => rfl) (fun _ => rfl)
      case h_2 after found hread =>
        cases hstep
        apply h.drain hnode hread (fun _ _ => rfl)
        · intro j
          exact List.append_nil _
        · intro j
          exact List.append_nil _
  | discover_all i subscribed =>
    rw [Network.step] at hstep
    split at hstep
    case h_1 hnode =>
      cases hstep
      exact h.nobody hnode fun _ _ _ => rfl
    case h_2 node hnode =>
      cases hread : node.discover L subscribed with
      | mk after result =>
        cases result with
        | error e =>
          simp only [DiscoveryNode.discover_all, hread] at hstep
          cases hstep
          exact h.idle (fun _ _ _ => rfl) (fun _ => rfl) (fun _ => rfl)
        | ok found =>
          simp only [DiscoveryNode.discover_all, hread] at hstep
          cases hstep
          apply h.drain hnode hread (fun _ _ => rfl)
          · intro j
            exact List.append_nil _
          · intro j
            exact List.append_nil _
  | register i =>
    apply h.call (fun card entry => some (entry.getD card)) _ _ hstep
    · intro node
      exact Sets.register h.keyed node.card
    · intro j s
      rfl
  | update i =>
    apply h.call (fun card entry => entry.map fun _ => card) _ _ hstep
    · intro node
      exact Sets.update h.keyed node.card
    · intro j s
      rfl
  | deregister i =>
    apply h.call (fun _ _ => none) _ _ hstep
    · intro node
      exact Sets.deregister h.keyed node.card.public_key
    · intro j s
      rfl

/-- Every run is tracked. -/
theorem tracks (hrun : run (Network.step L) (start cards) ops = .ok (t, log)) :
    Tracks L cards ops log t := by
  induction ops using List.reverseRecOn generalizing t log with
  | nil =>
    cases hrun
    exact .start
  | append_singleton ops op ih =>
    obtain ⟨s, log₁, log₂, hbefore, hstep, rfl⟩ := run_snoc_cases hrun
    exact (ih hbefore).step hstep

/-- The last card of a key. -/
def last_of (found : List AgentCard) (k : String) : Option AgentCard :=
  (found.filter fun card => card.public_key = k).getLast?

/-- The registry speaks first, but not of the node itself. -/
theorem lookup_by_key {registry : InMemoryRegistry} (hkeyed : Keyed registry.agents)
    (node : DiscoveryNode) (found : List AgentCard) (k : String) :
    (node.by_key found (some registry.list)).lookup k =
      if k = node.card.public_key then last_of found k
      else (registry.agents.lookup k).or (last_of found k) := by
  have hlookup : (node.by_key found (some registry.list)).lookup k =
      (last_of ((cards_of registry.agents).filter fun card =>
        card.public_key ≠ node.card.public_key) k).or (last_of found k) := by
    have hannounced := lookup_foldl_insert AgentCard.public_key id found ∅ k
    rw [AList.lookup_empty, Option.or_none, Option.map_id] at hannounced
    have hlast := lookup_foldl_insert AgentCard.public_key id
      ((cards_of registry.agents).filter fun card => card.public_key ≠ node.card.public_key)
      (found.foldl (fun m card => m.insert card.public_key card) ∅) k
    rw [Option.map_id] at hlast
    exact hlast.trans (congrArg _ hannounced)
  rw [hlookup]
  split
  case isTrue hk =>
    subst hk
    have hnone : ((cards_of registry.agents).filter fun card =>
        card.public_key ≠ node.card.public_key).filter
          (fun card => card.public_key = node.card.public_key) = [] := by
      apply List.filter_eq_nil_iff.mpr
      intro card hcard hkey
      exact of_decide_eq_true (List.mem_filter.mp hcard).2 (of_decide_eq_true hkey)
    rw [last_of, hnone]
    rfl
  case isFalse hk =>
    congr 1
    rw [← hkeyed.last_of_key, last_of, List.filter_filter]
    congr 1
    apply List.filter_congr
    intro card hcard
    by_cases hkey : card.public_key = k
    · simp [hkey, hk]
    · simp [hkey]

theorem by_key_keyed (node : DiscoveryNode) (found : List AgentCard)
    (listed : Option (Except RegistryError (List AgentCard))) :
    Keyed (node.by_key found listed) := by
  unfold DiscoveryNode.by_key
  split
  · exact (Keyed.empty.foldl found).foldl _
  · exact Keyed.empty.foldl found

theorem last_of_none {found : List AgentCard} {k : String}
    (h : ∀ card ∈ found, card.public_key ≠ k) : last_of found k = none := by
  rw [last_of, List.getLast?_eq_none_iff, List.filter_eq_nil_iff]
  intro card hcard hkey
  exact h card hcard (of_decide_eq_true hkey)

theorem last_of_key {found : List AgentCard} {k : String} {card : AgentCard}
    (h : last_of found k = some card) : card ∈ found ∧ card.public_key = k := by
  obtain ⟨hmem, hkey⟩ := List.mem_filter.mp (List.mem_of_getLast? h)
  exact ⟨hmem, of_decide_eq_true hkey⟩

/-- The registry holds what the operations left of each node, and nothing else. -/
theorem Tracks.lookup (h : Tracks L cards ops log t)
    (hkeys : (cards.map AgentCard.public_key).Nodup) (c : AgentCard) (k : String) :
    t.registry.agents.lookup k = some c ↔
      ∃ (j : Nat) (card : AgentCard), cards[j]? = some card ∧ card.public_key = k ∧
        (standing ops j card).entry = some c := by
  constructor
  · intro hlookup
    by_cases hk : ∃ card ∈ cards, card.public_key = k
    case neg =>
      rw [h.others k fun card hmem hkey => hk ⟨card, hmem, hkey⟩] at hlookup
      cases hlookup
    case pos =>
      obtain ⟨card, hmem, rfl⟩ := hk
      obtain ⟨j, hj⟩ := List.getElem?_of_mem hmem
      rw [h.entries hkeys j card hj] at hlookup
      exact ⟨j, card, hj, rfl, hlookup⟩
  · rintro ⟨j, card, hj, rfl, hentry⟩
    rw [h.entries hkeys j card hj, hentry]

theorem Tracks.lookup_none (h : Tracks L cards ops log t)
    (hkeys : (cards.map AgentCard.public_key).Nodup) (k : String) :
    t.registry.agents.lookup k = none ↔
      ∀ (j : Nat) (card : AgentCard), cards[j]? = some card → card.public_key = k →
        (standing ops j card).entry = none := by
  constructor
  · rintro hnone j card hj rfl
    rw [← h.entries hkeys j card hj, hnone]
  · intro hnone
    rw [Option.eq_none_iff_forall_ne_some]
    intro c hlookup
    obtain ⟨j, card, hj, hkey, hentry⟩ := (h.lookup hkeys c k).mp hlookup
    rw [hnone j card hj hkey] at hentry
    cases hentry

/-- A node finds no card with its own key. -/
theorem card_in_other {own : String} {msg : Bytes} {card : AgentCard}
    (h : card_in L own msg = some card) : card.public_key ≠ own := by
  rw [card_in] at h
  split at h
  case h_1 =>
    split at h
    case isTrue hne =>
      cases h
      exact hne
    case isFalse => cases h
  case h_2 => cases h

theorem found_others {node after : DiscoveryNode}
    {subscribed : Except TransportError (List Bytes)} {found : List AgentCard}
    (h : node.discover L subscribed = (after, .ok found)) :
    ∀ card ∈ found, card.public_key ≠ node.card.public_key := by
  obtain ⟨-, rfl⟩ := discover_drains h
  intro card hmem
  rw [← List.filterMap_append] at hmem
  obtain ⟨msg, -, hcard⟩ := List.mem_filterMap.mp hmem
  exact card_in_other hcard

/-! ## The laws of discovery -/

/-- What a node found, and what it would find next, are the cards of others that came to
it, each once and in order. -/
theorem each_announced_card_is_found_once
    (hrun : run (Network.step L) (Network.start cards) ops = .ok (t, log)) {i : Nat}
    {node : DiscoveryNode} (hnode : t.nodes[i]? = some node) :
    found_by i log ++ node.waiting.filterMap (card_in L node.card.public_key) =
      (arrived_at i log).filterMap (card_in L node.card.public_key) :=
  (tracks hrun).heard i node hnode

def ada : AgentCard :=
  { name := "ada", description := "", version := "1", capabilities := ["sum"],
    public_key := "02ad", intro_bundle := none }

def bob : AgentCard := { ada with name := "bob", public_key := "02b0" }

def bob_libs : Libs :=
  .ofTables (.ofTable [] [])
    { public_key := fun _ => []
      diffie_hellman := fun _ _ => []
      aead_encrypt := fun _ _ _ => none
      aead_decrypt := fun _ _ _ => none } [.AgentCard bob] []

theorem bob_libs_reads : card_in bob_libs ada.public_key (A2AEnvelope.AgentCard bob).to_vec =
    some bob := by
  have hread : bob_libs.envelope_from_slice (A2AEnvelope.AgentCard bob).to_vec =
      some (.AgentCard bob) :=
    List.find?_cons_of_pos (l := [])
      (p := fun e : A2AEnvelope => e.to_vec = (A2AEnvelope.AgentCard bob).to_vec)
      (decide_eq_true rfl)
  rw [card_in, hread]
  rfl

/-- Bob registers, and his announcement comes to ada, who has subscribed. -/
def bob_joins : List NetworkOp :=
  [.discover 0 (.ok []), .deliver 0 (A2AEnvelope.AgentCard bob).to_vec, .register 1]

def joined : Network where
  nodes := [{ card := ada, discover_rx := some [(A2AEnvelope.AgentCard bob).to_vec] },
    { card := bob, discover_rx := none }]
  registry := (InMemoryRegistry.new.register bob).1

def joined_log : List NetworkOutput :=
  [.arrived 0 [], .found 0 [], .arrived 0 [(A2AEnvelope.AgentCard bob).to_vec],
    .returned 1 (.ok ())]

theorem bob_joins_run :
    run (Network.step bob_libs) (Network.start [ada, bob]) bob_joins = .ok (joined, joined_log) :=
  rfl

theorem each_announced_card_is_found_once_two_nodes :
    found_by 0 joined_log ++
        [(A2AEnvelope.AgentCard bob).to_vec].filterMap (card_in bob_libs ada.public_key) =
      [bob] := by
  apply (each_announced_card_is_found_once bob_joins_run (i := 0) rfl).trans
  have harrived : arrived_at 0 joined_log = [(A2AEnvelope.AgentCard bob).to_vec] := rfl
  rw [harrived]
  exact List.filterMap_cons_some bob_libs_reads

/-- A listing has one card for each agent: the one that stands in the registry, else the
last one that was announced. -/
theorem listings_name_each_agent_once (hkeys : (cards.map AgentCard.public_key).Nodup)
    (hrun : run (Network.step L) (Network.start cards) ops = .ok (t, log)) {i : Nat}
    {node after : DiscoveryNode} (hnode : t.nodes[i]? = some node)
    {subscribed : Except TransportError (List Bytes)} {found : List AgentCard}
    (hread : node.discover L subscribed = (after, .ok found)) :
    ∃ all, Network.step L t (.discover_all i subscribed) =
        .ok ({ t with nodes := t.nodes.set i after },
          [.arrived i (replayed node subscribed), .found i found, .listed i all]) ∧
      found_by i log ++ found = (arrived_at i log ++ replayed node subscribed).filterMap
        (card_in L node.card.public_key) ∧
      (all.map AgentCard.public_key).Nodup ∧
      ∀ c, c ∈ all ↔ c.public_key ≠ node.card.public_key ∧
        ((∃ (j : Nat) (card : AgentCard), cards[j]? = some card ∧
            (standing ops j card).entry = some c) ∨
          (∀ (j : Nat) (card : AgentCard), cards[j]? = some card →
            card.public_key = c.public_key → (standing ops j card).entry = none) ∧
          last_of found c.public_key = some c) := by
  have h := tracks hrun
  have hkeyed := by_key_keyed node found (some t.registry.list)
  refine ⟨cards_of (node.by_key found (some t.registry.list)), ?_, ?_, hkeyed.nodup, ?_⟩
  · rw [Network.step, hnode]
    simp only [DiscoveryNode.discover_all, hread]
    rfl
  · obtain ⟨-, rfl⟩ := discover_drains hread
    rw [← List.append_assoc, h.heard i node hnode, ← List.filterMap_append]
  · intro c
    rw [hkeyed.mem_cards, lookup_by_key h.keyed]
    by_cases hown : c.public_key = node.card.public_key
    · have hnone : last_of found c.public_key = none := by
        rw [hown]
        exact last_of_none (found_others hread)
      rw [if_pos hown, hnone]
      simp [hown]
    · rw [if_neg hown, Option.or_eq_some_iff, h.lookup hkeys, h.lookup_none hkeys]
      have hstands : ∀ (j : Nat) card, cards[j]? = some card →
          (standing ops j card).entry = some c → card.public_key = c.public_key := by
        intro j card hj hentry
        rw [← h.entries hkeys j card hj] at hentry
        exact (h.keyed _ _ hentry).symm
      grind

theorem listings_name_each_agent_once_two_nodes :
    ∃ after all, Network.step bob_libs joined (.discover_all 0 (.ok [])) =
        .ok ({ joined with nodes := joined.nodes.set 0 after },
          [.arrived 0 [], .found 0 [bob], .listed 0 all]) ∧
      (all.map AgentCard.public_key).Nodup ∧ bob ∈ all := by
  have hread : DiscoveryNode.discover bob_libs
      { card := ada, discover_rx := some [(A2AEnvelope.AgentCard bob).to_vec] } (.ok []) =
      ({ card := ada, discover_rx := some [] }, .ok [bob]) := by
    have hfound : [(A2AEnvelope.AgentCard bob).to_vec].filterMap
        (card_in bob_libs ada.public_key) = [bob] := List.filterMap_cons_some bob_libs_reads
    rw [← hfound]
    rfl
  obtain ⟨all, hstep, -, hnodup, hmem⟩ :=
    listings_name_each_agent_once (by decide) bob_joins_run (i := 0) rfl hread
  exact ⟨_, all, hstep, hnodup, (hmem bob).mpr ⟨by decide, Or.inl ⟨1, bob, rfl, rfl⟩⟩⟩

/-- The registry answers by what stands in it: the calls of a node by whether its own
card does, a search by the cards that have the capability. -/
theorem the_registry_answers_by_what_stands (hkeys : (cards.map AgentCard.public_key).Nodup)
    (hrun : run (Network.step L) (Network.start cards) ops = .ok (t, log)) {i : Nat}
    {node : DiscoveryNode} {own : AgentCard} (hnode : t.nodes[i]? = some node)
    (hown : cards[i]? = some own) (capability : String) :
    (node.register_in_registry t.registry).2 =
        (if (standing ops i own).entry.isSome then
          .error (.Other ("agent already registered: " ++ own.public_key)) else .ok ()) ∧
      (node.update_registry t.registry).2 =
        (if (standing ops i own).entry.isSome then .ok ()
          else .error (.Other ("agent not found: " ++ own.public_key))) ∧
      (node.deregister_from_registry t.registry).2 =
        (if (standing ops i own).entry.isSome then .ok ()
          else .error (.Other ("agent not found: " ++ own.public_key))) ∧
      t.registry.get own.public_key =
        (match (standing ops i own).entry with
          | some card => .ok card
          | none => .error (.NotFound own.public_key)) ∧
      ∃ found, t.registry.find_by_capability capability = .ok found ∧
        (found.map AgentCard.public_key).Nodup ∧
        ∀ c, c ∈ found ↔ capability ∈ c.capabilities ∧
          ∃ (j : Nat) (card : AgentCard), cards[j]? = some card ∧
            (standing ops j card).entry = some c := by
  have h := tracks hrun
  have hkey : own.public_key = node.card.public_key := h.key_of hnode hown
  have hentry := h.entries hkeys i own hown
  have hmem : own.public_key ∈ t.registry.agents ↔ (standing ops i own).entry.isSome = true := by
    rw [← hentry, AList.lookup_isSome]
  refine ⟨?_, ?_, ?_, ?_, _, rfl, ?_, ?_⟩
  · rw [DiscoveryNode.register_in_registry, InMemoryRegistry.register, ← hkey]
    simp only [hmem]
    split <;> rfl
  · rw [DiscoveryNode.update_registry, InMemoryRegistry.update, ← hkey]
    simp only [hmem]
    cases (standing ops i own).entry <;> rfl
  · rw [DiscoveryNode.deregister_from_registry, InMemoryRegistry.deregister, ← hkey]
    simp only [hmem]
    cases (standing ops i own).entry <;> rfl
  · cases hcase : (standing ops i own).entry <;> simp only [InMemoryRegistry.get, hentry, hcase]
  · exact h.keyed.nodup.sublist (List.filter_sublist.map _)
  · intro c
    have hstands : t.registry.agents.lookup c.public_key = some c ↔
        ∃ (j : Nat) (card : AgentCard), cards[j]? = some card ∧
          (standing ops j card).entry = some c := by
      rw [h.lookup hkeys]
      constructor
      · rintro ⟨j, card, hj, -, hstands⟩
        exact ⟨j, card, hj, hstands⟩
      · rintro ⟨j, card, hj, hstands⟩
        have hlookup := h.entries hkeys j card hj
        rw [hstands] at hlookup
        exact ⟨j, card, hj, (h.keyed _ _ hlookup).symm, hstands⟩
    rw [List.mem_filter, h.keyed.mem_cards, hstands, and_comm]
    simp

theorem the_registry_answers_by_what_stands_two_nodes :
    (InMemoryRegistry.new.register bob).1.get "02b0" = .ok bob := by
  obtain ⟨-, -, -, hget, -⟩ :=
    the_registry_answers_by_what_stands (by decide) bob_joins_run (i := 1) rfl rfl "sum"
  exact hget

end Network

end discovery

end lmao
