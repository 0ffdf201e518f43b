-- The registry of agents (registry.rs of the core crate): one card a key, and what each
-- operation changes.
import Lmao.Task
import Mathlib.Data.List.AList

namespace lmao

/-! ## The registry -/

inductive RegistryError
  | NotFound (key : String)
  | Unauthorized (msg : String)
  | AlreadyRegistered (key : String)
  | Backend (msg : String)
deriving DecidableEq, Repr

def RegistryError.display : RegistryError → String
  | .NotFound key => "agent not found: " ++ key
  | .Unauthorized msg => "unauthorized: " ++ msg
  | .AlreadyRegistered key => "agent already registered: " ++ key
  | .Backend msg => "registry backend error: " ++ msg

/-- `list` and `find_by_capability` promise no order. -/
structure InMemoryRegistry where
  agents : AList fun _ : String => AgentCard

/-- The cards of a map. -/
def cards_of (m : AList fun _ : String => AgentCard) : List AgentCard := m.entries.map fun e => e.2

namespace InMemoryRegistry

def new : InMemoryRegistry := { agents := ∅ }

def register (r : InMemoryRegistry) (card : AgentCard) :
    InMemoryRegistry × Except RegistryError Unit :=
  if card.public_key ∈ r.agents then (r, .error (.AlreadyRegistered card.public_key))
  else ({ agents := r.agents.insert card.public_key card }, .ok ())

def update (r : InMemoryRegistry) (card : AgentCard) :
    InMemoryRegistry × Except RegistryError Unit :=
  if card.public_key ∉ r.agents then (r, .error (.NotFound card.public_key))
  else ({ agents := r.agents.insert card.public_key card }, .ok ())

def deregister (r : InMemoryRegistry) (public_key : String) :
    InMemoryRegistry × Except RegistryError Unit :=
  if public_key ∉ r.agents then (r, .error (.NotFound public_key))
  else ({ agents := r.agents.erase public_key }, .ok ())

def get (r : InMemoryRegistry) (public_key : String) : Except RegistryError AgentCard :=
  match r.agents.lookup public_key with
  | some card => .ok card
  | none => .error (.NotFound public_key)

def list (r : InMemoryRegistry) : Except RegistryError (List AgentCard) := .ok (cards_of r.agents)

def find_by_capability (r : InMemoryRegistry) (capability : String) :
    Except RegistryError (List AgentCard) :=
  .ok ((cards_of r.agents).filter fun c => c.capabilities.any fun cap => cap = capability)

end InMemoryRegistry

/-! ## Cards by their keys -/

/-- Each card stands under its key. -/
def Keyed (m : AList fun _ : String => AgentCard) : Prop :=
  ∀ k card, m.lookup k = some card → card.public_key = k

theorem Keyed.empty : Keyed ∅ := by
  intro k card h
  simp at h

theorem Keyed.insert {m : AList fun _ : String => AgentCard} (h : Keyed m) (card : AgentCard) :
    Keyed (m.insert card.public_key card) := by
  intro k c hc
  by_cases hk : k = card.public_key
  · subst hk
    rw [AList.lookup_insert, Option.some.injEq] at hc
    rw [hc]
  · rw [AList.lookup_insert_ne hk] at hc
    exact h k c hc

theorem Keyed.erase {m : AList fun _ : String => AgentCard} (h : Keyed m) (key : String) :
    Keyed (m.erase key) := by
  intro k c hc
  by_cases hk : k = key
  · subst hk
    rw [AList.lookup_erase] at hc
    cases hc
  · rw [AList.lookup_erase_ne hk] at hc
    exact h k c hc

theorem Keyed.foldl {m : AList fun _ : String => AgentCard} (h : Keyed m) (l : List AgentCard) :
    Keyed (l.foldl (fun m card => m.insert card.public_key card) m) := by
  induction l generalizing m with
  | nil => exact h
  | cons card l ih => exact ih (h.insert card)

theorem Keyed.mem_cards {m : AList fun _ : String => AgentCard} (h : Keyed m)
    (card : AgentCard) : card ∈ cards_of m ↔ m.lookup card.public_key = some card := by
  rw [cards_of, List.mem_map]
  constructor
  · rintro ⟨⟨k, c⟩, hmem, rfl⟩
    have hlookup : m.lookup k = some c := AList.mem_lookup_iff.mpr hmem
    rw [h k c hlookup]
    exact hlookup
  · intro hlookup
    exact ⟨⟨card.public_key, card⟩, AList.mem_lookup_iff.mp hlookup, rfl⟩

theorem Keyed.keys {m : AList fun _ : String => AgentCard} (h : Keyed m) :
    (cards_of m).map AgentCard.public_key = m.keys := by
  rw [cards_of, List.map_map, AList.keys, List.keys]
  apply List.map_congr_left
  rintro ⟨k, c⟩ hmem
  exact h k c (AList.mem_lookup_iff.mpr hmem)

theorem Keyed.nodup {m : AList fun _ : String => AgentCard} (h : Keyed m) :
    ((cards_of m).map AgentCard.public_key).Nodup := by
  rw [h.keys]
  exact m.keys_nodup

/-- The card of a key is the only one with it. -/
theorem Keyed.last_of_key {m : AList fun _ : String => AgentCard} (h : Keyed m) (k : String) :
    ((cards_of m).filter fun card => card.public_key = k).getLast? = m.lookup k := by
  cases hlookup : m.lookup k with
  | none =>
    have hnone : (cards_of m).filter (fun card => card.public_key = k) = [] := by
      rw [List.filter_eq_nil_iff]
      intro card hcard hkey
      rw [h.mem_cards, of_decide_eq_true hkey, hlookup] at hcard
      cases hcard
    rw [hnone]
    rfl
  | some card =>
    obtain rfl := h k card hlookup
    cases hlast : ((cards_of m).filter fun c => c.public_key = card.public_key).getLast? with
    | none =>
      rw [List.getLast?_eq_none_iff, List.filter_eq_nil_iff] at hlast
      exact absurd (decide_eq_true rfl) (hlast card ((h.mem_cards card).mpr hlookup))
    | some c =>
      obtain ⟨hc, hkey⟩ := List.mem_filter.mp (List.mem_of_getLast? hlast)
      rw [h.mem_cards, of_decide_eq_true hkey, hlookup] at hc
      exact hc.symm

/-- A registry after an operation at one key. -/
structure Sets (r r' : InMemoryRegistry) (key : String) (value : Option AgentCard) : Prop where
  keyed : Keyed r'.agents
  own : r'.agents.lookup key = value
  rest : ∀ k, k ≠ key → r'.agents.lookup k = r.agents.lookup k

section Sets

variable {r : InMemoryRegistry}

theorem Sets.same (h : Keyed r.agents) (key : String) : Sets r r key (r.agents.lookup key) where
  keyed := h
  own := rfl
  rest _ _ := rfl

theorem Sets.insert (h : Keyed r.agents) (card : AgentCard) :
    Sets r { agents := r.agents.insert card.public_key card } card.public_key (some card) where
  keyed := h.insert card
  own := AList.lookup_insert _
  rest _ hk := AList.lookup_insert_ne hk

theorem Sets.register (h : Keyed r.agents) (card : AgentCard) :
    Sets r (r.register card).1 card.public_key
      (some ((r.agents.lookup card.public_key).getD card)) := by
  rw [InMemoryRegistry.register]
  split
  case isTrue hmem =>
    obtain ⟨old, hold⟩ := Option.isSome_iff_exists.mp (AList.lookup_isSome.mpr hmem)
    rw [hold]
    exact hold ▸ Sets.same h card.public_key
  case isFalse hmem =>
    rw [AList.lookup_eq_none.mpr hmem]
    exact Sets.insert h card

theorem Sets.update (h : Keyed r.agents) (card : AgentCard) :
    Sets r (r.update card).1 card.public_key
      ((r.agents.lookup card.public_key).map fun _ => card) := by
  rw [InMemoryRegistry.update]
  split
  case isTrue hmem =>
    have hsame := Sets.same h card.public_key
    rw [AList.lookup_eq_none.mpr hmem] at hsame ⊢
    exact hsame
  case isFalse hmem =>
    obtain ⟨old, hold⟩ :=
      Option.isSome_iff_exists.mp (AList.lookup_isSome.mpr (Decidable.not_not.mp hmem))
    rw [hold]
    exact Sets.insert h card

theorem Sets.deregister (h : Keyed r.agents) (key : String) :
    Sets r (r.deregister key).1 key none := by
  rw [InMemoryRegistry.deregister]
  split
  case isTrue hmem => exact AList.lookup_eq_none.mpr hmem ▸ Sets.same h key
  case isFalse hmem =>
    exact ⟨h.erase key, AList.lookup_erase key _, fun k hk => AList.lookup_erase_ne hk⟩

end Sets

end lmao
