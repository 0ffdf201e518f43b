-- The trust list (core crate, trust.rs): the peers that an operator is willing
-- to talk to, and the TOML file that keeps them.
import Mathlib.Data.String.Basic

namespace lmao.node

open Std (ExtTreeMap)

/-! ## Entries and lists -/

inductive TrustMode
  | Off
  | Enforce
  | Log
deriving DecidableEq, Repr

/-- Nanoseconds since the Unix epoch. -/
abbrev SystemTime := Nat

structure TrustEntry where
  pubkey : String
  nickname : String
  /-- The empty list trusts the peer for any capability. -/
  capabilities : List String
  notes : Option String
  encryption_pubkey : Option String
  added_at : SystemTime
deriving DecidableEq, Repr

/-- The fields are private in the Rust code, and each method that fills the map
stores an entry under its own pubkey. -/
structure TrustList where
  mode : TrustMode
  entries : ExtTreeMap String TrustEntry
  keyed : ∀ (pubkey : String) (entry : TrustEntry),
    entries[pubkey]? = some entry → entry.pubkey = pubkey

namespace TrustList

@[ext] theorem ext {l l' : TrustList} (hmode : l.mode = l'.mode)
    (hentries : l.entries = l'.entries) : l = l' := by
  cases l
  cases l'
  cases hmode
  cases hentries
  rfl

def empty : TrustList := { mode := .Off, entries := ∅, keyed := by simp }

def set_mode (l : TrustList) (mode : TrustMode) : TrustList := { l with mode }

/-- The entries, sorted by pubkey. -/
def iter (l : TrustList) : List TrustEntry := l.entries.toList.map Prod.snd

def len (l : TrustList) : Nat := l.entries.size

def is_empty (l : TrustList) : Bool := l.entries.isEmpty

def is_trusted (l : TrustList) (pubkey : String) : Bool :=
  match l.mode with
  | .Off => true
  | _ => decide (pubkey ∈ l.entries)

def is_trusted_for (l : TrustList) (pubkey capability : String) : Bool :=
  match l.mode with
  | .Off => true
  | _ =>
    match l.entries[pubkey]? with
    | none => false
    | some entry => entry.capabilities.isEmpty || entry.capabilities.any (· == capability)

/-- Insert an entry, or replace the one with its pubkey. -/
def add (l : TrustList) (entry : TrustEntry) : TrustList where
  mode := l.mode
  entries := l.entries.insert entry.pubkey entry
  keyed pubkey e h := by
    rw [ExtTreeMap.getElem?_insert] at h
    split at h
    · rename_i heq
      cases h
      exact Std.LawfulEqCmp.eq_of_compare heq
    · exact l.keyed pubkey e h

def erase (l : TrustList) (pubkey : String) : TrustList where
  mode := l.mode
  entries := l.entries.erase pubkey
  keyed k e h := by
    rw [ExtTreeMap.getElem?_erase] at h
    split at h
    · cases h
    · exact l.keyed k e h

/-- Remove by pubkey. -/
def remove (l : TrustList) (pubkey : String) : TrustList × Option TrustEntry :=
  (l.erase pubkey, l.entries[pubkey]?)

/-- Remove the first entry with the nickname. -/
def remove_by_nickname (l : TrustList) (nickname : String) : TrustList × Option TrustEntry :=
  match l.entries.toList.find? fun kv => kv.2.nickname == nickname with
  | none => (l, none)
  | some kv => l.remove kv.1

end TrustList

/-! ## The file -/

structure TrustFile where
  mode : TrustMode
  peers : List TrustEntry
deriving DecidableEq, Repr

/-- The calls of the `toml` crate. The times stand for the fields `added_at`
that a text leaves out. -/
structure Toml where
  to_string_pretty : TrustFile → Option String
  from_str : (Nat → SystemTime) → String → Option TrustFile

inductive TrustError
  | Parse (path : String)
  | Serialize
  | DuplicatePubkey (pubkey : String)
deriving DecidableEq, Repr

/-- The texts of the files on a disk that can be read and written. -/
abbrev Files := String → Option String

namespace TrustList

def of_file (file : TrustFile) : TrustList :=
  file.peers.foldl add { mode := file.mode, entries := ∅, keyed := by simp }

def from_toml_str (T : Toml) (clock : Nat → SystemTime) (text : String) : Option TrustList :=
  (T.from_str clock text).map of_file

def to_file (l : TrustList) : TrustFile := { mode := l.mode, peers := l.iter }

def to_toml_string (T : Toml) (l : TrustList) : Option String := T.to_string_pretty l.to_file

/-- A missing file is an empty list. -/
def load_from (T : Toml) (files : Files) (path : String) (clock : Nat → SystemTime) :
    Except TrustError TrustList :=
  match files path with
  | none => .ok empty
  | some text =>
    match from_toml_str T clock text with
    | none => .error (.Parse path)
    | some l => .ok l

def save_to (T : Toml) (l : TrustList) (files : Files) (path : String) :
    Files × Except TrustError Unit :=
  match l.to_toml_string T with
  | none => (files, .error .Serialize)
  | some text => (Function.update files path (some text), .ok ())

/-! ## What comes back from the file -/

theorem foldl_add_entries (peers : List TrustEntry) (l : TrustList) :
    (peers.foldl add l).entries =
      (peers.map fun e => (e.pubkey, e)).foldl (fun acc p => acc.insert p.1 p.2) l.entries := by
  induction peers generalizing l with
  | nil => rfl
  | cons e peers ih => exact ih (l.add e)

theorem foldl_add_mode (peers : List TrustEntry) (l : TrustList) :
    (peers.foldl add l).mode = l.mode := by
  induction peers generalizing l with
  | nil => rfl
  | cons e peers ih => exact ih (l.add e)

theorem iter_keyed (l : TrustList) :
    l.iter.map (fun e => (e.pubkey, e)) = l.entries.toList := by
  unfold iter
  rw [List.map_map]
  conv_rhs => rw [← List.map_id l.entries.toList]
  apply List.map_congr_left
  rintro ⟨pubkey, entry⟩ hmem
  have hkey := l.keyed pubkey entry (ExtTreeMap.mem_toList_iff_getElem?_eq_some.mp hmem)
  simp [hkey]

theorem mem_iter_iff (l : TrustList) (entry : TrustEntry) :
    entry ∈ l.iter ↔ l.entries[entry.pubkey]? = some entry := by
  unfold iter
  rw [List.mem_map]
  constructor
  · rintro ⟨⟨pubkey, entry⟩, hmem, rfl⟩
    have hget := ExtTreeMap.mem_toList_iff_getElem?_eq_some.mp hmem
    rwa [l.keyed pubkey entry hget]
  · intro hget
    exact ⟨(entry.pubkey, entry), ExtTreeMap.mem_toList_iff_getElem?_eq_some.mpr hget, rfl⟩

/-- A pubkey is in the map if and only if an entry has it. -/
theorem mem_entries_iff (l : TrustList) (pubkey : String) :
    pubkey ∈ l.entries ↔ ∃ entry ∈ l.iter, entry.pubkey = pubkey := by
  simp only [mem_iter_iff, ExtTreeMap.mem_iff_isSome_getElem?, Option.isSome_iff_exists]
  constructor
  · rintro ⟨entry, hget⟩
    obtain rfl := l.keyed pubkey entry hget
    exact ⟨entry, hget, rfl⟩
  · rintro ⟨entry, hget, rfl⟩
    exact ⟨entry, hget⟩

theorem mem_foldl_add_iff (peers : List TrustEntry) (l : TrustList) (pubkey : String) :
    pubkey ∈ (peers.foldl add l).entries ↔
      (∃ entry ∈ peers, entry.pubkey = pubkey) ∨ pubkey ∈ l.entries := by
  induction peers generalizing l with
  | nil => simp
  | cons e peers ih =>
    have hadd : pubkey ∈ (l.add e).entries ↔ e.pubkey = pubkey ∨ pubkey ∈ l.entries := by
      unfold add
      rw [ExtTreeMap.mem_insert, Std.LawfulEqCmp.compare_eq_iff_eq]
    rw [List.foldl_cons, ih, hadd, List.exists_mem_cons_iff, or_assoc, or_left_comm]

/-- The list that is made of the entries of a list is the list itself. -/
theorem of_file_to_file (l : TrustList) : of_file l.to_file = l := by
  apply TrustList.ext
  · exact foldl_add_mode _ _
  · unfold of_file to_file
    rw [foldl_add_entries, iter_keyed, ← ExtTreeMap.insertMany_list_eq_foldl,
      ← ExtTreeMap.ofList_eq_insertMany_empty]
    apply ExtTreeMap.ext_getElem?
    intro k
    rcases hk : l.entries[k]? with _ | entry
    · apply ExtTreeMap.getElem?_ofList_of_contains_eq_false
      rw [ExtTreeMap.map_fst_toList_eq_keys]
      simpa using hk
    · apply ExtTreeMap.getElem?_ofList_of_mem (Std.ReflCmp.compare_self)
        ExtTreeMap.distinct_keys_toList
      exact ExtTreeMap.mem_toList_iff_getElem?_eq_some.mpr hk

end TrustList

end lmao.node
