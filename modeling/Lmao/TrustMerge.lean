-- The trust list as its Rust struct is: a mode and a map, whose type does not tie
-- a key to its entry (trust.rs of the core crate). Every list that its methods
-- make from a file has the tie, so it is a `TrustList`, and the laws of the file
-- and of the merge rest on that.
import Lmao.TrustFrontEnds

namespace lmao.node

open Std (ExtTreeMap)

structure TrustMap where
  mode : TrustMode
  entries : ExtTreeMap String TrustEntry

namespace TrustMap

@[ext] theorem ext {m m' : TrustMap} (hmode : m.mode = m'.mode)
    (hentries : ∀ pubkey : String, m.entries[pubkey]? = m'.entries[pubkey]?) : m = m' := by
  cases m
  cases m'
  cases hmode
  cases ExtTreeMap.ext_getElem? hentries
  rfl

/-! ## The methods -/

def add (m : TrustMap) (entry : TrustEntry) : TrustMap :=
  { m with entries := m.entries.insert entry.pubkey entry }

def add_unique (m : TrustMap) (entry : TrustEntry) : TrustMap × Except TrustError Unit :=
  if entry.pubkey ∈ m.entries then (m, .error (.DuplicatePubkey entry.pubkey))
  else (m.add entry, .ok ())

def remove (m : TrustMap) (pubkey : String) : TrustMap × Option TrustEntry :=
  ({ m with entries := m.entries.erase pubkey }, m.entries[pubkey]?)

def remove_by_nickname (m : TrustMap) (nickname : String) : TrustMap × Option TrustEntry :=
  match m.entries.toList.find? fun kv => kv.2.nickname == nickname with
  | none => (m, none)
  | some kv => m.remove kv.1

def set_mode (m : TrustMap) (mode : TrustMode) : TrustMap := { m with mode }

/-- The entries, by their keys. -/
def values (m : TrustMap) : List TrustEntry := m.entries.toList.map Prod.snd

/-- One turn of the loop of `merge`, with the entries added so far. -/
def merge_entry (acc : TrustMap × Nat) (entry : TrustEntry) : TrustMap × Nat :=
  if entry.pubkey ∈ acc.1.entries then acc else (acc.1.add entry, acc.2 + 1)

def merge (m other : TrustMap) : TrustMap × Nat := other.values.foldl merge_entry (m, 0)

/-- A later entry takes the place of an earlier one with its pubkey. -/
def of_file (file : TrustFile) : TrustMap :=
  file.peers.foldl add { mode := file.mode, entries := ∅ }

def from_toml_str (T : Toml) (clock : Nat → SystemTime) (text : String) : Option TrustMap :=
  (T.from_str clock text).map of_file

def to_toml_string (T : Toml) (m : TrustMap) : Option String :=
  T.to_string_pretty { mode := m.mode, peers := m.values }

/-- The lists that the methods make from the files that parse. -/
inductive Reachable (T : Toml) : TrustMap → Prop
  | parsed {m : TrustMap} (clock : Nat → SystemTime) (text : String) :
      from_toml_str T clock text = some m → Reachable T m
  | add {m : TrustMap} (entry : TrustEntry) : Reachable T m → Reachable T (m.add entry)
  | add_unique {m : TrustMap} (entry : TrustEntry) :
      Reachable T m → Reachable T (m.add_unique entry).1
  | remove {m : TrustMap} (pubkey : String) : Reachable T m → Reachable T (m.remove pubkey).1
  | remove_by_nickname {m : TrustMap} (nickname : String) :
      Reachable T m → Reachable T (m.remove_by_nickname nickname).1
  | merge {m other : TrustMap} :
      Reachable T m → Reachable T other → Reachable T (m.merge other).1
  | set_mode {m : TrustMap} (mode : TrustMode) : Reachable T m → Reachable T (m.set_mode mode)

end TrustMap

/-! ## The lists with the tie -/

def TrustList.map (l : TrustList) : TrustMap := { mode := l.mode, entries := l.entries }

namespace TrustMap

/-- Each entry is stored under its own pubkey. -/
def Keyed (m : TrustMap) : Prop :=
  ∀ (pubkey : String) (entry : TrustEntry), m.entries[pubkey]? = some entry → entry.pubkey = pubkey

theorem keyed_iff (m : TrustMap) : m.Keyed ↔ ∃ l : TrustList, l.map = m := by
  constructor
  · intro h
    exact ⟨{ mode := m.mode, entries := m.entries, keyed := h }, rfl⟩
  · rintro ⟨l, rfl⟩
    exact l.keyed

theorem map_keyed (l : TrustList) : l.map.Keyed := l.keyed

theorem map_add (l : TrustList) (entry : TrustEntry) : (l.add entry).map = l.map.add entry := rfl

theorem map_remove (l : TrustList) (pubkey : String) :
    ((l.remove pubkey).1.map, (l.remove pubkey).2) = l.map.remove pubkey := rfl

theorem map_remove_by_nickname (l : TrustList) (nickname : String) :
    ((l.remove_by_nickname nickname).1.map, (l.remove_by_nickname nickname).2) =
      l.map.remove_by_nickname nickname := by
  unfold TrustList.remove_by_nickname remove_by_nickname TrustList.map
  simp only
  cases l.entries.toList.find? fun kv => kv.2.nickname == nickname <;> rfl

theorem map_foldl_add (peers : List TrustEntry) (l : TrustList) :
    (peers.foldl TrustList.add l).map = peers.foldl add l.map := by
  induction peers generalizing l with
  | nil => rfl
  | cons entry peers ih => exact ih (l.add entry)

theorem map_of_file (file : TrustFile) : (TrustList.of_file file).map = of_file file :=
  map_foldl_add file.peers _

theorem add_keyed {m : TrustMap} (h : m.Keyed) (entry : TrustEntry) : (m.add entry).Keyed := by
  obtain ⟨l, rfl⟩ := (keyed_iff m).mp h
  rw [← map_add]
  exact map_keyed (l.add entry)

theorem remove_keyed {m : TrustMap} (h : m.Keyed) (pubkey : String) :
    (m.remove pubkey).1.Keyed := by
  obtain ⟨l, rfl⟩ := (keyed_iff m).mp h
  rw [← map_remove]
  exact map_keyed (l.remove pubkey).1

theorem remove_by_nickname_keyed {m : TrustMap} (h : m.Keyed) (nickname : String) :
    (m.remove_by_nickname nickname).1.Keyed := by
  obtain ⟨l, rfl⟩ := (keyed_iff m).mp h
  rw [← map_remove_by_nickname]
  exact map_keyed (l.remove_by_nickname nickname).1

theorem foldl_merge_entry_keyed (entries : List TrustEntry) {acc : TrustMap × Nat}
    (h : acc.1.Keyed) : (entries.foldl merge_entry acc).1.Keyed := by
  induction entries generalizing acc with
  | nil => exact h
  | cons entry entries ih =>
    apply ih
    unfold merge_entry
    split
    · exact h
    · exact add_keyed h entry

theorem Reachable.keyed {T : Toml} {m : TrustMap} (h : Reachable T m) : m.Keyed := by
  induction h with
  | parsed clock text hparse =>
    obtain ⟨file, -, rfl⟩ := Option.map_eq_some_iff.mp hparse
    rw [← map_of_file]
    exact map_keyed _
  | add entry _ ih => exact add_keyed ih entry
  | @add_unique m entry _ ih =>
    unfold TrustMap.add_unique
    split
    · exact ih
    · exact add_keyed ih entry
  | remove pubkey _ ih => exact remove_keyed ih pubkey
  | remove_by_nickname nickname _ ih => exact remove_by_nickname_keyed ih nickname
  | merge _ _ ih _ => exact foldl_merge_entry_keyed _ ih
  | set_mode mode _ ih => exact ih

/-! ## The file -/

theorem of_file_values {m : TrustMap} (h : m.Keyed) :
    of_file { mode := m.mode, peers := m.values } = m := by
  obtain ⟨l, rfl⟩ := (keyed_iff m).mp h
  exact (map_of_file l.to_file).symm.trans (congrArg TrustList.map (TrustList.of_file_to_file l))

/-! ## The merge -/

theorem mem_values_iff {m : TrustMap} (h : m.Keyed) (entry : TrustEntry) :
    entry ∈ m.values ↔ m.entries[entry.pubkey]? = some entry := by
  obtain ⟨l, rfl⟩ := (keyed_iff m).mp h
  exact TrustList.mem_iter_iff l entry

theorem map_pubkey_values {m : TrustMap} (h : m.Keyed) :
    m.values.map TrustEntry.pubkey = m.entries.keys := by
  obtain ⟨l, rfl⟩ := (keyed_iff m).mp h
  rw [← ExtTreeMap.map_fst_toList_eq_keys]
  change l.iter.map TrustEntry.pubkey = l.entries.toList.map Prod.fst
  rw [← TrustList.iter_keyed, List.map_map]
  rfl

/-- The entry of a pubkey is the first of the values with it. -/
theorem find_values {m : TrustMap} (h : m.Keyed) (pubkey : String) :
    m.values.find? (·.pubkey == pubkey) = m.entries[pubkey]? := by
  cases hfind : m.values.find? (·.pubkey == pubkey) with
  | some entry =>
    have hmem := (mem_values_iff h entry).mp (List.mem_of_find?_eq_some hfind)
    have hpubkey : entry.pubkey = pubkey := by simpa using List.find?_some hfind
    rw [← hpubkey, hmem]
  | none =>
    cases hget : m.entries[pubkey]? with
    | none => rfl
    | some entry =>
      have hpubkey := h pubkey entry hget
      have hmem := (mem_values_iff h entry).mpr (by rw [hpubkey, hget])
      exact absurd hpubkey (by simpa using List.find?_eq_none.mp hfind entry hmem)

theorem merge_entry_mode (acc : TrustMap × Nat) (entry : TrustEntry) :
    (merge_entry acc entry).1.mode = acc.1.mode := by
  unfold merge_entry
  split <;> rfl

theorem merge_mode (m other : TrustMap) : (m.merge other).1.mode = m.mode := by
  have hfold : ∀ (entries : List TrustEntry) (acc : TrustMap × Nat),
      (entries.foldl merge_entry acc).1.mode = acc.1.mode := by
    intro entries
    induction entries with
    | nil => exact fun _ => rfl
    | cons entry entries ih =>
      intro acc
      rw [List.foldl_cons, ih, merge_entry_mode]
  exact hfold other.values (m, 0)

theorem getElem?_add (m : TrustMap) (entry : TrustEntry) (pubkey : String) :
    (m.add entry).entries[pubkey]? =
      if entry.pubkey = pubkey then some entry else m.entries[pubkey]? := by
  unfold add
  rw [ExtTreeMap.getElem?_insert]
  simp only [Std.LawfulEqCmp.compare_eq_iff_eq]

theorem mem_add_iff (m : TrustMap) (entry : TrustEntry) (pubkey : String) :
    pubkey ∈ (m.add entry).entries ↔ entry.pubkey = pubkey ∨ pubkey ∈ m.entries := by
  unfold add
  rw [ExtTreeMap.mem_insert, Std.LawfulEqCmp.compare_eq_iff_eq]

/-- The turns of the loop keep what is there, and add the first entry of each
pubkey that is not. -/
theorem foldl_merge_entry_getElem? (entries : List TrustEntry) (acc : TrustMap × Nat)
    (pubkey : String) :
    (entries.foldl merge_entry acc).1.entries[pubkey]? =
      acc.1.entries[pubkey]?.or (entries.find? (·.pubkey == pubkey)) := by
  induction entries generalizing acc with
  | nil => simp
  | cons entry entries ih =>
    rw [List.foldl_cons, ih]
    unfold merge_entry
    by_cases hmem : entry.pubkey ∈ acc.1.entries
    · rw [if_pos hmem]
      by_cases hpubkey : entry.pubkey = pubkey
      · obtain ⟨old, hold⟩ := Option.isSome_iff_exists.mp
          (ExtTreeMap.mem_iff_isSome_getElem?.mp (hpubkey ▸ hmem))
        rw [hold, Option.some_or, Option.some_or]
      · rw [List.find?_cons_of_neg (by simpa using hpubkey)]
    · rw [if_neg hmem, getElem?_add]
      by_cases hpubkey : entry.pubkey = pubkey
      · have hnone : acc.1.entries[pubkey]? = none := by simpa [hpubkey] using hmem
        rw [if_pos hpubkey, hnone, Option.some_or, Option.none_or,
          List.find?_cons_of_pos (by simpa using hpubkey)]
      · rw [if_neg hpubkey, List.find?_cons_of_neg (by simpa using hpubkey)]

/-- With one entry a pubkey, the loop counts those that were not there. -/
theorem foldl_merge_entry_count (entries : List TrustEntry) (acc : TrustMap × Nat)
    (h : (entries.map TrustEntry.pubkey).Nodup) :
    (entries.foldl merge_entry acc).2 =
      acc.2 + ((entries.map TrustEntry.pubkey).filter (· ∉ acc.1.entries)).length := by
  induction entries generalizing acc with
  | nil => rfl
  | cons entry entries ih =>
    rw [List.map_cons, List.nodup_cons] at h
    rw [List.foldl_cons, ih _ h.2, List.map_cons]
    unfold merge_entry
    by_cases hmem : entry.pubkey ∈ acc.1.entries
    · rw [if_pos hmem, List.filter_cons_of_neg (by simpa using hmem)]
    · have hrest : (entries.map TrustEntry.pubkey).filter (· ∉ (acc.1.add entry).entries) =
          (entries.map TrustEntry.pubkey).filter (· ∉ acc.1.entries) := by
        apply List.filter_congr
        intro pubkey hpubkey
        have hne : entry.pubkey ≠ pubkey := fun heq => h.1 (heq ▸ hpubkey)
        simp only [mem_add_iff, hne, false_or]
      rw [if_neg hmem, List.filter_cons_of_pos (by simpa using hmem), hrest, List.length_cons]
      omega

/-- A merge is the union of the entries, and what is in the list comes first. -/
theorem merge_getElem? (m : TrustMap) {other : TrustMap} (h : other.Keyed) (pubkey : String) :
    (m.merge other).1.entries[pubkey]? = m.entries[pubkey]?.or other.entries[pubkey]? := by
  unfold merge
  rw [foldl_merge_entry_getElem?, find_values h]

theorem merge_count (m : TrustMap) {other : TrustMap} (h : other.Keyed) :
    (m.merge other).2 = (other.entries.keys.filter (· ∉ m.entries)).length := by
  have hnodup : (other.values.map TrustEntry.pubkey).Nodup := by
    rw [map_pubkey_values h]
    exact ExtTreeMap.nodup_keys
  unfold merge
  rw [foldl_merge_entry_count _ _ hnodup, map_pubkey_values h, Nat.zero_add]

/-- After a merge, nothing of the same list is new. -/
theorem merge_again (m : TrustMap) {other : TrustMap} (h : other.Keyed) :
    (m.merge other).1.merge other = ((m.merge other).1, 0) := by
  have hmerged := merge_getElem? m h
  apply Prod.ext
  · apply TrustMap.ext
    · exact merge_mode _ other
    · intro pubkey
      rw [merge_getElem? _ h, hmerged]
      cases m.entries[pubkey]? <;> cases other.entries[pubkey]? <;> rfl
  · rw [merge_count _ h, List.length_eq_zero_iff, List.filter_eq_nil_iff]
    intro pubkey hpubkey
    have hold := ExtTreeMap.mem_iff_isSome_getElem?.mp (ExtTreeMap.mem_keys.mp hpubkey)
    simp [ExtTreeMap.mem_iff_isSome_getElem?, hmerged, hold]

/-! ## The laws of a list -/

/-- The `toml` crate writes every file and reads back what it wrote. -/
def RoundTrips (T : Toml) : Prop :=
  ∀ file, ∃ text, T.to_string_pretty file = some text ∧ ∀ clock, T.from_str clock text = some file

structure Laws (T : Toml) (m : TrustMap) : Prop where
  keyed : ∀ (pubkey : String) (entry : TrustEntry),
    m.entries[pubkey]? = some entry → entry.pubkey = pubkey
  round_trip : ∃ text, m.to_toml_string T = some text ∧
    ∀ clock, from_toml_str T clock text = some m
  add_unique_refused : ∀ entry err, (m.add_unique entry).2 = .error err →
    (m.add_unique entry).1 = m
  merge_mode : ∀ other, Reachable T other → (m.merge other).1.mode = m.mode
  merge_union : ∀ other, Reachable T other → ∀ pubkey : String,
    (m.merge other).1.entries[pubkey]? = m.entries[pubkey]?.or other.entries[pubkey]?
  merge_count : ∀ other, Reachable T other →
    (m.merge other).2 = (other.entries.keys.filter (· ∉ m.entries)).length
  merge_again : ∀ other, Reachable T other →
    (m.merge other).1.merge other = ((m.merge other).1, 0)

theorem to_toml_string_round_trip {T : Toml} (hT : RoundTrips T) {m : TrustMap} (h : m.Keyed) :
    ∃ text, m.to_toml_string T = some text ∧ ∀ clock, from_toml_str T clock text = some m := by
  obtain ⟨text, hwrite, hread⟩ := hT { mode := m.mode, peers := m.values }
  refine ⟨text, hwrite, fun clock => ?_⟩
  unfold from_toml_str
  rw [hread, Option.map_some, of_file_values h]

theorem add_unique_error {m : TrustMap} {entry : TrustEntry} {err : TrustError}
    (h : (m.add_unique entry).2 = .error err) : (m.add_unique entry).1 = m := by
  unfold add_unique at h ⊢
  by_cases hmem : entry.pubkey ∈ m.entries
  · rw [if_pos hmem]
  · rw [if_neg hmem] at h
    cases h

/-- Every list that the methods make from a file that parses keeps the laws. -/
theorem a_list_made_from_a_file_keeps_its_laws (T : Toml) (hT : RoundTrips T) (m : TrustMap)
    (hm : Reachable T m) : Laws T m where
  keyed := hm.keyed
  round_trip := to_toml_string_round_trip hT hm.keyed
  add_unique_refused _ _ := add_unique_error
  merge_mode other _ := TrustMap.merge_mode m other
  merge_union _ hother := merge_getElem? m hother.keyed
  merge_count _ hother := TrustMap.merge_count m hother.keyed
  merge_again _ hother := TrustMap.merge_again m hother.keyed

namespace Sample

open cli.Sample (alice toml toml_lawful text)

def bob : TrustEntry :=
  { pubkey := "03bb", nickname := "bob", capabilities := ["code"], notes := none
    encryption_pubkey := none, added_at := 7 }

theorem alice_parses : from_toml_str toml (fun _ => 0) (text alice) = some (of_file alice) := by
  obtain ⟨written, hwrite, hread⟩ := toml_lawful.round_trip alice
  cases hwrite
  unfold from_toml_str
  rw [hread]
  rfl

end Sample

open cli.Sample (alice toml toml_lawful text) in
theorem the_list_with_alice_and_bob_keeps_its_laws :
    Laws toml ((of_file alice).merge ((of_file alice).add_unique Sample.bob).1).1 :=
  a_list_made_from_a_file_keeps_its_laws toml toml_lawful.round_trip _
    (.merge (.parsed (fun _ => 0) (text alice) Sample.alice_parses)
      (.add_unique Sample.bob (.parsed (fun _ => 0) (text alice) Sample.alice_parses)))

end TrustMap

end lmao.node
