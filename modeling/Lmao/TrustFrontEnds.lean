-- The two front ends of the trust list do the same (cli crate): a sequence of
-- actions on the file, each with a load and a save, is simulated by the same
-- sequence of requests to a daemon that loaded the file at its start.
import Mathlib.Data.Countable.Basic
import Mathlib.Logic.Equiv.List
import Mathlib.Tactic.DeriveCountable
import Lmao.TrustRequests

namespace lmao.cli

open node
open Std (ExtTreeMap)

/-! ## The assumptions on the library -/

/-- An entry without its time. -/
def timeless (e : TrustEntry) : TrustEntry := { e with added_at := 0 }

def timelessFile (f : TrustFile) : TrustFile := { f with peers := f.peers.map timeless }

/-- The `toml` crate writes every file and reads back what it wrote, and the
clock only fills in times. -/
structure Lawful (T : Toml) : Prop where
  round_trip : ∀ file, ∃ text, T.to_string_pretty file = some text ∧
    ∀ clock, T.from_str clock text = some file
  clock_fills_times : ∀ clock clock' text,
    (T.from_str clock text).map timelessFile = (T.from_str clock' text).map timelessFile

/-! ## Lists up to their times -/

/-- The mode and the entries of a list, without the times. -/
def view (l : TrustList) : TrustMode × ExtTreeMap String TrustEntry :=
  (l.mode, l.entries.map fun _ e => timeless e)

theorem view_eq_iff {l l' : TrustList} :
    view l = view l' ↔
      l.mode = l'.mode ∧
        ∀ k : String, (l.entries[k]?).map timeless = (l'.entries[k]?).map timeless := by
  unfold view
  rw [Prod.ext_iff, ExtTreeMap.ext_getElem?_iff]
  simp only [ExtTreeMap.getElem?_map]

theorem view_toList {l l' : TrustList} (h : view l = view l') :
    l.entries.toList.map (fun kv => (kv.1, timeless kv.2)) =
      l'.entries.toList.map fun kv => (kv.1, timeless kv.2) := by
  have hmap := congrArg (ExtTreeMap.toList ∘ Prod.snd) h
  simpa only [view, Function.comp_apply, ExtTreeMap.toList_map] using hmap

theorem view_set_mode {l l' : TrustList} (h : view l = view l') (mode : TrustMode) :
    view (l.set_mode mode) = view (l'.set_mode mode) := by
  rw [view_eq_iff] at h ⊢
  exact ⟨rfl, h.2⟩

theorem view_add {l l' : TrustList} (h : view l = view l') (e e' : TrustEntry)
    (he : timeless e = timeless e') : view (l.add e) = view (l'.add e') := by
  have hkey : e.pubkey = e'.pubkey := by
    have := congrArg TrustEntry.pubkey he
    exact this
  rw [view_eq_iff] at h ⊢
  refine ⟨h.1, fun k => ?_⟩
  simp only [TrustList.add, ExtTreeMap.getElem?_insert, hkey]
  split
  · simp [he]
  · exact h.2 k

theorem view_erase {l l' : TrustList} (h : view l = view l') (pubkey : String) :
    view (l.erase pubkey) = view (l'.erase pubkey) := by
  rw [view_eq_iff] at h ⊢
  refine ⟨h.1, fun k => ?_⟩
  simp only [TrustList.erase, ExtTreeMap.getElem?_erase]
  split
  · rfl
  · exact h.2 k

theorem view_is_empty {l l' : TrustList} (h : view l = view l') : l.is_empty = l'.is_empty := by
  have hlen := congrArg List.length (view_toList h)
  simp only [List.length_map, ExtTreeMap.length_toList] at hlen
  unfold TrustList.is_empty
  rw [ExtTreeMap.isEmpty_eq_size_beq_zero, ExtTreeMap.isEmpty_eq_size_beq_zero, hlen]

/-- What a removal leaves and what it answers, up to the times. -/
def viewRemoved (r : TrustList × Option TrustEntry) :
    (TrustMode × ExtTreeMap String TrustEntry) × Option TrustEntry :=
  (view r.1, r.2.map timeless)

theorem viewRemoved_remove {l l' : TrustList} (h : view l = view l') (pubkey : String) :
    viewRemoved (l.remove pubkey) = viewRemoved (l'.remove pubkey) :=
  Prod.ext (view_erase h pubkey) ((view_eq_iff.mp h).2 pubkey)

theorem find_timeless (kvs : List (String × TrustEntry)) (nickname : String) :
    (kvs.map fun kv => (kv.1, timeless kv.2)).find? (fun kv => kv.2.nickname == nickname) =
      (kvs.find? fun kv => kv.2.nickname == nickname).map fun kv => (kv.1, timeless kv.2) := by
  rw [List.find?_map]
  rfl

theorem viewRemoved_by_nickname {l l' : TrustList} (h : view l = view l') (nickname : String) :
    viewRemoved (l.remove_by_nickname nickname) = viewRemoved (l'.remove_by_nickname nickname) := by
  have hfind := congrArg (List.find? fun kv => kv.2.nickname == nickname) (view_toList h)
  rw [find_timeless, find_timeless] at hfind
  unfold TrustList.remove_by_nickname
  -- the first entry with the nickname has the same key in both lists
  rcases hl : l.entries.toList.find? fun kv => kv.2.nickname == nickname with _ | kv <;>
    rcases hl' : l'.entries.toList.find? fun kv => kv.2.nickname == nickname with _ | kv' <;>
    simp only [hl, hl', Option.map_none, Option.map_some, Option.some.injEq, Prod.mk.injEq,
      reduceCtorEq] at hfind ⊢
  · exact Prod.ext h rfl
  · rw [hfind.1]
    exact viewRemoved_remove h kv'.1

theorem viewRemoved_trust_remove {l l' : TrustList} (h : view l = view l') (target : String) :
    viewRemoved (trust_remove l target) = viewRemoved (trust_remove l' target) := by
  have hremove := viewRemoved_remove h target
  unfold trust_remove
  rcases hr : l.remove target with ⟨m, _ | e⟩ <;>
    rcases hr' : l'.remove target with ⟨m', _ | e'⟩ <;>
    rw [hr, hr'] at hremove
  · exact viewRemoved_by_nickname (congrArg Prod.fst hremove) target
  · cases congrArg Prod.snd hremove
  · cases congrArg Prod.snd hremove
  · exact hremove

section

variable {T : Toml} {files : Files} {path target : String} {clock : Nat → SystemTime}
  {l m : TrustList}

/-- The command removes as the daemon does, and saves what it removed. -/
theorem remove_none (hload : TrustList.load_from T files path clock = .ok l)
    (h : trust_remove l target = (m, none)) :
    trust.remove T files path target clock = (files, .error ("no entry matched " ++ target)) := by
  unfold trust_remove at h
  unfold trust.remove
  simp only [hload, h]

theorem remove_some {dropped : TrustEntry}
    (hload : TrustList.load_from T files path clock = .ok l)
    (h : trust_remove l target = (m, some dropped)) :
    trust.remove T files path target clock = trust.save T m files path := by
  unfold trust_remove at h
  unfold trust.remove
  simp only [hload, h]

end

/-- A removal that finds nothing leaves the list as it is. -/
theorem trust_remove_none {l l' : TrustList} {target : String}
    (h : trust_remove l target = (l', none)) : l' = l := by
  unfold trust_remove at h
  rcases hr : l.remove target with ⟨m, _ | e⟩
  · obtain ⟨rfl, hnone⟩ := Prod.mk.inj hr
    have hsame : l.erase target = l := by
      apply TrustList.ext
      · rfl
      · apply ExtTreeMap.ext_getElem?
        intro k
        simp only [TrustList.erase, ExtTreeMap.getElem?_erase]
        split
        · rename_i heq
          rw [← Std.LawfulEqCmp.eq_of_compare heq, hnone]
        · rfl
    rw [hr, hsame] at h
    simp only [TrustList.remove_by_nickname] at h
    rcases hfind : l.entries.toList.find? fun kv => kv.2.nickname == target with _ | kv
    · rw [hfind] at h
      exact (Prod.mk.inj h).1.symm
    · -- an entry that was found is in the map, so its removal answers
      have hmem := ExtTreeMap.mem_toList_iff_getElem?_eq_some.mp (List.mem_of_find?_eq_some hfind)
      rw [hfind] at h
      have hanswer := (Prod.mk.inj h).2
      rw [hmem] at hanswer
      cases hanswer
  · rw [hr] at h
    cases h

theorem view_foldl_add {peers peers' : List TrustEntry}
    (hpeers : peers.map timeless = peers'.map timeless) {l l' : TrustList} (h : view l = view l') :
    view (peers.foldl TrustList.add l) = view (peers'.foldl TrustList.add l') := by
  induction peers generalizing peers' l l' with
  | nil =>
    rw [List.map_nil, eq_comm, List.map_eq_nil_iff] at hpeers
    subst hpeers
    exact h
  | cons e peers ih =>
    cases peers' with
    | nil => simp at hpeers
    | cons e' peers' =>
      obtain ⟨he, hrest⟩ := List.cons.inj hpeers
      exact ih hrest (view_add h _ _ he)

theorem view_of_file {f f' : TrustFile} (h : timelessFile f = timelessFile f') :
    view (TrustList.of_file f) = view (TrustList.of_file f') := by
  have hmode : f.mode = f'.mode := (TrustFile.mk.inj h).1
  have hpeers := (TrustFile.mk.inj h).2
  apply view_foldl_add hpeers
  rw [hmode]

/-! ## One step of both -/

/-- At any time, the file loads as the list, up to the times. -/
def Agrees (T : Toml) (files : Files) (path : String) (l : TrustList) : Prop :=
  ∀ clock, ∃ l', TrustList.load_from T files path clock = .ok l' ∧ view l' = view l

/-- A file that loads at one time loads at any time, as the same list up to the
times. -/
theorem agrees_of_load {T : Toml} (hT : Lawful T) {files : Files} {path : String}
    {clock : Nat → SystemTime} {l : TrustList}
    (h : TrustList.load_from T files path clock = .ok l) : Agrees T files path l := by
  intro clock'
  unfold TrustList.load_from at h ⊢
  rcases hfile : files path with _ | text
  · rw [hfile] at h
    cases h
    exact ⟨_, rfl, rfl⟩
  · simp only [hfile, TrustList.from_toml_str] at h ⊢
    have hclock := hT.clock_fills_times clock clock' text
    rcases hread : T.from_str clock text with _ | file
    · simp [hread] at h
    · rcases hread' : T.from_str clock' text with _ | file'
      · simp [hread, hread'] at hclock
      · simp only [hread, hread', Option.map_some, Option.some.injEq, Except.ok.injEq] at h hclock
        subst h
        exact ⟨_, rfl, (view_of_file hclock).symm⟩

theorem save_spec {T : Toml} (hT : Lawful T) (l : TrustList) (files : Files) (path : String) :
    ∃ files', l.save_to T files path = (files', .ok ()) ∧
      ∀ clock, TrustList.load_from T files' path clock = .ok l := by
  obtain ⟨text, hwrite, hread⟩ := hT.round_trip l.to_file
  refine ⟨Function.update files path (some text), ?_, fun clock => ?_⟩
  · simp [TrustList.save_to, TrustList.to_toml_string, hwrite]
  · simp [TrustList.load_from, TrustList.from_toml_str, hread, TrustList.of_file_to_file]

/-- After a save, the file agrees with every list of the same view. -/
theorem save_agrees {T : Toml} (hT : Lawful T) {l l' : TrustList} (h : view l = view l')
    (files : Files) (path : String) :
    (trust.save T l files path).2 = .ok () ∧ Agrees T (trust.save T l files path).1 path l' := by
  obtain ⟨files', hsave, hload⟩ := save_spec hT l files path
  unfold trust.save
  rw [hsave]
  exact ⟨rfl, fun clock => ⟨l, hload clock, h⟩⟩

theorem persist_list {T : Toml} (s : DaemonServer) :
    (s.persist_trust T).1.trust_list = s.trust_list ∧
      (s.persist_trust T).1.trust_file = s.trust_file := by
  unfold DaemonServer.persist_trust
  split
  · exact ⟨rfl, rfl⟩
  · split
    · exact ⟨rfl, rfl⟩
    · exact ⟨rfl, rfl⟩

/-- The answer is not an error. -/
def accepted : Response → Bool
  | .Error _ => false
  | _ => true

/-- What the two front ends show after the same action: both took it or both
refused it, and the file agrees with the list of the daemon. -/
def SameStep (T : Toml) (path : String) (r : Files × Except String Unit)
    (d : DaemonServer × Response) : Prop :=
  r.2.isOk = accepted d.2 ∧ Agrees T r.1 path d.1.trust_list

theorem iter_length_eq_zero (l : TrustList) : l.iter.length = 0 ↔ l.is_empty = true := by
  unfold TrustList.iter TrustList.is_empty
  rw [List.length_map, ExtTreeMap.length_toList, ExtTreeMap.isEmpty_eq_size_beq_zero]
  simp

/-- A mode that is set on the file, against a daemon that sets it when it is
new. -/
theorem set_mode_agrees {T : Toml} (hT : Lawful T) {l : TrustList} {s : DaemonServer}
    (hview : view l = view s.trust_list) (files : Files) (path : String) (next : TrustMode) :
    (trust.save T (l.set_mode next) files path).2 = .ok () ∧
      Agrees T (trust.save T (l.set_mode next) files path).1 path
        (if next ≠ s.trust_list.mode
          then DaemonServer.persist_trust T { s with trust_list := s.trust_list.set_mode next }
          else (s, false)).1.trust_list := by
  by_cases hnew : next ≠ s.trust_list.mode
  · rw [if_pos hnew, (persist_list _).1]
    exact save_agrees hT (view_set_mode hview next) files path
  · rw [if_neg hnew]
    apply save_agrees hT
    rw [not_not.mp hnew]
    exact (view_set_mode hview _).trans rfl

section
variable {T : Toml} (hT : Lawful T) {files : Files} {path : String} {s : DaemonServer}
  (h : Agrees T files path s.trust_list)
include hT h

theorem add_agrees (pubkey nickname : String) (capabilities : List String)
    (notes encryption_pubkey : Option String) (clock : Nat → SystemTime) (now now' : SystemTime) :
    SameStep T path
      (trust.add T files path pubkey nickname capabilities notes encryption_pubkey clock now)
      (s.dispatch T now' (.TrustAdd pubkey nickname capabilities notes encryption_pubkey)) := by
  obtain ⟨l, hload, hview⟩ := h clock
  have hmode : l.mode = s.trust_list.mode := (view_eq_iff.mp hview).1
  have hfirst : (l.mode = .Off ∧ l.is_empty = true) ↔
      (s.trust_list.mode = .Off ∧ s.trust_list.iter.length = 0) := by
    rw [iter_length_eq_zero, hmode, view_is_empty hview]
  have hlist : view (if l.mode = .Off ∧ l.is_empty = true then l.set_mode .Enforce else l) =
      view (if s.trust_list.mode = .Off ∧ s.trust_list.iter.length = 0
        then s.trust_list.set_mode .Enforce else s.trust_list) := by
    by_cases hf : l.mode = .Off ∧ l.is_empty = true
    · rw [if_pos hf, if_pos (hfirst.mp hf)]
      exact view_set_mode hview .Enforce
    · rw [if_neg hf, if_neg (hf ∘ hfirst.mpr)]
      exact hview
  unfold trust.add
  simp only [hload]
  have hsaved := save_agrees hT (view_add hlist
    ⟨pubkey, nickname, capabilities, notes, encryption_pubkey, now⟩
    ⟨pubkey, nickname, capabilities, notes, encryption_pubkey, now'⟩ rfl) files path
  refine ⟨?_, ?_⟩
  · rw [hsaved.1]
    rfl
  · simp only [DaemonServer.dispatch, (persist_list _).1]
    exact hsaved.2

theorem remove_agrees (target : String) (clock : Nat → SystemTime) (now : SystemTime) :
    SameStep T path (trust.remove T files path target clock)
      (s.dispatch T now (.TrustRemove target)) := by
  obtain ⟨l, hload, hview⟩ := h clock
  have hremoved := viewRemoved_trust_remove hview target
  simp only [DaemonServer.dispatch]
  rcases hl : trust_remove l target with ⟨m, _ | e⟩ <;>
    rcases hd : trust_remove s.trust_list target with ⟨m', _ | e'⟩ <;> rw [hl, hd] at hremoved
  · rw [remove_none hload hl, trust_remove_none hd]
    exact ⟨rfl, h⟩
  · cases congrArg Prod.snd hremoved
  · cases congrArg Prod.snd hremoved
  · rw [remove_some hload hl]
    have hsaved := save_agrees hT (congrArg Prod.fst hremoved : view m = view m') files path
    refine ⟨?_, ?_⟩
    · simp only [hsaved.1]
      rfl
    · simp only [(persist_list _).1]
      exact hsaved.2

theorem mode_agrees (new_mode : Option String) (clock : Nat → SystemTime) (now : SystemTime) :
    SameStep T path (trust.mode T files path new_mode clock)
      (s.dispatch T now (.TrustMode new_mode)) := by
  obtain ⟨l, hload, hview⟩ := h clock
  unfold trust.mode
  simp only [hload]
  cases new_mode with
  | none =>
    refine ⟨rfl, ?_⟩
    simpa [DaemonServer.dispatch] using h
  | some new =>
    have hset := set_mode_agrees hT hview files path
    simp only [DaemonServer.dispatch, Option.elim_some, parse_trust_mode]
    split
    · exact ⟨by rw [(hset .Off).1]; rfl, (hset .Off).2⟩
    · exact ⟨by rw [(hset .Enforce).1]; rfl, (hset .Enforce).2⟩
    · exact ⟨by rw [(hset .Log).1]; rfl, (hset .Log).2⟩
    · exact ⟨rfl, h⟩

theorem handle_agrees (action : TrustAction) (clock : Nat → SystemTime) (now now' : SystemTime) :
    SameStep T path (trust.handle T files path clock now action)
      (s.dispatch T now' action.request) := by
  cases action with
  | Add pubkey nickname capabilities notes encryption_pubkey =>
    exact add_agrees hT h pubkey nickname capabilities notes encryption_pubkey clock now now'
  | Remove target => exact remove_agrees hT h target clock now'
  | Mode new_mode => exact mode_agrees hT h new_mode clock now'

end

/-! ## Sequences of actions -/

/-- An action, and what the clocks of the two front ends show during it. -/
structure Call where
  action : TrustAction
  clock : Nat → SystemTime
  file_now : SystemTime
  daemon_now : SystemTime

/-- What one sees after an action: whether it was taken, and the mode and the
entries without the times. -/
abbrev Sight := Bool × Option (TrustMode × ExtTreeMap String TrustEntry)

/-- The mode and the entries that the file holds. -/
def fileView (T : Toml) (files : Files) (path : String) :
    Option (TrustMode × ExtTreeMap String TrustEntry) :=
  (TrustList.load_from T files path fun _ => 0).toOption.map view

def fileSights (T : Toml) (path : String) : Files → List Call → List Sight
  | _, [] => []
  | files, c :: calls =>
    let r := trust.handle T files path c.clock c.file_now c.action
    (r.2.isOk, fileView T r.1 path) :: fileSights T path r.1 calls

def daemonSights (T : Toml) : DaemonServer → List Call → List Sight
  | _, [] => []
  | s, c :: calls =>
    let r := s.dispatch T c.daemon_now c.action.request
    (accepted r.2, some (view r.1.trust_list)) :: daemonSights T r.1 calls

theorem sights_agree {T : Toml} (hT : Lawful T) {path : String} (calls : List Call)
    {files : Files} {s : DaemonServer} (h : Agrees T files path s.trust_list) :
    fileSights T path files calls = daemonSights T s calls := by
  induction calls generalizing files s with
  | nil => rfl
  | cons c calls ih =>
    obtain ⟨hverdict, hagrees⟩ := handle_agrees hT h c.action c.clock c.file_now c.daemon_now
    obtain ⟨l, hload, hview⟩ := hagrees fun _ => 0
    unfold fileSights daemonSights
    simp only
    rw [hverdict, ih hagrees]
    simp [fileView, hload, Except.toOption, hview]

/-- A daemon that started from a file, and the file itself in the hands of
`lmao trust`, show the same after each of any sequence of actions. -/
theorem the_two_front_ends_agree (T : Toml) (hT : Lawful T) (files : Files) (path : String)
    (start : Nat → SystemTime) (list : TrustList)
    (hstart : TrustList.load_from T files path start = .ok list) (calls : List Call) :
    fileSights T path files calls =
      daemonSights T { trust_list := list, trust_file := some path, files } calls := by
  exact sights_agree hT calls (agrees_of_load hT hstart)

/-! ## A run of both -/

instance countable_char : Countable Char := by
  apply Function.Injective.countable (f := Char.toNat)
  intro c d h
  exact Char.ext (UInt32.toNat_inj.mp h)

instance countable_string : Countable String := by
  apply Function.Injective.countable (f := String.toList)
  intro s t h
  exact String.toList_injective h

deriving instance Countable for TrustMode, TrustEntry, TrustFile

namespace Sample

def alice : TrustFile :=
  { mode := .Enforce
    peers := [{ pubkey := "02aa", nickname := "alice", capabilities := [], notes := none
                encryption_pubkey := none, added_at := 0 }] }

def alice_text : String :=
  "mode" ++ " = \"enforce\"\n\n[[peer]]\npubkey = \"02aa\"\nnickname = \"alice\"\n" ++
    "capabilities = []\n\n[peer.added_at]\nsecs_since_epoch = 0\nnanos_since_epoch = 0\n"

/-- The TOML text of the file with alice. Any other file has a line of hashes
of its own. -/
noncomputable def text (file : TrustFile) : String :=
  if file = alice then alice_text
  else String.ofList (List.replicate ((exists_injective_nat TrustFile).choose file + 1) '#')

theorem text_injective : Function.Injective text := by
  have hcode := (exists_injective_nat TrustFile).choose_spec
  have hother : ∀ n, alice_text ≠ String.ofList (List.replicate (n + 1) '#') := by
    intro n h
    have hhead := congrArg (fun s => s.toList.head?) h
    simp only [alice_text, String.append_assoc, String.toList_append, String.toList_ofList] at hhead
    cases hhead
  intro f f' h
  unfold text at h
  by_cases hf : f = alice
  · by_cases hf' : f' = alice
    · rw [hf, hf']
    · rw [if_pos hf, if_neg hf'] at h
      exact absurd h (hother _)
  · by_cases hf' : f' = alice
    · rw [if_neg hf, if_pos hf'] at h
      exact absurd h.symm (hother _)
    · rw [if_neg hf, if_neg hf'] at h
      have hlen := congrArg List.length (String.ofList_injective h)
      simp only [List.length_replicate, Nat.add_right_cancel_iff] at hlen
      exact hcode hlen

noncomputable def toml : Toml where
  to_string_pretty file := some (text file)
  from_str _ := Function.partialInv text

theorem toml_lawful : Lawful toml where
  round_trip file := ⟨text file, rfl, fun _ => Function.partialInv_left text_injective file⟩
  clock_fills_times _ _ _ := rfl

def call (action : TrustAction) : Call :=
  { action, clock := fun _ => 0, file_now := 0, daemon_now := 0 }

/-- Alice comes on an empty list, and three actions that change nothing. -/
def calls : List Call :=
  [call (.Add "02aa" "alice" [] none none), call (.Remove "bob"), call (.Mode (some "on")),
    call (.Mode none)]

end Sample

theorem alice_is_added_by_both :
    fileSights Sample.toml "trust.toml" (fun _ => none) Sample.calls =
      daemonSights Sample.toml
        { trust_list := .empty, trust_file := some "trust.toml", files := fun _ => none }
        Sample.calls :=
  the_two_front_ends_agree Sample.toml Sample.toml_lawful (fun _ => none) "trust.toml" (fun _ => 0)
    .empty rfl Sample.calls

end lmao.cli
