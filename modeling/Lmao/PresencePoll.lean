-- The presence announcements that a node polls (discovery.rs of the node crate):
-- which of them change its map of peers, and how many it counts.
import Lmao.HexNumbers
import Lmao.Offload
import Lmao.PresenceSigning

namespace lmao

open crypto node sds text

/-! ## Maps -/

/-- After a row of insertions a key has the last value that was inserted for it,
or the value that it had. -/
theorem lookup_foldl_insert {α β κ : Type} [DecidableEq κ] (key : α → κ) (value : α → β)
    (l : List α) (m : AList fun _ : κ => β) (k : κ) :
    (l.foldl (fun m a => m.insert (key a) (value a)) m).lookup k =
      (((l.filter fun a => key a = k).getLast?).map value).or (m.lookup k) := by
  induction l generalizing m with
  | nil => rfl
  | cons a l ih =>
    rw [List.foldl_cons, ih]
    by_cases hk : key a = k
    · rw [List.filter_cons_of_pos (by simpa using hk), List.getLast?_cons, ← hk,
        AList.lookup_insert]
      cases (l.filter fun b => key b = key a).getLast? <;> rfl
    · rw [List.filter_cons_of_neg (by simpa using hk), AList.lookup_insert_ne (Ne.symm hk)]

/-! ## Loads -/

/-- What presence takes from other crates: signatures, and the reader of a load
or the text of its error. -/
structure PresenceLibs where
  ecdsa : Ecdsa
  load_from_slice : Bytes → Except String LoadStatus

/-- The last 8 bytes of a public key. -/
def recipient_hint (x25519_pub : Bytes) : Bytes := x25519_pub.drop 24

/-- The load in an envelope, if it is for us. -/
def SealedStatus.unseal_with (libs : PresenceLibs) {P : Primitives} (my_x25519 : AgentIdentity P)
    (s : SealedStatus) : Except PresenceError (Option LoadStatus) :=
  if s.recipient_hint ≠ lmao.recipient_hint my_x25519.public_key then .ok none
  else if s.ephemeral_pub.length ≠ 32 then
    .error (.InvalidEnvelope "ephemeral_pub != 32 bytes")
  else if s.nonce.length ≠ 12 then .error (.InvalidEnvelope "nonce != 12 bytes")
  else
    match P.aead_decrypt (my_x25519.shared_key s.ephemeral_pub) s.nonce s.ciphertext with
    | none => .error (.SealCrypto "cipher error: decrypt: aead::Error")
    | some plaintext =>
      match libs.load_from_slice plaintext with
      | .error e => .error (.SealCrypto ("decode: " ++ e))
      | .ok status => .ok (some status)

namespace node

/-! ## Announcements -/

/-- The entry that an announcement makes. -/
def PeerInfo.of_announcement (now : UInt64) (announcement : PresenceAnnouncement)
    (load : Option LoadStatus) : PeerInfo where
  name := announcement.name
  capabilities := announcement.capabilities
  waku_topic := announcement.waku_topic
  ttl_secs := announcement.ttl_secs
  last_seen := now
  load := load

def PeerMap.update_with_load (map : PeerMap) (now : UInt64) (announcement : PresenceAnnouncement)
    (load : Option LoadStatus) : PeerMap :=
  { peers := map.peers.insert announcement.agent_id (.of_announcement now announcement load) }

/-- The levels that are logged. The fields of a log line are computed only if it
is. -/
structure Logs where
  warns : Bool
  infos : Bool

/-- The first 8 bytes of an id, for the log. -/
def shown_id (agent_id : String) : Except Panic (List Char) :=
  slice_to agent_id.toList (min 8 (byte_len agent_id.toList))

def log_id (enabled : Bool) (agent_id : String) : Except Panic Unit :=
  if enabled then (shown_id agent_id).map fun _ => () else .ok ()

/-- What a call of `poll_presence` leaves: the node and its answer. -/
structure PolledPresence (L : Libs) (F : Type) where
  after : LmaoNode L F
  result : Except Stop Nat

namespace LmaoNode

variable {L : Libs} {F : Type}

/-- The first load that an envelope of the announcement has for us. -/
def load_of (libs : PresenceLibs) (node : LmaoNode L F) (ann : PresenceAnnouncement) :
    Option LoadStatus :=
  node.identity.bind fun me =>
    ann.sealed_status.findSome? fun env => (env.unseal_with libs me).toOption.join

/-- The announcement in a message, if it has one of another node. -/
def presence_of (node : LmaoNode L F) (msg : Bytes) : Option PresenceAnnouncement :=
  match L.envelope_from_slice msg with
  | some (.Presence ann) => if ann.agent_id ≠ node.pubkey then some ann else none
  | _ => none

/-- The loop over the messages, each with the time at which it is read. -/
def presence_loop (libs : PresenceLibs) (logs : Logs) (node : LmaoNode L F) :
    PeerMap → Nat → List (Bytes × UInt64) → PeerMap × Except Panic Nat
  | peer_map, count, [] => (peer_map, .ok count)
  | peer_map, count, (msg, now) :: rx =>
    match node.presence_of msg with
    | none => node.presence_loop libs logs peer_map count rx
    | some ann =>
      match ann.verify libs.ecdsa with
      | .error _ =>
        match log_id logs.warns ann.agent_id with
        | .error panic => (peer_map, .error panic)
        | .ok _ => node.presence_loop libs logs peer_map count rx
      | .ok _ =>
        let peer_map := peer_map.update_with_load now ann (node.load_of libs ann)
        match log_id logs.infos ann.agent_id with
        | .error panic => (peer_map, .error panic)
        | .ok _ => node.presence_loop libs logs peer_map (count + 1) rx

/-- Poll the presence topic. `rx` is what the subscription gave, or the error of
the first subscription. -/
def poll_presence (libs : PresenceLibs) (logs : Logs) (node : LmaoNode L F)
    (rx : Except TransportError (List (Bytes × UInt64))) : PolledPresence L F :=
  match rx with
  | .error e => { after := node, result := .error (.error (.Transport e)) }
  | .ok rx =>
    let (peer_map, result) := node.presence_loop libs logs node.peer_map 0 rx
    { after := { node with peer_map }, result := result.mapError .panic }

/-! ## Steps -/

/-- The announcement in a message that is accepted. -/
def accepted_of (libs : PresenceLibs) (node : LmaoNode L F) (msg : Bytes) :
    Option PresenceAnnouncement :=
  (node.presence_of msg).filter fun ann => ann.verify libs.ecdsa = .ok ()

/-- The announcements that are accepted, in the order in which they arrive. -/
def accepted (libs : PresenceLibs) (node : LmaoNode L F) (rx : List (Bytes × UInt64)) :
    List (PresenceAnnouncement × UInt64) :=
  rx.filterMap fun m => (node.accepted_of libs m.1).map fun ann => (ann, m.2)

/-- The id of an accepted announcement is hex, and so it can be cut. -/
theorem shown_id_of_verify {libs : PresenceLibs} {ann : PresenceAnnouncement}
    (h : ann.verify libs.ecdsa = .ok ()) (enabled : Bool) :
    log_id enabled ann.agent_id = .ok () := by
  obtain ⟨_, pubkey_bytes, _, _, -, hhex, -⟩ := (ann.verify_ok_iff libs.ecdsa).mp h
  have hnarrow := (hex_of_hex_bytes hhex).narrow
  have hshown : shown_id ann.agent_id = .ok _ :=
    hnarrow.slice_to (hnarrow.byte_len ▸ Nat.min_le_right _ _)
  unfold log_id
  rw [hshown]
  cases enabled <;> rfl

/-- The map after an announcement that is accepted. -/
def take_presence (libs : PresenceLibs) (node : LmaoNode L F) (peer_map : PeerMap)
    (p : PresenceAnnouncement × UInt64) : PeerMap :=
  peer_map.update_with_load p.2 p.1 (node.load_of libs p.1)

/-- The id can be cut after 8 bytes, or is shorter. -/
def Cuttable (agent_id : String) : Prop := ∃ shown, shown_id agent_id = .ok shown

/-- Every id that a warning shows can be cut. -/
def Legible (libs : PresenceLibs) (logs : Logs) (node : LmaoNode L F) (rx : List (Bytes × UInt64)) :
    Prop :=
  logs.warns = true → ∀ m ∈ rx, ∀ ann, node.presence_of m.1 = some ann →
    ann.verify libs.ecdsa ≠ .ok () → Cuttable ann.agent_id

theorem log_id_ok_iff (enabled : Bool) (agent_id : String) :
    log_id enabled agent_id = .ok () ↔ (enabled = true → Cuttable agent_id) := by
  unfold log_id Cuttable
  cases enabled with
  | false => simp
  | true => cases shown_id agent_id <;> simp [Except.map]

section

variable (libs : PresenceLibs) (logs : Logs) {node : LmaoNode L F} {m : Bytes × UInt64}

/-- The first message and the others are legible. -/
theorem legible_cons_iff {rx : List (Bytes × UInt64)} : node.Legible libs logs (m :: rx) ↔
    (∀ ann, node.presence_of m.1 = some ann → ann.verify libs.ecdsa ≠ .ok () →
      log_id logs.warns ann.agent_id = .ok ()) ∧ node.Legible libs logs rx := by
  simp only [log_id_ok_iff]
  constructor
  · intro h
    refine ⟨fun ann hann hverify hwarns => h hwarns m List.mem_cons_self ann hann hverify, ?_⟩
    exact fun hwarns m' hm' => h hwarns m' (List.mem_cons_of_mem _ hm')
  · rintro ⟨hm, hrx⟩ hwarns m' hm' ann hann hverify
    rcases List.mem_cons.mp hm' with rfl | hm'
    · exact hm ann hann hverify hwarns
    · exact hrx hwarns m' hm' ann hann hverify

/-- A message without an announcement of another node is skipped. -/
theorem presence_loop_none (h : node.presence_of m.1 = none) (peer_map : PeerMap) (count : Nat)
    (rx : List (Bytes × UInt64)) :
    node.presence_loop libs logs peer_map count (m :: rx) =
        node.presence_loop libs logs peer_map count rx ∧
      node.accepted libs (m :: rx) = node.accepted libs rx := by
  have haccepted : node.accepted_of libs m.1 = none := by
    unfold accepted_of
    rw [h]
    rfl
  constructor
  · rw [presence_loop]
    simp only [h]
  · unfold accepted
    rw [List.filterMap_cons, haccepted]
    rfl

variable {ann : PresenceAnnouncement}

/-- An announcement that is rejected is skipped, unless the warning panics. -/
theorem presence_loop_rejected (h : node.presence_of m.1 = some ann)
    (hverify : ann.verify libs.ecdsa ≠ .ok ()) (peer_map : PeerMap) (count : Nat)
    (rx : List (Bytes × UInt64)) :
    (node.presence_loop libs logs peer_map count (m :: rx) =
        match log_id logs.warns ann.agent_id with
        | .error panic => (peer_map, .error panic)
        | .ok _ => node.presence_loop libs logs peer_map count rx) ∧
      node.accepted libs (m :: rx) = node.accepted libs rx := by
  have haccepted : node.accepted_of libs m.1 = none := by
    unfold accepted_of
    rw [h, Option.filter_some, if_neg (by simpa using hverify)]
  constructor
  · rw [presence_loop]
    simp only [h]
    rcases hresult : ann.verify libs.ecdsa with e | ⟨⟩
    · rfl
    · exact absurd hresult hverify
  · unfold accepted
    rw [List.filterMap_cons, haccepted]
    rfl

/-- An announcement that is accepted changes the map and is counted. -/
theorem presence_loop_accepted (h : node.presence_of m.1 = some ann)
    (hverify : ann.verify libs.ecdsa = .ok ()) (peer_map : PeerMap) (count : Nat)
    (rx : List (Bytes × UInt64)) :
    node.presence_loop libs logs peer_map count (m :: rx) =
        node.presence_loop libs logs (node.take_presence libs peer_map (ann, m.2)) (count + 1) rx ∧
      node.accepted libs (m :: rx) = (ann, m.2) :: node.accepted libs rx := by
  have haccepted : node.accepted_of libs m.1 = some ann := by
    unfold accepted_of
    rw [h, Option.filter_some, if_pos (by simpa using hverify)]
  constructor
  · rw [presence_loop]
    simp only [h, hverify, shown_id_of_verify hverify]
    rfl
  · unfold accepted
    rw [List.filterMap_cons, haccepted]
    rfl

end

/-! ## Runs -/

section

variable {libs : PresenceLibs} {logs : Logs} {node : LmaoNode L F} {rx : List (Bytes × UInt64)}

/-- The loop takes every announcement that is accepted, one after the other. -/
theorem presence_loop_legible (h : node.Legible libs logs rx) (peer_map : PeerMap) (count : Nat) :
    node.presence_loop libs logs peer_map count rx =
      ((node.accepted libs rx).foldl (node.take_presence libs) peer_map,
        .ok (count + (node.accepted libs rx).length)) := by
  induction rx generalizing peer_map count with
  | nil => rfl
  | cons m rx ih =>
    obtain ⟨hm, hrx⟩ := (legible_cons_iff libs logs).mp h
    rcases hann : node.presence_of m.1 with _ | ann
    · obtain ⟨hloop, haccepted⟩ := presence_loop_none libs logs hann peer_map count rx
      rw [hloop, haccepted, ih hrx]
    · by_cases hverify : ann.verify libs.ecdsa = .ok ()
      · obtain ⟨hloop, haccepted⟩ :=
          presence_loop_accepted libs logs hann hverify peer_map count rx
        rw [hloop, haccepted, ih hrx, List.foldl_cons, List.length_cons, Nat.add_right_comm,
          Nat.add_assoc]
      · obtain ⟨hloop, haccepted⟩ :=
          presence_loop_rejected libs logs hann hverify peer_map count rx
        rw [hloop, hm ann hann hverify, haccepted]
        exact ih hrx peer_map count

/-- A warning that panics ends the loop. -/
theorem presence_loop_panics (h : ¬ node.Legible libs logs rx) (peer_map : PeerMap) (count : Nat) :
    ∃ panic, (node.presence_loop libs logs peer_map count rx).2 = .error panic := by
  induction rx generalizing peer_map count with
  | nil => exact absurd (fun _ _ hm => absurd hm List.not_mem_nil) h
  | cons m rx ih =>
    rw [legible_cons_iff] at h
    rcases hann : node.presence_of m.1 with _ | ann
    · rw [(presence_loop_none libs logs hann peer_map count rx).1]
      refine ih (fun hrx => h ⟨fun ann' hann' => ?_, hrx⟩) peer_map count
      rw [hann] at hann'
      cases hann'
    · by_cases hverify : ann.verify libs.ecdsa = .ok ()
      · rw [(presence_loop_accepted libs logs hann hverify peer_map count rx).1]
        refine ih (fun hrx => h ⟨fun ann' hann' hverify' => ?_, hrx⟩) _ _
        obtain rfl := Option.some.inj (hann.symm.trans hann')
        exact absurd hverify hverify'
      · rw [(presence_loop_rejected libs logs hann hverify peer_map count rx).1]
        rcases hlog : log_id logs.warns ann.agent_id with panic | ⟨⟩
        · exact ⟨panic, rfl⟩
        · refine ih (fun hrx => h ⟨fun ann' hann' _ => ?_, hrx⟩) peer_map count
          obtain rfl := Option.some.inj (hann.symm.trans hann')
          exact hlog

end

/-! ## The law -/

/-- The entry of an announcement that is accepted. -/
def peer_info (libs : PresenceLibs) (node : LmaoNode L F) (p : PresenceAnnouncement × UInt64) :
    PeerInfo :=
  .of_announcement p.2 p.1 (node.load_of libs p.1)

/-- The last announcement of an agent that is accepted. -/
def last_accepted (libs : PresenceLibs) (node : LmaoNode L F) (rx : List (Bytes × UInt64))
    (agent_id : String) : Option (PresenceAnnouncement × UInt64) :=
  ((node.accepted libs rx).filter fun p => p.1.agent_id = agent_id).getLast?

/-- The entry of an agent after the call. -/
def polled_entry (libs : PresenceLibs) (logs : Logs) (node : LmaoNode L F)
    (rx : List (Bytes × UInt64)) (agent_id : String) : Option PeerInfo :=
  (node.poll_presence libs logs (.ok rx)).after.peer_map.peers.lookup agent_id

/-- The call changes entries of other agents only, and only to what the last
announcement that is accepted says, and counts the announcements that are
accepted. -/
structure SoundPoll (libs : PresenceLibs) (logs : Logs) (node : LmaoNode L F)
    (rx : List (Bytes × UInt64)) : Prop where
  changed : ∀ agent_id,
    node.polled_entry libs logs rx agent_id ≠ node.peer_map.peers.lookup agent_id →
      agent_id ≠ node.pubkey ∧ ∃ p ∈ node.accepted libs rx, p.1.agent_id = agent_id
  last : ∀ agent_id p, node.last_accepted libs rx agent_id = some p →
    node.polled_entry libs logs rx agent_id = some (node.peer_info libs p)
  rest : ∀ agent_id, (∀ p ∈ node.accepted libs rx, p.1.agent_id ≠ agent_id) →
    node.polled_entry libs logs rx agent_id = node.peer_map.peers.lookup agent_id
  count : (node.poll_presence libs logs (.ok rx)).result = .ok (node.accepted libs rx).length

section

variable {libs : PresenceLibs} {logs : Logs} {node : LmaoNode L F} {rx : List (Bytes × UInt64)}

theorem take_presence_peers (l : List (PresenceAnnouncement × UInt64)) (peer_map : PeerMap) :
    (l.foldl (node.take_presence libs) peer_map).peers =
      l.foldl (fun m p => m.insert p.1.agent_id (node.peer_info libs p)) peer_map.peers := by
  induction l generalizing peer_map with
  | nil => rfl
  | cons p l ih =>
    rw [List.foldl_cons, List.foldl_cons, ih]
    rfl

/-- The last announcement that is accepted is the one that stays. -/
theorem polled_entry_legible (h : node.Legible libs logs rx) (agent_id : String) :
    node.polled_entry libs logs rx agent_id =
      ((node.last_accepted libs rx agent_id).map (node.peer_info libs)).or
        (node.peer_map.peers.lookup agent_id) := by
  unfold polled_entry poll_presence last_accepted
  simp only [presence_loop_legible h, take_presence_peers]
  exact lookup_foldl_insert _ _ _ _ _

/-- An accepted announcement is not of the node itself. -/
theorem accepted_other {p : PresenceAnnouncement × UInt64} (h : p ∈ node.accepted libs rx) :
    p.1.agent_id ≠ node.pubkey := by
  unfold accepted accepted_of at h
  obtain ⟨m, -, hm⟩ := List.mem_filterMap.mp h
  obtain ⟨ann, hann, rfl⟩ := Option.map_eq_some_iff.mp hm
  obtain ⟨hpresence, -⟩ := Option.filter_eq_some_iff.mp hann
  unfold presence_of at hpresence
  split at hpresence
  · split at hpresence
    · rename_i hne
      obtain rfl := Option.some.inj hpresence
      exact hne
    · cases hpresence
  · cases hpresence

theorem last_accepted_mem {agent_id : String} {p : PresenceAnnouncement × UInt64}
    (h : node.last_accepted libs rx agent_id = some p) :
    p ∈ node.accepted libs rx ∧ p.1.agent_id = agent_id := by
  have hmem := List.mem_filter.mp (List.mem_of_getLast? h)
  exact ⟨hmem.1, of_decide_eq_true hmem.2⟩

theorem sound_of_legible (h : node.Legible libs logs rx) : node.SoundPoll libs logs rx where
  changed agent_id hne := by
    rcases hlast : node.last_accepted libs rx agent_id with _ | p
    · rw [polled_entry_legible h, hlast] at hne
      exact absurd rfl hne
    · obtain ⟨hmem, rfl⟩ := last_accepted_mem hlast
      exact ⟨accepted_other hmem, p, hmem, rfl⟩
  last agent_id p hlast := by
    rw [polled_entry_legible h, hlast]
    rfl
  rest agent_id hnone := by
    rcases hlast : node.last_accepted libs rx agent_id with _ | p
    · rw [polled_entry_legible h, hlast]
      rfl
    · obtain ⟨hmem, hid⟩ := last_accepted_mem hlast
      exact absurd hid (hnone p hmem)
  count := by
    unfold poll_presence
    simp only [presence_loop_legible h, Nat.zero_add]
    rfl

end

/-- Polling is sound if and only if no warning about an announcement that is
rejected cuts an id inside of a character. -/
theorem presence_polling_is_sound_iff (libs : PresenceLibs) (logs : Logs) (node : LmaoNode L F)
    (rx : List (Bytes × UInt64)) : node.SoundPoll libs logs rx ↔ node.Legible libs logs rx := by
  constructor
  · intro hsound
    by_contra hloud
    obtain ⟨panic, hpanic⟩ := presence_loop_panics hloud node.peer_map 0
    have hcount := hsound.count
    unfold poll_presence at hcount
    simp only [hpanic] at hcount
    cases hcount
  · exact sound_of_legible

end LmaoNode

namespace Sample

/-- An announcement without a signature, whose ninth byte is inside of a
character. -/
def odd_announcement : PresenceAnnouncement :=
  { agent_id := "aaaaaaaé", name := "eve", capabilities := [], waku_topic := "t", ttl_secs := 60
    sealed_status := [], signature := none }

def odd_message : Bytes × UInt64 := ((A2AEnvelope.Presence odd_announcement).to_vec, 0)

def presence_libs : PresenceLibs where
  ecdsa := lmao.Sample.plain_ecdsa
  load_from_slice _ := .error "EOF while parsing a value"

/-- Alice, who reads the texts that `serde_json` writes. -/
noncomputable def listening_alice :
    LmaoNode (Libs.strict (.ofTable [] []) Sample.tagging) (IdSet fun _ => []) :=
  .new "02alice" "alice" "" [] none .default 0

end Sample

/-- One announcement that should be rejected ends the call with a panic, if
warnings are logged. -/
theorem a_rejected_announcement_panics :
    (Sample.listening_alice.poll_presence Sample.presence_libs ⟨true, false⟩
        (.ok [Sample.odd_message])).result = .error (.panic .char_boundary) ∧
      ¬ Sample.listening_alice.SoundPoll Sample.presence_libs ⟨true, false⟩
        [Sample.odd_message] := by
  have hserde := (Libs.strict_roundTrips (.ofTable [] []) Sample.tagging).envelope
    (.Presence Sample.odd_announcement)
  have hpresence : Sample.listening_alice.presence_of Sample.odd_message.1 =
      some Sample.odd_announcement := by
    unfold LmaoNode.presence_of Sample.odd_message
    simp only [hserde]
    exact if_pos (by decide)
  have hverify : Sample.odd_announcement.verify Sample.presence_libs.ecdsa ≠ .ok () := nofun
  have hlog : log_id true Sample.odd_announcement.agent_id = .error .char_boundary := by
    decide +kernel
  have hloop := (LmaoNode.presence_loop_rejected Sample.presence_libs ⟨true, false⟩ hpresence
    hverify Sample.listening_alice.peer_map 0 []).1
  rw [hlog] at hloop
  have hresult : (Sample.listening_alice.poll_presence Sample.presence_libs ⟨true, false⟩
      (.ok [Sample.odd_message])).result = .error (.panic .char_boundary) := by
    unfold LmaoNode.poll_presence
    simp only [hloop]
    rfl
  refine ⟨hresult, ?_⟩
  intro hsound
  have hcount := hsound.count
  rw [hresult] at hcount
  cases hcount

end node

end lmao
