-- The load that an announcement carries for each trusted peer (presence.rs of the
-- core crate, discovery.rs of the node crate): who can read it, whatever else
-- stands in the announcement.
import Lmao.PresencePoll

namespace lmao

open crypto node sds

/-! ## Sealing -/

namespace crypto

/-- Ciphers that nobody breaks: a text that decrypts is one that was encrypted,
under the same key, and two identities share different secrets with a third
party. -/
structure Primitives.Ideal (P : Primitives) : Prop extends P.Lawful where
  authentic : ∀ key nonce plaintext ciphertext,
    P.aead_decrypt key nonce ciphertext = some plaintext →
    P.aead_encrypt key nonce plaintext = some ciphertext
  refuses : ∀ key key' nonce nonce' plaintext ciphertext,
    P.aead_encrypt key nonce plaintext = some ciphertext → key' ≠ key →
    P.aead_decrypt key' nonce' ciphertext = none
  separates : ∀ secret a b,
    P.diffie_hellman secret (P.public_key a) = P.diffie_hellman secret (P.public_key b) →
    P.public_key a = P.public_key b

/-- The ephemeral secret and the nonce are drawn at random. Nothing comes back
if the cipher refuses. -/
def seal_for (P : Primitives) (recipient_pub plaintext ephemeral_secret nonce_bytes : Bytes) :
    Option (Bytes × Bytes × Bytes) :=
  let key := P.diffie_hellman ephemeral_secret recipient_pub
  (P.aead_encrypt key nonce_bytes plaintext).map fun ciphertext =>
    (P.public_key ephemeral_secret, nonce_bytes, ciphertext)

end crypto

namespace node

def LoadBucket.to_str : LoadBucket → String
  | .Free => "free"
  | .Busy => "busy"
  | .Full => "full"

def LoadStatus.to_vec (s : LoadStatus) : Bytes :=
  json.to_vec (json.object [("bucket", json.str s.bucket.to_str),
    ("queue_depth", json.nat s.queue_depth.toNat),
    ("max_concurrent", json.nat s.max_concurrent.toNat),
    ("avg_latency_ms", json.nat s.avg_latency_ms.toNat)])

end node

/-- Seal a load for the key in a hex text. -/
def SealedStatus.seal (P : Primitives) (recipient_x25519_pub_hex : String) (status : LoadStatus)
    (ephemeral_secret nonce : Bytes) : Except PresenceError SealedStatus :=
  match AgentIdentity.parse_public_key recipient_x25519_pub_hex with
  | .error e => .error (.InvalidRecipientPubkey e)
  | .ok recipient_pub =>
    match seal_for P recipient_pub status.to_vec ephemeral_secret nonce with
    | none => .error (.SealCrypto "cipher error: encrypt: aead::Error")
    | some (ephemeral_pub, nonce, ciphertext) =>
      .ok { recipient_hint := lmao.recipient_hint recipient_pub, ephemeral_pub, nonce, ciphertext }

namespace SealedStatus

variable {P : Primitives}

/-- The envelope was sealed to the key, with the load. -/
def SealedTo (P : Primitives) (recipient_pub : Bytes) (status : LoadStatus) (env : SealedStatus) :
    Prop :=
  ∃ recipient_hex ephemeral_secret nonce, nonce.length = 12 ∧
    AgentIdentity.parse_public_key recipient_hex = .ok recipient_pub ∧
    SealedStatus.seal P recipient_hex status ephemeral_secret nonce = .ok env

/-- An envelope with nothing for `me`: of the wrong shape, sealed to another
identity or otherwise encrypted under another key, encrypted by nobody, or
without a load inside. The hint of each may be the one of `me`. -/
inductive Foreign (libs : PresenceLibs) (me : AgentIdentity P) (env : SealedStatus) : Prop
  | other_hint (h : env.recipient_hint ≠ lmao.recipient_hint me.public_key)
  | malformed (h : env.ephemeral_pub.length ≠ 32 ∨ env.nonce.length ≠ 12)
  | sealed_to_other (other : AgentIdentity P) (hother : other.public_key ≠ me.public_key)
      (status : LoadStatus) (h : env.SealedTo P other.public_key status)
  | other_key (key nonce plaintext : Bytes) (hkey : key ≠ me.shared_key env.ephemeral_pub)
      (h : P.aead_encrypt key nonce plaintext = some env.ciphertext)
  | garbage (h : ∀ plaintext, P.aead_encrypt (me.shared_key env.ephemeral_pub) env.nonce plaintext ≠
      some env.ciphertext)
  | no_load (plaintext : Bytes) (e : String)
      (h : P.aead_encrypt (me.shared_key env.ephemeral_pub) env.nonce plaintext =
        some env.ciphertext)
      (hread : libs.load_from_slice plaintext = .error e)

/-- What a sealed envelope holds. -/
theorem sealed_fields {recipient_pub : Bytes} {status : LoadStatus} {env : SealedStatus}
    (h : env.SealedTo P recipient_pub status) : ∃ secret,
      env.recipient_hint = lmao.recipient_hint recipient_pub ∧
      env.ephemeral_pub = P.public_key secret ∧ env.nonce.length = 12 ∧
      P.aead_encrypt (P.diffie_hellman secret recipient_pub) env.nonce status.to_vec =
        some env.ciphertext := by
  obtain ⟨recipient_hex, secret, nonce, hnonce, hparse, hseal⟩ := h
  unfold SealedStatus.seal seal_for at hseal
  rw [hparse] at hseal
  dsimp only at hseal
  rcases henc : P.aead_encrypt (P.diffie_hellman secret recipient_pub) nonce status.to_vec
    with _ | ciphertext
  · rw [henc] at hseal
    cases hseal
  · rw [henc] at hseal
    cases hseal
    exact ⟨secret, rfl, rfl, hnonce, henc⟩

/-- The load in an envelope, if it can be read. -/
def load_in (libs : PresenceLibs) (me : AgentIdentity P) (env : SealedStatus) :
    Option LoadStatus :=
  (env.unseal_with libs me).toOption.join

/-- Whatever is read was encrypted under the shared key and is a load. -/
theorem load_in_eq_some {libs : PresenceLibs} {me : AgentIdentity P} {env : SealedStatus}
    {status : LoadStatus} (h : env.load_in libs me = some status) :
    env.recipient_hint = lmao.recipient_hint me.public_key ∧ env.ephemeral_pub.length = 32 ∧
      env.nonce.length = 12 ∧ ∃ plaintext,
        P.aead_decrypt (me.shared_key env.ephemeral_pub) env.nonce env.ciphertext =
          some plaintext ∧
        libs.load_from_slice plaintext = .ok status := by
  unfold load_in unseal_with at h
  by_cases hhint : env.recipient_hint = lmao.recipient_hint me.public_key
  · rw [if_neg (not_not_intro hhint)] at h
    by_cases hlen : env.ephemeral_pub.length = 32
    · rw [if_neg (not_not_intro hlen)] at h
      by_cases hnonce : env.nonce.length = 12
      · rw [if_neg (not_not_intro hnonce)] at h
        rcases hdec : P.aead_decrypt (me.shared_key env.ephemeral_pub) env.nonce env.ciphertext
          with _ | plaintext
        · rw [hdec] at h
          cases h
        · simp only [hdec] at h
          rcases hread : libs.load_from_slice plaintext with e | status'
          · rw [hread] at h
            cases h
          · rw [hread] at h
            cases h
            exact ⟨hhint, hlen, hnonce, plaintext, rfl, hread⟩
      · rw [if_pos hnonce] at h
        cases h
    · rw [if_pos hlen] at h
      cases h
  · rw [if_pos hhint] at h
    cases h

/-- The addressee reads the load of an envelope that was sealed to it. -/
theorem load_in_sealed (hP : P.Ideal) {libs : PresenceLibs} {me : AgentIdentity P}
    {env : SealedStatus} {status : LoadStatus}
    (hserde : libs.load_from_slice status.to_vec = .ok status)
    (h : env.SealedTo P me.public_key status) : env.load_in libs me = some status := by
  obtain ⟨secret, hhint, hephemeral, hnonce, henc⟩ := sealed_fields h
  have hlen : env.ephemeral_pub.length = 32 := hephemeral ▸ hP.key_length secret
  have hkey : me.shared_key env.ephemeral_pub = P.diffie_hellman secret me.public_key := by
    rw [hephemeral]
    exact hP.agreement me.secret secret
  have hdec := hP.decrypts _ _ _ _ henc
  unfold load_in unseal_with
  simp only [hhint, hlen, hnonce, hkey, hdec, hserde, ne_eq, not_true_eq_false, if_false]
  rfl

/-- Nobody else's envelope gives a load. -/
theorem load_in_foreign (hP : P.Ideal) {libs : PresenceLibs} {me : AgentIdentity P}
    {env : SealedStatus} (h : env.Foreign libs me) : env.load_in libs me = none := by
  by_contra hload
  obtain ⟨status, hload⟩ := Option.ne_none_iff_exists'.mp hload
  obtain ⟨hhint, hlen, hnonce, plaintext, hdec, hread⟩ := load_in_eq_some hload
  have refused : ∀ {key nonce plaintext},
      P.aead_encrypt key nonce plaintext = some env.ciphertext →
      me.shared_key env.ephemeral_pub ≠ key → False := by
    intro key nonce plaintext henc hne
    cases (hP.refuses _ _ _ env.nonce _ _ henc hne).symm.trans hdec
  cases h with
  | other_hint h => exact h hhint
  | malformed h => exact h.elim (fun h => h hlen) (fun h => h hnonce)
  | sealed_to_other other hother status h =>
    obtain ⟨secret, -, hephemeral, -, henc⟩ := sealed_fields h
    refine refused henc fun hkey => hother ?_
    -- The key of the envelope would be the one that `me` has.
    have hagree : me.shared_key env.ephemeral_pub = P.diffie_hellman secret me.public_key := by
      rw [hephemeral]
      exact hP.agreement me.secret secret
    exact hP.separates secret _ _ (hkey.symm.trans hagree)
  | other_key key nonce plaintext hkey h => exact refused h (Ne.symm hkey)
  | garbage h => exact h plaintext (hP.authentic _ _ _ _ hdec)
  | no_load plaintext' e h hread' =>
    obtain rfl := Option.some.inj ((hP.decrypts _ _ _ _ h).symm.trans hdec)
    cases hread'.symm.trans hread

end SealedStatus

/-! ## Announcements -/

namespace node

open SealedStatus

/-- A search that gives nothing else than `b` gives `b` if it gives anything. -/
theorem findSome?_eq_of_all {α β : Type} {f : α → Option β} {l : List α} {b : β}
    (hall : ∀ x ∈ l, f x = none ∨ f x = some b) (hex : ∃ x ∈ l, f x = some b) :
    l.findSome? f = some b := by
  obtain ⟨x, hx, hfx⟩ := hex
  rcases hfind : l.findSome? f with _ | b'
  · cases hfx.symm.trans (List.findSome?_eq_none_iff.mp hfind x hx)
  · obtain ⟨y, hy, hfy⟩ := List.exists_of_findSome?_eq_some hfind
    rcases hall y hy with hnone | hsome
    · cases hfy.symm.trans hnone
    · exact hfy.symm.trans hsome

variable {L : Libs} {F : Type}

/-- Wherever it stands in an announcement, the one envelope that was sealed to a
node gives it the load, and without such an envelope there is none. -/
theorem a_sealed_status_reaches_its_addressee (hP : L.prims.Ideal) (libs : PresenceLibs)
    (node : LmaoNode L F) (me : AgentIdentity L.prims) (hme : node.identity = some me)
    (ann : PresenceAnnouncement) :
    (∀ status before env after, libs.load_from_slice status.to_vec = .ok status →
      ann.sealed_status = before ++ env :: after → env.SealedTo L.prims me.public_key status →
      (∀ e ∈ before ++ after, e.Foreign libs me) → node.load_of libs ann = some status) ∧
    ((∀ e ∈ ann.sealed_status, e.Foreign libs me) → node.load_of libs ann = none) := by
  have hload : node.load_of libs ann = ann.sealed_status.findSome? (load_in libs me) := by
    unfold LmaoNode.load_of
    rw [hme]
    rfl
  rw [hload]
  constructor
  · intro status before env after hserde hann hsealed hforeign
    have hmine := load_in_sealed hP hserde hsealed
    rw [hann]
    refine findSome?_eq_of_all (fun e he => ?_)
      ⟨env, List.mem_append_right _ List.mem_cons_self, hmine⟩
    rcases List.mem_append.mp he with he | he
    · exact .inl (load_in_foreign hP (hforeign e (List.mem_append_left _ he)))
    · rcases List.mem_cons.mp he with rfl | he
      · exact .inr hmine
      · exact .inl (load_in_foreign hP (hforeign e (List.mem_append_right _ he)))
  · intro hforeign
    exact List.findSome?_eq_none_iff.mpr fun e he => load_in_foreign hP (hforeign e he)

namespace Sample

/-- The bytes with their number before them, in units. -/
def framed (bs : Bytes) : Bytes := List.replicate bs.length 1 ++ 0 :: bs

theorem framed_append_inj {a b x y : Bytes} (h : framed a ++ x = framed b ++ y) :
    a = b ∧ x = y := by
  have hlen : ∀ (n m : Nat) (s t : Bytes),
      List.replicate n (1 : UInt8) ++ 0 :: s = List.replicate m 1 ++ 0 :: t → n = m ∧ s = t := by
    intro n
    induction n with
    | zero =>
      intro m s t heq
      cases m with
      | zero => exact ⟨rfl, (List.cons.inj heq).2⟩
      | succ m => exact absurd (List.cons.inj heq).1 (by decide)
    | succ n ih =>
      intro m s t heq
      cases m with
      | zero => exact absurd (List.cons.inj heq).1 (by decide)
      | succ m =>
        obtain ⟨rfl, hst⟩ := ih m s t (List.cons.inj heq).2
        exact ⟨rfl, hst⟩
  unfold framed at h
  rw [List.append_assoc, List.append_assoc] at h
  obtain ⟨hn, hrest⟩ := hlen _ _ _ _ h
  exact List.append_inj hrest hn

/-- Ciphers that anyone breaks and that keep the promises: all public keys have
the same hint, and a ciphertext shows its key and its nonce. -/
def framing : Primitives where
  public_key secret := List.replicate 24 secret.sum ++ List.replicate 8 0
  diffie_hellman secret their_key := [secret.sum + their_key.headD 0]
  aead_encrypt key nonce plaintext := some (framed key ++ (framed nonce ++ plaintext))
  aead_decrypt key nonce ciphertext :=
    if framed key ++ framed nonce <+: ciphertext then
      some (ciphertext.drop (framed key ++ framed nonce).length)
    else none

theorem framing_ideal : framing.Ideal where
  key_length _ := rfl
  agreement a b := by simp [framing, List.replicate_succ, UInt8.add_comm]
  decrypts key nonce plaintext ciphertext h := by
    cases h
    simp only [framing, ← List.append_assoc]
    rw [if_pos (List.prefix_append _ _), List.drop_left]
  authentic key nonce plaintext ciphertext h := by
    simp only [framing] at h ⊢
    split at h
    · rename_i hprefix
      obtain ⟨rest, rfl⟩ := hprefix
      rw [List.drop_left] at h
      cases h
      rw [List.append_assoc]
    · cases h
  refuses key key' nonce nonce' plaintext ciphertext h hne := by
    cases h
    simp only [framing]
    rw [if_neg]
    rintro ⟨rest, hrest⟩
    rw [List.append_assoc] at hrest
    exact hne (framed_append_inj hrest).1
  separates secret a b h := by
    have hheads : secret.sum + a.sum = secret.sum + b.sum := (List.cons.inj h).1
    have hsum : a.sum = b.sum := by simpa using hheads
    simp only [framing, hsum]

def busy_load : LoadStatus :=
  { bucket := .Busy, queue_depth := 1, max_concurrent := 2, avg_latency_ms := 0 }

/-- The reader of one load. -/
def load_libs : PresenceLibs where
  ecdsa := lmao.Sample.plain_ecdsa
  load_from_slice bs := if bs = busy_load.to_vec then .ok busy_load else .error "expected value"

theorem load_libs_reads : load_libs.load_from_slice busy_load.to_vec = .ok busy_load := by
  unfold load_libs
  dsimp only
  rw [if_pos rfl]

def me : AgentIdentity framing := ⟨[1]⟩

def other : AgentIdentity framing := ⟨[2]⟩

/-- The envelope for an identity. -/
def envelope_for (recipient : AgentIdentity framing) : SealedStatus where
  recipient_hint := lmao.recipient_hint recipient.public_key
  ephemeral_pub := framing.public_key [3]
  nonce := twelve 0
  ciphertext :=
    framed (framing.diffie_hellman [3] recipient.public_key) ++
      (framed (twelve 0) ++ busy_load.to_vec)

theorem envelope_for_sealed (recipient : AgentIdentity framing) :
    (envelope_for recipient).SealedTo framing recipient.public_key busy_load := by
  refine ⟨recipient.public_key_hex, [3], twelve 0, rfl, ?_, ?_⟩
  · exact parse_public_key_hex framing_ideal.toLawful recipient
  · unfold SealedStatus.seal
    rw [parse_public_key_hex framing_ideal.toLawful recipient]
    rfl

def cut_envelope : SealedStatus := { envelope_for me with nonce := [] }

/-- An announcement with an envelope for another node of the same hint, a
malformed one, and the one for `me`. -/
def crowded : PresenceAnnouncement :=
  { odd_announcement with sealed_status := [envelope_for other, cut_envelope, envelope_for me] }

noncomputable def loaded_node :
    LmaoNode (Libs.strict (.ofTable [] []) framing) (IdSet fun _ => []) :=
  .new "02alice" "alice" "" [] (some me) .default 0

end Sample

theorem a_load_is_found_behind_a_collision :
    lmao.recipient_hint Sample.other.public_key = lmao.recipient_hint Sample.me.public_key ∧
      Sample.loaded_node.load_of Sample.load_libs Sample.crowded = some Sample.busy_load := by
  refine ⟨rfl, ?_⟩
  refine (a_sealed_status_reaches_its_addressee Sample.framing_ideal Sample.load_libs
    Sample.loaded_node Sample.me rfl Sample.crowded).1 Sample.busy_load
    [Sample.envelope_for Sample.other, Sample.cut_envelope] (Sample.envelope_for Sample.me) []
    Sample.load_libs_reads rfl (Sample.envelope_for_sealed Sample.me) ?_
  intro e he
  rcases List.mem_cons.mp he with rfl | he
  · exact .sealed_to_other Sample.other (by decide) Sample.busy_load
      (Sample.envelope_for_sealed Sample.other)
  · obtain rfl := List.mem_singleton.mp he
    exact .malformed (.inr (by decide))

/-! ## Both sides -/

/-- An envelope for each trusted peer with an encryption key that can be used.
The secret and the nonce of each are drawn at random. -/
def build_sealed_status_envelopes (P : Primitives) (entries : List TrustEntry)
    (status : LoadStatus) (draws : Nat → Bytes × Bytes) : List SealedStatus :=
  entries.zipIdx.filterMap fun e =>
    e.1.encryption_pubkey.bind fun pub_hex =>
      (SealedStatus.seal P pub_hex status (draws e.2).1 (draws e.2).2).toOption

/-- The entry has the key. -/
def HasKey (entry : TrustEntry) (pub : Bytes) : Prop :=
  ∃ pub_hex, entry.encryption_pubkey = some pub_hex ∧
    AgentIdentity.parse_public_key pub_hex = .ok pub

section

variable {P : Primitives} {entries : List TrustEntry} {status : LoadStatus}
  {draws : Nat → Bytes × Bytes} {env : SealedStatus}

theorem mem_build_iff : env ∈ build_sealed_status_envelopes P entries status draws ↔
    ∃ n entry pub_hex, entries[n]? = some entry ∧ entry.encryption_pubkey = some pub_hex ∧
      SealedStatus.seal P pub_hex status (draws n).1 (draws n).2 = .ok env := by
  unfold build_sealed_status_envelopes
  simp only [List.mem_filterMap, Prod.exists, Option.bind_eq_some_iff,
    List.mk_mem_zipIdx_iff_getElem?]
  have toOption_iff : ∀ r : Except PresenceError SealedStatus,
      r.toOption = some env ↔ r = .ok env := by
    intro r
    cases r <;> simp [Except.toOption]
  simp only [toOption_iff]
  constructor
  · rintro ⟨entry, n, hn, pub_hex, h⟩
    exact ⟨n, entry, pub_hex, hn, h⟩
  · rintro ⟨n, entry, pub_hex, hn, h⟩
    exact ⟨entry, n, hn, pub_hex, h⟩

/-- An envelope of a broadcast was sealed to the key of an entry. -/
theorem sealed_of_mem_build (hdraws : ∀ n, (draws n).2.length = 12)
    (h : env ∈ build_sealed_status_envelopes P entries status draws) :
    ∃ entry ∈ entries, ∃ pub, HasKey entry pub ∧ env.SealedTo P pub status := by
  obtain ⟨n, entry, pub_hex, hn, hhex, hseal⟩ := mem_build_iff.mp h
  rcases hparse : AgentIdentity.parse_public_key pub_hex with e | pub
  · unfold SealedStatus.seal at hseal
    rw [hparse] at hseal
    cases hseal
  · exact ⟨entry, List.mem_of_getElem? hn, pub, ⟨pub_hex, hhex, hparse⟩,
      pub_hex, (draws n).1, (draws n).2, hdraws n, hparse, hseal⟩

/-- Each entry with a key gets an envelope, if the cipher works. -/
theorem exists_mem_build (henc : ∀ key nonce plaintext, ∃ ciphertext,
    P.aead_encrypt key nonce plaintext = some ciphertext)
    (hdraws : ∀ n, (draws n).2.length = 12) {entry : TrustEntry} (hentry : entry ∈ entries)
    {pub : Bytes} (hkey : HasKey entry pub) :
    ∃ env ∈ build_sealed_status_envelopes P entries status draws,
      env.SealedTo P pub status := by
  obtain ⟨n, hn⟩ := List.mem_iff_getElem?.mp hentry
  obtain ⟨pub_hex, hhex, hparse⟩ := hkey
  obtain ⟨ciphertext, hcipher⟩ := henc (P.diffie_hellman (draws n).1 pub) (draws n).2 status.to_vec
  have hseal : ∃ env, SealedStatus.seal P pub_hex status (draws n).1 (draws n).2 = .ok env := by
    unfold SealedStatus.seal seal_for
    rw [hparse]
    dsimp only
    rw [hcipher]
    exact ⟨_, rfl⟩
  obtain ⟨env, hseal⟩ := hseal
  exact ⟨env, mem_build_iff.mpr ⟨n, entry, pub_hex, hn, hhex, hseal⟩,
    pub_hex, (draws n).1, (draws n).2, hdraws n, hparse, hseal⟩

/-- Of a broadcast, exactly those identities read the load whose key an entry
has. -/
theorem a_broadcast_load_is_read_iff (hP : P.Ideal) (henc : ∀ key nonce plaintext, ∃ ciphertext,
    P.aead_encrypt key nonce plaintext = some ciphertext)
    (hdraws : ∀ n, (draws n).2.length = 12)
    (hkeys : ∀ entry ∈ entries, ∀ pub, HasKey entry pub →
      ∃ other : AgentIdentity P, other.public_key = pub)
    {libs : PresenceLibs} (hserde : libs.load_from_slice status.to_vec = .ok status)
    (me : AgentIdentity P) :
    (build_sealed_status_envelopes P entries status draws).findSome? (load_in libs me) =
      some status ↔ ∃ entry ∈ entries, HasKey entry me.public_key := by
  have hall : ∀ env ∈ build_sealed_status_envelopes P entries status draws,
      ∃ entry ∈ entries, ∃ pub, HasKey entry pub ∧
        (pub = me.public_key ∧ env.load_in libs me = some status ∨
          env.load_in libs me = none) := by
    intro env henv
    obtain ⟨entry, hentry, pub, hkey, hsealed⟩ := sealed_of_mem_build hdraws henv
    refine ⟨entry, hentry, pub, hkey, ?_⟩
    by_cases hpub : pub = me.public_key
    · subst hpub
      exact .inl ⟨rfl, load_in_sealed hP hserde hsealed⟩
    · obtain ⟨other, rfl⟩ := hkeys entry hentry pub hkey
      exact .inr (load_in_foreign hP (.sealed_to_other other hpub status hsealed))
  constructor
  · intro hfind
    obtain ⟨env, henv, hload⟩ := List.exists_of_findSome?_eq_some hfind
    obtain ⟨entry, hentry, pub, hkey, ⟨rfl, -⟩ | hnone⟩ := hall env henv
    · exact ⟨entry, hentry, hkey⟩
    · cases hnone.symm.trans hload
  · rintro ⟨entry, hentry, hkey⟩
    obtain ⟨env, henv, hsealed⟩ := exists_mem_build henc hdraws hentry hkey
    refine findSome?_eq_of_all (fun e he => ?_) ⟨env, henv, load_in_sealed hP hserde hsealed⟩
    obtain ⟨_, _, _, _, ⟨-, hload⟩ | hnone⟩ := hall e he
    · exact .inr hload
    · exact .inl hnone

end

end node

end lmao
