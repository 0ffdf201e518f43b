-- The bytes that the signature of a presence announcement is over (presence.rs of
-- the core crate), and what a signature binds.
import Mathlib.Data.List.Lex
import Lmao.Crypto
import Lmao.JsonReading
import Lmao.StableSort

namespace lmao

open json stable_sort

/-! ## Canonical bytes -/

/-- The value of an envelope. The entries of an object are sorted by name. -/
def SealedStatus.to_value (s : SealedStatus) : Value :=
  .object [("ciphertext", .bytes s.ciphertext), ("ephemeral_pub", .bytes s.ephemeral_pub),
    ("nonce", .bytes s.nonce), ("recipient_hint", .bytes s.recipient_hint)]

/-- Byte strings are compared as the lists of their numbers. -/
def SealedStatus.hint_key (s : SealedStatus) : List Nat := s.recipient_hint.map UInt8.toNat

namespace PresenceAnnouncement

/-- All fields except the signature, with the envelopes sorted by their hints. -/
def canonical (a : PresenceAnnouncement) : Value :=
  let sealed_sorted := sort_by_key SealedStatus.hint_key a.sealed_status
  .object [("agent_id", .str a.agent_id), ("capabilities", .array (a.capabilities.map Value.str)),
    ("name", .str a.name), ("sealed_status", .array (sealed_sorted.map SealedStatus.to_value)),
    ("ttl_secs", .nat a.ttl_secs.toNat), ("waku_topic", .str a.waku_topic)]

def canonical_bytes (a : PresenceAnnouncement) : Bytes := json.to_vec a.canonical.render

end PresenceAnnouncement

/-! ## Signatures -/

/-- ECDSA over secp256k1, with keys and signatures as they are written. -/
structure Ecdsa where
  SigningKey : Type
  VerifyingKey : Type
  Signature : Type
  verifying_key : SigningKey → VerifyingKey
  from_sec1_bytes : Bytes → Option VerifyingKey
  to_der : Signature → Bytes
  from_der : Bytes → Option Signature
  sign : SigningKey → Bytes → Signature
  verify : VerifyingKey → Bytes → Signature → Bool

/-- The message is the canonical form of an announcement whose `agent_id` writes the
key. -/
def Ecdsa.Named (E : Ecdsa) (verifying_key : E.VerifyingKey) (message : Bytes) : Prop :=
  ∃ a : PresenceAnnouncement, a.canonical_bytes = message ∧
    (hex_decode a.agent_id).bind E.from_sec1_bytes = some verifying_key

/-- What the library promises: a signature is read as it was written, it is good for the
message and the key that it was made with, and under that key it is good for no other
message. Under another key it may be good for some message, but not for one that names
this key. -/
structure Ecdsa.Ideal (E : Ecdsa) : Prop where
  der : ∀ signature, E.from_der (E.to_der signature) = some signature
  verifies : ∀ key message, E.verify (E.verifying_key key) message (E.sign key message) = true
  binds : ∀ key message other,
    E.verify (E.verifying_key key) other (E.sign key message) = true → other = message
  exclusive : ∀ any_key key message other, E.Named any_key other →
    E.verify any_key other (E.sign key message) = true → any_key = E.verifying_key key

inductive PresenceError
  | MissingSignature
  | InvalidHex
  | InvalidPublicKey
  | InvalidSignature
  | VerificationFailed
  | InvalidRecipientPubkey (e : crypto.CryptoError)
  | SealCrypto (message : String)
  | InvalidEnvelope (message : String)
deriving DecidableEq, Repr

namespace PresenceAnnouncement

def sign (E : Ecdsa) (signing_key : E.SigningKey) (a : PresenceAnnouncement) :
    PresenceAnnouncement :=
  { a with signature := some (E.to_der (E.sign signing_key a.canonical_bytes)) }

/-- Verify the signature against the key that `agent_id` writes. -/
def verify (E : Ecdsa) (a : PresenceAnnouncement) : Except PresenceError Unit :=
  match a.signature with
  | none => .error .MissingSignature
  | some sig_bytes =>
    match hex_decode a.agent_id with
    | none => .error .InvalidHex
    | some pubkey_bytes =>
      match E.from_sec1_bytes pubkey_bytes with
      | none => .error .InvalidPublicKey
      | some verifying_key =>
        match E.from_der sig_bytes with
        | none => .error .InvalidSignature
        | some signature =>
          if E.verify verifying_key a.canonical_bytes signature then .ok ()
          else .error .VerificationFailed

/-- An announcement is accepted if its signature is there and good for the key
of its agent. -/
theorem verify_ok_iff (E : Ecdsa) (a : PresenceAnnouncement) : a.verify E = .ok () ↔
    ∃ sig_bytes pubkey_bytes verifying_key signature, a.signature = some sig_bytes ∧
      hex_decode a.agent_id = some pubkey_bytes ∧
      E.from_sec1_bytes pubkey_bytes = some verifying_key ∧
      E.from_der sig_bytes = some signature ∧
      E.verify verifying_key a.canonical_bytes signature = true := by
  unfold verify
  rcases a.signature with _ | sig_bytes
  · simp
  rcases hex_decode a.agent_id with _ | pubkey_bytes
  · simp
  rcases hkey : E.from_sec1_bytes pubkey_bytes with _ | verifying_key
  · simp [hkey]
  rcases hder : E.from_der sig_bytes with _ | signature
  · simp [hkey, hder]
  · simp [hkey, hder]

/-! ## What the bytes bind -/

/-- The signed fields other than the envelopes are the same. -/
structure SameFields (a b : PresenceAnnouncement) : Prop where
  agent_id : a.agent_id = b.agent_id
  name : a.name = b.name
  capabilities : a.capabilities = b.capabilities
  waku_topic : a.waku_topic = b.waku_topic
  ttl_secs : a.ttl_secs = b.ttl_secs

/-- The signed fields are the same, up to the order of the envelopes. -/
structure Agree (a b : PresenceAnnouncement) : Prop where
  fields : SameFields a b
  envelopes : a.sealed_status.Perm b.sealed_status

/-- The envelopes of each hint come in the same order. -/
def SameOrder (a b : PresenceAnnouncement) : Prop :=
  ∀ hint, (a.sealed_status.filter fun s => s.recipient_hint = hint) =
    b.sealed_status.filter fun s => s.recipient_hint = hint

end PresenceAnnouncement

theorem SealedStatus.to_value_injective : Function.Injective SealedStatus.to_value := by
  rintro ⟨hint, pub, nonce, ciphertext⟩ ⟨hint', pub', nonce', ciphertext'⟩ h
  simp only [SealedStatus.to_value, Value.object.injEq, List.cons.injEq, Prod.mk.injEq,
    Value.bytes_injective.eq_iff, true_and, and_true] at h
  obtain ⟨rfl, rfl, rfl, rfl⟩ := h
  rfl

/-- The key of an envelope is as good as its hint. -/
theorem SealedStatus.hint_key_eq_iff (s : SealedStatus) (hint : Bytes) :
    s.hint_key = hint.map UInt8.toNat ↔ s.recipient_hint = hint := by
  have hinj : Function.Injective UInt8.toNat := fun _ _ h => UInt8.toNat_inj.mp h
  exact (List.map_injective_iff.mpr hinj).eq_iff

namespace PresenceAnnouncement

variable {a b : PresenceAnnouncement}

theorem canonical_bytes_eq_canonical :
    a.canonical_bytes = b.canonical_bytes ↔ a.canonical = b.canonical := by
  unfold canonical_bytes
  rw [to_vec_injective.eq_iff, Value.render_injective.eq_iff]

theorem canonical_eq_iff : a.canonical = b.canonical ↔ SameFields a b ∧
    sort_by_key SealedStatus.hint_key a.sealed_status =
      sort_by_key SealedStatus.hint_key b.sealed_status := by
  have hstrs := List.map_injective_iff.mpr str_injective
  have hvalues := List.map_injective_iff.mpr SealedStatus.to_value_injective
  unfold canonical
  simp only [Value.object.injEq, List.cons.injEq, Prod.mk.injEq, Value.str.injEq,
    Value.array.injEq, Value.nat.injEq, hstrs.eq_iff, hvalues.eq_iff, UInt64.toNat_inj, true_and,
    and_true]
  constructor
  · rintro ⟨hid, hcapabilities, hname, hsealed, httl, htopic⟩
    exact ⟨⟨hid, hname, hcapabilities, htopic, httl⟩, hsealed⟩
  · rintro ⟨⟨hid, hname, hcapabilities, htopic, httl⟩, hsealed⟩
    exact ⟨hid, hcapabilities, hname, hsealed, httl, htopic⟩

theorem sorted_eq_iff : sort_by_key SealedStatus.hint_key a.sealed_status =
    sort_by_key SealedStatus.hint_key b.sealed_status ↔ SameOrder a b := by
  rw [sort_by_key_eq_iff]
  constructor
  · intro h hint
    simpa only [SealedStatus.hint_key_eq_iff] using h (hint.map UInt8.toNat)
  · intro h k
    by_cases hk : ∃ hint : Bytes, hint.map UInt8.toNat = k
    · obtain ⟨hint, rfl⟩ := hk
      simpa only [SealedStatus.hint_key_eq_iff] using h hint
    · -- no envelope has a key that is not that of a hint
      have hnone : ∀ s : SealedStatus, s.hint_key ≠ k := fun s hs => hk ⟨s.recipient_hint, hs⟩
      simp only [hnone, decide_false, List.filter_false]

/-- The bytes are the same if and only if the fields are, and the envelopes of
each hint come in the same order. -/
theorem canonical_bytes_eq_iff :
    a.canonical_bytes = b.canonical_bytes ↔ SameFields a b ∧ SameOrder a b := by
  rw [canonical_bytes_eq_canonical, canonical_eq_iff, sorted_eq_iff]

/-- An order that the sort does not see is a permutation. -/
theorem SameOrder.perm (h : SameOrder a b) : a.sealed_status.Perm b.sealed_status := by
  have hsorted := perm_sort_by_key SealedStatus.hint_key a.sealed_status
  rw [sorted_eq_iff.mpr h] at hsorted
  exact hsorted.symm.trans (perm_sort_by_key _ _)

/-! ## The law -/

/-- The announcement with another signature. -/
def carrying (b : PresenceAnnouncement) (signature : Option Bytes) : PresenceAnnouncement :=
  { b with signature }

/-- The key of the agent is that of the signer. -/
def Names (E : Ecdsa) (signing_key : E.SigningKey) (a : PresenceAnnouncement) : Prop :=
  (hex_decode a.agent_id).bind E.from_sec1_bytes = some (E.verifying_key signing_key)

/-- The bytes and the signature of `a` fit `b` if and only if the two agree. -/
structure BindsExactly (a b : PresenceAnnouncement) : Prop where
  canonical : a.canonical_bytes = b.canonical_bytes ↔ Agree a b
  signature : ∀ E : Ecdsa, E.Ideal → ∀ signing_key, Names E signing_key a →
    ((b.carrying (a.sign E signing_key).signature).verify E = .ok () ↔ Agree a b)

/-- A signature is good for the announcements with the same bytes. -/
theorem verify_signature_iff {E : Ecdsa} (hE : E.Ideal) {signing_key : E.SigningKey}
    (hnames : Names E signing_key a) :
    (b.carrying (a.sign E signing_key).signature).verify E = .ok () ↔
      a.canonical_bytes = b.canonical_bytes := by
  have hbytes : (b.carrying (a.sign E signing_key).signature).canonical_bytes =
      b.canonical_bytes := rfl
  rw [verify_ok_iff, hbytes]
  constructor
  · rintro ⟨sig_bytes, pubkey_bytes, verifying_key, signature, hsig, hhex, hkey, hder, hverify⟩
    obtain rfl : E.to_der (E.sign signing_key a.canonical_bytes) = sig_bytes := Option.some.inj hsig
    rw [hE.der] at hder
    obtain rfl := Option.some.inj hder
    -- `b` is checked with the key that it names, which can only be that of the signer
    have hnamed : E.Named verifying_key b.canonical_bytes :=
      ⟨b, rfl, Option.bind_eq_some_iff.mpr ⟨pubkey_bytes, hhex, hkey⟩⟩
    obtain rfl := hE.exclusive _ _ _ _ hnamed hverify
    exact (hE.binds _ _ _ hverify).symm
  · intro hsame
    obtain ⟨pubkey_bytes, hhex, hkey⟩ := Option.bind_eq_some_iff.mp hnames
    rw [(canonical_bytes_eq_iff.mp hsame).1.agent_id] at hhex
    refine ⟨_, pubkey_bytes, _, _, rfl, hhex, hkey, hE.der _, ?_⟩
    rw [← hsame]
    exact hE.verifies _ _

/-- The canonical form binds exactly the announcement if and only if no two
envelopes of one hint change places. -/
theorem the_envelopes_are_bound_iff (a b : PresenceAnnouncement) :
    BindsExactly a b ↔ (Agree a b → SameOrder a b) := by
  have hcanonical : (a.canonical_bytes = b.canonical_bytes ↔ Agree a b) ↔
      (Agree a b → SameOrder a b) := by
    rw [canonical_bytes_eq_iff]
    constructor
    · intro hiff hagree
      exact (hiff.mpr hagree).2
    · intro horder
      refine ⟨fun h => ⟨h.1, h.2.perm⟩, fun hagree => ⟨hagree.fields, horder hagree⟩⟩
  rw [← hcanonical]
  constructor
  · intro hbinds
    exact hbinds.canonical
  · intro hiff
    refine ⟨hiff, ?_⟩
    intro E hE signing_key hnames
    rw [verify_signature_iff hE hnames]
    exact hiff

end PresenceAnnouncement

namespace Sample

/-- A scheme where the signature of a message is the message. -/
def plain_ecdsa : Ecdsa where
  SigningKey := Unit
  VerifyingKey := Unit
  Signature := Bytes
  verifying_key := id
  from_sec1_bytes _ := some ()
  to_der := id
  from_der := some
  sign _ message := message
  verify _ message signature := message == signature

theorem plain_ecdsa_ideal : plain_ecdsa.Ideal where
  der _ := rfl
  verifies _ message := beq_self_eq_true message
  binds _ _ _ h := eq_of_beq h
  exclusive _ _ _ _ _ _ := rfl

/-- An envelope for the hint 7. -/
def envelope (ciphertext : Bytes) : SealedStatus := ⟨[7], [], [], ciphertext⟩

def announcement (first second : Bytes) : PresenceAnnouncement where
  agent_id := "02"
  name := "echo"
  capabilities := []
  waku_topic := "t"
  ttl_secs := 300
  sealed_status := [envelope first, envelope second]
  signature := none

end Sample

open PresenceAnnouncement in
/-- Two envelopes of one hint change places, and the signature is no longer
good. -/
theorem two_envelopes_of_one_hint_are_told_apart :
    Agree (Sample.announcement [1] [2]) (Sample.announcement [2] [1]) ∧
      ((Sample.announcement [2] [1]).carrying
        ((Sample.announcement [1] [2]).sign Sample.plain_ecdsa ()).signature).verify
          Sample.plain_ecdsa ≠ .ok () ∧
      ¬ BindsExactly (Sample.announcement [1] [2]) (Sample.announcement [2] [1]) := by
  have hagree : Agree (Sample.announcement [1] [2]) (Sample.announcement [2] [1]) :=
    ⟨⟨rfl, rfl, rfl, rfl, rfl⟩, List.Perm.swap _ _ _⟩
  have hbytes : (Sample.announcement [1] [2]).canonical_bytes ≠
      (Sample.announcement [2] [1]).canonical_bytes := by
    rw [Ne, canonical_bytes_eq_iff]
    rintro ⟨-, horder⟩
    exact absurd (horder [7]) (by decide)
  have hnames : Names Sample.plain_ecdsa () (Sample.announcement [1] [2]) := rfl
  refine ⟨hagree, ?_, fun hbinds => hbytes (hbinds.canonical.mpr hagree)⟩
  rw [Ne, verify_signature_iff Sample.plain_ecdsa_ideal hnames]
  exact hbytes

end lmao
