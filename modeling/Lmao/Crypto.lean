-- Key agreement and authenticated encryption between two agents (crypto
-- crate). The two ciphers are parameters. What the code itself does to keys,
-- nonces and texts is modelled, down to the panic on a nonce of the wrong
-- length.
import Lmao.Base64

namespace lmao.crypto

inductive CryptoError
  | Hex
  | InvalidKeyLength (message : String)
  | Cipher (message : String)
  | InvalidBase64Nonce
  | InvalidBase64Ciphertext
deriving DecidableEq, Repr

/-- X25519 and ChaCha20-Poly1305. -/
structure Primitives where
  public_key : Bytes → Bytes
  diffie_hellman : Bytes → Bytes → Bytes
  aead_encrypt : Bytes → Bytes → Bytes → Option Bytes
  aead_decrypt : Bytes → Bytes → Bytes → Option Bytes

/-- What the two libraries promise: public keys are 32 bytes, both sides of a
key agreement get the same key, and a text decrypts under the key and the
nonce that encrypted it. -/
structure Primitives.Lawful (P : Primitives) : Prop where
  key_length : ∀ secret, (P.public_key secret).length = 32
  agreement : ∀ a b, P.diffie_hellman a (P.public_key b) = P.diffie_hellman b (P.public_key a)
  decrypts : ∀ key nonce plaintext ciphertext,
    P.aead_encrypt key nonce plaintext = some ciphertext →
    P.aead_decrypt key nonce ciphertext = some plaintext

/-- Base64 texts of a nonce and a ciphertext. -/
structure EncryptedPayload where
  nonce : String
  ciphertext : String
deriving DecidableEq, Repr

/-- The public key material of an agent. -/
structure IntroBundle where
  agent_pubkey : String
  version : String
deriving DecidableEq, Repr

def IntroBundle.new (agent_pubkey : String) : IntroBundle := { agent_pubkey, version := "1.0" }

/-- The keypair of an agent: its secret, and the public key that belongs to
it. -/
structure AgentIdentity (P : Primitives) where
  secret : Bytes

namespace AgentIdentity

variable {P : Primitives}

def public_key (identity : AgentIdentity P) : Bytes := P.public_key identity.secret

def public_key_hex (identity : AgentIdentity P) : String := hex_encode identity.public_key

def parse_public_key (hex_str : String) : Except CryptoError Bytes :=
  match hex_decode hex_str with
  | none => .error .Hex
  | some bytes =>
    if bytes.length = 32 then .ok bytes
    else .error (.InvalidKeyLength "public key must be 32 bytes")

def shared_key (identity : AgentIdentity P) (their_pubkey : Bytes) : Bytes :=
  P.diffie_hellman identity.secret their_pubkey

end AgentIdentity

namespace SessionKey

/-- The caller draws `nonce_bytes` at random. -/
def encrypt (P : Primitives) (key nonce_bytes plaintext : Bytes) :
    Except CryptoError EncryptedPayload :=
  match P.aead_encrypt key nonce_bytes plaintext with
  | none => .error (.Cipher "encrypt: aead::Error")
  | some ciphertext =>
    .ok { nonce := base64.encode nonce_bytes, ciphertext := base64.encode ciphertext }

/-- The nonce goes into `Nonce::from_slice` as it comes. -/
def decrypt (P : Primitives) (key : Bytes) (payload : EncryptedPayload) :
    Except Panic (Except CryptoError Bytes) :=
  match base64.decode payload.nonce with
  | none => .ok (.error .InvalidBase64Nonce)
  | some nonce_bytes =>
    if nonce_bytes.length ≠ 12 then .error .nonce_length
    else
      match base64.decode payload.ciphertext with
      | none => .ok (.error .InvalidBase64Ciphertext)
      | some ciphertext =>
        match P.aead_decrypt key nonce_bytes ciphertext with
        | none => .ok (.error (.Cipher "decrypt: aead::Error"))
        | some plaintext => .ok (.ok plaintext)

/-- A nonce text that decodes to a slice which `Nonce::from_slice` refuses. -/
def BadNonce (payload : EncryptedPayload) : Prop :=
  ∃ nonce_bytes, base64.decode payload.nonce = some nonce_bytes ∧ nonce_bytes.length ≠ 12

/-- Decryption panics on a bad nonce, and on nothing else. -/
theorem decrypt_panics_iff (P : Primitives) (key : Bytes) (payload : EncryptedPayload) :
    (∃ p, decrypt P key payload = .error p) ↔ BadNonce payload := by
  unfold decrypt BadNonce
  rcases base64.decode payload.nonce with _ | nonce_bytes
  · simp
  · by_cases hlen : nonce_bytes.length = 12
    · simp only [hlen, ne_eq, not_true_eq_false, if_false, Option.some.injEq, exists_eq_left',
        iff_false, not_exists]
      intro p hp
      split at hp
      · cases hp
      · split at hp <;> cases hp
    · simp [hlen]

end SessionKey

theorem parse_public_key_hex {P : Primitives} (h : P.Lawful) (identity : AgentIdentity P) :
    AgentIdentity.parse_public_key identity.public_key_hex = .ok identity.public_key := by
  have hlen : identity.public_key.length = 32 := h.key_length _
  simp [AgentIdentity.parse_public_key, AgentIdentity.public_key_hex, hex_decode_encode, hlen]

/-- What one agent encrypts for another, the other decrypts. -/
theorem decrypt_encrypt {P : Primitives} (h : P.Lawful) (a b : AgentIdentity P)
    {nonce_bytes plaintext : Bytes} {payload : EncryptedPayload} (hnonce : nonce_bytes.length = 12)
    (he : SessionKey.encrypt P (a.shared_key b.public_key) nonce_bytes plaintext = .ok payload) :
    SessionKey.decrypt P (b.shared_key a.public_key) payload = .ok (.ok plaintext) := by
  unfold SessionKey.encrypt at he
  split at he
  · cases he
  · rename_i ciphertext hseal
    cases he
    have hkey : b.shared_key a.public_key = a.shared_key b.public_key := h.agreement _ _
    have hopen := h.decrypts _ _ _ _ hseal
    simp only [SessionKey.decrypt, base64.decode_encode, hnonce, ne_eq, not_true_eq_false, if_false,
      hkey, hopen]

end lmao.crypto
