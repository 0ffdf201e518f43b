-- The filters of the SDS layer (sds/bloom.rs). A channel keeps one filter of
-- its own, and reads the filters that its peers put in their messages.
import Mathlib.Data.Finset.Basic
import Lmao.Bytes

namespace lmao.sds

/-- Hex-encoded SHA-256 of a payload. -/
abbrev MessageId := String

/-- Default bloom filter capacity (number of items). -/
def DEFAULT_CAPACITY : Nat := 10000

/-! ## The filter of a channel -/

/-- What a channel uses of its own filter. -/
class IdFilter (F : Type) where
  with_params : Nat → F
  check : F → MessageId → Bool
  set : F → MessageId → F
  to_bytes : F → Bytes

export IdFilter (check set)

/-- The filter as an exact set of ids: no false positive, and no reset.
`enc` stands for its wire format. -/
structure IdSet (enc : Finset MessageId → Bytes) where
  ids : Finset MessageId
deriving DecidableEq

instance {enc : Finset MessageId → Bytes} : IdFilter (IdSet enc) where
  with_params _ := ⟨∅⟩
  check f id := decide (id ∈ f.ids)
  set f id := ⟨insert id f.ids⟩
  to_bytes f := enc f.ids

@[simp] theorem check_idSet {enc : Finset MessageId → Bytes} (f : IdSet enc) (id : MessageId) :
    check f id = true ↔ id ∈ f.ids := by
  simp [check]

@[simp] theorem set_idSet {enc : Finset MessageId → Bytes} (f : IdSet enc) (id : MessageId) :
    (set f id).ids = insert id f.ids := rfl

/-- The filter of the Rust code: `B` is the filter of the `bloomfilter`
crate, or an exact set in its place. -/
structure SdsBloomFilter (B : Type) where
  inner : B
  capacity : Nat
  item_count : Nat

namespace SdsBloomFilter

variable {B : Type} [IdFilter B]

def with_params (capacity : Nat) : SdsBloomFilter B :=
  { inner := IdFilter.with_params capacity, capacity, item_count := 0 }

def check (f : SdsBloomFilter B) (message_id : MessageId) : Bool :=
  IdFilter.check f.inner message_id

/-- Add a message id. The id that brings the count to the capacity empties
the filter, and is itself forgotten with the rest. -/
def set (f : SdsBloomFilter B) (message_id : MessageId) : SdsBloomFilter B :=
  let filter := IdFilter.set f.inner message_id
  let count := f.item_count + 1
  if count ≥ f.capacity then
    { f with inner := IdFilter.with_params f.capacity, item_count := 0 }
  else { f with inner := filter, item_count := count }

instance : IdFilter (SdsBloomFilter B) where
  with_params := with_params
  check := check
  set := set
  to_bytes f := IdFilter.to_bytes f.inner

end SdsBloomFilter

/-! ## The filters of the peers -/

/-- What a build brings to a channel that receives: how it reads the filter
in a message of a peer, and whether an addition that overflows panics, as it
does in a debug build, or wraps around. -/
structure Build where
  Filter : Type
  from_bytes : Bytes → Option Filter
  probably_contains : Filter → MessageId → Except Panic Bool
  overflow_checks : Bool

/-- The filters of the peers as exact sets, in a release build. `dec` stands
for the wire format. -/
def exactBlooms (dec : Bytes → Option (Finset MessageId)) : Build where
  Filter := Finset MessageId
  from_bytes := dec
  probably_contains ids message_id := .ok (decide (message_id ∈ ids))
  overflow_checks := false

/-- A filter of the `bloomfilter` crate, as `Bloom::from_existing` builds it:
none of its fields is checked against the others. -/
structure Bloom where
  bit_vec : List Bool
  bitmap_bits : Nat
  k_num : Nat
  sip_keys : (Nat × Nat) × (Nat × Nat)
deriving DecidableEq

namespace Bloom

/-- The SipHash of a text under a pair of keys. -/
abbrev SipHash := Nat × Nat → String → UInt64

/-- The hash of round `k_i`, and the two first hashes, which the later rounds
mix. -/
def bloom_hash (sip : SipHash) (b : Bloom) (hashes : UInt64 × UInt64) (item : String) (k_i : Nat) :
    UInt64 × (UInt64 × UInt64) :=
  if k_i = 0 then
    let hash := sip b.sip_keys.1 item
    (hash, hash, hashes.2)
  else if k_i = 1 then
    let hash := sip b.sip_keys.2 item
    (hash, hashes.1, hash)
  else ((hashes.1 + UInt64.ofNat k_i * hashes.2) % 0xFFFFFFFFFFFFFFC5, hashes)

/-- The rounds from `k_i` on, `n` of them. -/
def check_rounds (sip : SipHash) (b : Bloom) (item : String) :
    Nat → Nat → UInt64 × UInt64 → Except Panic Bool
  | 0, _, _ => .ok true
  | n + 1, k_i, hashes =>
    let (hash, hashes) := b.bloom_hash sip hashes item k_i
    if b.bitmap_bits = 0 then .error .rem_by_zero
    else
      match b.bit_vec[hash.toNat % b.bitmap_bits]? with
      | none => .error .bit_out_of_range
      | some false => .ok false
      | some true => check_rounds sip b item n (k_i + 1) hashes

def check (sip : SipHash) (b : Bloom) (item : String) : Except Panic Bool :=
  b.check_rounds sip item b.k_num 0 (0, 0)

/-- The bits of one byte, the highest first. -/
def byte_bits (b : UInt8) : List Bool :=
  (List.range 8).map fun i => b.toNat.testBit (7 - i)

/-- Read a filter in the format of `to_bytes`: 8 bytes of `bitmap_bits`, 4
bytes of `k_num`, 32 bytes of keys, and the bitmap. Only the length of the
header is checked. -/
def from_bytes (data : Bytes) : Option Bloom :=
  if data.length < 44 then none
  else
    let u64_at (offset : Nat) := from_le_bytes ((data.drop offset).take 8)
    some {
      bit_vec := (data.drop 44).flatMap byte_bits
      bitmap_bits := u64_at 0
      k_num := from_le_bytes ((data.drop 8).take 4)
      sip_keys := ((u64_at 12, u64_at 20), (u64_at 28, u64_at 36)) }

/-- The hash of round `k_i`, with the two first hashes as the rounds before it
leave them. -/
def round_hash (sip : SipHash) (b : Bloom) (item : String) (k_i : Nat) : UInt64 :=
  (b.bloom_hash sip (sip b.sip_keys.1 item, sip b.sip_keys.2 item) item k_i).1

/-- A round finds no bit to test, and the bits of all rounds before it are
set. -/
def TestsMissingBit (sip : SipHash) (b : Bloom) (item : String) : Prop :=
  ∃ k < b.k_num,
    (∀ j < k, b.bit_vec[(b.round_hash sip item j).toNat % b.bitmap_bits]? = some true) ∧
    (b.bitmap_bits = 0 ∨ b.bit_vec.length ≤ (b.round_hash sip item k).toNat % b.bitmap_bits)

/-- The two first hashes, as far as they are known before round `k_i`. -/
def Mixed (sip : SipHash) (b : Bloom) (item : String) (k_i : Nat) (hashes : UInt64 × UInt64) :
    Prop :=
  (1 ≤ k_i → hashes.1 = sip b.sip_keys.1 item) ∧ (2 ≤ k_i → hashes.2 = sip b.sip_keys.2 item)

theorem Mixed.round {sip : SipHash} {b : Bloom} {item : String} {k_i : Nat}
    {hashes : UInt64 × UInt64} (h : Mixed sip b item k_i hashes) :
    (b.bloom_hash sip hashes item k_i).1 = b.round_hash sip item k_i ∧
      Mixed sip b item (k_i + 1) (b.bloom_hash sip hashes item k_i).2 := by
  obtain ⟨h₁, h₂⟩ := h
  unfold round_hash bloom_hash Mixed
  by_cases h0 : k_i = 0
  · simp [h0]
  · by_cases h1 : k_i = 1
    · simp [h1, h₁ (by omega)]
    · simp [h0, h1, h₁ (by omega), h₂ (by omega)]

theorem check_rounds_panics_iff {sip : SipHash} {b : Bloom} {item : String} (n : Nat) {k_i : Nat}
    {hashes : UInt64 × UInt64} (h : Mixed sip b item k_i hashes) :
    (∃ p, b.check_rounds sip item n k_i hashes = .error p) ↔
      ∃ k, k_i ≤ k ∧ k < k_i + n ∧
        (∀ j, k_i ≤ j → j < k →
          b.bit_vec[(b.round_hash sip item j).toNat % b.bitmap_bits]? = some true) ∧
        (b.bitmap_bits = 0 ∨
          b.bit_vec.length ≤ (b.round_hash sip item k).toNat % b.bitmap_bits) := by
  induction n generalizing k_i hashes with
  | zero =>
    simp only [check_rounds, reduceCtorEq, exists_false, false_iff]
    rintro ⟨k, hlow, hhigh, -⟩
    omega
  | succ n ih =>
    obtain ⟨hround, hnext⟩ := h.round
    simp only [check_rounds]
    rw [hround]
    by_cases hbits : b.bitmap_bits = 0
    · simp only [hbits, if_true, Except.error.injEq, exists_eq', true_iff]
      exact ⟨k_i, le_rfl, by omega, by omega, Or.inl trivial⟩
    · simp only [hbits, if_false, false_or] at ih ⊢
      rcases hbit : b.bit_vec[(b.round_hash sip item k_i).toNat % b.bitmap_bits]? with _ | bit
      · rw [List.getElem?_eq_none_iff] at hbit
        simp only [Except.error.injEq, exists_eq', true_iff]
        exact ⟨k_i, le_rfl, by omega, by omega, hbit⟩
      · have hlt := (List.getElem?_eq_some_iff.mp hbit).1
        cases bit with
        | false =>
          simp only [reduceCtorEq, exists_false, false_iff]
          rintro ⟨k, hlow, hhigh, hset, hlen⟩
          rcases Nat.eq_or_lt_of_le hlow with rfl | hlow
          · omega
          · rw [hset k_i le_rfl hlow] at hbit
            cases hbit
        | true =>
          rw [ih hnext]
          constructor
          · rintro ⟨k, hlow, hhigh, hset, hlen⟩
            refine ⟨k, by omega, by omega, ?_, hlen⟩
            intro j hj hjk
            rcases Nat.eq_or_lt_of_le hj with rfl | hj
            · exact hbit
            · exact hset j hj hjk
          · rintro ⟨k, hlow, hhigh, hset, hlen⟩
            rcases Nat.eq_or_lt_of_le hlow with rfl | hlow
            · omega
            · exact ⟨k, hlow, by omega, fun j hj hjk => hset j (by omega) hjk, hlen⟩

theorem check_panics_iff (sip : SipHash) (b : Bloom) (item : String) :
    (∃ p, b.check sip item = .error p) ↔ b.TestsMissingBit sip item := by
  have h : Mixed sip b item 0 (0, 0) := by
    unfold Mixed
    omega
  unfold check TestsMissingBit
  rw [check_rounds_panics_iff b.k_num h]
  simp

end Bloom

/-- The filters of the peers as the Rust code reads them. -/
def wireBlooms (sip : Bloom.SipHash) (overflow_checks : Bool) : Build where
  Filter := Bloom
  from_bytes := Bloom.from_bytes
  probably_contains b message_id := b.check sip message_id
  overflow_checks

end lmao.sds
