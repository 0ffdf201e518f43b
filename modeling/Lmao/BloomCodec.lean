-- The wire format of a filter (sds/bloom.rs): what a channel writes is read back,
-- and what a peer writes is taken as it comes, down to a header of zeros.
import Mathlib.Algebra.GroupWithZero.Nat
import Lmao.Bloom

namespace lmao.sds

/-! ## Bytes and bits -/

/-- The lowest `width` bytes of a number, the lowest first. -/
def le_bytes : Nat → Nat → Bytes
  | 0, _ => []
  | width + 1, n => UInt8.ofNat n :: le_bytes width (n / 256)

@[simp] theorem length_le_bytes (width n : Nat) : (le_bytes width n).length = width := by
  induction width generalizing n with
  | zero => rfl
  | succ width ih => rw [le_bytes, List.length_cons, ih]

theorem from_le_bytes_le_bytes {width n : Nat} (h : n < 256 ^ width) :
    from_le_bytes (le_bytes width n) = n := by
  induction width generalizing n with
  | zero => exact (Nat.lt_one_iff.mp h).symm
  | succ width ih =>
    have hrest : n / 256 < 256 ^ width := by
      rw [Nat.pow_succ] at h
      exact Nat.div_lt_of_lt_mul (Nat.mul_comm _ _ ▸ h)
    rw [le_bytes, from_le_bytes, ih hrest, UInt8.toNat_ofNat']
    omega

/-- The byte of eight bits, the highest first. What is missing is 0. -/
def bits_byte (bits : List Bool) : UInt8 :=
  UInt8.ofNat (((List.range 8).map fun i => (bits.getD i false).toNat * 2 ^ (7 - i)).sum)

/-- `BitVec::to_bytes` -/
def bit_bytes (bits : List Bool) : Bytes :=
  (List.range ((bits.length + 7) / 8)).map fun i => bits_byte ((bits.drop (8 * i)).take 8)

theorem byte_bits_bits_byte {bits : List Bool} (h : bits.length = 8) :
    Bloom.byte_bits (bits_byte bits) = bits := by
  have hall : ∀ a b c d e f g h : Bool,
      Bloom.byte_bits (bits_byte [a, b, c, d, e, f, g, h]) = [a, b, c, d, e, f, g, h] := by
    decide +kernel
  rcases bits with _ | ⟨a, _ | ⟨b, _ | ⟨c, _ | ⟨d, _ | ⟨e, _ | ⟨f, _ | ⟨g, _ | ⟨i, _ |
    ⟨j, rest⟩⟩⟩⟩⟩⟩⟩⟩⟩
  all_goals first
    | exact hall a b c d e f g i
    | simp at h

/-- Whole bytes of bits come back. -/
theorem flatMap_bit_bytes {bits : List Bool} {m : Nat} (h : bits.length = 8 * m) :
    (bit_bytes bits).flatMap Bloom.byte_bits = bits := by
  have hlen : (bits.length + 7) / 8 = m := by omega
  unfold bit_bytes
  rw [hlen]
  clear hlen
  induction m generalizing bits with
  | zero =>
    obtain rfl := List.length_eq_zero_iff.mp h
    rfl
  | succ m ih =>
    have hrest : (bits.drop 8).length = 8 * m := by
      rw [List.length_drop]
      omega
    have hfirst : (bits.take 8).length = 8 := by
      rw [List.length_take]
      omega
    have hshift : ∀ i, bits.drop (8 * (i + 1)) = (bits.drop 8).drop (8 * i) := by
      intro i
      rw [List.drop_drop]
      congr 1
      omega
    rw [List.range_succ_eq_map, List.map_cons, List.map_map, List.flatMap_cons, Nat.mul_zero,
      List.drop_zero, byte_bits_bits_byte hfirst]
    conv_rhs => rw [← List.take_append_drop 8 bits, ← ih hrest]
    simp only [Function.comp_def, hshift]

/-! ## Filters -/

namespace Bloom

/-- The rounds of `set` from `k_i` on, `n` of them. -/
def set_rounds (sip : SipHash) (item : String) :
    Bloom → Nat → Nat → UInt64 × UInt64 → Except Panic Bloom
  | b, 0, _, _ => .ok b
  | b, n + 1, k_i, hashes =>
    let (hash, hashes) := b.bloom_hash sip hashes item k_i
    if b.bitmap_bits = 0 then .error .rem_by_zero
    else
      let bit_offset := hash.toNat % b.bitmap_bits
      if bit_offset < b.bit_vec.length then
        set_rounds sip item { b with bit_vec := b.bit_vec.set bit_offset true } n (k_i + 1) hashes
      else .error .bit_out_of_range

def set (sip : SipHash) (b : Bloom) (item : String) : Except Panic Bloom :=
  set_rounds sip item b b.k_num 0 (0, 0)

/-- The fields of a filter that the crate makes fit each other and the integers
of the wire format. -/
structure Sound (b : Bloom) : Prop where
  length : b.bit_vec.length = b.bitmap_bits
  bytes : 8 ∣ b.bitmap_bits
  bits_pos : 0 < b.bitmap_bits
  bits_lt : b.bitmap_bits < 2 ^ 64
  k_pos : 0 < b.k_num
  k_lt : b.k_num < 2 ^ 32
  keys : b.sip_keys.1.1 < 2 ^ 64 ∧ b.sip_keys.1.2 < 2 ^ 64 ∧
    b.sip_keys.2.1 < 2 ^ 64 ∧ b.sip_keys.2.2 < 2 ^ 64

/-- What `Bloom::new_for_fp_rate` makes, with keys drawn at random. -/
structure Fresh (b : Bloom) : Prop extends b.Sound where
  empty : ∀ bit ∈ b.bit_vec, bit = false

theorem Sound.set_bit {b : Bloom} (hb : b.Sound) (bit_offset : Nat) :
    Sound { b with bit_vec := b.bit_vec.set bit_offset true } :=
  { hb with length := (List.length_set).trans hb.length }

theorem Sound.mod_lt {b : Bloom} (hb : b.Sound) (hash : Nat) :
    hash % b.bitmap_bits < b.bit_vec.length := by
  rw [hb.length]
  exact Nat.mod_lt _ hb.bits_pos

/-- Setting bits changes the bits only. -/
theorem set_rounds_sound {sip : SipHash} {item : String} {b b' : Bloom} {n k_i : Nat}
    {hashes : UInt64 × UInt64} (hb : b.Sound) (h : set_rounds sip item b n k_i hashes = .ok b') :
    b'.Sound := by
  induction n generalizing b k_i hashes with
  | zero =>
    cases h
    exact hb
  | succ n ih =>
    rw [set_rounds] at h
    dsimp only at h
    rw [if_neg (Nat.pos_iff_ne_zero.mp hb.bits_pos)] at h
    split at h
    · exact ih (hb.set_bit _) h
    · cases h

/-- A sound filter takes every id. -/
theorem set_rounds_ok (sip : SipHash) (item : String) {b : Bloom} (hb : b.Sound) (n k_i : Nat)
    (hashes : UInt64 × UInt64) : ∃ b', set_rounds sip item b n k_i hashes = .ok b' := by
  induction n generalizing b k_i hashes with
  | zero => exact ⟨b, rfl⟩
  | succ n ih =>
    rw [set_rounds]
    dsimp only
    rw [if_neg (Nat.pos_iff_ne_zero.mp hb.bits_pos), if_pos (hb.mod_lt _)]
    exact ih (hb.set_bit _) _ _

/-- All rounds of a check that finds the id found their bit set. -/
theorem check_rounds_true {sip : SipHash} {b : Bloom} {item : String} {n k_i : Nat}
    {hashes : UInt64 × UInt64} (hmixed : Mixed sip b item k_i hashes)
    (h : b.check_rounds sip item n k_i hashes = .ok true) {k : Nat} (hlow : k_i ≤ k)
    (hhigh : k < k_i + n) :
    b.bit_vec[(b.round_hash sip item k).toNat % b.bitmap_bits]? = some true := by
  induction n generalizing k_i hashes with
  | zero => exact absurd hhigh (by omega)
  | succ n ih =>
    obtain ⟨hround, hnext⟩ := hmixed.round
    rw [check_rounds] at h
    dsimp only at h
    split at h
    · cases h
    · rw [hround] at h
      rcases hbit : b.bit_vec[(b.round_hash sip item k_i).toNat % b.bitmap_bits]?
        with _ | _ | _
      · simp only [hbit] at h
        cases h
      · simp only [hbit] at h
        cases h
      · simp only [hbit] at h
        rcases Nat.eq_or_lt_of_le hlow with rfl | hlow
        · exact hbit
        · exact ih hnext h hlow (by omega)

theorem check_true {sip : SipHash} {b : Bloom} {item : String} (h : b.check sip item = .ok true)
    {k : Nat} (hk : k < b.k_num) :
    b.bit_vec[(b.round_hash sip item k).toNat % b.bitmap_bits]? = some true := by
  have hmixed : Mixed sip b item 0 (0, 0) := by
    unfold Mixed
    omega
  exact check_rounds_true hmixed h (Nat.zero_le k) (by omega)

/-- A check that stays inside of the bitmap ends. -/
theorem check_ok (sip : SipHash) {b : Bloom} (hpos : 0 < b.bitmap_bits)
    (hle : b.bitmap_bits ≤ b.bit_vec.length) (item : String) :
    ∃ seen, b.check sip item = .ok seen := by
  rcases hcheck : b.check sip item with panic | seen
  · obtain ⟨k, -, -, hzero | hshort⟩ := (check_panics_iff sip b item).mp ⟨panic, hcheck⟩
    · exact absurd hpos (hzero ▸ Nat.lt_irrefl 0)
    · exact absurd (Nat.mod_lt _ hpos) (Nat.not_lt.mpr (hle.trans hshort))
  · exact ⟨seen, rfl⟩

end Bloom

/-! ## The functions of the wrapper -/

namespace bloom

def check (sip : Bloom.SipHash) (f : SdsBloomFilter Bloom) (message_id : MessageId) :
    Except Panic Bool :=
  f.inner.check sip message_id

/-- Add a message id. `fresh` is the filter that the crate makes when the count
reaches the capacity. -/
def set (sip : Bloom.SipHash) (fresh : Bloom) (f : SdsBloomFilter Bloom)
    (message_id : MessageId) : Except Panic (SdsBloomFilter Bloom) :=
  (f.inner.set sip message_id).map fun filter =>
    let count := f.item_count + 1
    if count ≥ f.capacity then { f with inner := fresh, item_count := 0 }
    else { f with inner := filter, item_count := count }

/-- Whether the id was seen already, and the filter that has seen it. -/
def check_and_set (sip : Bloom.SipHash) (f : SdsBloomFilter Bloom) (message_id : MessageId) :
    Except Panic (Bool × SdsBloomFilter Bloom) :=
  match f.inner.check sip message_id with
  | .error panic => .error panic
  | .ok true => .ok (true, f)
  | .ok false =>
    (f.inner.set sip message_id).map fun filter =>
      (false, { f with inner := filter, item_count := f.item_count + 1 })

def to_bytes (f : SdsBloomFilter Bloom) : Bytes :=
  le_bytes 8 f.inner.bitmap_bits ++ le_bytes 4 f.inner.k_num ++
    le_bytes 8 f.inner.sip_keys.1.1 ++ le_bytes 8 f.inner.sip_keys.1.2 ++
    le_bytes 8 f.inner.sip_keys.2.1 ++ le_bytes 8 f.inner.sip_keys.2.2 ++
    bit_bytes f.inner.bit_vec

def from_bytes (data : Bytes) : Option (SdsBloomFilter Bloom) :=
  (Bloom.from_bytes data).map fun inner =>
    { inner, capacity := DEFAULT_CAPACITY, item_count := 0 }

def probably_contains (sip : Bloom.SipHash) (f : SdsBloomFilter Bloom)
    (message_id : MessageId) : Except Panic Bool :=
  check sip f message_id

/-! ## The filters of a channel -/

/-- The filters that `set` and `check_and_set` make, from a new one on. -/
inductive Reachable (sip : Bloom.SipHash) : SdsBloomFilter Bloom → Prop
  | with_params {inner : Bloom} {capacity : Nat} (h : inner.Fresh) :
    Reachable sip { inner, capacity, item_count := 0 }
  | set {f f' : SdsBloomFilter Bloom} {fresh : Bloom} {message_id : MessageId}
    (hf : Reachable sip f) (hfresh : fresh.Fresh) (h : bloom.set sip fresh f message_id = .ok f') :
    Reachable sip f'
  | check_and_set {f f' : SdsBloomFilter Bloom} {seen : Bool} {message_id : MessageId}
    (hf : Reachable sip f) (h : bloom.check_and_set sip f message_id = .ok (seen, f')) :
    Reachable sip f'

theorem Reachable.sound {sip : Bloom.SipHash} {f : SdsBloomFilter Bloom} (h : Reachable sip f) :
    f.inner.Sound := by
  induction h with
  | with_params h => exact h.toSound
  | @set f f' fresh message_id hf hfresh h ih =>
    unfold bloom.set at h
    rcases hset : f.inner.set sip message_id with panic | filter
    · rw [hset] at h
      cases h
    · rw [hset] at h
      simp only [Except.map, Except.ok.injEq] at h
      subst h
      split
      · exact hfresh.toSound
      · exact Bloom.set_rounds_sound ih hset
  | @check_and_set f f' seen message_id hf h ih =>
    unfold bloom.check_and_set at h
    split at h
    · cases h
    · cases h
      exact ih
    · rcases hset : f.inner.set sip message_id with panic | filter
      · rw [hset] at h
        cases h
      · rw [hset] at h
        cases h
        exact Bloom.set_rounds_sound ih hset

/-- No call on a reachable filter panics. -/
theorem reachable_ok {sip : Bloom.SipHash} {f : SdsBloomFilter Bloom} (h : Reachable sip f)
    (fresh : Bloom) (message_id : MessageId) :
    (∃ seen, check sip f message_id = .ok seen) ∧
      (∃ f', set sip fresh f message_id = .ok f') ∧
      ∃ r, check_and_set sip f message_id = .ok r := by
  have hsound := h.sound
  obtain ⟨seen, hcheck⟩ := Bloom.check_ok sip hsound.bits_pos hsound.length.ge message_id
  obtain ⟨filter, hset⟩ := Bloom.set_rounds_ok sip message_id hsound
    f.inner.k_num 0 (0, 0)
  have hset : f.inner.set sip message_id = .ok filter := hset
  refine ⟨⟨seen, hcheck⟩, ?_, ?_⟩
  · unfold set
    rw [hset]
    exact ⟨_, rfl⟩
  · unfold check_and_set
    rw [hcheck, hset]
    cases seen <;> exact ⟨_, rfl⟩

/-- A filter whose fields fit is read back as it was written. -/
theorem from_bytes_to_bytes {f : SdsBloomFilter Bloom} (h : f.inner.Sound) :
    from_bytes (to_bytes f) =
      some { inner := f.inner, capacity := DEFAULT_CAPACITY, item_count := 0 } := by
  obtain ⟨bytes, hbytes⟩ := h.bytes
  have hbits := flatMap_bit_bytes (h.length.trans hbytes)
  obtain ⟨h11, h12, h21, h22⟩ := h.keys
  have hinner : Bloom.from_bytes (to_bytes f) = some f.inner := by
    have hlen : ¬ (to_bytes f).length < 44 := by
      simp only [to_bytes, List.length_append, length_le_bytes]
      omega
    have hword : ∀ n < 2 ^ 64, from_le_bytes (le_bytes 8 n) = n := fun n hn =>
      from_le_bytes_le_bytes (Nat.lt_of_lt_of_eq hn (by decide))
    have hk : from_le_bytes (le_bytes 4 f.inner.k_num) = f.inner.k_num :=
      from_le_bytes_le_bytes (Nat.lt_of_lt_of_eq h.k_lt (by decide))
    unfold Bloom.from_bytes
    rw [if_neg hlen]
    simp [to_bytes, List.drop_append, List.drop_of_length_le, hbits, hk, hword _ h.bits_lt,
      hword _ h11, hword _ h12, hword _ h21, hword _ h22]
  unfold from_bytes
  rw [hinner]
  rfl

/-! ## The filters of the peers -/

/-- The bit count that the header declares. -/
def header_bits (data : Bytes) : Nat := from_le_bytes (data.take 8)

/-- The number of hash functions that the header declares. -/
def header_k (data : Bytes) : Nat := from_le_bytes ((data.drop 8).take 4)

/-- What is read can be used: a check stays inside of the bitmap, and finds an id
only by bits that it has tested. A header that promises neither is refused. -/
structure Guarded (sip : Bloom.SipHash) (data : Bytes) : Prop where
  inside : ∀ f, from_bytes data = some f → ∀ message_id,
    ∃ seen, probably_contains sip f message_id = .ok seen
  grounded : ∀ f, from_bytes data = some f → ∀ message_id,
    probably_contains sip f message_id = .ok true → 0 < f.inner.k_num ∧
      ∀ k < f.inner.k_num,
        f.inner.bit_vec[(f.inner.round_hash sip message_id k).toNat % f.inner.bitmap_bits]? =
          some true
  refused : 44 ≤ data.length →
    (header_k data = 0 ∨ header_bits data = 0 ∨ 8 * (data.length - 44) < header_bits data) →
    from_bytes data = none

/-- The header, if there is one, fits the bitmap behind it. -/
def Coherent (data : Bytes) : Prop :=
  44 ≤ data.length → 0 < header_k data ∧ 0 < header_bits data ∧
    header_bits data ≤ 8 * (data.length - 44)

theorem length_flatMap_byte_bits (data : Bytes) :
    (data.flatMap Bloom.byte_bits).length = 8 * data.length := by
  induction data with
  | nil => rfl
  | cons b data ih =>
    rw [List.flatMap_cons, List.length_append, ih, List.length_cons, Nat.mul_succ, Nat.add_comm]
    rfl

/-- The fields of a filter that is read. -/
theorem from_bytes_eq_some {data : Bytes} {f : SdsBloomFilter Bloom}
    (h : from_bytes data = some f) : 44 ≤ data.length ∧ f.inner.k_num = header_k data ∧
      f.inner.bitmap_bits = header_bits data ∧
      f.inner.bit_vec.length = 8 * (data.length - 44) := by
  unfold from_bytes Bloom.from_bytes at h
  by_cases hlen : data.length < 44
  · rw [if_pos hlen] at h
    cases h
  · rw [if_neg hlen] at h
    cases h
    refine ⟨Nat.le_of_not_lt hlen, rfl, rfl, ?_⟩
    rw [length_flatMap_byte_bits, List.length_drop]

theorem from_bytes_ne_none {data : Bytes} (h : 44 ≤ data.length) : from_bytes data ≠ none := by
  unfold from_bytes Bloom.from_bytes
  rw [if_neg (Nat.not_lt.mpr h)]
  exact nofun

/-- Filters go over the wire unharmed, and a byte string is treated with care if
and only if it is too short for a header or its header fits the bitmap. -/
theorem the_bloom_codec_is_guarded_iff (sip : Bloom.SipHash) :
    (∀ f, Reachable sip f → ∃ f', from_bytes (to_bytes f) = some f' ∧
      ∀ message_id, check sip f' message_id = check sip f message_id) ∧
    ∀ data, Guarded sip data ↔ Coherent data := by
  constructor
  · intro f hf
    exact ⟨_, from_bytes_to_bytes hf.sound, fun _ => rfl⟩
  · intro data
    constructor
    · intro hguarded hlen
      have hkept := mt (hguarded.refused hlen) (from_bytes_ne_none hlen)
      omega
    · intro hcoherent
      constructor
      · intro f hf message_id
        obtain ⟨hlen, -, hbits, hvec⟩ := from_bytes_eq_some hf
        obtain ⟨-, hpos, hle⟩ := hcoherent hlen
        exact Bloom.check_ok sip (hbits ▸ hpos) (hbits ▸ hvec ▸ hle) message_id
      · intro f hf message_id hseen
        obtain ⟨hlen, hk, -, -⟩ := from_bytes_eq_some hf
        exact ⟨hk ▸ (hcoherent hlen).1, fun k hk => Bloom.check_true hseen hk⟩
      · intro hlen hbad
        have hfits := hcoherent hlen
        omega

/-- A hundred zeros are a filter that has seen every id, and with one hash
function it divides by zero. -/
theorem a_header_of_zeros_is_taken :
    (∃ f, from_bytes (List.replicate 100 0) = some f ∧
      ∀ message_id, probably_contains (fun _ _ => 0) f message_id = .ok true) ∧
    (∃ f, from_bytes (List.replicate 8 0 ++ 1 :: List.replicate 91 0) = some f ∧
      probably_contains (fun _ _ => 0) f "id" = .error .rem_by_zero) ∧
    ¬ Guarded (fun _ _ => 0) (List.replicate 100 0) := by
  refine ⟨⟨_, rfl, fun _ => rfl⟩, ⟨_, rfl, rfl⟩, fun hguarded => ?_⟩
  cases hguarded.refused (by decide) (.inl (by decide))

end bloom

end lmao.sds
