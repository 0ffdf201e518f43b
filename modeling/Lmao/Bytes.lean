-- Byte strings, the little-endian integers and the hex texts that the Rust
-- code reads from them, and the panics that it can reach.
import Mathlib.Data.List.Basic

namespace lmao

abbrev Bytes := List UInt8

/-- The panics of the modelled code. Additions on `u64` wrap, as they do in
a release build, so an overflow is none of them. -/
inductive Panic
  /-- `%` with a right side of 0. -/
  | rem_by_zero
  /-- `unwrap` of the bit at an index past the end of a bit vector. -/
  | bit_out_of_range
  /-- `Nonce::from_slice` on a slice that is not 12 bytes long. -/
  | nonce_length
  /-- `unwrap` of a `None`. -/
  | unwrap_none
  /-- `+` that overflows, with overflow checks. -/
  | add_overflow
  /-- A slice of a text that begins or ends inside of a character. -/
  | char_boundary
  /-- `*` that overflows, with overflow checks. -/
  | mul_overflow
deriving DecidableEq, Repr

/-- The bytes of a text. -/
def utf8 (s : String) : Bytes := s.toUTF8.toList

/-- The integer whose little-endian bytes these are. -/
def from_le_bytes : Bytes → Nat
  | [] => 0
  | b :: bs => b.toNat + 256 * from_le_bytes bs

/-! ## Hex texts -/

def hex_digit (n : Nat) : Char :=
  if n < 10 then Char.ofNat (48 + n) else Char.ofNat (87 + n)

/-- The value of a hex digit. Both cases are digits. -/
def hex_val (c : Char) : Option Nat :=
  if '0' ≤ c ∧ c ≤ '9' then some (c.toNat - 48)
  else if 'a' ≤ c ∧ c ≤ 'f' then some (c.toNat - 87)
  else if 'A' ≤ c ∧ c ≤ 'F' then some (c.toNat - 55)
  else none

def hex_digits (bs : Bytes) : List Char :=
  bs.flatMap fun b => [hex_digit (b.toNat / 16), hex_digit (b.toNat % 16)]

/-- `hex::encode`: two lower-case digits for each byte. -/
def hex_encode (bs : Bytes) : String := String.ofList (hex_digits bs)

/-- The bytes of a list of digits, or nothing for an odd length or for a
character that is no digit. -/
def hex_bytes : List Char → Option Bytes
  | [] => some []
  | [_] => none
  | a :: b :: rest => do
    let x ← hex_val a
    let y ← hex_val b
    let bs ← hex_bytes rest
    return UInt8.ofNat (16 * x + y) :: bs

/-- `hex::decode`, with `None` for its errors. -/
def hex_decode (s : String) : Option Bytes := hex_bytes s.toList

theorem hex_val_digit : ∀ n < 16, hex_val (hex_digit n) = some n := by decide

theorem hex_bytes_digits (bs : Bytes) : hex_bytes (hex_digits bs) = some bs := by
  induction bs with
  | nil => rfl
  | cons b bs ih =>
    have hb := b.toNat_lt
    have hhigh := hex_val_digit (b.toNat / 16) (by omega)
    have hlow := hex_val_digit (b.toNat % 16) (by omega)
    have hsum : UInt8.ofNat (16 * (b.toNat / 16) + b.toNat % 16) = b := by
      rw [show 16 * (b.toNat / 16) + b.toNat % 16 = b.toNat by omega]
      exact UInt8.ofNat_toNat
    simp only [hex_digits] at ih
    simp only [hex_digits, List.flatMap_cons, List.cons_append, List.nil_append, hex_bytes, hhigh,
      hlow, ih, Option.bind_eq_bind, Option.bind_some, hsum, Option.pure_def]

/-- The text of a byte string decodes to the byte string. -/
theorem hex_decode_encode (bs : Bytes) : hex_decode (hex_encode bs) = some bs := by
  simp [hex_decode, hex_encode, hex_bytes_digits]

end lmao
