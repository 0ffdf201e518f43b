-- Base64 with the standard alphabet: padding is required, and the bits of the
-- last digit that no byte takes are zero.
import Lmao.Bytes

namespace lmao.base64

def digit (n : Nat) : Char :=
  if n < 26 then Char.ofNat (65 + n)
  else if n < 52 then Char.ofNat (71 + n)
  else if n < 62 then Char.ofNat (n - 4)
  else if n = 62 then '+'
  else '/'

def value (c : Char) : Option Nat :=
  if 'A' ≤ c ∧ c ≤ 'Z' then some (c.toNat - 65)
  else if 'a' ≤ c ∧ c ≤ 'z' then some (c.toNat - 71)
  else if '0' ≤ c ∧ c ≤ '9' then some (c.toNat + 4)
  else if c = '+' then some 62
  else if c = '/' then some 63
  else none

def encode_chars : Bytes → List Char
  | [] => []
  | [a] => [digit (a.toNat / 4), digit (a.toNat % 4 * 16), '=', '=']
  | [a, b] =>
    [digit (a.toNat / 4), digit (a.toNat % 4 * 16 + b.toNat / 16), digit (b.toNat % 16 * 4), '=']
  | a :: b :: c :: rest =>
    digit (a.toNat / 4) :: digit (a.toNat % 4 * 16 + b.toNat / 16) ::
      digit (b.toNat % 16 * 4 + c.toNat / 64) :: digit (c.toNat % 64) :: encode_chars rest

/-- The bytes of one group of digits. Only the last group has padding. -/
def decode_group (w x y z : Char) (last : Bool) : Option Bytes := do
  let w ← value w
  let x ← value x
  let first := UInt8.ofNat (w * 4 + x / 16)
  if last ∧ y = '=' ∧ z = '=' then
    if x % 16 = 0 then return [first] else none
  else
    let y ← value y
    let second := UInt8.ofNat (x % 16 * 16 + y / 4)
    if last ∧ z = '=' then
      if y % 4 = 0 then return [first, second] else none
    else
      let z ← value z
      return [first, second, UInt8.ofNat (y % 4 * 64 + z)]

def decode_chars : List Char → Option Bytes
  | [] => some []
  | w :: x :: y :: z :: rest => do
    let group ← decode_group w x y z rest.isEmpty
    let bytes ← decode_chars rest
    return group ++ bytes
  | _ => none

def encode (bs : Bytes) : String := String.ofList (encode_chars bs)

def decode (s : String) : Option Bytes := decode_chars s.toList

/-! ## The round trip -/

theorem value_digit : ∀ n < 64, value (digit n) = some n ∧ digit n ≠ '=' := by decide

theorem ofNat_eq {a : UInt8} {n : Nat} (h : n = a.toNat) : UInt8.ofNat n = a := by
  rw [h]
  exact UInt8.ofNat_toNat

section Groups

variable {w x y z : Nat} (hw : w < 64) (hx : x < 64) (hy : y < 64) (hz : z < 64) (last : Bool)

include hw hx in
theorem decode_group_one (h : x % 16 = 0) :
    decode_group (digit w) (digit x) '=' '=' true = some [UInt8.ofNat (w * 4 + x / 16)] := by
  simp only [decode_group, (value_digit w hw).1, (value_digit x hx).1, h, Option.bind_eq_bind,
    Option.bind_some, and_self, if_true, Option.pure_def]

include hw hx hy in
theorem decode_group_two (h : y % 4 = 0) :
    decode_group (digit w) (digit x) (digit y) '=' true =
      some [UInt8.ofNat (w * 4 + x / 16), UInt8.ofNat (x % 16 * 16 + y / 4)] := by
  simp only [decode_group, (value_digit w hw).1, (value_digit x hx).1, (value_digit y hy).1,
    (value_digit y hy).2, h, Option.bind_eq_bind, Option.bind_some, and_self, and_true, and_false,
    if_true, if_false, Option.pure_def]

include hw hx hy hz in
theorem decode_group_three :
    decode_group (digit w) (digit x) (digit y) (digit z) last =
      some [UInt8.ofNat (w * 4 + x / 16), UInt8.ofNat (x % 16 * 16 + y / 4),
        UInt8.ofNat (y % 4 * 64 + z)] := by
  simp only [decode_group, (value_digit w hw).1, (value_digit x hx).1, (value_digit y hy).1,
    (value_digit z hz).1, (value_digit z hz).2, Option.bind_eq_bind, Option.bind_some, and_false,
    if_false, Option.pure_def]

end Groups

theorem decode_encode_chars (bs : Bytes) : decode_chars (encode_chars bs) = some bs := by
  induction bs using encode_chars.induct with
  | case1 => rfl
  | case2 a =>
    have ha := a.toNat_lt
    have hgroup := decode_group_one (w := a.toNat / 4) (x := a.toNat % 4 * 16) (by omega)
      (by omega) (by omega)
    rw [ofNat_eq (a := a) (by omega)] at hgroup
    simp only [encode_chars, decode_chars, List.isEmpty_nil, hgroup, Option.bind_eq_bind,
      Option.bind_some, List.append_nil, Option.pure_def]
  | case3 a b =>
    have ha := a.toNat_lt
    have hb := b.toNat_lt
    have hgroup := decode_group_two (w := a.toNat / 4) (x := a.toNat % 4 * 16 + b.toNat / 16)
      (y := b.toNat % 16 * 4) (by omega) (by omega) (by omega) (by omega)
    rw [ofNat_eq (a := a) (by omega), ofNat_eq (a := b) (by omega)] at hgroup
    simp only [encode_chars, decode_chars, List.isEmpty_nil, hgroup, Option.bind_eq_bind,
      Option.bind_some, List.append_nil, Option.pure_def]
  | case4 a b c rest ih =>
    have ha := a.toNat_lt
    have hb := b.toNat_lt
    have hc := c.toNat_lt
    have hgroup := decode_group_three (w := a.toNat / 4) (x := a.toNat % 4 * 16 + b.toNat / 16)
      (y := b.toNat % 16 * 4 + c.toNat / 64) (z := c.toNat % 64) (by omega) (by omega) (by omega)
      (by omega) (encode_chars rest).isEmpty
    rw [ofNat_eq (a := a) (by omega), ofNat_eq (a := b) (by omega),
      ofNat_eq (a := c) (by omega)] at hgroup
    simp only [encode_chars, decode_chars, hgroup, ih, Option.bind_eq_bind, Option.bind_some,
      List.cons_append, List.nil_append, Option.pure_def]

/-- The text of a byte string decodes to the byte string. -/
theorem decode_encode (bs : Bytes) : decode (encode bs) = some bs := by
  simp [decode, encode, decode_encode_chars]

example : decode "SGVsbG8=" = some (utf8 "Hello") := by decide +kernel

end lmao.base64
