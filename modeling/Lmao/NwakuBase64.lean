-- The base64 codec of the nwaku transport (nwaku_rest.rs), which is written out by
-- hand: what it encodes it decodes, and it decodes every other text too.
import Mathlib.Data.Bool.AllAny
import Mathlib.Data.List.DropRight
import Lmao.Channel

namespace lmao.nwaku_rest

open sds

/-! ## Bits -/

/-- The lowest `width` bits of a number, the highest first. -/
def bits (width n : Nat) : List Bool :=
  (List.range width).map fun i => n.testBit (width - 1 - i)

@[simp] theorem length_bits (width n : Nat) : (bits width n).length = width := by
  simp [bits]

/-- Two digits that are shifted to their places and joined. -/
theorem shiftLeft_or {a b w : Nat} (hb : b < 2 ^ w) (i : Nat) :
    a <<< (i + w) ||| b <<< i = (a * 2 ^ w + b) <<< i := by
  rw [Nat.add_comm i w, Nat.shiftLeft_add, ← Nat.shiftLeft_or_distrib, Nat.shiftLeft_eq a,
    Nat.mul_comm a, Nat.two_pow_add_eq_or_of_lt hb]

/-- The bits of a number are those of its high part and of its low part. -/
theorem bits_append (w v a : Nat) {b : Nat} (hb : b < 2 ^ v) :
    bits (w + v) (2 ^ v * a + b) = bits w a ++ bits v b := by
  unfold bits
  rw [List.range_add, List.map_append, List.map_map]
  congr 1
  · apply List.map_congr_left
    intro i hi
    have hlt := List.mem_range.mp hi
    rw [Nat.testBit_two_pow_mul_add a hb, if_neg (by omega)]
    congr 1
    omega
  · apply List.map_congr_left
    intro i hi
    have hlt := List.mem_range.mp hi
    have hindex : w + v - 1 - (w + i) = v - 1 - i := by omega
    dsimp only [Function.comp_apply]
    rw [Nat.testBit_two_pow_mul_add a hb, if_pos (by omega), hindex]

/-- A digit in two parts. -/
theorem bits_split (w v : Nat) {n : Nat} :
    bits w (n / 2 ^ v) = (bits (w + v) n).take w ∧
      bits v (n % 2 ^ v) = (bits (w + v) n).drop w := by
  have hsplit := bits_append w v (n / 2 ^ v) (Nat.mod_lt n (Nat.two_pow_pos v))
  rw [Nat.div_add_mod] at hsplit
  rw [hsplit]
  constructor
  · exact (List.take_left' (length_bits _ _)).symm
  · exact (List.drop_left' (length_bits _ _)).symm

/-! ## The codec -/

def alphabet : List Char :=
  "ABCDEFGHIJKLMNOPQRSTUVWXYZabcdefghijklmnopqrstuvwxyz0123456789+/".toList

/-- `alphabet[n] as char`. The index is always below 64. -/
def symbol (n : Nat) : Char := alphabet.getD n '='

/-- The place of a byte in the alphabet. -/
def position (b : UInt8) : Option Nat := (alphabet.map fun c => UInt8.ofNat c.toNat).idxOf? b

def encode_triple (b0 b1 b2 : Nat) : Nat := b0 <<< 16 ||| b1 <<< 8 ||| b2

def encode_chunks : Bytes → List Char
  | [] => []
  | [b0] =>
    let triple := encode_triple b0.toNat 0 0
    [symbol (triple >>> 18 &&& 0x3F), symbol (triple >>> 12 &&& 0x3F), '=', '=']
  | [b0, b1] =>
    let triple := encode_triple b0.toNat b1.toNat 0
    [symbol (triple >>> 18 &&& 0x3F), symbol (triple >>> 12 &&& 0x3F),
      symbol (triple >>> 6 &&& 0x3F), '=']
  | b0 :: b1 :: b2 :: rest =>
    let triple := encode_triple b0.toNat b1.toNat b2.toNat
    symbol (triple >>> 18 &&& 0x3F) :: symbol (triple >>> 12 &&& 0x3F) ::
      symbol (triple >>> 6 &&& 0x3F) :: symbol (triple &&& 0x3F) :: encode_chunks rest

def base64_encode (data : Bytes) : String := String.ofList (encode_chunks data)

def decode_triple (b0 b1 b2 b3 : Nat) : Nat := b0 <<< 18 ||| b1 <<< 12 ||| b2 <<< 6 ||| b3

/-- A chunk of one digit ends the loop. -/
def decode_chunks : List Nat → Bytes
  | [] => []
  | [_] => []
  | [b0, b1] => [UInt8.ofNat (decode_triple b0 b1 0 0 >>> 16 &&& 0xFF)]
  | [b0, b1, b2] =>
    let triple := decode_triple b0 b1 b2 0
    [UInt8.ofNat (triple >>> 16 &&& 0xFF), UInt8.ofNat (triple >>> 8 &&& 0xFF)]
  | b0 :: b1 :: b2 :: b3 :: rest =>
    let triple := decode_triple b0 b1 b2 b3
    UInt8.ofNat (triple >>> 16 &&& 0xFF) :: UInt8.ofNat (triple >>> 8 &&& 0xFF) ::
      UInt8.ofNat (triple &&& 0xFF) :: decode_chunks rest

/-- `trim_end_matches('=')` -/
def trim_padding (input : List Char) : List Char := input.rdropWhile (· = '=')

/-- Every `=` at the end and every byte that is not in the alphabet is dropped. -/
def base64_decode (input : String) : Except TransportError Bytes :=
  .ok (decode_chunks (((trim_padding input.toList).flatMap String.utf8EncodeChar).filterMap
    position))

structure WakuMessageResponse where
  payload : String
  content_topic : Option String
deriving DecidableEq, Repr

/-- The payloads of the messages on the topic, or without a topic. -/
def poll_rest_payloads (topic : String) (messages : List WakuMessageResponse) : List Bytes :=
  messages.filterMap fun msg =>
    if msg.content_topic.all (· = topic) then (base64_decode msg.payload).toOption else none

/-! ## Digits -/

/-- The place of a character in the alphabet. -/
def value (c : Char) : Option Nat := alphabet.idxOf? c

theorem value_symbol : ∀ n < 64, value (symbol n) = some n ∧ symbol n ∈ alphabet := by
  decide +kernel

theorem value_lt {c : Char} (h : c ∈ alphabet) : ∃ n < 64, value c = some n := by
  obtain ⟨n, hn⟩ := Option.isSome_iff_exists.mp (List.isSome_idxOf?.mpr h)
  exact ⟨n, (List.idxOf?_eq_some_iff.mp hn).1, hn⟩

theorem encode_triple_eq {b0 b1 b2 : Nat} (h1 : b1 < 256) (h2 : b2 < 256) :
    encode_triple b0 b1 b2 = b0 * 65536 + b1 * 256 + b2 := by
  have hhigh := shiftLeft_or (a := b0) (w := 8) h1 8
  have hlow := shiftLeft_or (a := b0 * 2 ^ 8 + b1) (w := 8) h2 0
  unfold encode_triple
  rw [hhigh]
  simp only [Nat.shiftLeft_zero, Nat.zero_add] at hlow
  rw [hlow]
  omega

theorem decode_triple_eq {b0 b1 b2 b3 : Nat} (h1 : b1 < 64) (h2 : b2 < 64) (h3 : b3 < 64) :
    decode_triple b0 b1 b2 b3 = b0 * 262144 + b1 * 4096 + b2 * 64 + b3 := by
  have hfirst := shiftLeft_or (a := b0) (w := 6) h1 12
  have hsecond := shiftLeft_or (a := b0 * 2 ^ 6 + b1) (w := 6) h2 6
  have hthird := shiftLeft_or (a := (b0 * 2 ^ 6 + b1) * 2 ^ 6 + b2) (w := 6) h3 0
  unfold decode_triple
  rw [hfirst, hsecond]
  simp only [Nat.shiftLeft_zero, Nat.zero_add] at hthird
  rw [hthird]
  omega

theorem and_byte (n : Nat) : n &&& 0xFF = n % 256 := Nat.and_two_pow_sub_one_eq_mod n 8

theorem and_digit (n : Nat) : n &&& 0x3F = n % 64 := Nat.and_two_pow_sub_one_eq_mod n 6

/-- The bytes of a group of four digits. -/
theorem decode_triple_bytes (b0 b1 b2 b3 : Nat) (h0 : b0 < 64) (h1 : b1 < 64) (h2 : b2 < 64)
    (h3 : b3 < 64) :
    decode_triple b0 b1 b2 b3 >>> 16 &&& 0xFF = b0 * 4 + b1 / 16 ∧
      decode_triple b0 b1 b2 b3 >>> 8 &&& 0xFF = b1 % 16 * 16 + b2 / 4 ∧
      decode_triple b0 b1 b2 b3 &&& 0xFF = b2 % 4 * 64 + b3 := by
  rw [decode_triple_eq h1 h2 h3]
  simp only [Nat.shiftRight_eq_div_pow, and_byte]
  omega

/-- The digits of a group of three bytes. -/
theorem encode_triple_digits (b0 b1 b2 : Nat) (h0 : b0 < 256) (h1 : b1 < 256) (h2 : b2 < 256) :
    encode_triple b0 b1 b2 >>> 18 &&& 0x3F = b0 / 4 ∧
      encode_triple b0 b1 b2 >>> 12 &&& 0x3F = b0 % 4 * 16 + b1 / 16 ∧
      encode_triple b0 b1 b2 >>> 6 &&& 0x3F = b1 % 16 * 4 + b2 / 64 ∧
      encode_triple b0 b1 b2 &&& 0x3F = b2 % 64 := by
  rw [encode_triple_eq h1 h2]
  simp only [Nat.shiftRight_eq_div_pow, and_digit]
  omega

/-- The digits of a byte string, without the padding. -/
def digits : Bytes → List Nat
  | [] => []
  | [b0] => [b0.toNat / 4, b0.toNat % 4 * 16]
  | [b0, b1] => [b0.toNat / 4, b0.toNat % 4 * 16 + b1.toNat / 16, b1.toNat % 16 * 4]
  | b0 :: b1 :: b2 :: rest =>
    b0.toNat / 4 :: (b0.toNat % 4 * 16 + b1.toNat / 16) :: (b1.toNat % 16 * 4 + b2.toNat / 64) ::
      (b2.toNat % 64) :: digits rest

theorem digits_lt (data : Bytes) : ∀ n ∈ digits data, n < 64 := by
  induction data using digits.induct with
  | case1 => nofun
  | case2 b0 =>
    have h0 := b0.toNat_lt
    simp only [digits, List.mem_cons, List.not_mem_nil, or_false, forall_eq_or_imp, forall_eq]
    omega
  | case3 b0 b1 =>
    have h0 := b0.toNat_lt
    have h1 := b1.toNat_lt
    simp only [digits, List.mem_cons, List.not_mem_nil, or_false, forall_eq_or_imp, forall_eq]
    omega
  | case4 b0 b1 b2 rest ih =>
    have h0 := b0.toNat_lt
    have h1 := b1.toNat_lt
    have h2 := b2.toNat_lt
    simp only [digits, List.mem_cons, forall_eq_or_imp]
    exact ⟨by omega, by omega, by omega, by omega, ih⟩

/-- The text of a byte string is its digits and padding. -/
theorem encode_chunks_eq (data : Bytes) :
    ∃ n, encode_chunks data = (digits data).map symbol ++ List.replicate n '=' := by
  induction data using digits.induct with
  | case1 => exact ⟨0, rfl⟩
  | case2 b0 =>
    obtain ⟨hd0, hd1, -, -⟩ := encode_triple_digits _ 0 0 b0.toNat_lt (by decide) (by decide)
    refine ⟨2, ?_⟩
    rw [encode_chunks, digits, hd0, hd1]
    rfl
  | case3 b0 b1 =>
    obtain ⟨hd0, hd1, hd2, -⟩ := encode_triple_digits _ _ 0 b0.toNat_lt b1.toNat_lt (by decide)
    refine ⟨1, ?_⟩
    rw [encode_chunks, digits, hd0, hd1, hd2]
    rfl
  | case4 b0 b1 b2 rest ih =>
    obtain ⟨hd0, hd1, hd2, hd3⟩ := encode_triple_digits _ _ _ b0.toNat_lt b1.toNat_lt b2.toNat_lt
    obtain ⟨n, hrest⟩ := ih
    refine ⟨n, ?_⟩
    rw [encode_chunks, digits, hd0, hd1, hd2, hd3, hrest]
    rfl

theorem ofNat_eq {b : UInt8} {n : Nat} (h : n = b.toNat) : UInt8.ofNat n = b := by
  rw [h]
  exact UInt8.ofNat_toNat

/-- The digits of a byte string give it back. -/
theorem decode_chunks_digits (data : Bytes) : decode_chunks (digits data) = data := by
  induction data using digits.induct with
  | case1 => rfl
  | case2 b0 =>
    have h0 := b0.toNat_lt
    obtain ⟨hb0, -, -⟩ := decode_triple_bytes (b0.toNat / 4) (b0.toNat % 4 * 16) 0 0 (by omega)
      (by omega) (by decide) (by decide)
    rw [digits, decode_chunks, hb0, ofNat_eq (b := b0) (by omega)]
  | case3 b0 b1 =>
    have h0 := b0.toNat_lt
    have h1 := b1.toNat_lt
    obtain ⟨hb0, hb1, -⟩ := decode_triple_bytes (b0.toNat / 4)
      (b0.toNat % 4 * 16 + b1.toNat / 16) (b1.toNat % 16 * 4) 0 (by omega) (by omega) (by omega)
      (by decide)
    rw [digits, decode_chunks, hb0, hb1, ofNat_eq (b := b0) (by omega),
      ofNat_eq (b := b1) (by omega)]
  | case4 b0 b1 b2 rest ih =>
    have h0 := b0.toNat_lt
    have h1 := b1.toNat_lt
    have h2 := b2.toNat_lt
    obtain ⟨hb0, hb1, hb2⟩ := decode_triple_bytes (b0.toNat / 4)
      (b0.toNat % 4 * 16 + b1.toNat / 16) (b1.toNat % 16 * 4 + b2.toNat / 64) (b2.toNat % 64)
      (by omega) (by omega) (by omega) (by omega)
    rw [digits, decode_chunks, hb0, hb1, hb2, ih, ofNat_eq (b := b0) (by omega),
      ofNat_eq (b := b1) (by omega), ofNat_eq (b := b2) (by omega)]

/-- The bits of the bytes of a group are the bits of its digits. -/
theorem group_bits (b0 b1 b2 b3 : Nat) (h0 : b0 < 64) (h1 : b1 < 64) (h2 : b2 < 64)
    (h3 : b3 < 64) :
    bits 8 (UInt8.ofNat (b0 * 4 + b1 / 16)).toNat = bits 6 b0 ++ (bits 6 b1).take 2 ∧
      bits 8 (UInt8.ofNat (b1 % 16 * 16 + b2 / 4)).toNat =
        (bits 6 b1).drop 2 ++ (bits 6 b2).take 4 ∧
      bits 8 (UInt8.ofNat (b2 % 4 * 64 + b3)).toNat = (bits 6 b2).drop 4 ++ bits 6 b3 := by
  have toNat_byte : ∀ n < 256, (UInt8.ofNat n).toNat = n := fun n hn => by
    rw [UInt8.toNat_ofNat', Nat.mod_eq_of_lt hn]
  rw [toNat_byte _ (by omega), toNat_byte _ (by omega), toNat_byte _ (by omega),
    ← (bits_split 2 4).1, ← (bits_split 2 4).2, ← (bits_split 4 2).1, ← (bits_split 4 2).2,
    Nat.mul_comm b0, Nat.mul_comm (b1 % 16), Nat.mul_comm (b2 % 4)]
  refine ⟨?_, ?_, ?_⟩
  · exact bits_append 6 2 b0 (by omega)
  · exact bits_append 4 4 (b1 % 16) (by omega)
  · exact bits_append 2 6 (b2 % 4) h3

/-- The bytes of a list of digits are the bits of the digits, as far as they fill
bytes. -/
theorem decode_chunks_bits {ds : List Nat} (h : ∀ d ∈ ds, d < 64) :
    (decode_chunks ds).length = ds.length * 6 / 8 ∧
      (decode_chunks ds).flatMap (fun b => bits 8 b.toNat) =
        (ds.flatMap (bits 6)).take (8 * (ds.length * 6 / 8)) := by
  induction ds using decode_chunks.induct with
  | case1 => exact ⟨rfl, rfl⟩
  | case2 b0 => simp [decode_chunks]
  | case3 b0 b1 =>
    simp only [List.mem_cons, List.not_mem_nil, or_false, forall_eq_or_imp, forall_eq] at h
    obtain ⟨h0, h1⟩ := h
    obtain ⟨hb0, -, -⟩ := decode_triple_bytes _ _ 0 0 h0 h1 (by decide) (by decide)
    obtain ⟨hfirst, -, -⟩ := group_bits _ _ 0 0 h0 h1 (by decide) (by decide)
    rw [decode_chunks, hb0]
    simp only [List.flatMap_cons, List.flatMap_nil, List.append_nil, hfirst]
    have hcount : 8 * ([b0, b1].length * 6 / 8) = (bits 6 b0).length + 2 := by simp
    rw [hcount, List.take_length_add_append]
    exact ⟨by simp, rfl⟩
  | case4 b0 b1 b2 =>
    simp only [List.mem_cons, List.not_mem_nil, or_false, forall_eq_or_imp, forall_eq] at h
    obtain ⟨h0, h1, h2⟩ := h
    obtain ⟨hb0, hb1, -⟩ := decode_triple_bytes _ _ _ 0 h0 h1 h2 (by decide)
    obtain ⟨hfirst, hsecond, -⟩ := group_bits _ _ _ 0 h0 h1 h2 (by decide)
    rw [decode_chunks, hb0, hb1]
    simp only [List.flatMap_cons, List.flatMap_nil, List.append_nil, hfirst, hsecond]
    have hcount : 8 * ([b0, b1, b2].length * 6 / 8) = (bits 6 b0 ++ bits 6 b1).length + 4 := by
      simp
    rw [hcount, List.append_assoc, ← List.append_assoc ((bits 6 b1).take 2),
      List.take_append_drop, ← List.append_assoc (bits 6 b0), ← List.append_assoc (bits 6 b0),
      List.take_length_add_append]
    exact ⟨by simp, rfl⟩
  | case5 b0 b1 b2 b3 rest ih =>
    simp only [List.mem_cons, forall_eq_or_imp] at h
    obtain ⟨h0, h1, h2, h3, hrest⟩ := h
    obtain ⟨hlen, hbits⟩ := ih hrest
    obtain ⟨hb0, hb1, hb2⟩ := decode_triple_bytes _ _ _ _ h0 h1 h2 h3
    obtain ⟨hfirst, hsecond, hthird⟩ := group_bits _ _ _ _ h0 h1 h2 h3
    have hgroup : (bits 6 b0 ++ (bits 6 b1).take 2) ++ ((bits 6 b1).drop 2 ++ (bits 6 b2).take 4) ++
        ((bits 6 b2).drop 4 ++ bits 6 b3) = bits 6 b0 ++ bits 6 b1 ++ bits 6 b2 ++ bits 6 b3 := by
      simp only [List.append_assoc]
      rw [← List.append_assoc ((bits 6 b1).take 2), List.take_append_drop,
        ← List.append_assoc ((bits 6 b2).take 4), List.take_append_drop]
    have hcount : (b0 :: b1 :: b2 :: b3 :: rest).length * 6 / 8 = rest.length * 6 / 8 + 3 := by
      simp only [List.length_cons]
      omega
    rw [decode_chunks, hb0, hb1, hb2, hcount]
    refine ⟨by rw [List.length_cons, List.length_cons, List.length_cons, hlen], ?_⟩
    simp only [List.flatMap_cons, hfirst, hsecond, hthird, hbits]
    rw [← List.append_assoc, ← List.append_assoc, hgroup, Nat.mul_add, Nat.add_comm,
      ← List.append_assoc, ← List.append_assoc, ← List.append_assoc]
    exact (List.take_length_add_append _).symm

/-! ## Texts -/

theorem utf8EncodeChar_of_ascii {c : Char} (h : c.toNat ≤ 127) :
    String.utf8EncodeChar c = [UInt8.ofNat c.toNat] := if_pos h

/-- Every byte of a character outside of ASCII is above ASCII. -/
theorem utf8EncodeChar_of_wide {c : Char} (h : 127 < c.toNat) :
    ∀ b ∈ String.utf8EncodeChar c, 127 < b.toNat := by
  have hval := c.val.toNat_lt
  have hc : c.toNat = c.val.toNat := rfl
  intro b hb
  unfold String.utf8EncodeChar at hb
  dsimp only at hb
  rw [if_neg (by omega)] at hb
  split at hb
  · simp only [List.mem_cons, List.not_mem_nil, or_false] at hb
    rcases hb with rfl | rfl <;> rw [UInt8.toNat_ofNat'] <;> omega
  · split at hb
    · simp only [List.mem_cons, List.not_mem_nil, or_false] at hb
      rcases hb with rfl | rfl | rfl <;> rw [UInt8.toNat_ofNat'] <;> omega
    · simp only [List.mem_cons, List.not_mem_nil, or_false] at hb
      rcases hb with rfl | rfl | rfl | rfl <;> rw [UInt8.toNat_ofNat'] <;> omega

theorem alphabet_ascii : ∀ c ∈ alphabet, c.toNat ≤ 127 ∧ c ≠ '=' :=
  List.all_iff_forall_prop.mp (by decide)

/-- A map that tells `a` from the others keeps its place. -/
theorem idxOf?_map {α β : Type} [DecidableEq α] [DecidableEq β] {f : α → β} {l : List α} {a : α}
    (h : ∀ b ∈ l, f b = f a → b = a) : (l.map f).idxOf? (f a) = l.idxOf? a := by
  induction l with
  | nil => rfl
  | cons b l ih =>
    have hhead : (f b == f a) = (b == a) := by
      rw [Bool.eq_iff_iff, beq_iff_eq, beq_iff_eq]
      exact ⟨h b List.mem_cons_self, congrArg f⟩
    rw [List.map_cons, List.idxOf?_cons, List.idxOf?_cons, hhead,
      ih fun b' hb' => h b' (List.mem_cons_of_mem _ hb')]

theorem position_ascii {c : Char} (hc : c.toNat ≤ 127) :
    position (UInt8.ofNat c.toNat) = value c := by
  refine idxOf?_map (f := fun d : Char => UInt8.ofNat d.toNat) fun d hd heq => ?_
  have hnat := congrArg UInt8.toNat heq
  have hascii := (alphabet_ascii d hd).1
  rw [UInt8.toNat_ofNat', UInt8.toNat_ofNat', Nat.mod_eq_of_lt (by omega),
    Nat.mod_eq_of_lt (by omega)] at hnat
  exact Char.toNat_inj.mp hnat

theorem position_wide {b : UInt8} (h : 127 < b.toNat) : position b = none := by
  unfold position
  rw [List.idxOf?_eq_none_iff]
  intro hmem
  obtain ⟨c, hc, rfl⟩ := List.mem_map.mp hmem
  have hascii := (alphabet_ascii c hc).1
  rw [UInt8.toNat_ofNat', Nat.mod_eq_of_lt (by omega)] at h
  omega

/-- The digit of a character, found through its bytes. -/
theorem filterMap_position (c : Char) :
    (String.utf8EncodeChar c).filterMap position = (value c).toList := by
  by_cases hc : c.toNat ≤ 127
  · rw [utf8EncodeChar_of_ascii hc, List.filterMap_cons, position_ascii hc]
    cases value c <;> rfl
  · have hnone : value c = none := by
      unfold value
      rw [List.idxOf?_eq_none_iff]
      intro hmem
      exact hc (alphabet_ascii c hmem).1
    rw [hnone, List.filterMap_eq_nil_iff.mpr]
    · rfl
    · intro b hb
      exact position_wide (utf8EncodeChar_of_wide (Nat.lt_of_not_le hc) b hb)

theorem base64_decode_eq (input : String) :
    base64_decode input = .ok (decode_chunks ((trim_padding input.toList).filterMap value)) := by
  unfold base64_decode
  rw [List.filterMap_flatMap]
  simp only [filterMap_position]
  rw [← List.filterMap_eq_flatMap_toList]

/-- The padding goes, and what ends in the alphabet stays. -/
theorem trim_padding_append {body : List Char} (h : ∀ c ∈ body, c ∈ alphabet) (n : Nat) :
    trim_padding (body ++ List.replicate n '=') = body := by
  unfold trim_padding
  induction n with
  | zero =>
    rw [List.replicate_zero, List.append_nil, List.rdropWhile_eq_self_iff]
    intro hne
    have hlast := (alphabet_ascii _ (h _ (List.getLast_mem hne))).2
    simpa using hlast
  | succ n ih =>
    rw [List.replicate_succ', ← List.append_assoc, List.rdropWhile_concat_pos _ _ _ (by simp), ih]

/-- The digits of characters of the alphabet. -/
theorem filterMap_value {body : List Char} (h : ∀ c ∈ body, c ∈ alphabet) :
    ∃ ds, body.filterMap value = ds ∧ ds.length = body.length ∧ (∀ d ∈ ds, d < 64) ∧
      ds.flatMap (bits 6) = body.flatMap fun c => bits 6 ((value c).getD 0) := by
  induction body with
  | nil => exact ⟨[], rfl, rfl, nofun, rfl⟩
  | cons c body ih =>
    obtain ⟨n, hn, hvalue⟩ := value_lt (h c List.mem_cons_self)
    obtain ⟨ds, hds, hlen, hlt, hbits⟩ := ih fun d hd => h d (List.mem_cons_of_mem _ hd)
    refine ⟨n :: ds, ?_, ?_, ?_, ?_⟩
    · rw [List.filterMap_cons, hvalue, hds]
    · rw [List.length_cons, List.length_cons, hlen]
    · exact List.forall_mem_cons.mpr ⟨hn, hlt⟩
    · rw [List.flatMap_cons, List.flatMap_cons, hbits, hvalue]
      rfl

/-- What is encoded is decoded. -/
theorem base64_decode_encode (data : Bytes) : base64_decode (base64_encode data) = .ok data := by
  obtain ⟨n, hchunks⟩ := encode_chunks_eq data
  have hbody : ∀ c ∈ (digits data).map symbol, c ∈ alphabet := by
    intro c hc
    obtain ⟨d, hd, rfl⟩ := List.mem_map.mp hc
    exact (value_symbol d (digits_lt data d hd)).2
  have hvalues : ((digits data).map symbol).filterMap value = digits data := by
    rw [List.filterMap_map]
    calc (digits data).filterMap (value ∘ symbol) = (digits data).filterMap some :=
          List.filterMap_congr fun d hd => (value_symbol d (digits_lt data d hd)).1
      _ = digits data := List.filterMap_some
  rw [base64_decode_eq, base64_encode, String.toList_ofList, hchunks, trim_padding_append hbody,
    hvalues, decode_chunks_digits]

/-- Messages that carry encoded payloads on the topic give the payloads. -/
theorem poll_rest_payloads_encoded (topic : String) (payloads : List Bytes) :
    poll_rest_payloads topic
      (payloads.map fun d => { payload := base64_encode d, content_topic := some topic }) =
      payloads := by
  unfold poll_rest_payloads
  rw [List.filterMap_map]
  calc payloads.filterMap _ = payloads.filterMap some :=
        List.filterMap_congr fun d _ => by simp [base64_decode_encode, Except.toOption]
    _ = payloads := List.filterMap_some

/-! ## The law -/

/-- The text is `body` in characters of the alphabet, without a lone one at the
end, and behind it no padding or the padding that makes its last group four. -/
def Shape (text body : List Char) : Prop :=
  (∀ c ∈ body, c ∈ alphabet) ∧ body.length % 4 ≠ 1 ∧
    (text = body ∨ text = body ++ List.replicate ((4 - body.length % 4) % 4) '=')

/-- The text is well-formed, and the bits of its characters begin with those of the
bytes. -/
def TextOf (s : String) (data : Bytes) : Prop :=
  ∃ body, Shape s.toList body ∧ data.length = body.length * 6 / 8 ∧
    data.flatMap (fun b => bits 8 b.toNat) =
      (body.flatMap fun c => bits 6 ((value c).getD 0)).take (8 * data.length)

/-- The text of a byte string is read as that byte string, and any other text is
an error. -/
structure Faithful (s : String) : Prop where
  ok : ∀ data, base64_decode s = .ok data → TextOf s data
  err : (∀ data, ¬ TextOf s data) → ∃ e, base64_decode s = .error e

/-- The text of some byte string. -/
def WellFormed (s : String) : Prop := ∃ body, Shape s.toList body

theorem Shape.trim_padding {text body : List Char} (h : Shape text body) :
    trim_padding text = body := by
  obtain ⟨hbody, -, rfl | rfl⟩ := h
  · have htrim := trim_padding_append hbody 0
    rwa [List.replicate_zero, List.append_nil] at htrim
  · exact trim_padding_append hbody _

theorem wellFormed_iff (s : String) :
    ((trim_padding s.toList).all fun c => decide (c ∈ alphabet)) = true ∧
      (trim_padding s.toList).length % 4 ≠ 1 ∧ (s.toList = trim_padding s.toList ∨ s.toList =
        trim_padding s.toList ++
          List.replicate ((4 - (trim_padding s.toList).length % 4) % 4) '=') ↔ WellFormed s := by
  rw [List.all_iff_forall_prop]
  constructor
  · intro hshape
    exact ⟨_, hshape⟩
  · rintro ⟨body, hshape⟩
    rwa [hshape.trim_padding]

instance decidableWellFormed (s : String) : Decidable (WellFormed s) :=
  decidable_of_iff _ (wellFormed_iff s)

/-- A faithful text is well-formed, since every text is taken. -/
theorem wellFormed_of_faithful {s : String} (h : Faithful s) : WellFormed s := by
  obtain ⟨body, hshape, -⟩ := h.ok _ rfl
  exact ⟨body, hshape⟩

/-- A well-formed text is read as its byte string. -/
theorem textOf_of_shape {s : String} {body : List Char} (h : Shape s.toList body) :
    ∃ data, base64_decode s = .ok data ∧ TextOf s data := by
  obtain ⟨ds, hds, hlen, hlt, hbits⟩ := filterMap_value h.1
  obtain ⟨hlength, hdecoded⟩ := decode_chunks_bits hlt
  refine ⟨decode_chunks ds, ?_, body, h, ?_, ?_⟩
  · rw [base64_decode_eq, h.trim_padding, hds]
  · rw [hlength, hlen]
  · rw [hdecoded, hbits, hlength]

/-- What is encoded is decoded, and a text is decoded faithfully if and only if it
is well-formed: every other text is taken as well. -/
theorem the_decoder_is_faithful_iff (data : Bytes) (s : String) :
    base64_decode (base64_encode data) = .ok data ∧ (Faithful s ↔ WellFormed s) := by
  refine ⟨base64_decode_encode data, wellFormed_of_faithful, ?_⟩
  · rintro ⟨body, hshape⟩
    obtain ⟨data, hdecode, htext⟩ := textOf_of_shape hshape
    constructor
    · intro data' hdecode'
      cases hdecode.symm.trans hdecode'
      exact htext
    · intro hnone
      exact absurd htext (hnone data)

/-- A byte that was corrupted to a character outside of the alphabet, a lone
character, and padding of the wrong length. -/
theorem a_corrupted_text_is_decoded :
    base64_decode "SG*sbG8=" = .ok [72, 107, 27, 27] ∧ base64_decode "S" = .ok [] ∧
      base64_decode "SGVs====" = .ok (utf8 "Hel") ∧
      ¬ Faithful "SG*sbG8=" ∧ ¬ Faithful "S" ∧ ¬ Faithful "SGVs====" := by
  have hbad : ¬ WellFormed "SG*sbG8=" ∧ ¬ WellFormed "S" ∧ ¬ WellFormed "SGVs====" := by
    decide +kernel
  refine ⟨by decide +kernel, by decide +kernel, by decide +kernel, ?_, ?_, ?_⟩
  · exact mt wellFormed_of_faithful hbad.1
  · exact mt wellFormed_of_faithful hbad.2.1
  · exact mt wellFormed_of_faithful hbad.2.2

end lmao.nwaku_rest
