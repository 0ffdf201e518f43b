-- Texts that are cut by bytes, and the numbers that are read from hex digits,
-- as the standard library of Rust does both.
import Mathlib.Data.List.Induction
import Mathlib.Tactic.Ring
import Lmao.Bytes

namespace lmao.text

/-! ## Slices -/

/-- The length of a text in bytes. -/
def byte_len (s : List Char) : Nat := (s.map Char.utf8Size).sum

/-- `&s[n..]`, which panics inside of a character. -/
def slice_from : List Char → Nat → Except Panic (List Char)
  | s, 0 => .ok s
  | [], _ + 1 => .error .char_boundary
  | c :: s, n + 1 =>
    if c.utf8Size ≤ n + 1 then slice_from s (n + 1 - c.utf8Size) else .error .char_boundary

/-- `&s[..n]`, which panics inside of a character. -/
def slice_to : List Char → Nat → Except Panic (List Char)
  | _, 0 => .ok []
  | [], _ + 1 => .error .char_boundary
  | c :: s, n + 1 =>
    if c.utf8Size ≤ n + 1 then (slice_to s (n + 1 - c.utf8Size)).map (c :: ·)
    else .error .char_boundary

/-- `&s[s.len().saturating_sub(n)..]`, the last `n` bytes. -/
def last_bytes (s : List Char) (n : Nat) : Except Panic (List Char) :=
  slice_from s (byte_len s - n)

/-- `trim_start_matches("0x")`, which takes off every "0x". -/
def trim_0x : List Char → List Char
  | '0' :: 'x' :: s => trim_0x s
  | s => s

/-- Every character is one byte. -/
def Narrow (s : List Char) : Prop := ∀ c ∈ s, c.utf8Size = 1

theorem Narrow.byte_len {s : List Char} (h : Narrow s) : byte_len s = s.length := by
  induction s with
  | nil => rfl
  | cons c s ih =>
    have hs := ih fun d hd => h d (List.mem_cons_of_mem _ hd)
    unfold text.byte_len at hs ⊢
    rw [List.map_cons, List.sum_cons, hs, h c List.mem_cons_self, List.length_cons, Nat.add_comm]

theorem Narrow.slice_from {s : List Char} (h : Narrow s) {n : Nat} (hn : n ≤ s.length) :
    slice_from s n = .ok (s.drop n) := by
  induction s generalizing n with
  | nil =>
    obtain rfl : n = 0 := Nat.le_zero.mp hn
    rfl
  | cons c s ih =>
    rcases n with _ | n
    · rfl
    · have hc := h c List.mem_cons_self
      unfold text.slice_from
      rw [if_pos (by omega), hc, Nat.add_sub_cancel, List.drop_succ_cons]
      exact ih (fun d hd => h d (List.mem_cons_of_mem _ hd)) (Nat.le_of_succ_le_succ hn)

theorem Narrow.slice_to {s : List Char} (h : Narrow s) {n : Nat} (hn : n ≤ s.length) :
    slice_to s n = .ok (s.take n) := by
  induction s generalizing n with
  | nil =>
    obtain rfl : n = 0 := Nat.le_zero.mp hn
    rfl
  | cons c s ih =>
    rcases n with _ | n
    · rfl
    · have hc := h c List.mem_cons_self
      unfold text.slice_to
      rw [if_pos (by omega), hc, Nat.add_sub_cancel, List.take_succ_cons,
        ih (fun d hd => h d (List.mem_cons_of_mem _ hd)) (Nat.le_of_succ_le_succ hn)]
      rfl

theorem Narrow.last_bytes {s : List Char} (h : Narrow s) (n : Nat) :
    last_bytes s n = .ok (s.drop (s.length - n)) := by
  unfold text.last_bytes
  rw [h.byte_len]
  exact h.slice_from (Nat.sub_le _ _)

/-! ## Digits -/

/-- Every character is a hex digit. -/
def Hex (s : List Char) : Prop := ∀ c ∈ s, (hex_val c).isSome

/-- The number that the digits write after `acc`. -/
def hex_number (acc : Nat) (s : List Char) : Nat :=
  s.foldl (fun acc c => acc * 16 + (hex_val c).getD 0) acc

/-- The digits are read one by one, up to a character that is none and up to an
overflow. -/
def read_digits : Nat → List Char → Option Nat
  | acc, [] => some acc
  | acc, c :: s =>
    match hex_val c with
    | none => none
    | some d => if acc * 16 + d < 2 ^ 64 then read_digits (acc * 16 + d) s else none

/-- `u64::from_str_radix(s, 16)`: a sign may come first, and then at least one
digit. -/
def from_str_radix : List Char → Option UInt64
  | [] | ['+'] => none
  | '+' :: s => (read_digits 0 s).map UInt64.ofNat
  | s => (read_digits 0 s).map UInt64.ofNat

theorem char_le_iff {c d : Char} : c ≤ d ↔ c.toNat ≤ d.toNat := UInt32.le_iff_toNat_le

theorem utf8Size_of_toNat_le {c : Char} (h : c.toNat ≤ 127) : c.utf8Size = 1 :=
  Char.utf8Size_eq_one_iff.mpr (UInt32.le_iff_toNat_le.mpr h)

/-- A hex digit is an ASCII character below "x". -/
theorem hex_val_cases {c : Char} (h : (hex_val c).isSome) :
    48 ≤ c.toNat ∧ c.toNat ≤ 102 ∧ (hex_val c).getD 0 < 16 := by
  unfold hex_val at h ⊢
  simp only [char_le_iff] at h ⊢
  have h0 : '0'.toNat = 48 := rfl
  have h9 : '9'.toNat = 57 := rfl
  have ha : 'a'.toNat = 97 := rfl
  have hf : 'f'.toNat = 102 := rfl
  have hA : 'A'.toNat = 65 := rfl
  have hF : 'F'.toNat = 70 := rfl
  split
  · simp only [Option.getD_some]
    omega
  · split
    · simp only [Option.getD_some]
      omega
    · split
      · simp only [Option.getD_some]
        omega
      · rename_i hdigit hlower hupper
        rw [if_neg hdigit, if_neg hlower, if_neg hupper] at h
        cases h

theorem Hex.narrow {s : List Char} (h : Hex s) : Narrow s := by
  intro c hc
  have hcases := hex_val_cases (h c hc)
  exact utf8Size_of_toNat_le (by omega)

/-- What decodes is made of digits. -/
theorem hex_of_hex_bytes {s : List Char} {bs : Bytes} (h : hex_bytes s = some bs) : Hex s := by
  induction s using hex_bytes.induct generalizing bs with
  | case1 => nofun
  | case2 c => cases h
  | case3 a b rest ih =>
    unfold hex_bytes at h
    obtain ⟨x, hx, h⟩ := Option.bind_eq_some_iff.mp h
    obtain ⟨y, hy, h⟩ := Option.bind_eq_some_iff.mp h
    obtain ⟨bs, hbs, -⟩ := Option.bind_eq_some_iff.mp h
    intro c hc
    rcases List.mem_cons.mp hc with rfl | hc
    · rw [hx]
      rfl
    · rcases List.mem_cons.mp hc with rfl | hc
      · rw [hy]
        rfl
      · exact ih hbs c hc

theorem Hex.not_mem {s : List Char} (h : Hex s) {c : Char} (hc : c.toNat < 48 ∨ 102 < c.toNat) :
    c ∉ s := by
  intro hmem
  have hcases := hex_val_cases (h c hmem)
  omega

theorem Hex.drop {s : List Char} (h : Hex s) (n : Nat) : Hex (s.drop n) :=
  fun c hc => h c (List.mem_of_mem_drop hc)

/-- No "0x" stands before digits. -/
theorem Hex.trim_0x {s : List Char} (h : Hex s) : trim_0x s = s := by
  unfold text.trim_0x
  split
  · rename_i s'
    exact absurd (by simp) (h.not_mem (c := 'x') (.inr (by decide)))
  · rfl

theorem hex_number_append (acc : Nat) (s s' : List Char) :
    hex_number acc (s ++ s') = hex_number (hex_number acc s) s' := by
  simp [hex_number, List.foldl_append]

/-- A number that comes before the digits is moved up by all of them. -/
theorem hex_number_eq (acc : Nat) (s : List Char) :
    hex_number acc s = acc * 16 ^ s.length + hex_number 0 s := by
  induction s generalizing acc with
  | nil => simp [hex_number]
  | cons c s ih =>
    have hcons : ∀ a, hex_number a (c :: s) = hex_number (a * 16 + (hex_val c).getD 0) s :=
      fun _ => rfl
    rw [hcons, hcons, ih, ih (0 * 16 + _), List.length_cons, Nat.pow_succ]
    ring

theorem Hex.number_lt {s : List Char} (h : Hex s) : hex_number 0 s < 16 ^ s.length := by
  induction s using List.reverseRecOn with
  | nil => decide
  | append_singleton s c ih =>
    have hs := ih fun d hd => h d (List.mem_append_left _ hd)
    have hc := (hex_val_cases (h c (by simp))).2.2
    have hlast : hex_number 0 (s ++ [c]) = hex_number 0 s * 16 + (hex_val c).getD 0 :=
      hex_number_append 0 s [c]
    rw [hlast, List.length_append, List.length_singleton, Nat.pow_succ]
    omega

/-- Digits are read exactly, up to an overflow. -/
theorem Hex.read_digits {s : List Char} (h : Hex s) {acc : Nat} (hacc : acc < 2 ^ 64) :
    read_digits acc s = if hex_number acc s < 2 ^ 64 then some (hex_number acc s) else none := by
  induction s generalizing acc with
  | nil => exact (if_pos hacc).symm
  | cons c s ih =>
    have hs : Hex s := fun d hd => h d (List.mem_cons_of_mem _ hd)
    obtain ⟨d, hd⟩ := Option.isSome_iff_exists.mp (h c List.mem_cons_self)
    have hcons : hex_number acc (c :: s) = hex_number (acc * 16 + d) s := by
      simp [hex_number, hd]
    unfold text.read_digits
    rw [hd, hcons]
    dsimp only
    by_cases hlt : acc * 16 + d < 2 ^ 64
    · rw [if_pos hlt]
      exact ih hs hlt
    · have hge : acc * 16 + d ≤ hex_number (acc * 16 + d) s := by
        rw [hex_number_eq]
        exact (Nat.le_mul_of_pos_right _ (Nat.pow_pos (by decide))).trans (Nat.le_add_right _ _)
      rw [if_neg hlt, if_neg (by omega)]

theorem Hex.from_str_radix {s : List Char} (h : Hex s) (hne : s ≠ []) :
    from_str_radix s =
      if hex_number 0 s < 2 ^ 64 then some (UInt64.ofNat (hex_number 0 s)) else none := by
  have hplus : '+' ∉ s := h.not_mem (.inl (by decide))
  have hread : text.from_str_radix s = (text.read_digits 0 s).map UInt64.ofNat := by
    unfold text.from_str_radix
    split
    · exact absurd rfl hne
    · exact absurd (by simp) hplus
    · exact absurd (by simp) hplus
    · rfl
  rw [hread, h.read_digits (by decide)]
  split
  · rfl
  · rfl

end lmao.text
