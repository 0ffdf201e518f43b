-- The count of a filter (sds/bloom.rs): `set` empties the filter when the count
-- reaches the capacity, and `check_and_set` counts on.
import Lmao.BloomCodec
import Lmao.Machine

namespace lmao.sds.bloom

open machine

/-! ## Calls -/

/-- A filter as `Bloom::new_for_fp_rate` makes it. -/
abbrev NewBloom := { b : Bloom // b.Fresh }

/-- A call on the filter. `fresh` is what the crate makes if the call empties it. -/
inductive BloomCall
  | check (message_id : MessageId)
  | set (message_id : MessageId) (fresh : NewBloom)
  | check_and_set (message_id : MessageId)

/-- One call: the filter after it, and the answer of a check. -/
def bloomStep (sip : Bloom.SipHash) (f : SdsBloomFilter Bloom) :
    BloomCall → Except Panic (SdsBloomFilter Bloom × List Bool)
  | .check message_id => (check sip f message_id).map fun seen => (f, [seen])
  | .set message_id fresh => (set sip fresh.1 f message_id).map fun f' => (f', [])
  | .check_and_set message_id => (check_and_set sip f message_id).map fun r => (r.2, [r.1])

/-- `SdsBloomFilter::with_params` -/
def with_params (inner : NewBloom) (capacity : Nat) : SdsBloomFilter Bloom :=
  { inner := inner.1, capacity, item_count := 0 }

/-- `check`, and `set` when it answered false. -/
def check_then_set (sip : Bloom.SipHash) (fresh : NewBloom) (f : SdsBloomFilter Bloom)
    (message_id : MessageId) : Except Panic (Bool × SdsBloomFilter Bloom) :=
  match check sip f message_id with
  | .error panic => .error panic
  | .ok true => .ok (true, f)
  | .ok false => (set sip fresh.1 f message_id).map fun f' => (false, f')

/-! ## What a call does -/

/-- The filter has the capacity that it was made with, and its fields fit. -/
structure Kept (capacity : Nat) (f : SdsBloomFilter Bloom) : Prop where
  capacity_eq : f.capacity = capacity
  sound : f.inner.Sound

variable (sip : Bloom.SipHash) {capacity : Nat} {f : SdsBloomFilter Bloom}

theorem with_params_kept (inner : NewBloom) (capacity : Nat) :
    Kept capacity (with_params inner capacity) :=
  ⟨rfl, inner.2.toSound⟩

theorem Kept.check_ok (h : Kept capacity f) (message_id : MessageId) :
    ∃ seen, check sip f message_id = .ok seen :=
  Bloom.check_ok sip h.sound.bits_pos h.sound.length.ge message_id

/-- The bits of an id can be set, and the fields still fit. -/
theorem Kept.set_inner (h : Kept capacity f) (message_id : MessageId) :
    ∃ filter, f.inner.set sip message_id = .ok filter ∧ filter.Sound := by
  obtain ⟨filter, hset⟩ := Bloom.set_rounds_ok sip message_id h.sound f.inner.k_num 0 (0, 0)
  exact ⟨filter, hset, Bloom.set_rounds_sound h.sound hset⟩

theorem Kept.set_eq (h : Kept capacity f) (message_id : MessageId) (fresh : NewBloom) :
    ∃ f', set sip fresh.1 f message_id = .ok f' ∧ Kept capacity f' ∧
      f'.item_count = if f.item_count + 1 ≥ capacity then 0 else f.item_count + 1 := by
  obtain ⟨filter, hset, hsound⟩ := h.set_inner sip message_id
  unfold set
  rw [hset, h.capacity_eq]
  by_cases hfull : f.item_count + 1 ≥ capacity
  · refine ⟨_, rfl, ?_, ?_⟩ <;> simp only [if_pos hfull]
    exact ⟨rfl, fresh.2.toSound⟩
  · refine ⟨_, rfl, ?_, ?_⟩ <;> simp only [if_neg hfull]
    exact ⟨rfl, hsound⟩

theorem check_and_set_seen {sip : Bloom.SipHash} {message_id : MessageId}
    (hseen : check sip f message_id = .ok true) :
    check_and_set sip f message_id = .ok (true, f) := by
  have hseen : f.inner.check sip message_id = .ok true := hseen
  simp only [check_and_set, hseen]

theorem Kept.check_and_set_new (h : Kept capacity f) {message_id : MessageId}
    (hnew : check sip f message_id = .ok false) :
    ∃ f', check_and_set sip f message_id = .ok (false, f') ∧ Kept capacity f' ∧
      f'.item_count = f.item_count + 1 := by
  have hnew : f.inner.check sip message_id = .ok false := hnew
  obtain ⟨filter, hset, hsound⟩ := h.set_inner sip message_id
  refine ⟨{ f with inner := filter, item_count := f.item_count + 1 }, ?_,
    ⟨h.capacity_eq, hsound⟩, rfl⟩
  simp only [check_and_set, hnew, hset]
  rfl

/-- The call ends, with what it made of the filter. -/
theorem Kept.step (h : Kept capacity f) (call : BloomCall) :
    ∃ f' out, bloomStep sip f call = .ok (f', out) ∧ Kept capacity f' := by
  cases call with
  | check message_id =>
    obtain ⟨seen, hcheck⟩ := h.check_ok sip message_id
    exact ⟨f, [seen], by rw [bloomStep, hcheck]; rfl, h⟩
  | set message_id fresh =>
    obtain ⟨f', hset, hkept, -⟩ := h.set_eq sip message_id fresh
    exact ⟨f', [], by rw [bloomStep, hset]; rfl, hkept⟩
  | check_and_set message_id =>
    obtain ⟨seen, hcheck⟩ := h.check_ok sip message_id
    cases seen with
    | true => exact ⟨f, [true], by rw [bloomStep, check_and_set_seen hcheck]; rfl, h⟩
    | false =>
      obtain ⟨f', hnew, hkept, -⟩ := h.check_and_set_new sip hcheck
      exact ⟨f', [false], by rw [bloomStep, hnew]; rfl, hkept⟩

/-! ## The law of the count -/

/-- A new id that the call counts leaves room below the capacity. -/
def Roomy (sip : Bloom.SipHash) (f : SdsBloomFilter Bloom) : BloomCall → Prop
  | .check_and_set message_id =>
    check sip f message_id = .ok false → f.item_count + 1 < f.capacity
  | _ => True

/-- `check_and_set` does what `check` and `set` do, whatever filter comes next. -/
def Agrees (sip : Bloom.SipHash) (f : SdsBloomFilter Bloom) : BloomCall → Prop
  | .check_and_set message_id =>
    ∀ fresh, check_and_set sip f message_id = check_then_set sip fresh f message_id
  | _ => True

/-- The filter is not full. -/
def NotFull (f : SdsBloomFilter Bloom) : Prop := f.item_count < f.capacity

theorem Kept.step_notFull_iff (h : Kept capacity f) (hcapacity : 1 ≤ capacity) (hroom : NotFull f)
    {call : BloomCall} {f' : SdsBloomFilter Bloom} {out : List Bool}
    (hstep : bloomStep sip f call = .ok (f', out)) : NotFull f' ↔ Roomy sip f call := by
  unfold NotFull at hroom ⊢
  cases call with
  | check message_id =>
    obtain ⟨seen, hcheck⟩ := h.check_ok sip message_id
    rw [bloomStep, hcheck] at hstep
    cases hstep
    exact iff_of_true hroom trivial
  | set message_id fresh =>
    obtain ⟨f₁, hset, hkept, hcount⟩ := h.set_eq sip message_id fresh
    rw [bloomStep, hset] at hstep
    cases hstep
    refine iff_of_true ?_ trivial
    rw [hcount, hkept.capacity_eq]
    split <;> omega
  | check_and_set message_id =>
    obtain ⟨seen, hcheck⟩ := h.check_ok sip message_id
    cases seen with
    | true =>
      rw [bloomStep, check_and_set_seen hcheck] at hstep
      cases hstep
      apply iff_of_true hroom
      intro hnew
      rw [hcheck] at hnew
      cases hnew
    | false =>
      obtain ⟨f₁, hnew, hkept, hcount⟩ := h.check_and_set_new sip hcheck
      rw [bloomStep, hnew] at hstep
      cases hstep
      rw [hcount, hkept.capacity_eq, Roomy, h.capacity_eq]
      exact ⟨fun hlt _ => hlt, fun hlt => hlt hcheck⟩

/-- Where the reset is due, `set` starts over and `check_and_set` does not. -/
theorem Kept.agrees_iff (h : Kept capacity f) (call : BloomCall) (fresh : NewBloom) :
    Agrees sip f call ↔ Roomy sip f call := by
  cases call with
  | check message_id => exact Iff.rfl
  | set message_id fresh => exact Iff.rfl
  | check_and_set message_id =>
    obtain ⟨seen, hcheck⟩ := h.check_ok sip message_id
    unfold Agrees Roomy
    cases seen with
    | true =>
      refine iff_of_true (fun fresh => ?_) fun hnew => ?_
      · rw [check_and_set_seen hcheck, check_then_set, hcheck]
      · rw [hcheck] at hnew
        cases hnew
    | false =>
      obtain ⟨filter, hset, -⟩ := h.set_inner sip message_id
      have hnew : f.inner.check sip message_id = .ok false := hcheck
      simp only [check_and_set, check_then_set, set, hnew, hcheck, hset, Except.map,
        forall_const]
      constructor
      · intro hsame
        by_contra hfull
        have := hsame fresh
        rw [if_pos (Nat.le_of_not_lt hfull)] at this
        simp at this
      · intro hlt fresh
        rw [if_neg (Nat.not_le_of_lt hlt)]

/-- The filter never gets full and the two ways to insert an id agree, if and
only if no new id that `check_and_set` counts fills the filter. -/
theorem the_count_stays_below_the_capacity_iff (sip : Bloom.SipHash) (inner : NewBloom)
    {capacity : Nat} (hcapacity : 1 ≤ capacity) (calls : List BloomCall) :
    (∃ r, run (bloomStep sip) (with_params inner capacity) calls = .ok r) ∧
    ((Always (bloomStep sip) NotFull (with_params inner capacity) calls ∧
        Meets (bloomStep sip) (fun _ f call => Agrees sip f call)
          (with_params inner capacity) calls) ↔
      Meets (bloomStep sip) (fun _ f call => Roomy sip f call)
        (with_params inner capacity) calls) := by
  have hnew := with_params_kept inner capacity
  have hnotFull : NotFull (with_params inner capacity) := hcapacity
  have hstep : ∀ (log : List Bool) f call f' out, Kept capacity f →
      bloomStep sip f call = .ok (f', out) → Kept capacity f' := by
    intro log f call f' out hkept hstep
    obtain ⟨f₁, out₁, hok, hkept₁⟩ := hkept.step sip call
    rw [hok] at hstep
    cases hstep
    exact hkept₁
  refine ⟨?_, ?_⟩
  · have hmeets : Meets (bloomStep sip) (fun _ _ _ => True) (with_params inner capacity) calls :=
      fun _ _ _ _ _ _ _ => trivial
    obtain ⟨f', log, hrun, -⟩ := run_returns_of_meets (I := fun _ f => Kept capacity f) hnew
      (fun _ f call hkept _ => hkept.step sip call) hmeets
    exact ⟨_, hrun⟩
  · have halways := always_iff_meets hnew hnotFull (fun f call hkept => hkept.step sip call)
      (fun f call f' out hkept hroom hok => hkept.step_notFull_iff sip hcapacity hroom hok) calls
    have hagree := meets_congr hnew hstep
      (fun _ f call hkept => hkept.agrees_iff sip call inner) calls
    rw [halways, hagree, and_self]

/-- A new filter of eight bits. -/
def Sample.eight_bits : NewBloom where
  val := {
    bit_vec := List.replicate 8 false
    bitmap_bits := 8
    k_num := 1
    sip_keys := ((0, 0), (0, 0)) }
  property :=
    { length := rfl, bytes := ⟨1, rfl⟩, bits_pos := by decide, bits_lt := by decide
      k_pos := by decide, k_lt := by decide, keys := by decide, empty := by decide }

/-- A hash that tells texts apart by their lengths. -/
def Sample.length_hash : Bloom.SipHash := fun _ item => UInt64.ofNat item.utf8ByteSize

/-- A filter for three ids takes two of them either way. -/
theorem two_ids_leave_room :
    (∃ r, run (bloomStep Sample.length_hash) (with_params Sample.eight_bits 3)
        [.check_and_set "a", .set "bb" Sample.eight_bits, .check "a"] = .ok r) ∧
    ((Always (bloomStep Sample.length_hash) NotFull (with_params Sample.eight_bits 3)
          [.check_and_set "a", .set "bb" Sample.eight_bits, .check "a"] ∧
        Meets (bloomStep Sample.length_hash) (fun _ f call => Agrees Sample.length_hash f call)
          (with_params Sample.eight_bits 3)
          [.check_and_set "a", .set "bb" Sample.eight_bits, .check "a"]) ↔
      Meets (bloomStep Sample.length_hash) (fun _ f call => Roomy Sample.length_hash f call)
        (with_params Sample.eight_bits 3)
        [.check_and_set "a", .set "bb" Sample.eight_bits, .check "a"]) :=
  the_count_stays_below_the_capacity_iff Sample.length_hash Sample.eight_bits (by decide) _

/-- Two ids by `check_and_set` fill a filter for two, which by `set` is emptied. -/
theorem two_ids_fill_the_filter :
    ¬ (Always (bloomStep Sample.length_hash) NotFull (with_params Sample.eight_bits 2)
        [.check_and_set "a", .check_and_set "bb"] ∧
      Meets (bloomStep Sample.length_hash) (fun _ f call => Agrees Sample.length_hash f call)
        (with_params Sample.eight_bits 2) [.check_and_set "a", .check_and_set "bb"]) := by
  rintro ⟨halways, -⟩
  have hfull := halways _ [] (List.append_nil _).symm _ _ rfl
  exact Nat.lt_irrefl 2 hfull

end lmao.sds.bloom
