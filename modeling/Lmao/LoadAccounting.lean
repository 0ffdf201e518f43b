-- The load of an agent (lib.rs of the node crate, presence.rs of the core): the
-- counter of the tasks in flight, and what is read off it.
import Mathlib.Data.UInt
import Lmao.Machine
import Lmao.Presence

namespace lmao.node

open machine

/-! ## What is read off the counter -/

/-- The doubling panics where it overflows, or wraps in a build that does not
check for it. -/
def LoadBucket.from_load (overflow_checks : Bool) (queue_depth max_concurrent : UInt32) :
    Except Panic LoadBucket :=
  let limit := if max_concurrent ≤ 1 then 1 else max_concurrent
  if queue_depth ≥ limit then .ok .Full
  else if overflow_checks && decide (2 ^ 32 ≤ queue_depth.toNat * 2) then .error .mul_overflow
  else if queue_depth * 2 ≥ limit then .ok .Busy
  else .ok .Free

/-- The counter is a `usize` of 64 bits, and is narrowed to the depth. -/
def current_load_status (overflow_checks : Bool) (in_flight : UInt64) (max_concurrent : UInt32) :
    Except Panic LoadStatus :=
  let queue_depth := in_flight.toUInt32
  (LoadBucket.from_load overflow_checks queue_depth max_concurrent).map fun bucket =>
    { bucket, queue_depth, max_concurrent, avg_latency_ms := 0 }

def is_at_capacity (in_flight : UInt64) (max_concurrent : UInt32) : Bool :=
  decide (in_flight.toUInt32 ≥ max_concurrent)

/-- The bucket of the load `n`, by the numbers themselves. -/
structure BucketOf (n max_concurrent : Nat) (bucket : Except Panic LoadBucket) : Prop where
  full : bucket = .ok .Full ↔ max max_concurrent 1 ≤ n
  busy : bucket = .ok .Busy ↔ n < max max_concurrent 1 ∧ max max_concurrent 1 ≤ 2 * n

theorem toNat_limit (max_concurrent : UInt32) :
    (if max_concurrent ≤ 1 then 1 else max_concurrent).toNat = max max_concurrent.toNat 1 := by
  have hone : (1 : UInt32).toNat = 1 := rfl
  by_cases hle : max_concurrent ≤ 1
  · have := UInt32.le_iff_toNat_le.mp hle
    rw [if_pos hle]
    omega
  · have := UInt32.lt_iff_toNat_lt.mp (UInt32.not_le.mp hle)
    rw [if_neg hle]
    omega

/-- The comparisons on the numbers themselves, but for the double that wraps. -/
theorem from_load_eq (overflow_checks : Bool) (queue_depth max_concurrent : UInt32) :
    LoadBucket.from_load overflow_checks queue_depth max_concurrent =
      if max max_concurrent.toNat 1 ≤ queue_depth.toNat then .ok .Full
      else if overflow_checks && decide (2 ^ 32 ≤ queue_depth.toNat * 2) then .error .mul_overflow
      else if max max_concurrent.toNat 1 ≤ queue_depth.toNat * 2 % 2 ^ 32 then .ok .Busy
      else .ok .Free := by
  have hlimit := toNat_limit max_concurrent
  have htwo : (2 : UInt32).toNat = 2 := rfl
  unfold LoadBucket.from_load
  generalize (if max_concurrent ≤ 1 then 1 else max_concurrent) = limit at hlimit ⊢
  simp only [ge_iff_le, UInt32.le_iff_toNat_le, UInt32.toNat_mul, hlimit, htwo]

/-- A depth at the ceiling is full, and one whose double fits is measured right.
The double of any other wraps to less than itself. -/
theorem bucketOf_from_load_iff (overflow_checks : Bool) (n : UInt64) (max_concurrent : UInt32) :
    BucketOf n.toNat max_concurrent.toNat
        (LoadBucket.from_load overflow_checks n.toUInt32 max_concurrent) ↔
      max max_concurrent.toNat 1 ≤ n.toNat % 2 ^ 32 ∨ n.toNat < 2 ^ 31 := by
  have hmax := max_concurrent.toNat_lt
  rw [from_load_eq, UInt64.toNat_toUInt32]
  by_cases hfull : max max_concurrent.toNat 1 ≤ n.toNat % 2 ^ 32
  · rw [if_pos hfull]
    refine iff_of_true ⟨iff_of_true rfl ?_, iff_of_false nofun ?_⟩ (.inl hfull) <;> omega
  rw [if_neg hfull]
  by_cases hsmall : n.toNat < 2 ^ 31
  · -- the depth is the load, and the double fits
    have hchecked : ¬ 2 ^ 32 ≤ n.toNat % 2 ^ 32 * 2 := by omega
    rw [decide_eq_false hchecked, Bool.and_false, if_neg Bool.false_ne_true]
    refine iff_of_true ⟨iff_of_false ?_ ?_, ?_⟩ (.inr hsmall)
    · split <;> nofun
    · omega
    · split
      · exact iff_of_true rfl (by omega)
      · exact iff_of_false nofun (by omega)
  · refine iff_of_false (fun hbucket => ?_) (by omega)
    by_cases hnarrow : n.toNat < 2 ^ 32
    · have hwraps : ¬ max max_concurrent.toNat 1 ≤ n.toNat % 2 ^ 32 * 2 % 2 ^ 32 := by omega
      have hbusy := hbucket.busy.mpr (by omega)
      rw [if_neg hwraps] at hbusy
      split at hbusy <;> cases hbusy
    · have hmeant := hbucket.full.mpr (by omega)
      split at hmeant
      · cases hmeant
      · split at hmeant <;> cases hmeant

theorem is_at_capacity_iff (n : UInt64) (max_concurrent : UInt32) :
    (is_at_capacity n max_concurrent = true ↔ max_concurrent.toNat ≤ n.toNat) ↔
      max_concurrent.toNat ≤ n.toNat % 2 ^ 32 ∨ n.toNat < 2 ^ 32 := by
  have hmax := max_concurrent.toNat_lt
  unfold is_at_capacity
  rw [decide_eq_true_iff, ge_iff_le, UInt32.le_iff_toNat_le, UInt64.toNat_toUInt32]
  omega

/-! ## The counter -/

/-- The counter, the calls of `load_dec` that have not returned, each with the
value that it goes by, and the increments and decrements that were made. -/
structure InFlight where
  in_flight : UInt64
  calls : List UInt64
  increments : Nat
  decrements : Nat

/-- A call of `load_inc`, a call of `load_dec` with its load, or a turn of the
loop of the `k`-th call of `load_dec` that has not returned. -/
inductive LoadOp
  | load_inc
  | load_dec
  | turn (k : Nat)

/-- What the calls return. -/
inductive LoadEvent
  | incremented (returned : Except Panic UInt64)
  | decremented (returned : UInt64)

namespace InFlight

def new : InFlight := { in_flight := 0, calls := [], increments := 0, decrements := 0 }

/-- `fetch_add` wraps, in every build. The sum that is returned may panic. -/
def load_inc (overflow_checks : Bool) (s : InFlight) : InFlight × List LoadEvent :=
  let returned :=
    if overflow_checks && decide (2 ^ 64 ≤ s.in_flight.toNat + 1) then .error .add_overflow
    else .ok (s.in_flight + 1)
  ({ s with in_flight := s.in_flight + 1, increments := s.increments + 1 },
    [.incremented returned])

/-- One turn of the loop: it returns on 0, and else exchanges the value for the
one below it, or takes the value that it finds in its place. -/
def turn (s : InFlight) (k : Nat) : InFlight × List LoadEvent :=
  match s.calls[k]? with
  | none => (s, [])
  | some current =>
    if current = 0 then ({ s with calls := s.calls.eraseIdx k }, [.decremented 0])
    else if s.in_flight = current then
      ({ s with
          in_flight := current - 1
          calls := s.calls.eraseIdx k
          decrements := s.decrements + 1 }, [.decremented (current - 1)])
    else ({ s with calls := s.calls.set k s.in_flight }, [])

def step (overflow_checks : Bool) (s : InFlight) : LoadOp → Except Empty (InFlight × List LoadEvent)
  | .load_inc => .ok (s.load_inc overflow_checks)
  | .load_dec => .ok ({ s with calls := s.calls ++ [s.in_flight] }, [])
  | .turn k => .ok (s.turn k)

/-- The counter is what was added and not taken away. -/
def Counted (s : InFlight) : Prop := s.in_flight.toNat + s.decrements = s.increments

/-- An increment does not find the largest value. -/
def Fits (s : InFlight) : LoadOp → Prop
  | .load_inc => s.in_flight.toNat + 1 < 2 ^ 64
  | _ => True

theorem load_inc_counted_iff (overflow_checks : Bool) {s : InFlight} (h : s.Counted) :
    (s.load_inc overflow_checks).1.Counted ↔ s.in_flight.toNat + 1 < 2 ^ 64 := by
  have hlt := s.in_flight.toNat_lt
  unfold Counted at h
  simp only [Counted, load_inc, UInt64.toNat_add, UInt64.toNat_one]
  omega

theorem turn_counted {s : InFlight} (h : s.Counted) (k : Nat) : (s.turn k).1.Counted := by
  unfold turn
  split
  · exact h
  split
  · exact h
  split
  next hne hfound =>
    have hpos : (1 : UInt64) ≤ s.in_flight := by
      rw [hfound, UInt64.le_iff_toNat_le]
      have := mt UInt64.toNat_inj.mp hne
      have hone : (1 : UInt64).toNat = 1 := rfl
      have hzero : (0 : UInt64).toNat = 0 := rfl
      omega
    have hone : (1 : UInt64).toNat = 1 := rfl
    have hle := UInt64.le_iff_toNat_le.mp hpos
    unfold Counted at h ⊢
    simp only [← hfound, UInt64.toNat_sub_of_le _ _ hpos, hone]
    omega
  · exact h

theorem step_counted_iff {overflow_checks : Bool} {s s' : InFlight} {op : LoadOp}
    {out : List LoadEvent} (h : s.Counted) (hstep : s.step overflow_checks op = .ok (s', out)) :
    s'.Counted ↔ s.Fits op := by
  cases op with
  | load_inc =>
    cases hstep
    exact load_inc_counted_iff overflow_checks h
  | load_dec =>
    cases hstep
    exact iff_of_true h trivial
  | turn k =>
    have hturn : (s.turn k).1 = s' := congrArg Prod.fst (Except.ok.inj hstep)
    rw [← hturn]
    exact iff_of_true (turn_counted h k) trivial

end InFlight

/-- The load is accounted for where no increment wraps, the narrowed counter is
as good as the counter, and its double fits or is not needed. -/
theorem the_load_is_accounted_iff (overflow_checks : Bool) (ops : List LoadOp) (n : UInt64)
    (max_concurrent : UInt32) :
    (Always (InFlight.step overflow_checks) InFlight.Counted .new ops ↔
      Meets (InFlight.step overflow_checks) (fun _ s op => s.Fits op) .new ops) ∧
    ((is_at_capacity n max_concurrent = true ↔ max_concurrent.toNat ≤ n.toNat) ↔
      max_concurrent.toNat ≤ n.toNat % 2 ^ 32 ∨ n.toNat < 2 ^ 32) ∧
    (BucketOf n.toNat max_concurrent.toNat
        ((current_load_status overflow_checks n max_concurrent).map LoadStatus.bucket) ↔
      max max_concurrent.toNat 1 ≤ n.toNat % 2 ^ 32 ∨ n.toNat < 2 ^ 31) := by
  refine ⟨?_, is_at_capacity_iff n max_concurrent, ?_⟩
  · have hnew : InFlight.new.Counted := rfl
    refine always_iff_meets (J := fun _ => True) trivial hnew (fun s op _ => ?_)
      (fun s op s' out _ h hstep => InFlight.step_counted_iff h hstep) ops
    obtain ⟨⟨s', out⟩, hstep⟩ := ends_ok (s.step overflow_checks op)
    exact ⟨s', out, hstep, trivial⟩
  · have hbucket : (current_load_status overflow_checks n max_concurrent).map LoadStatus.bucket =
        LoadBucket.from_load overflow_checks n.toUInt32 max_concurrent := by
      simp only [current_load_status]
      cases LoadBucket.from_load overflow_checks n.toUInt32 max_concurrent <;> rfl
    rw [hbucket]
    exact bucketOf_from_load_iff overflow_checks n max_concurrent

/-- 2^32 tasks in flight are narrowed to none, and the double of 2^31 of them
panics or wraps to 0. -/
theorem a_large_load_is_free :
    ¬ (is_at_capacity 0x100000000 1 = true ↔ 1 ≤ 0x100000000) ∧
    (current_load_status false 0x80000000 0xFFFFFFFF).map LoadStatus.bucket = .ok .Free ∧
    (current_load_status true 0x80000000 0xFFFFFFFF).map LoadStatus.bucket =
      .error .mul_overflow ∧
    ¬ BucketOf 0x80000000 0xFFFFFFFF
      ((current_load_status false 0x80000000 0xFFFFFFFF).map LoadStatus.bucket) ∧
    ¬ BucketOf 0x80000000 0xFFFFFFFF
      ((current_load_status true 0x80000000 0xFFFFFFFF).map LoadStatus.bucket) := by
  refine ⟨by decide, rfl, rfl, fun hbucket => ?_, fun hbucket => ?_⟩
  · cases hbucket.busy.mpr (by decide)
  · cases hbucket.busy.mpr (by decide)

end lmao.node
