-- The retry layer around a reliable send (retry.rs of the node crate and of the
-- core crate): how often it calls, how long it waits, and what it gives back.
import Lmao.Node

namespace lmao.node

open sds
open sds.MessageChannel (AckTransport)

/-! ## Delays -/

structure RetryConfig where
  max_attempts : UInt32
  base_delay_ms : UInt64
  max_delay_ms : UInt64
  jitter : Bool
deriving DecidableEq, Repr

def RetryConfig.default : RetryConfig :=
  { max_attempts := 5, base_delay_ms := 1000, max_delay_ms := 60000, jitter := true }

def saturating_mul (a b : UInt64) : UInt64 := UInt64.ofNat (min (a.toNat * b.toNat) (2 ^ 64 - 1))

def saturating_add (a b : UInt64) : UInt64 := UInt64.ofNat (min (a.toNat + b.toNat) (2 ^ 64 - 1))

/-- The delay after an attempt, counted from 0. -/
def RetryConfig.delay_ms (config : RetryConfig) (attempt : UInt32) : UInt64 :=
  let shift := if attempt ≤ 31 then attempt else 31
  let exp := saturating_mul config.base_delay_ms (1 <<< shift.toUInt64)
  if exp ≤ config.max_delay_ms then exp else config.max_delay_ms

/-- A random number up to a bound, for each attempt. -/
abbrev Draws := Nat → (bound : UInt64) → { n : UInt64 // n ≤ bound }

def compute_delay (config : RetryConfig) (fastrand : Draws) (attempt : Nat) : UInt64 :=
  let base := config.delay_ms (UInt32.ofNat attempt)
  if config.jitter then saturating_add base (fastrand attempt base) / 2 else base

theorem toNat_saturating_mul (a b : UInt64) :
    (saturating_mul a b).toNat = min (a.toNat * b.toNat) (2 ^ 64 - 1) := by
  unfold saturating_mul
  rw [UInt64.toNat_ofNat', Nat.mod_eq_of_lt (by omega)]

theorem toNat_saturating_add (a b : UInt64) :
    (saturating_add a b).toNat = min (a.toNat + b.toNat) (2 ^ 64 - 1) := by
  unfold saturating_add
  rw [UInt64.toNat_ofNat', Nat.mod_eq_of_lt (by omega)]

/-- The delay is the exponential one up to attempt 31, and stays there, without an
overflow. -/
theorem toNat_delay_ms (config : RetryConfig) (attempt : UInt32) :
    (config.delay_ms attempt).toNat =
      min (config.base_delay_ms.toNat * 2 ^ min attempt.toNat 31) config.max_delay_ms.toNat := by
  have hshift : (if attempt ≤ 31 then attempt else 31).toNat = min attempt.toNat 31 := by
    split
    · have := UInt32.le_iff_toNat_le.mp ‹_›
      simp only [UInt32.toNat_ofNat] at this
      omega
    · have := UInt32.lt_iff_toNat_lt.mp (UInt32.not_le.mp ‹_›)
      simp only [UInt32.toNat_ofNat] at this ⊢
      omega
  have hpow : ((1 : UInt64) <<< (if attempt ≤ 31 then attempt else 31).toUInt64).toNat =
      2 ^ min attempt.toNat 31 := by
    rw [UInt64.toNat_shiftLeft, UInt32.toNat_toUInt64, hshift, UInt64.toNat_one,
      Nat.mod_eq_of_lt (by omega : min attempt.toNat 31 < 64), Nat.one_shiftLeft,
      Nat.mod_eq_of_lt (Nat.pow_lt_pow_right (by omega) (by omega))]
  have hmax := config.max_delay_ms.toNat_lt
  have hexp := toNat_saturating_mul config.base_delay_ms
    (1 <<< (if attempt ≤ 31 then attempt else 31).toUInt64)
  rw [hpow] at hexp
  unfold RetryConfig.delay_ms
  simp only [UInt64.le_iff_toNat_le, hexp]
  split <;> omega

theorem delay_ms_le (config : RetryConfig) (attempt : UInt32) :
    config.delay_ms attempt ≤ config.max_delay_ms := by
  rw [UInt64.le_iff_toNat_le, toNat_delay_ms]
  exact Nat.min_le_right _ _

theorem delay_ms_mono (config : RetryConfig) {m n : UInt32} (h : m ≤ n) :
    config.delay_ms m ≤ config.delay_ms n := by
  have hmn := UInt32.le_iff_toNat_le.mp h
  have hpow : 2 ^ min m.toNat 31 ≤ 2 ^ min n.toNat 31 :=
    Nat.pow_le_pow_right (by omega) (by omega)
  have hmul := Nat.mul_le_mul_left config.base_delay_ms.toNat hpow
  rw [UInt64.le_iff_toNat_le, toNat_delay_ms, toNat_delay_ms]
  omega

/-- The average of the delay and of a smaller draw is no longer than the delay. -/
theorem compute_delay_le (config : RetryConfig) (fastrand : Draws) (attempt : Nat) :
    compute_delay config fastrand attempt ≤ config.delay_ms (UInt32.ofNat attempt) := by
  unfold compute_delay
  simp only
  split
  · have hdraw := UInt64.le_iff_toNat_le.mp
      (fastrand attempt (config.delay_ms (UInt32.ofNat attempt))).2
    have htwo : (2 : UInt64).toNat = 2 := rfl
    rw [UInt64.le_iff_toNat_le, UInt64.toNat_div, toNat_saturating_add, htwo]
    omega
  · exact UInt64.le_refl _

/-! ## The loop -/

/-- The two counters of `Metrics` that the layer writes. -/
structure RetryMetrics where
  retry_attempts : UInt64
  retries_exhausted : UInt64
deriving DecidableEq, Repr

/-- What the layer does that takes time: a call of the wrapped
`send_reliable`, or a sleep. -/
inductive RetryEvent
  | call
  | sleep (delay_ms : UInt64)
deriving DecidableEq, Repr

/-- What a call of the layer leaves. -/
structure Retried where
  events : List RetryEvent
  result : Except Stop (ContentMessage × Bool)
  counted : RetryMetrics

/-- What each call of the wrapped `send_reliable` gives. -/
abbrev Outcomes := Nat → Except TransportError (ContentMessage × Bool)

namespace RetryLayer

/-- The loop from `attempt` on, with `left` attempts to go. -/
def send_loop (config : RetryConfig) (fastrand : Draws) (outcome : Outcomes) :
    (left attempt : Nat) → Option TransportError → RetryMetrics → Retried
  | 0, _, last_err, m =>
    { events := []
      result := .error <|
        match last_err with
        | none => .panic .unwrap_none
        | some e => .error (.Other ("all " ++ toString config.max_attempts.toNat ++
            " attempts failed: " ++ e.display))
      counted := { m with retries_exhausted := m.retries_exhausted + 1 } }
  | left + 1, attempt, _, m =>
    match outcome attempt with
    | .ok sent => { events := [.call], result := .ok sent, counted := m }
    | .error e =>
      let r := send_loop config fastrand outcome left (attempt + 1) (some e)
        { m with retry_attempts := m.retry_attempts + 1 }
      let pause :=
        if attempt + 1 < config.max_attempts.toNat then
          [.sleep (compute_delay config fastrand attempt)]
        else []
      { r with events := .call :: pause ++ r.events }

def send_reliable (config : RetryConfig) (fastrand : Draws) (outcome : Outcomes)
    (m : RetryMetrics) : Retried :=
  send_loop config fastrand outcome config.max_attempts.toNat 0 none m

/-- Calls with the given sleeps between two of them. -/
def paced (sleeps : List UInt64) : List RetryEvent :=
  sleeps.flatMap (fun d => [RetryEvent.call, RetryEvent.sleep d]) ++ [RetryEvent.call]

/-- The sleeps after the attempts from `attempt` on. -/
def sleeps (config : RetryConfig) (fastrand : Draws) (attempt n : Nat) : List UInt64 :=
  (List.range' attempt n).map (compute_delay config fastrand)

theorem paced_cons (d : UInt64) (ds : List UInt64) :
    paced (d :: ds) = .call :: .sleep d :: paced ds := rfl

theorem sleeps_succ (config : RetryConfig) (fastrand : Draws) (attempt n : Nat) :
    sleeps config fastrand attempt (n + 1) =
      compute_delay config fastrand attempt :: sleeps config fastrand (attempt + 1) n := by
  unfold sleeps
  rw [List.range'_succ, List.map_cons]

theorem count_call_paced (ds : List UInt64) : (paced ds).count .call = ds.length + 1 := by
  induction ds with
  | nil => rfl
  | cons d ds ih =>
    rw [paced_cons, List.count_cons_self, List.count_cons_of_ne (by simp), ih, List.length_cons]

/-- A run that ends with a success after `i` failures. -/
theorem send_loop_success {config : RetryConfig} (fastrand : Draws) {outcome : Outcomes}
    {sent : ContentMessage × Bool} {left attempt i : Nat} (last_err : Option TransportError)
    (m : RetryMetrics) (hbound : attempt + left ≤ config.max_attempts.toNat) (hi : i < left)
    (hfail : ∀ j < i, ∃ e, outcome (attempt + j) = .error e)
    (hsent : outcome (attempt + i) = .ok sent) :
    send_loop config fastrand outcome left attempt last_err m =
      { events := paced (sleeps config fastrand attempt i)
        result := .ok sent
        counted := { m with retry_attempts := m.retry_attempts + UInt64.ofNat i } } := by
  induction i generalizing left attempt last_err m with
  | zero =>
    obtain ⟨left, rfl⟩ : ∃ k, left = k + 1 := ⟨left - 1, by omega⟩
    have hsent' : outcome attempt = .ok sent := hsent
    simp only [send_loop, hsent']
    simp [paced, sleeps]
  | succ i ih =>
    obtain ⟨left, rfl⟩ : ∃ k, left = k + 1 := ⟨left - 1, by omega⟩
    obtain ⟨e, he⟩ := hfail 0 (by omega)
    have he' : outcome attempt = .error e := he
    have hrest := ih (some e) { m with retry_attempts := m.retry_attempts + 1 }
      (by omega : attempt + 1 + left ≤ config.max_attempts.toNat) (by omega)
      (fun j hj => by
        obtain ⟨e, he⟩ := hfail (j + 1) (by omega)
        exact ⟨e, by rw [← he]; congr 1; omega⟩)
      (by rw [← hsent]; congr 1; omega)
    have hpause : attempt + 1 < config.max_attempts.toNat := by omega
    simp only [send_loop, he', hrest, if_pos hpause, sleeps_succ, paced_cons]
    simp [UInt64.ofNat_add, UInt64.add_assoc, UInt64.add_comm]

/-- A run in which every attempt fails. -/
theorem send_loop_failure {config : RetryConfig} (fastrand : Draws) {outcome : Outcomes}
    {left attempt : Nat} (last_err : Option TransportError) (m : RetryMetrics)
    (hbound : attempt + (left + 1) = config.max_attempts.toNat)
    (hfail : ∀ j < left + 1, ∃ e, outcome (attempt + j) = .error e) :
    ∃ e, send_loop config fastrand outcome (left + 1) attempt last_err m =
      { events := paced (sleeps config fastrand attempt left)
        result := .error (.error (.Other ("all " ++ toString config.max_attempts.toNat ++
            " attempts failed: " ++ TransportError.display e)))
        counted :=
          { retry_attempts := m.retry_attempts + UInt64.ofNat (left + 1)
            retries_exhausted := m.retries_exhausted + 1 } } := by
  induction left generalizing attempt last_err m with
  | zero =>
    obtain ⟨e, he⟩ := hfail 0 (by omega)
    have he' : outcome attempt = .error e := he
    have hpause : ¬ attempt + 1 < config.max_attempts.toNat := by omega
    refine ⟨e, ?_⟩
    simp only [send_loop, he', if_neg hpause]
    simp [paced, sleeps]
  | succ left ih =>
    obtain ⟨e₀, he₀⟩ := hfail 0 (by omega)
    have he' : outcome attempt = .error e₀ := he₀
    have hpause : attempt + 1 < config.max_attempts.toNat := by omega
    obtain ⟨e, he⟩ := ih (some e₀) { m with retry_attempts := m.retry_attempts + 1 }
      (by omega : attempt + 1 + (left + 1) = config.max_attempts.toNat)
      (fun j hj => by
        obtain ⟨e, he⟩ := hfail (j + 1) (by omega)
        exact ⟨e, by rw [← he]; congr 1; omega⟩)
    refine ⟨e, ?_⟩
    rw [send_loop]
    simp only [he', he, if_pos hpause, sleeps_succ config fastrand attempt left, paced_cons]
    simp [UInt64.ofNat_add, UInt64.add_assoc, UInt64.add_comm]

/-! ## The channel below -/

variable {L : Libs} {F : Type} [IdFilter F]

/-- The channel before each attempt, when all before it failed. -/
def channel_at (ch : MessageChannel F) (topic : String) (payload : Bytes)
    (t : Nat → AckTransport) : Nat → MessageChannel F
  | 0 => ch
  | n + 1 => ((channel_at ch topic payload t n).send_reliable L.wire topic payload (t n)).channel

/-- What the channel gives, attempt after attempt. -/
def outcomes (ch : MessageChannel F) (topic : String) (payload : Bytes)
    (t : Nat → AckTransport) : Outcomes := fun n =>
  ((channel_at (L := L) ch topic payload t n).send_reliable L.wire topic payload (t n)).result

theorem send_loop_result (config : RetryConfig) (fastrand : Draws) (ch : MessageChannel F)
    (topic : String) (payload : Bytes) (t : Nat → AckTransport) (left attempt : Nat)
    (last_err : Option TransportError) (m : RetryMetrics)
    (h : attempt + left = config.max_attempts.toNat) :
    (send_loop config fastrand (outcomes (L := L) ch topic payload t) left attempt last_err
        m).result =
      (LmaoNode.retry_send_reliable (L := L) (channel_at (L := L) ch topic payload t attempt)
        config.max_attempts.toNat topic payload t left last_err).2 := by
  induction left generalizing attempt last_err m with
  | zero => cases last_err <;> rfl
  | succ left ih =>
    have hat : config.max_attempts.toNat - (left + 1) = attempt := by omega
    rw [send_loop, LmaoNode.retry_send_reliable, hat]
    cases hout : ((channel_at (L := L) ch topic payload t attempt).send_reliable L.wire topic
        payload (t attempt)).result with
    | ok sent =>
      have hout' : outcomes (L := L) ch topic payload t attempt = .ok sent := hout
      simp only [hout']
    | error e =>
      have hout' : outcomes (L := L) ch topic payload t attempt = .error e := hout
      simp only [hout']
      exact ih (attempt + 1) (some e) _ (by omega)

/-- The node's retry layer gives what this one does on the outcomes of its channel. -/
theorem send_reliable_result (config : RetryConfig) (fastrand : Draws) (ch : MessageChannel F)
    (topic : String) (payload : Bytes) (t : Nat → AckTransport) (m : RetryMetrics) :
    (send_reliable config fastrand (outcomes (L := L) ch topic payload t) m).result =
      (LmaoNode.retry_send_reliable (L := L) ch config.max_attempts.toNat topic payload t
        config.max_attempts.toNat none).2 :=
  send_loop_result config fastrand ch topic payload t _ 0 none m (Nat.zero_add _)

/-! ## The law of the retry layer -/

/-- The `i`-th call is the first that succeeds. -/
structure FirstSuccess (outcome : Outcomes) (i : Nat) (sent : ContentMessage × Bool) : Prop where
  failed : ∀ j < i, ∃ e, outcome j = .error e
  succeeded : outcome i = .ok sent

/-- What the layer promises of one call. -/
structure Promised (config : RetryConfig) (fastrand : Draws) (outcome : Outcomes)
    (before : RetryMetrics) (r : Retried) : Prop where
  no_panic : ∀ p, r.result ≠ .error (.panic p)
  /-- The first success within the attempts ends the call, with a call and a
  count for each failure before it. -/
  success : ∀ i sent, FirstSuccess outcome i sent → i < config.max_attempts.toNat →
    r.result = .ok sent ∧
    r.events.count .call = min config.max_attempts.toNat (i + 1) ∧
    r.counted = { before with retry_attempts := before.retry_attempts + UInt64.ofNat i }
  /-- Without one, all attempts are made, and the failure is counted once. -/
  failure : (∀ j < config.max_attempts.toNat, ∃ e, outcome j = .error e) →
    (∃ e, r.result = .error (.error e)) ∧
    r.events.count .call = config.max_attempts.toNat ∧
    r.counted =
      { retry_attempts := before.retry_attempts + UInt64.ofNat config.max_attempts.toNat
        retries_exhausted := before.retries_exhausted + 1 }
  /-- Each sleep is between two attempts and no longer than the maximum. -/
  paced : ∃ ds, r.events = paced ds ∧ (∀ d ∈ ds, d ≤ config.max_delay_ms) ∧
    (config.jitter = false →
      ds = (List.range ds.length).map fun k => config.delay_ms (UInt32.ofNat k))
  capped : ∀ n : UInt32, n ≤ 31 → (config.delay_ms n).toNat =
    min (config.base_delay_ms.toNat * 2 ^ n.toNat) config.max_delay_ms.toNat
  growing : ∀ m n : UInt32, m ≤ n → config.delay_ms m ≤ config.delay_ms n

theorem first_success_or (outcome : Outcomes) (n : Nat) :
    (∃ i < n, ∃ sent, FirstSuccess outcome i sent) ∨ ∀ j < n, ∃ e, outcome j = .error e := by
  induction n with
  | zero => exact .inr fun j hj => absurd hj (Nat.not_lt_zero j)
  | succ n ih =>
    rcases ih with ⟨i, hi, sent, hfirst⟩ | hfail
    · exact .inl ⟨i, by omega, sent, hfirst⟩
    · cases hn : outcome n with
      | ok sent => exact .inl ⟨n, by omega, sent, hfail, hn⟩
      | error e =>
        refine .inr fun j hj => ?_
        rcases Nat.lt_succ_iff_lt_or_eq.mp hj with hlt | rfl
        · exact hfail j hlt
        · exact ⟨e, hn⟩

theorem send_reliable_success {config : RetryConfig} {outcome : Outcomes} {i : Nat}
    {sent : ContentMessage × Bool} (fastrand : Draws) (m : RetryMetrics)
    (h : FirstSuccess outcome i sent) (hi : i < config.max_attempts.toNat) :
    send_reliable config fastrand outcome m =
      { events := paced (sleeps config fastrand 0 i)
        result := .ok sent
        counted := { m with retry_attempts := m.retry_attempts + UInt64.ofNat i } } :=
  send_loop_success fastrand none m (Nat.zero_add _).le hi
    (fun j hj => by rw [Nat.zero_add]; exact h.failed j hj)
    (by rw [Nat.zero_add]; exact h.succeeded)

theorem send_reliable_failure {config : RetryConfig} {outcome : Outcomes} (fastrand : Draws)
    (m : RetryMetrics) (hmax : config.max_attempts.toNat ≠ 0)
    (h : ∀ j < config.max_attempts.toNat, ∃ e, outcome j = .error e) :
    ∃ e, send_reliable config fastrand outcome m =
      { events := paced (sleeps config fastrand 0 (config.max_attempts.toNat - 1))
        result := .error (.error e)
        counted :=
          { retry_attempts := m.retry_attempts + UInt64.ofNat config.max_attempts.toNat
            retries_exhausted := m.retries_exhausted + 1 } } := by
  have hleft : config.max_attempts.toNat - 1 + 1 = config.max_attempts.toNat := by omega
  obtain ⟨e, he⟩ := send_loop_failure fastrand none m
    (by omega : 0 + (config.max_attempts.toNat - 1 + 1) = config.max_attempts.toNat)
    (fun j hj => by rw [Nat.zero_add]; exact h j (by omega))
  rw [hleft] at he
  exact ⟨_, he⟩

/-- The sleeps of a run are within the bounds, and the plain ones without jitter. -/
theorem sleeps_paced (config : RetryConfig) (fastrand : Draws) (n : Nat) :
    (∀ d ∈ sleeps config fastrand 0 n, d ≤ config.max_delay_ms) ∧
    (config.jitter = false → sleeps config fastrand 0 n =
      (List.range (sleeps config fastrand 0 n).length).map fun k =>
        config.delay_ms (UInt32.ofNat k)) := by
  unfold sleeps
  refine ⟨fun d hd => ?_, fun hj => ?_⟩
  · obtain ⟨k, -, rfl⟩ := List.mem_map.mp hd
    exact UInt64.le_trans (compute_delay_le config fastrand k) (delay_ms_le config _)
  · rw [List.length_map, List.length_range', ← List.range_eq_range']
    exact List.map_congr_left fun k _ => by simp [compute_delay, hj]

/-- The retry layer keeps its promise with every configuration that makes an
attempt. With none there is no last error, and the `unwrap` of it panics. -/
theorem the_retry_layer_keeps_its_promise_iff (config : RetryConfig) (fastrand : Draws)
    (outcome : Outcomes) (m : RetryMetrics) :
    Promised config fastrand outcome m (send_reliable config fastrand outcome m) ↔
      config.max_attempts ≠ 0 := by
  have hzero : config.max_attempts = 0 ↔ config.max_attempts.toNat = 0 :=
    UInt32.toNat_inj.symm
  refine ⟨fun h hmax => ?_, fun hmax => ?_⟩
  · apply h.no_panic .unwrap_none
    unfold send_reliable
    rw [hzero.mp hmax]
    rfl
  · have hpos : config.max_attempts.toNat ≠ 0 := fun h => hmax (hzero.mpr h)
    have hcases := first_success_or outcome config.max_attempts.toNat
    refine ⟨?_, ?_, ?_, ?_, ?_, fun _ _ => delay_ms_mono config⟩
    case refine_1 =>
      rintro p hp
      rcases hcases with ⟨i, hi, sent, hfirst⟩ | hfail
      · rw [send_reliable_success fastrand m hfirst hi] at hp
        cases hp
      · obtain ⟨e, he⟩ := send_reliable_failure fastrand m hpos hfail
        rw [he] at hp
        cases hp
    case refine_2 =>
      intro i sent hfirst hi
      rw [send_reliable_success fastrand m hfirst hi]
      refine ⟨rfl, ?_, rfl⟩
      rw [count_call_paced, sleeps, List.length_map, List.length_range']
      omega
    case refine_3 =>
      intro hfail
      obtain ⟨e, he⟩ := send_reliable_failure fastrand m hpos hfail
      rw [he]
      refine ⟨⟨e, rfl⟩, ?_, rfl⟩
      rw [count_call_paced, sleeps, List.length_map, List.length_range']
      omega
    case refine_4 =>
      rcases hcases with ⟨i, hi, sent, hfirst⟩ | hfail
      · rw [send_reliable_success fastrand m hfirst hi]
        exact ⟨_, rfl, sleeps_paced config fastrand i⟩
      · obtain ⟨e, he⟩ := send_reliable_failure fastrand m hpos hfail
        rw [he]
        exact ⟨_, rfl, sleeps_paced config fastrand _⟩
    case refine_5 =>
      intro n hn
      have hn' := UInt32.le_iff_toNat_le.mp hn
      have h31 : (31 : UInt32).toNat = 31 := rfl
      rw [toNat_delay_ms, Nat.min_eq_left (by omega : n.toNat ≤ 31)]

theorem a_layer_without_attempts_panics :
    ¬ Promised { RetryConfig.default with max_attempts := 0 } (fun _ _ => ⟨0, UInt64.zero_le⟩)
      (fun _ => .error (.Other "timeout")) { retry_attempts := 0, retries_exhausted := 0 }
      (send_reliable { RetryConfig.default with max_attempts := 0 }
        (fun _ _ => ⟨0, UInt64.zero_le⟩) (fun _ => .error (.Other "timeout"))
        { retry_attempts := 0, retries_exhausted := 0 }) :=
  fun h => h.no_panic .unwrap_none rfl

end RetryLayer

end lmao.node
