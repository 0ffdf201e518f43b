-- The Lamport clock of a channel (sds/channel.rs). A send takes its timestamp
-- with one `fetch_add`. A receive loads the clock, computes the new value and
-- stores it with `compare_exchange`, again from the start if the clock moved in
-- between. The machine below runs these operations of any number of calls in any
-- order. All of its laws hold as long as no addition is made at the top of the
-- range, and nothing keeps a peer from bringing the clock there.
import Lmao.OutgoingBuffer
import Lmao.Repair

set_option linter.unusedSectionVars false

namespace lmao.sds

open machine MessageChannel

variable {F : Type} [IdFilter F] {w : Wire}

/-! ## Calls in a race -/

/-- A message that moves the clock. -/
inductive Clocked
  | content (m : ContentMessage)
  | sync (s : SyncMessage)
deriving DecidableEq, Repr

def Clocked.lamport_timestamp : Clocked → UInt64
  | .content m => m.lamport_timestamp
  | .sync s => s.lamport_timestamp

/-- A call of `receive` in the loop of `update_timestamp`. Once it has loaded the
clock, it has the value that it loaded and the value that it wants to store. -/
structure Updating where
  msg : Clocked
  loaded : Option (UInt64 × UInt64)

/-- A channel with the calls that run on it. -/
structure Race (w : Wire) (F : Type) where
  session : Session w F
  updating : List Updating

/-- One addition to the clock is at the top of the range. -/
def at_top (ts : UInt64) : Bool := ts.toNat + 1 ≥ 2 ^ 64

/-- A call of the channel (a `receive` only up to the loop), or an operation of
the receive `k` in the loop. -/
inductive RaceOp
  | call (op : ChannelOp)
  | send_repair_request (topic : String) (missing : List HistoryEntry)
      (publish : String → Bytes → Except TransportError Unit)
  | load (k : Nat)
  | compare_exchange (k : Nat)

/-- `stored` is the clock after an operation, `created` the timestamp of a message
that the channel built, `processed` that of a message after its update. -/
inductive ClockEvent
  | stored (ts : UInt64)
  | created (ts : UInt64)
  | processed (ts : UInt64)
  | overflowed
deriving DecidableEq, Repr

/-- The timestamps of the messages that a call builds. -/
def Session.creates (s : Session w F) : ChannelOp → List UInt64
  | .send _ payload _ | .send_reliable _ payload _ | .start payload =>
    [(s.channel.content_message w payload).2.lamport_timestamp]
  | .send_sync topic publish =>
    ((s.channel.send_sync w topic publish).2.toOption.map (·.lamport_timestamp)).toList
  | _ => []

namespace MessageChannel

/-- What `receive` does with a message after `update_timestamp`. -/
def after_update (ch : MessageChannel F) : Clocked → MessageChannel F
  | .content content =>
    if ch.dependencies_satisfied content.causal_history then
      (ch.mark content.message_id content.lamport_timestamp).resolve_buffered.1
    else (resolve_buffered { ch with incoming_buffer := park ch.incoming_buffer content }).1
  | .sync _ => ch.resolve_buffered.1

end MessageChannel

namespace Race

def clock (s : Race w F) : UInt64 := s.session.channel.lamport_timestamp

def with_channel (s : Race w F) (ch : MessageChannel F) : Race w F :=
  { s with session := { s.session with channel := ch } }

/-- The receive waits for its turn in the loop. -/
def push (s : Race w F) (ch : MessageChannel F) (msg : Clocked) : Race w F :=
  { (s.with_channel ch) with updating := s.updating ++ [{ msg, loaded := none }] }

/-- A message that passed the checks comes to the loop, or needs none. The id of
a sync message goes into the filter before it. -/
def take (s : Race w F) (ch : MessageChannel F) : SdsMessage → Race w F
  | .Content content => s.push ch (.content content)
  | .Sync sync => s.push { ch with bloom := set ch.bloom sync.message_id } (.sync sync)
  | .Ephemeral eph => s.with_channel { ch with bloom := set ch.bloom eph.message_id }

/-- A receive up to the loop. -/
def enter (B : Build) (s : Race w F) (raw : Bytes) : Except Panic (Race w F) :=
  match w.sds_from_slice raw with
  | none => .ok s
  | some msg =>
    if check s.session.channel.bloom msg.message_id then .ok s
    else
      match msg.bloom_filter_bytes with
      | none => .ok (s.take s.session.channel msg)
      | some remote_bloom_bytes =>
        match s.session.channel.check_outgoing_acks B remote_bloom_bytes with
        | .error p => .error p
        | .ok ch => .ok (s.take ch msg)

/-- The events of an operation that adds to `base`, or to nothing. -/
def events (base : Option UInt64) (created : List UInt64) (clock : UInt64) : List ClockEvent :=
  (if base.any at_top then [ClockEvent.overflowed] else []) ++ created.map ClockEvent.created ++
    [ClockEvent.stored clock]

/-- An addition to `base` panics in a build with overflow checks. -/
def guard (B : Build) (base : Option UInt64) : Except Panic Unit :=
  if B.overflow_checks && base.any at_top then .error .add_overflow else .ok ()

def step (B : Build) (s : Race w F) : RaceOp → Except Panic (Race w F × List ClockEvent)
  | .call (.receive raw) => do
    let s' ← s.enter B raw
    return (s', events none [] s'.clock)
  | .call op => do
    let base := if op.ticks then some s.clock else none
    guard B base
    let r ← s.session.step B op
    let s' := { s with session := r.1 }
    return (s', events base (s.session.creates op) s'.clock)
  | .send_repair_request topic missing publish => do
    guard B (some s.clock)
    let r := s.session.channel.send_repair_request w topic missing publish
    let s' := s.with_channel r.1
    return (s', events (some s.clock) (r.2.toOption.map (·.lamport_timestamp)).toList s'.clock)
  | .load k =>
    match s.updating[k]? with
    | none => .ok (s, events none [] s.clock)
    | some u => do
      let base := max s.clock u.msg.lamport_timestamp
      guard B (some base)
      let u' := { u with loaded := some (s.clock, base + 1) }
      return ({ s with updating := s.updating.set k u' }, events (some base) [] s.clock)
  | .compare_exchange k =>
    match s.updating[k]? with
    | none => .ok (s, events none [] s.clock)
    | some u =>
      match u.loaded with
      | none => .ok (s, events none [] s.clock)
      | some (current, new_val) =>
        if s.clock = current then
          let ch := after_update { s.session.channel with lamport_timestamp := new_val } u.msg
          let s' := { (s.with_channel ch) with updating := s.updating.eraseIdx k }
          .ok (s', .processed u.msg.lamport_timestamp :: events none [] s'.clock)
        else
          .ok ({ s with updating := s.updating.set k { u with loaded := none } },
            events none [] s.clock)

end Race

/-! ## What one operation does -/

namespace Race

/-- What the operation adds one to. -/
def adds (s : Race w F) : RaceOp → Option UInt64
  | .call op => if op.ticks then some s.clock else none
  | .send_repair_request _ _ _ => some s.clock
  | .load k => s.updating[k]?.map fun u => max s.clock u.msg.lamport_timestamp
  | .compare_exchange _ => none

/-- An operation that ends: it leaves the clock, takes a timestamp, loads the
clock for an update, or makes the update. -/
inductive Change (s s' : Race w F) : Option UInt64 → List ClockEvent → Prop
  | quiet : s'.clock = s.clock → (∀ u ∈ s'.updating, u ∈ s.updating ∨ u.loaded = none) →
      Change s s' none (events none [] s'.clock)
  | tick {created : List UInt64} : s'.clock = s.clock + 1 → s'.updating = s.updating →
      (created = [] ∨ created = [s.clock + 1]) →
      Change s s' (some s.clock) (events (some s.clock) created s'.clock)
  | load {msg : Clocked} : s'.clock = s.clock →
      (∀ u ∈ s'.updating, u ∈ s.updating ∨
        u = ⟨msg, some (s.clock, max s.clock msg.lamport_timestamp + 1)⟩) →
      Change s s' (some (max s.clock msg.lamport_timestamp))
        (events (some (max s.clock msg.lamport_timestamp)) [] s'.clock)
  | update {msg : Clocked} {new_val : UInt64} : ⟨msg, some (s.clock, new_val)⟩ ∈ s.updating →
      s'.clock = new_val → (∀ u ∈ s'.updating, u ∈ s.updating) →
      Change s s' none (.processed msg.lamport_timestamp :: events none [] s'.clock)

end Race

theorem Session.step_clock {B : Build} {s s' : Session w F} {op : ChannelOp} {ev : List Event}
    (hop : ∀ raw, op ≠ .receive raw) (h : s.step B op = .ok (s', ev)) :
    s'.channel.lamport_timestamp =
      if op.ticks then s.channel.lamport_timestamp + 1 else s.channel.lamport_timestamp := by
  have hstart : (s.started op).lamport_timestamp =
      if op.ticks then s.channel.lamport_timestamp + 1 else s.channel.lamport_timestamp := by
    unfold started
    split <;> rfl
  have hout := step_outcome h
  generalize s'.channel = ch' at hout ⊢
  cases hout with
  | quiet _ => exact hstart
  | reliable _ _ => exact hstart
  | plain _ _ => exact hstart
  | @received raw _ _ hraw _ => exact absurd hraw (hop raw)

theorem send_sync_timestamp (ch : MessageChannel F) (topic : String)
    (publish : String → Bytes → Except TransportError Unit) :
    ((ch.send_sync w topic publish).2.toOption.map (·.lamport_timestamp)).toList = [] ∨
    ((ch.send_sync w topic publish).2.toOption.map (·.lamport_timestamp)).toList =
      [ch.lamport_timestamp + 1] := by
  unfold send_sync
  dsimp only
  split
  · exact .inl rfl
  · exact .inr rfl

theorem send_repair_request_timestamp (ch : MessageChannel F) (topic : String)
    (missing : List HistoryEntry) (publish : String → Bytes → Except TransportError Unit) :
    (ch.send_repair_request w topic missing publish).1.lamport_timestamp =
      ch.lamport_timestamp + 1 ∧
    (((ch.send_repair_request w topic missing publish).2.toOption.map
        (·.lamport_timestamp)).toList = [] ∨
      ((ch.send_repair_request w topic missing publish).2.toOption.map
        (·.lamport_timestamp)).toList = [ch.lamport_timestamp + 1]) := by
  unfold send_repair_request
  dsimp only
  split
  · exact ⟨rfl, .inl rfl⟩
  · exact ⟨rfl, .inr rfl⟩

theorem Session.creates_cases (s : Session w F) (op : ChannelOp) :
    s.creates op = [] ∨ (op.ticks = true ∧ s.creates op = [s.channel.lamport_timestamp + 1]) := by
  cases op with
  | send topic payload publish => exact .inr ⟨rfl, rfl⟩
  | send_reliable topic payload t => exact .inr ⟨rfl, rfl⟩
  | send_sync topic publish =>
    rcases send_sync_timestamp (w := w) s.channel topic publish with h | h
    · exact .inl h
    · exact .inr ⟨rfl, h⟩
  | start payload => exact .inr ⟨rfl, rfl⟩
  | send_ephemeral topic payload publish => exact .inl rfl
  | receive raw => exact .inl rfl
  | end_send k => exact .inl rfl
  | end_reliable k => exact .inl rfl

theorem after_update_clock (ch : MessageChannel F) (msg : Clocked) :
    (ch.after_update msg).lamport_timestamp = ch.lamport_timestamp := by
  cases msg with
  | content m =>
    unfold after_update
    dsimp only
    split
    · exact (resolve_buffered_same _).2
    · exact (resolve_buffered_same _).2
  | sync s => exact (resolve_buffered_same ch).2

namespace Race

theorem take_quiet (s : Race w F) {ch : MessageChannel F}
    (hch : ch.lamport_timestamp = s.session.channel.lamport_timestamp) (msg : SdsMessage) :
    (s.take ch msg).clock = s.clock ∧
      ∀ u ∈ (s.take ch msg).updating, u ∈ s.updating ∨ u.loaded = none := by
  have hpush : ∀ (ch : MessageChannel F) (msg : Clocked), ∀ u ∈ (s.push ch msg).updating,
      u ∈ s.updating ∨ u.loaded = none := by
    intro ch msg u hu
    rcases List.mem_append.mp hu with hu | hu
    · exact .inl hu
    · exact .inr (List.mem_singleton.mp hu ▸ rfl)
  cases msg with
  | Content m => exact ⟨hch, hpush _ _⟩
  | Sync m => exact ⟨hch, hpush _ _⟩
  | Ephemeral m => exact ⟨hch, fun u hu => .inl hu⟩

theorem enter_quiet {B : Build} {s s' : Race w F} {raw : Bytes} (h : s.enter B raw = .ok s') :
    s'.clock = s.clock ∧ ∀ u ∈ s'.updating, u ∈ s.updating ∨ u.loaded = none := by
  unfold enter at h
  split at h
  · cases h
    exact ⟨rfl, fun u hu => .inl hu⟩
  · split at h
    · cases h
      exact ⟨rfl, fun u hu => .inl hu⟩
    · split at h
      · cases h
        exact s.take_quiet rfl _
      · split at h
        · cases h
        · rename_i ch hch
          cases h
          have hclock : ch.lamport_timestamp = s.session.channel.lamport_timestamp := by
            obtain ⟨out, acks, rfl⟩ := check_outgoing_acks_frame hch
            rfl
          exact s.take_quiet hclock _

/-- A call that is no receive. -/
theorem step_call {B : Build} {s : Race w F} {op : ChannelOp} (hop : ∀ raw, op ≠ .receive raw) :
    s.step B (.call op) = (do
      guard B (s.adds (.call op))
      let r ← s.session.step B op
      return ({ s with session := r.1 }, events (s.adds (.call op)) (s.session.creates op)
        r.1.channel.lamport_timestamp)) := by
  cases op with
  | receive raw => exact absurd rfl (hop raw)
  | send topic payload publish => rfl
  | send_reliable topic payload t => rfl
  | send_sync topic publish => rfl
  | send_ephemeral topic payload publish => rfl
  | start payload => rfl
  | end_send k => rfl
  | end_reliable k => rfl

/-- A receive stops before the loop, so the clock stays. -/
theorem receive_change {B : Build} {s s' : Race w F} {raw : Bytes} {ev : List ClockEvent}
    (h : s.step B (.call (.receive raw)) = .ok (s', ev)) : Change s s' none ev := by
  simp only [step, bind, Except.bind] at h
  rcases hent : s.enter B raw with p | t
  · simp [hent] at h
  · simp only [hent, pure, Except.pure, Except.ok.injEq, Prod.mk.injEq] at h
    obtain ⟨rfl, rfl⟩ := h
    obtain ⟨hclock, hupd⟩ := enter_quiet hent
    exact .quiet hclock hupd

/-- Any other call takes a timestamp, or leaves the clock. -/
theorem call_change {B : Build} {s s' : Race w F} {op : ChannelOp} {ev : List ClockEvent}
    (hop : ∀ raw, op ≠ .receive raw) (h : s.step B (.call op) = .ok (s', ev)) :
    Change s s' (s.adds (.call op)) ev := by
  rw [step_call hop] at h
  simp only [bind, Except.bind] at h
  rcases hg : guard B (s.adds (.call op)) with p | ⟨⟩
  · simp [hg] at h
  rcases hs : s.session.step B op with p | ⟨t, log⟩
  · simp [hg, hs] at h
  simp only [hg, hs, pure, Except.pure, Except.ok.injEq, Prod.mk.injEq] at h
  obtain ⟨rfl, rfl⟩ := h
  have hclock := Session.step_clock hop hs
  rcases hticks : op.ticks with _ | _
  · have hcreates : s.session.creates op = [] := by
      rcases s.session.creates_cases op with hnil | ⟨htrue, -⟩
      · exact hnil
      · rw [hticks] at htrue
        cases htrue
    rw [hticks, if_neg (by decide)] at hclock
    have hadds : s.adds (.call op) = none := by simp [adds, hticks]
    rw [hadds, hcreates]
    exact .quiet hclock fun u hu => .inl hu
  · rw [hticks, if_pos rfl] at hclock
    have hadds : s.adds (.call op) = some s.clock := by simp [adds, hticks]
    rw [hadds]
    refine .tick hclock rfl ?_
    rcases s.session.creates_cases op with hnil | ⟨-, hone⟩
    · exact .inl hnil
    · exact .inr hone

theorem load_change {B : Build} {s s' : Race w F} {k : Nat} {ev : List ClockEvent}
    (h : s.step B (.load k) = .ok (s', ev)) : Change s s' (s.adds (.load k)) ev := by
  simp only [step] at h
  rcases hk : s.updating[k]? with _ | u
  · have hadds : s.adds (.load k) = none := by simp only [adds, hk, Option.map_none]
    rw [hadds]
    simp only [hk] at h
    cases h
    exact .quiet rfl fun u hu => .inl hu
  · have hadds : s.adds (.load k) = some (max s.clock u.msg.lamport_timestamp) := by
      simp only [adds, hk, Option.map_some]
    rw [hadds]
    simp only [hk, bind, Except.bind] at h
    rcases hg : guard B (some (max s.clock u.msg.lamport_timestamp)) with p | ⟨⟩
    · simp [hg] at h
    · simp only [hg, pure, Except.pure, Except.ok.injEq, Prod.mk.injEq] at h
      obtain ⟨rfl, rfl⟩ := h
      refine .load rfl fun u' hu' => ?_
      exact List.mem_or_eq_of_mem_set hu'

/-- The exchange makes the update when the clock is still the one that was
loaded. -/
theorem compare_exchange_change {B : Build} {s s' : Race w F} {k : Nat} {ev : List ClockEvent}
    (h : s.step B (.compare_exchange k) = .ok (s', ev)) : Change s s' none ev := by
  simp only [step] at h
  rcases hk : s.updating[k]? with _ | ⟨msg, _ | ⟨current, new_val⟩⟩
  · simp only [hk] at h
    cases h
    exact .quiet rfl fun u hu => .inl hu
  · simp only [hk] at h
    cases h
    exact .quiet rfl fun u hu => .inl hu
  · simp only [hk] at h
    split at h
    · rename_i heq
      subst heq
      cases h
      refine .update (List.mem_of_getElem? hk) ?_ ?_
      · exact after_update_clock _ msg
      · exact fun u hu => List.mem_of_mem_eraseIdx hu
    · cases h
      refine .quiet rfl fun u hu => ?_
      rcases List.mem_or_eq_of_mem_set hu with hu | rfl
      · exact .inl hu
      · exact .inr rfl

theorem step_change {B : Build} {s s' : Race w F} {op : RaceOp} {ev : List ClockEvent}
    (h : s.step B op = .ok (s', ev)) : Change s s' (s.adds op) ev := by
  cases op with
  | call op =>
    by_cases hop : ∃ raw, op = .receive raw
    · obtain ⟨raw, rfl⟩ := hop
      exact receive_change h
    · exact call_change (fun raw heq => hop ⟨raw, heq⟩) h
  | send_repair_request topic missing publish =>
    simp only [step, bind, Except.bind] at h
    rcases hg : guard B (some s.clock) with p | ⟨⟩
    · simp [hg] at h
    · simp only [hg, pure, Except.pure, Except.ok.injEq, Prod.mk.injEq] at h
      obtain ⟨rfl, rfl⟩ := h
      obtain ⟨hclock, hcreated⟩ :=
        send_repair_request_timestamp (w := w) s.session.channel topic missing publish
      exact .tick hclock rfl hcreated
  | load k => exact load_change h
  | compare_exchange k => exact compare_exchange_change h

end Race

/-! ## The law of the clock -/

def storedOf (log : List ClockEvent) : List UInt64 :=
  log.filterMap fun
    | .stored ts => some ts
    | _ => none

def createdOf (log : List ClockEvent) : List UInt64 :=
  log.filterMap fun
    | .created ts => some ts
    | _ => none

theorem mem_storedOf {log : List ClockEvent} {ts : UInt64} :
    ts ∈ storedOf log ↔ .stored ts ∈ log := by
  unfold storedOf
  rw [List.mem_filterMap]
  constructor
  · rintro ⟨e, he, hts⟩
    cases e with
    | stored ts' =>
      cases hts
      exact he
    | _ => cases hts
  · intro h
    exact ⟨_, h, rfl⟩

theorem mem_createdOf {log : List ClockEvent} {ts : UInt64} :
    ts ∈ createdOf log ↔ .created ts ∈ log := by
  unfold createdOf
  rw [List.mem_filterMap]
  constructor
  · rintro ⟨e, he, hts⟩
    cases e with
    | created ts' =>
      cases hts
      exact he
    | _ => cases hts
  · intro h
    exact ⟨_, h, rfl⟩

/-- The law, for a log that starts with the clock at `start`. -/
structure LamportLaw (start : UInt64) (log : List ClockEvent) : Prop where
  never_decreases : (start :: storedOf log).Pairwise (· ≤ ·)
  increasing : (createdOf log).Pairwise (· < ·)
  after_processed : ∀ before r mid ts after,
    log = before ++ ClockEvent.processed r :: (mid ++ ClockEvent.created ts :: after) → r < ts
  no_overflow : .overflowed ∉ log

/-- The law is kept by an event that is above the like events before it. -/
theorem LamportLaw.snoc {start : UInt64} {log : List ClockEvent} (h : LamportLaw start log)
    {e : ClockEvent} (hover : e ≠ .overflowed)
    (hstored : ∀ ts, e = .stored ts → start ≤ ts ∧ ∀ ts', .stored ts' ∈ log → ts' ≤ ts)
    (hcreated : ∀ ts, e = .created ts →
      (∀ ts', .created ts' ∈ log → ts' < ts) ∧ ∀ r, .processed r ∈ log → r < ts) :
    LamportLaw start (log ++ [e]) := by
  refine ⟨?_, ?_, ?_, ?_⟩
  · have hsplit : storedOf (log ++ [e]) = storedOf log ++ storedOf [e] := List.filterMap_append
    rw [hsplit, ← List.cons_append, List.pairwise_append]
    refine ⟨h.never_decreases, ?_, ?_⟩
    · cases e <;> simp [storedOf]
    · intro x hx y hy
      obtain ⟨hstart, hlog⟩ := hstored y (List.mem_singleton.mp (mem_storedOf.mp hy)).symm
      rcases List.mem_cons.mp hx with rfl | hx
      · exact hstart
      · exact hlog x (mem_storedOf.mp hx)
  · have hsplit : createdOf (log ++ [e]) = createdOf log ++ createdOf [e] := List.filterMap_append
    rw [hsplit, List.pairwise_append]
    refine ⟨h.increasing, ?_, ?_⟩
    · cases e <;> simp [createdOf]
    · intro x hx y hy
      obtain ⟨hlog, -⟩ := hcreated y (List.mem_singleton.mp (mem_createdOf.mp hy)).symm
      exact hlog x (mem_createdOf.mp hx)
  · intro before r mid ts after heq
    -- The last event is the created one, or lies behind it.
    rcases List.eq_nil_or_concat' after with rfl | ⟨after', e', rfl⟩
    · have hsplit : log ++ [e] = (before ++ .processed r :: mid) ++ [.created ts] := by
        rw [heq, List.append_assoc, List.cons_append]
      obtain ⟨hlog, hlast⟩ := List.append_inj' hsplit rfl
      cases hlast
      exact (hcreated ts rfl).2 r (by rw [hlog]; simp)
    · have hsplit : log ++ [e] =
          (before ++ .processed r :: (mid ++ .created ts :: after')) ++ [e'] := by
        rw [heq]
        simp
      exact h.after_processed before r mid ts after' (List.append_inj' hsplit rfl).1
  · intro hin
    rcases List.mem_append.mp hin with hin | hin
    · exact h.no_overflow hin
    · exact hover (List.mem_singleton.mp hin).symm

/-- The law, with nothing in the log above the clock. -/
structure Bounded (start : UInt64) (log : List ClockEvent) (clock : UInt64) : Prop where
  law : LamportLaw start log
  start_le : start ≤ clock
  stored_le : ∀ ts, .stored ts ∈ log → ts ≤ clock
  created_le : ∀ ts, .created ts ∈ log → ts ≤ clock
  processed_le : ∀ ts, .processed ts ∈ log → ts ≤ clock

theorem bounded_nil (start : UInt64) : Bounded start [] start := by
  refine ⟨⟨by simp [storedOf], by simp [createdOf], ?_, by simp⟩, UInt64.le_refl _, by simp,
    by simp, by simp⟩
  intro before r mid ts after heq
  simp at heq

namespace Bounded

variable {start clock clock' ts : UInt64} {log : List ClockEvent}

theorem mono (h : Bounded start log clock) (hle : clock ≤ clock') : Bounded start log clock' :=
  ⟨h.law, UInt64.le_trans h.start_le hle,
    fun ts hts => UInt64.le_trans (h.stored_le ts hts) hle,
    fun ts hts => UInt64.le_trans (h.created_le ts hts) hle,
    fun ts hts => UInt64.le_trans (h.processed_le ts hts) hle⟩

/-- One more event, where a message that is created is above all before it. -/
theorem snoc (h : Bounded start log clock) {e : ClockEvent} (hover : e ≠ .overflowed)
    (hstored : ∀ ts, e = .stored ts → ts = clock)
    (hcreated : ∀ ts, e = .created ts → ts ≤ clock ∧
      (∀ ts', .created ts' ∈ log → ts' < ts) ∧ ∀ r, .processed r ∈ log → r < ts)
    (hprocessed : ∀ r, e = .processed r → r ≤ clock) : Bounded start (log ++ [e]) clock := by
  refine ⟨h.law.snoc hover ?_ fun ts he => (hcreated ts he).2, h.start_le, ?_, ?_, ?_⟩
  · intro ts he
    rw [hstored ts he]
    exact ⟨h.start_le, h.stored_le⟩
  · intro ts hts
    rcases List.mem_append.mp hts with hts | hts
    · exact h.stored_le ts hts
    · rw [hstored ts (List.mem_singleton.mp hts).symm]
      exact UInt64.le_refl clock
  · intro ts hts
    rcases List.mem_append.mp hts with hts | hts
    · exact h.created_le ts hts
    · exact (hcreated ts (List.mem_singleton.mp hts).symm).1
  · intro ts hts
    rcases List.mem_append.mp hts with hts | hts
    · exact h.processed_le ts hts
    · exact hprocessed ts (List.mem_singleton.mp hts).symm

theorem stored (h : Bounded start log clock) : Bounded start (log ++ [.stored clock]) clock :=
  h.snoc (by simp) (by simp) (by simp) (by simp)

theorem created (h : Bounded start log clock) (hlt : clock < ts) :
    Bounded start (log ++ [.created ts]) ts := by
  refine (h.mono (UInt64.le_of_lt hlt)).snoc (by simp) (by simp) ?_ (by simp)
  rintro _ ⟨⟩
  exact ⟨UInt64.le_refl _, fun ts' hts' => UInt64.lt_of_le_of_lt (h.created_le ts' hts') hlt,
    fun r hr => UInt64.lt_of_le_of_lt (h.processed_le r hr) hlt⟩

theorem processed (h : Bounded start log clock) (hle : ts ≤ clock) :
    Bounded start (log ++ [.processed ts]) clock := by
  apply h.snoc (by simp) (by simp) (by simp)
  rintro _ ⟨⟩
  exact hle

end Bounded

/-! ## Runs -/

theorem le_max_both (a b : UInt64) : a ≤ max a b ∧ b ≤ max a b := by
  have hmax : max a b = if a ≤ b then b else a := rfl
  rw [hmax]
  split
  · rename_i h
    exact ⟨h, UInt64.le_refl b⟩
  · rename_i h
    exact ⟨UInt64.le_refl a, (UInt64.le_total a b).resolve_left h⟩

theorem lt_add_one_of_below {ts : UInt64} (h : at_top ts = false) : ts < ts + 1 := by
  have hlt : ts.toNat + 1 < 2 ^ 64 := by
    unfold at_top at h
    rw [decide_eq_false_iff_not] at h
    omega
  rw [UInt64.lt_iff_toNat_lt, UInt64.toNat_add, UInt64.toNat_one, Nat.mod_eq_of_lt hlt]
  exact Nat.lt_succ_self _

namespace Race

/-- The operation does not add at the top. -/
def Below (s : Race w F) (op : RaceOp) : Prop := (s.adds op).any at_top = false

instance Below.decidable (s : Race w F) (op : RaceOp) : Decidable (s.Below op) :=
  inferInstanceAs (Decidable (_ = _))

/-- What a run keeps: the law, and a loop that loaded the clock is about to store
more than what it loaded and more than its message has. -/
structure Ticking (start : UInt64) (log : List ClockEvent) (s : Race w F) : Prop where
  bounded : Bounded start log s.clock
  loaded : ∀ u ∈ s.updating, ∀ current new_val, u.loaded = some (current, new_val) →
    current < new_val ∧ u.msg.lamport_timestamp < new_val

theorem events_below {base : Option UInt64} (h : base.any at_top = false) (created : List UInt64)
    (clock : UInt64) : events base created clock = created.map .created ++ [.stored clock] := by
  unfold events
  rw [h]
  rfl

theorem Ticking.step {B : Build} {start : UInt64} {log : List ClockEvent} {s s' : Race w F}
    {op : RaceOp} {ev : List ClockEvent} (h : Ticking start log s) (hbelow : s.Below op)
    (hs : s.step B op = .ok (s', ev)) : Ticking start (log ++ ev) s' := by
  have hchange := step_change hs
  unfold Below at hbelow
  generalize s.adds op = base at hchange hbelow
  cases hchange with
  | quiet hclock hupd =>
    rw [events_below hbelow]
    refine ⟨?_, fun u hu current new_val hl => ?_⟩
    · rw [hclock]
      exact h.bounded.stored
    · rcases hupd u hu with hu | hnone
      · exact h.loaded u hu current new_val hl
      · rw [hnone] at hl
        cases hl
  | tick hclock hupd hcreated =>
    rw [events_below hbelow]
    have hlt : s.clock < s.clock + 1 := lt_add_one_of_below (by simpa using hbelow)
    refine ⟨?_, hupd ▸ h.loaded⟩
    rw [hclock]
    rcases hcreated with rfl | rfl
    · exact (h.bounded.mono (UInt64.le_of_lt hlt)).stored
    · have hboth := (h.bounded.created hlt).stored
      rw [List.append_assoc] at hboth
      exact hboth
  | @load msg hclock hupd =>
    rw [events_below hbelow]
    refine ⟨?_, fun u hu current new_val hl => ?_⟩
    · rw [hclock]
      exact h.bounded.stored
    · rcases hupd u hu with hu | rfl
      · exact h.loaded u hu current new_val hl
      · cases hl
        have hlt := lt_add_one_of_below
          (show at_top (max s.clock msg.lamport_timestamp) = false by simpa using hbelow)
        obtain ⟨hleft, hright⟩ := le_max_both s.clock msg.lamport_timestamp
        exact ⟨UInt64.lt_of_le_of_lt hleft hlt, UInt64.lt_of_le_of_lt hright hlt⟩
  | @update msg new_val hmem hclock hupd =>
    rw [events_below hbelow]
    obtain ⟨hlt, hmsg⟩ := h.loaded _ hmem _ _ rfl
    refine ⟨?_, fun u hu => h.loaded u (hupd u hu)⟩
    rw [hclock]
    have hboth := ((h.bounded.mono (UInt64.le_of_lt hlt)).processed (UInt64.le_of_lt hmsg)).stored
    rw [List.append_assoc] at hboth
    exact hboth

/-- The filters of the peers as exact sets, in a build with or without overflow
checks. -/
def exact_build (dec : Bytes → Option (Finset MessageId)) (overflow_checks : Bool) : Build :=
  { exactBlooms dec with overflow_checks }

theorem check_outgoing_acks_returns (dec : Bytes → Option (Finset MessageId))
    (overflow_checks : Bool) (ch : MessageChannel F) (bytes : Bytes) :
    ∃ ch', ch.check_outgoing_acks (exact_build dec overflow_checks) bytes = .ok ch' := by
  unfold check_outgoing_acks
  rcases hd : (exact_build dec overflow_checks).from_bytes bytes with _ | ids
  · exact ⟨_, rfl⟩
  · have hexact : ∀ id, ∃ b, (exact_build dec overflow_checks).probably_contains ids id = .ok b :=
      fun id => ⟨_, rfl⟩
    obtain ⟨r, hr⟩ := retain_unacked_returns hexact ch.config.possible_acks_threshold
      ch.outgoing_buffer ch.possible_acks
    simp only [hr, bind, Except.bind]
    exact ⟨_, rfl⟩

theorem enter_returns (dec : Bytes → Option (Finset MessageId)) (overflow_checks : Bool)
    (s : Race w F) (raw : Bytes) :
    ∃ s', s.enter (exact_build dec overflow_checks) raw = .ok s' := by
  unfold enter
  split
  · exact ⟨_, rfl⟩
  · split
    · exact ⟨_, rfl⟩
    · split
      · exact ⟨_, rfl⟩
      · rename_i bytes _
        obtain ⟨ch, hch⟩ := check_outgoing_acks_returns dec overflow_checks s.session.channel bytes
        rw [hch]
        exact ⟨_, rfl⟩

/-- An operation that does not add at the top ends. -/
theorem step_returns (dec : Bytes → Option (Finset MessageId)) (overflow_checks : Bool)
    {s : Race w F} {op : RaceOp} (h : s.Below op) :
    ∃ r, s.step (exact_build dec overflow_checks) op = .ok r := by
  have hguard : guard (exact_build dec overflow_checks) (s.adds op) = .ok () := by
    unfold guard
    rw [h, Bool.and_false]
    rfl
  cases op with
  | call op =>
    by_cases hop : ∃ raw, op = .receive raw
    · obtain ⟨raw, rfl⟩ := hop
      obtain ⟨s', hs'⟩ := enter_returns dec overflow_checks s raw
      simp only [step, hs', bind, Except.bind]
      exact ⟨_, rfl⟩
    · have hne : ∀ raw, op ≠ .receive raw := fun raw heq => hop ⟨raw, heq⟩
      obtain ⟨r, hr⟩ := Session.step_returns_of_ne (exact_build dec overflow_checks) s.session hne
      rw [step_call hne, hguard, hr]
      exact ⟨_, rfl⟩
  | send_repair_request topic missing publish =>
    have hg : guard (exact_build dec overflow_checks) (some s.clock) = .ok () := hguard
    simp only [step, hg, bind, Except.bind]
    exact ⟨_, rfl⟩
  | load k =>
    simp only [step]
    rcases hk : s.updating[k]? with _ | u
    · exact ⟨_, rfl⟩
    · simp only [adds, hk, Option.map_some] at hguard
      simp only [hguard, bind, Except.bind]
      exact ⟨_, rfl⟩
  | compare_exchange k =>
    simp only [step]
    split
    · exact ⟨_, rfl⟩
    · split
      · exact ⟨_, rfl⟩
      · split
        · exact ⟨_, rfl⟩
        · exact ⟨_, rfl⟩

/-- An operation that adds at the top overflows. -/
theorem below_of_no_overflow {B : Build} {s s' : Race w F} {op : RaceOp} {ev : List ClockEvent}
    (hs : s.step B op = .ok (s', ev)) (h : .overflowed ∉ ev) : s.Below op := by
  have hchange := step_change hs
  unfold Below
  generalize s.adds op = base at hchange
  by_contra htop
  rw [Bool.not_eq_false] at htop
  cases hchange with
  | quiet hclock hupd => cases htop
  | tick hclock hupd hcreated => exact h (by simp [events, htop])
  | load hclock hupd => exact h (by simp [events, htop])
  | update hmem hclock hupd => cases htop

theorem meets_of_no_overflow {B : Build} {s s' : Race w F} {ops : List RaceOp}
    {log : List ClockEvent} (hr : run (step B) s ops = .ok (s', log)) (h : .overflowed ∉ log) :
    Meets (step B) (fun _ s op => s.Below op) s ops := by
  induction ops using List.reverseRecOn generalizing s' log with
  | nil =>
    intro before op after hb
    simp at hb
  | append_singleton ops op ih =>
    obtain ⟨t, log', ev, hr', hs, rfl⟩ := run_snoc_cases hr
    rw [List.mem_append, not_or] at h
    refine meets_snoc.mpr ⟨ih hr' h.1, fun t' log'' ht => ?_⟩
    rw [hr'] at ht
    cases ht
    exact below_of_no_overflow hs h.2

end Race

/-- For every order of the atomic operations of any number of calls, the law of
the clock holds exactly when no addition is made at the top of the range. -/
theorem the_clock_keeps_the_lamport_law_iff (dec : Bytes → Option (Finset MessageId))
    (overflow_checks : Bool) (session : Session w F) (ops : List RaceOp) :
    Returns (run (Race.step (Race.exact_build dec overflow_checks))
        { session, updating := [] } ops)
      (fun r => LamportLaw session.channel.lamport_timestamp r.2) ↔
    Meets (Race.step (Race.exact_build dec overflow_checks)) (fun _ s op => s.Below op)
      { session, updating := [] } ops := by
  constructor
  · rintro ⟨⟨s, log⟩, hr, hlaw⟩
    exact Race.meets_of_no_overflow hr hlaw.no_overflow
  · intro hm
    have h0 : Race.Ticking session.channel.lamport_timestamp []
        ({ session, updating := [] } : Race w F) := ⟨bounded_nil _, by simp⟩
    obtain ⟨s, log, hr, hinv⟩ := run_returns_of_meets h0 (fun log s op h hbelow => by
      obtain ⟨⟨s', ev⟩, hs⟩ := Race.step_returns dec overflow_checks hbelow
      exact ⟨s', ev, hs, h.step hbelow hs⟩) hm
    exact ⟨(s, log), hr, hinv.bounded.law⟩

namespace Sample

def clock_sync (lamport_timestamp : UInt64) : SyncMessage :=
  { message_id := "09", channel_id := "lmao", sender_id := "bob", lamport_timestamp
    causal_history := [], bloom_filter := none, repair_request := [] }

/-- A peer's sync message, and one with the largest timestamp. -/
def clock_wire : Wire := .ofTable [] [.Sync (clock_sync 9), .Sync (clock_sync 18446744073709551615)]

def race : Race clock_wire (IdSet fun _ => []) :=
  { session := .new clock_wire (with_config "lmao" "alice" .default 5), updating := [] }

def sync_in (lamport_timestamp : UInt64) : RaceOp :=
  .call (.receive (SdsMessage.to_vec (.Sync (clock_sync lamport_timestamp))))

def sync_out : RaceOp := .call (.send_sync "t" fun _ _ => .ok ())

/-- A send comes between the load and the store of a receive. -/
def retry : List RaceOp :=
  [sync_in 9, .load 0, sync_out, .compare_exchange 0, .load 0, .compare_exchange 0, sync_out]

def overflow : List RaceOp := [sync_in 18446744073709551615, .load 0, .compare_exchange 0, sync_out]

end Sample

theorem a_retry_keeps_the_law :
    Returns (run (Race.step (Race.exact_build (fun _ => none) true)) Sample.race Sample.retry)
      (fun r => r.2 = [.stored 5, .stored 5, .created 6, .stored 6, .stored 6, .stored 6,
        .processed 9, .stored 10, .created 11, .stored 11]) ∧
    Returns (run (Race.step (Race.exact_build (fun _ => none) true)) Sample.race Sample.retry)
      (fun r => LamportLaw 5 r.2) := by
  refine ⟨by decide +kernel, ?_⟩
  exact (the_clock_keeps_the_lamport_law_iff (fun _ => none) true Sample.race.session
    Sample.retry).mpr (by decide +kernel)

/-- A message with the largest timestamp takes the clock back to zero. -/
theorem the_largest_timestamp_resets_the_clock :
    Returns (run (Race.step (Race.exact_build (fun _ => none) false)) Sample.race Sample.overflow)
      (fun r => r.2 = [.stored 5, .overflowed, .stored 5, .processed 18446744073709551615,
        .stored 0, .created 1, .stored 1] ∧ ¬ LamportLaw 5 r.2) := by
  have hlog : Returns (run (Race.step (Race.exact_build (fun _ => none) false)) Sample.race
      Sample.overflow)
      (fun r => r.2 = [.stored 5, .overflowed, .stored 5, .processed 18446744073709551615,
        .stored 0, .created 1, .stored 1]) := by
    decide +kernel
  obtain ⟨r, hr, heq⟩ := hlog
  refine ⟨r, hr, heq, fun hlaw => ?_⟩
  have hsorted := hlaw.never_decreases
  rw [heq] at hsorted
  exact absurd hsorted (by decide)

/-! ## A receive alone -/

namespace Race

/-- The loop of a receive that nobody interrupts. -/
theorem update_alone {B : Build} (session : Session w F) (msg : Clocked)
    (hguard : guard B (some (max session.channel.lamport_timestamp msg.lamport_timestamp)) =
      .ok ()) :
    ∃ log, run (step B) { session, updating := [{ msg, loaded := none }] }
      [.load 0, .compare_exchange 0] =
        .ok ({ session := { session with
                channel := after_update (session.channel.update_timestamp msg.lamport_timestamp)
                  msg }
               updating := [] }, log) := by
  have hload : step B { session, updating := [{ msg, loaded := none }] } (.load 0) =
      .ok ({ session, updating := [{
          msg
          loaded := some (session.channel.lamport_timestamp,
            max session.channel.lamport_timestamp msg.lamport_timestamp + 1) }] },
        events (some (max session.channel.lamport_timestamp msg.lamport_timestamp)) []
          session.channel.lamport_timestamp) := by
    unfold step
    simp only [List.getElem?_cons_zero, clock, hguard, bind, Except.bind]
    rfl
  refine ⟨events (some (max session.channel.lamport_timestamp msg.lamport_timestamp)) []
    session.channel.lamport_timestamp ++ (.processed msg.lamport_timestamp :: events none []
      (after_update (session.channel.update_timestamp msg.lamport_timestamp)
        msg).lamport_timestamp ++ []), ?_⟩
  rw [run, hload]
  simp only [bind, Except.bind, run, step, List.getElem?_cons_zero, clock, if_true]
  rfl

/-- With no receive in the loop nothing is left to do. -/
theorem no_update (B : Build) (session : Session w F) :
    ∃ log, run (step B) { session, updating := [] } [.load 0, .compare_exchange 0] =
      .ok ({ session, updating := [] }, log) := ⟨_, rfl⟩

/-- What a call of `receive` has done when it comes to the loop. -/
theorem enter_of_receive {B : Build} {session : Session w F} {raw : Bytes} {ch : MessageChannel F}
    {out : List ContentMessage} (h : session.channel.receive B w raw = .ok (ch, out)) :
    (enter B { session, updating := [] } raw = .ok { session, updating := [] } ∧
      ch = session.channel) ∨
    ∃ ch₁ msg, enter B { session, updating := [] } raw =
        .ok (take { session, updating := [] } ch₁ msg) ∧
      (B.overflow_checks && ch₁.clock_overflows msg) = false ∧
      ch = (ch₁.receive_message msg).1 := by
  unfold MessageChannel.receive at h
  unfold enter
  rcases hmsg : w.sds_from_slice raw with _ | msg
  · simp only [hmsg] at h
    cases h
    exact .inl ⟨rfl, rfl⟩
  · simp only [hmsg] at h
    by_cases hdup : check session.channel.bloom msg.message_id = true
    · simp only [hdup, if_true] at h
      cases h
      exact .inl ⟨by simp only [hdup, if_true], rfl⟩
    · simp only [hdup, if_false, Bool.false_eq_true] at h ⊢
      rcases hb : msg.bloom_filter_bytes with _ | bytes
      · simp only [hb, bind, Except.bind, pure, Except.pure] at h
        split at h
        · cases h
        · rename_i hover
          refine .inr ⟨session.channel, msg, rfl, by simpa using hover, ?_⟩
          rw [Except.ok.inj h]
      · simp only [hb, bind, Except.bind, pure, Except.pure] at h
        rcases hc : session.channel.check_outgoing_acks B bytes with p | ch₁
        · simp [hc] at h
        · simp only [hc] at h
          split at h
          · cases h
          · rename_i hover
            refine .inr ⟨ch₁, msg, by simp only [hc], by simpa using hover, ?_⟩
            rw [Except.ok.inj h]

end Race

/-- A receive that no other call interrupts is the call of the channel. -/
theorem an_uninterrupted_receive {B : Build} {session : Session w F} {raw : Bytes}
    {ch : MessageChannel F} {out : List ContentMessage}
    (h : session.channel.receive B w raw = .ok (ch, out)) :
    ∃ log, run (Race.step B) { session, updating := [] }
      [.call (.receive raw), .load 0, .compare_exchange 0] =
        .ok ({ session := { session with channel := ch }, updating := [] }, log) := by
  have hrun : ∀ {s' t : Race w F} {log : List ClockEvent},
      Race.enter B { session, updating := [] } raw = .ok s' →
      run (Race.step B) s' [.load 0, .compare_exchange 0] = .ok (t, log) →
      run (Race.step B) { session, updating := [] }
        [.call (.receive raw), .load 0, .compare_exchange 0] =
          .ok (t, Race.events none [] s'.clock ++ log) := by
    intro s' t log henter hrest
    rw [run, Race.step]
    simp only [henter, bind, Except.bind, pure, Except.pure, hrest]
  rcases Race.enter_of_receive h with ⟨henter, rfl⟩ | ⟨ch₁, msg, henter, hover, rfl⟩
  · obtain ⟨log, hlog⟩ := Race.no_update B session
    exact ⟨_, hrun henter hlog⟩
  · cases msg with
    | Content m =>
      have hguard : Race.guard B (some (max ch₁.lamport_timestamp m.lamport_timestamp)) =
          .ok () := if_neg (by simpa [clock_overflows, at_top] using hover)
      obtain ⟨log, hlog⟩ := Race.update_alone (B := B) { session with channel := ch₁ }
        (.content m) hguard
      have hafter : after_update (ch₁.update_timestamp m.lamport_timestamp) (.content m) =
          (ch₁.receive_message (.Content m)).1 := by
        unfold after_update receive_message
        dsimp only
        split
        · rfl
        · rfl
      rw [← hafter]
      exact ⟨_, hrun henter hlog⟩
    | Sync m =>
      have hguard : Race.guard B (some (max ch₁.lamport_timestamp m.lamport_timestamp)) =
          .ok () := if_neg (by simpa [clock_overflows, at_top] using hover)
      obtain ⟨log, hlog⟩ := Race.update_alone (B := B)
        { session with channel := { ch₁ with bloom := set ch₁.bloom m.message_id } }
        (.sync m) hguard
      exact ⟨_, hrun henter hlog⟩
    | Ephemeral m =>
      obtain ⟨log, hlog⟩ := Race.no_update B { session with
        channel := { ch₁ with bloom := set ch₁.bloom m.message_id } }
      exact ⟨_, hrun henter hlog⟩

end lmao.sds
