-- The event queue of the C++ shim (shim.cpp of the logos-core bindings): slots for the
-- pairs of a module and an event that were listened to, and a queue of what came.
import Mathlib.Data.List.Nodup
import Lmao.JsonGrammar
import Lmao.Machine

namespace lmao.shim

open json (Tree)
open machine

/-- What a remote module emits. -/
structure Event where
  module : String
  event : String
  data : List Tree

/-- `listened` are the keys of the slots. -/
structure LogosShim where
  events : List Event
  listened : List String
  slots : List (String × String)

/-- The answers of the SDK to a `listen`: is there a client of the module, and
an object of it? -/
inductive ShimOp
  | listen (module_name event_name : String) (client obj : Bool)
  | emit (e : Event)
  | poll_event

inductive ShimOutput
  | listened (module_name event_name : String) (ok : Bool)
  | polled (e : Option Event)

namespace LogosShim

def new : LogosShim := { events := [], listened := [], slots := [] }

/-- `mn + "\0" + en`: the C string `"\0"` is empty. -/
def key (module_name event_name : String) : String := module_name ++ event_name

def logos_shim_listen (shim : LogosShim) (module_name event_name : String) (client obj : Bool) :
    LogosShim × Bool :=
  if key module_name event_name ∈ shim.listened then (shim, true)
  else if !client then (shim, false)
  else if !obj then (shim, false)
  else
    ({ shim with
        slots := shim.slots ++ [(module_name, event_name)]
        listened := shim.listened ++ [key module_name event_name] }, true)

/-- Each slot of the event enqueues it. -/
def onEvent (shim : LogosShim) (e : Event) : LogosShim :=
  { shim with
    events := shim.events ++
      (shim.slots.filter fun slot => slot = (e.module, e.event)).map fun _ => e }

/-- A wait that ran out gives nothing. -/
def logos_shim_poll_event (shim : LogosShim) : LogosShim × Option Event :=
  ({ shim with events := shim.events.tail }, shim.events.head?)

def step (shim : LogosShim) : ShimOp → Except Empty (LogosShim × List ShimOutput)
  | .listen module_name event_name client obj =>
    let r := shim.logos_shim_listen module_name event_name client obj
    .ok (r.1, [.listened module_name event_name r.2])
  | .emit e => .ok (shim.onEvent e, [])
  | .poll_event =>
    let r := shim.logos_shim_poll_event
    .ok (r.1, [.polled r.2])

end LogosShim

/-! ## What a run should have queued -/

/-- A pair that the SDK lets a slot have. -/
def ShimOp.granted : ShimOp → Option (String × String)
  | .listen module_name event_name true true => some (module_name, event_name)
  | _ => none

/-- The first pair of this key that the SDK granted. -/
def first_granted (ops : List ShimOp) (key : String) : Option (String × String) :=
  (ops.filterMap ShimOp.granted).find? fun pair => LogosShim.key pair.1 pair.2 = key

/-- The slot of the pair stands: no other pair of the same key came before it. -/
def Connected (ops : List ShimOp) (module_name event_name : String) : Prop :=
  first_granted ops (LogosShim.key module_name event_name) = some (module_name, event_name)

instance (ops : List ShimOp) (module_name event_name : String) :
    Decidable (Connected ops module_name event_name) :=
  inferInstanceAs (Decidable (_ = _))

/-- What an operation after the operations `before` should queue. -/
def hears (before : List ShimOp) : ShimOp → List Event
  | .emit e => if Connected before e.module e.event then [e] else []
  | _ => []

/-- The emissions of a run that find their slot, after the operations `before`. -/
def heard (before : List ShimOp) : List ShimOp → List Event
  | [] => []
  | op :: ops => hears before op ++ heard (before ++ [op]) ops

/-- What the polls gave out. -/
def polled (log : List ShimOutput) : List Event :=
  log.filterMap fun
    | .polled e => e
    | .listened _ _ _ => none

/-! ## The slots -/

theorem heard_snoc (before ops : List ShimOp) (op : ShimOp) :
    heard before (ops ++ [op]) = heard before ops ++ hears (before ++ ops) op := by
  induction ops generalizing before with
  | nil => simp [heard]
  | cons o ops ih => simp [heard, ih]

theorem first_granted_snoc (ops : List ShimOp) (op : ShimOp) (key : String) :
    first_granted (ops ++ [op]) key =
      (first_granted ops key).or
        (op.granted.filter fun pair => LogosShim.key pair.1 pair.2 = key) := by
  rw [first_granted, List.filterMap_append, List.find?_append, ← first_granted]
  congr 1
  cases hgranted : op.granted with
  | none => simp [hgranted]
  | some pair =>
    by_cases hkey : LogosShim.key pair.1 pair.2 = key
    · simp [hgranted, Option.filter, hkey]
    · simp [hgranted, Option.filter, hkey]

theorem polled_append (log log' : List ShimOutput) :
    polled (log ++ log') = polled log ++ polled log' := List.filterMap_append

namespace LogosShim

/-- The slots are the first pairs of their keys, and the queue holds the rest of
what was heard. -/
structure Tracks (ops : List ShimOp) (log : List ShimOutput) (shim : LogosShim) : Prop where
  keys : shim.listened = shim.slots.map fun slot => key slot.1 slot.2
  once : shim.listened.Nodup
  slots : ∀ k, shim.slots.find? (fun slot => key slot.1 slot.2 = k) = first_granted ops k
  queue : polled log ++ shim.events = heard [] ops

theorem Tracks.new : Tracks [] [] new where
  keys := rfl
  once := List.nodup_nil
  slots _ := rfl
  queue := rfl

variable {ops : List ShimOp} {log : List ShimOutput} {shim : LogosShim}

theorem Tracks.mem_listened (h : Tracks ops log shim) (k : String) :
    k ∈ shim.listened ↔ (first_granted ops k).isSome := by
  rw [← h.slots, List.find?_isSome, h.keys, List.mem_map]
  simp

theorem Tracks.mem_slots (h : Tracks ops log shim) (pair : String × String) :
    pair ∈ shim.slots ↔ Connected ops pair.1 pair.2 := by
  have hnodup : (shim.slots.map fun slot => key slot.1 slot.2).Nodup := h.keys ▸ h.once
  rw [Connected, ← h.slots]
  constructor
  · intro hmem
    have hfound : (shim.slots.find? fun slot => key slot.1 slot.2 = key pair.1 pair.2).isSome := by
      rw [List.find?_isSome]
      exact ⟨pair, hmem, by simp⟩
    obtain ⟨slot, hslot⟩ := Option.isSome_iff_exists.mp hfound
    have hkey : key slot.1 slot.2 = key pair.1 pair.2 := by simpa using List.find?_some hslot
    have hsame := List.inj_on_of_nodup_map hnodup (List.mem_of_find?_eq_some hslot) hmem hkey
    rw [hslot, hsame]
  · intro hfound
    exact List.mem_of_find?_eq_some hfound

/-- At most one slot hears an event. -/
theorem Tracks.hearing (h : Tracks ops log shim) (e : Event) :
    ((shim.slots.filter fun slot => slot = (e.module, e.event)).map fun _ => e) =
      hears ops (.emit e) := by
  have hnodup : shim.slots.Nodup := by
    have hkeys := h.once
    rw [h.keys] at hkeys
    exact hkeys.of_map _
  rw [List.filter_eq, hears]
  split
  · next hconnected =>
    rw [List.count_eq_one_of_mem hnodup ((h.mem_slots (e.module, e.event)).mpr hconnected)]
    rfl
  · next hnot =>
    rw [List.count_eq_zero.mpr fun hmem => hnot ((h.mem_slots (e.module, e.event)).mp hmem)]
    rfl

/-- A queue with one slot. -/
theorem onEvent_one {slot : String × String} (h : shim.slots = [slot]) (e : Event) :
    (shim.onEvent e).events =
      shim.events ++ if slot = (e.module, e.event) then [e] else [] := by
  by_cases hslot : slot = (e.module, e.event)
  · simp [onEvent, h, hslot]
  · have hsilent : [slot].filter (fun s => s = (e.module, e.event)) = [] := by simp [hslot]
    rw [onEvent, h, hsilent, if_neg hslot]
    rfl

/-! ## Runs -/

theorem first_granted_of_not_granted {op : ShimOp} (h : op.granted = none) (k : String) :
    first_granted (ops ++ [op]) k = first_granted ops k := by
  rw [first_granted_snoc, h, Option.filter_none, Option.or_none]

theorem granted_listen (module_name event_name : String) (client obj : Bool) :
    (ShimOp.listen module_name event_name client obj).granted =
      if client = true ∧ obj = true then some (module_name, event_name) else none := by
  cases client <;> cases obj <;> rfl

/-- A `listen` that finds no slot for its key and is granted gets one. -/
theorem Tracks.connect (h : Tracks ops log shim) {module_name event_name : String}
    (hfree : key module_name event_name ∉ shim.listened) (ok : Bool) :
    Tracks (ops ++ [.listen module_name event_name true true])
      (log ++ [.listened module_name event_name ok])
      { shim with
        slots := shim.slots ++ [(module_name, event_name)]
        listened := shim.listened ++ [key module_name event_name] } where
  keys := by simp [h.keys]
  once := by
    rw [List.nodup_append]
    refine ⟨h.once, List.nodup_singleton _, ?_⟩
    intro k hk k' hk'
    rw [List.mem_singleton.mp hk']
    exact fun heq => hfree (heq ▸ hk)
  slots k := by
    rw [List.find?_append, h.slots, first_granted_snoc, ShimOp.granted]
    congr 1
    by_cases hk : key module_name event_name = k
    · simp [hk, Option.filter]
    · simp [hk, Option.filter]
  queue := by
    rw [polled_append, heard_snoc]
    simpa [polled, hears] using h.queue

/-- A `listen` that changes nothing. -/
theorem Tracks.refuse (h : Tracks ops log shim) {op : ShimOp} {module_name event_name : String}
    {ok : Bool} (hop : ∀ before, hears before op = [])
    (hsame : ∀ k, first_granted (ops ++ [op]) k = first_granted ops k) :
    Tracks (ops ++ [op]) (log ++ [.listened module_name event_name ok]) shim where
  keys := h.keys
  once := h.once
  slots k := by rw [h.slots, hsame]
  queue := by
    rw [polled_append, heard_snoc, hop]
    simpa [polled] using h.queue

theorem Tracks.listen (h : Tracks ops log shim) (module_name event_name : String)
    (client obj : Bool) :
    Tracks (ops ++ [.listen module_name event_name client obj])
      (log ++ [.listened module_name event_name
        (shim.logos_shim_listen module_name event_name client obj).2])
      (shim.logos_shim_listen module_name event_name client obj).1 := by
  have hop : ∀ before, hears before (.listen module_name event_name client obj) = [] :=
    fun _ => rfl
  rw [logos_shim_listen]
  split
  · next hlistened =>
    apply h.refuse hop
    intro k
    rw [first_granted_snoc, granted_listen]
    by_cases hk : key module_name event_name = k
    · obtain ⟨pair, hpair⟩ := Option.isSome_iff_exists.mp ((h.mem_listened _).mp hlistened)
      rw [hk] at hpair
      rw [hpair, Option.some_or]
    · by_cases hboth : client = true ∧ obj = true
      · simp [hboth, Option.filter, hk]
      · simp [hboth]
  · next hfree =>
    cases client with
    | false => exact h.refuse hop (first_granted_of_not_granted rfl)
    | true =>
      cases obj with
      | false => exact h.refuse hop (first_granted_of_not_granted rfl)
      | true => exact h.connect hfree true

theorem Tracks.emit (h : Tracks ops log shim) (e : Event) :
    Tracks (ops ++ [.emit e]) log (shim.onEvent e) where
  keys := h.keys
  once := h.once
  slots k := by rw [onEvent, h.slots, first_granted_of_not_granted rfl]
  queue := by
    rw [onEvent, h.hearing, heard_snoc, List.nil_append, ← List.append_assoc, h.queue]

theorem Tracks.poll (h : Tracks ops log shim) :
    Tracks (ops ++ [.poll_event]) (log ++ [.polled shim.events.head?])
      shim.logos_shim_poll_event.1 where
  keys := h.keys
  once := h.once
  slots k := by rw [logos_shim_poll_event, h.slots, first_granted_of_not_granted rfl]
  queue := by
    have hnext : polled [.polled shim.events.head?] ++ shim.events.tail = shim.events := by
      cases shim.events with
      | nil => rfl
      | cons e rest => rfl
    rw [logos_shim_poll_event, polled_append, List.append_assoc, hnext, h.queue, heard_snoc]
    exact (List.append_nil _).symm

theorem tracks {ops : List ShimOp} {shim : LogosShim} {log : List ShimOutput}
    (h : run step new ops = .ok (shim, log)) : Tracks ops log shim := by
  induction ops using List.reverseRecOn generalizing shim log with
  | nil =>
    cases h
    exact .new
  | append_singleton ops op ih =>
    obtain ⟨shim', log', out, hrun, hstep, rfl⟩ := run_snoc_cases h
    have htracks := ih hrun
    cases op with
    | listen module_name event_name client obj =>
      cases hstep
      exact htracks.listen module_name event_name client obj
    | emit e =>
      cases hstep
      rw [List.append_nil]
      exact htracks.emit e
    | poll_event =>
      cases hstep
      exact htracks.poll

/-- Whatever is listened to, emitted and polled in whatever order: what the polls
gave out and what still waits are the emissions that found their slot, each of
them once and in order. A pair has its slot when it is the first that was granted
with its key, so a `listen` can say yes and leave its pair without one. -/
theorem the_queue_gives_each_heard_event_once {ops : List ShimOp} {shim : LogosShim}
    {log : List ShimOutput} (h : run step new ops = .ok (shim, log)) :
    polled log ++ shim.events = heard [] ops ∧
      ∀ module_name event_name client obj,
        (shim.logos_shim_listen module_name event_name client obj).2 =
          (first_granted (ops ++ [.listen module_name event_name client obj])
            (key module_name event_name)).isSome := by
  have htracks := tracks h
  refine ⟨htracks.queue, ?_⟩
  intro module_name event_name client obj
  have hlater := (htracks.listen module_name event_name client obj).mem_listened
    (key module_name event_name)
  rw [Bool.eq_iff_iff, ← hlater, logos_shim_listen]
  split
  · next hlistened => simpa using hlistened
  · next hfree =>
    cases client with
    | false => simpa using hfree
    | true =>
      cases obj with
      | false => simpa using hfree
      | true => simp

/-- The pair `ab`, `c` hides the pair `a`, `bc`: the events of the first one are given out,
and those of the other are not. -/
theorem the_queue_gives_each_heard_event_once_hidden_pair :
    polled [.listened "ab" "c" true, .listened "a" "bc" true, .polled (some ⟨"ab", "c", []⟩)] ++
        [⟨"ab", "c", [.null]⟩] =
      heard [] [.listen "ab" "c" true true, .listen "a" "bc" true true, .emit ⟨"a", "bc", []⟩,
        .emit ⟨"ab", "c", []⟩, .emit ⟨"ab", "c", [.null]⟩, .poll_event] ∧
    (logos_shim_listen
      { events := [⟨"ab", "c", [.null]⟩], listened := ["abc"], slots := [("ab", "c")] } "a" "bc"
      true true).2 = true :=
  have hrun : run step new [.listen "ab" "c" true true, .listen "a" "bc" true true,
      .emit ⟨"a", "bc", []⟩, .emit ⟨"ab", "c", []⟩, .emit ⟨"ab", "c", [.null]⟩, .poll_event] =
        .ok ({ events := [⟨"ab", "c", [.null]⟩], listened := ["abc"], slots := [("ab", "c")] },
          [.listened "ab" "c" true, .listened "a" "bc" true,
            .polled (some ⟨"ab", "c", []⟩)]) := by rfl
  have hlaw := the_queue_gives_each_heard_event_once hrun
  ⟨hlaw.1, hlaw.2 "a" "bc" true true⟩

end LogosShim

end lmao.shim
