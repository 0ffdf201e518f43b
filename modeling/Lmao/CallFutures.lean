-- Calls into the C libraries of the transports (logos_delivery.rs and logos_core.rs of the
-- transport crate): a future and a callback share a reference-counted cell, one reference
-- for each. The library calls back from a thread of its own, whenever it likes.
import Lmao.Machine

namespace lmao.transport.call_future

open machine

/-! ## The two trampolines -/

abbrev CallResult := Except String String

def RET_OK : Int := 0

/-- The value of a callback of liblogosdelivery. A null or empty message is the
empty text. -/
def logos_delivery_value (ret : Int) (msg : Option String) : CallResult :=
  if ret = RET_OK then .ok (msg.getD "") else .error (msg.getD "")

/-- The value of a callback of Logos Core. -/
def logos_core_value (result : Int) (message : Option String) : CallResult :=
  if result = 1 then .ok (message.getD "") else .error (message.getD "")

/-! ## The cells -/

/-- The caller: in the C function, in the await of the future, or past it. -/
inductive Task
  | calling
  | waiting
  | ready (value : CallResult)
  | failed (rc : Int)
  | cancelled
deriving DecidableEq

/-- A call. `strong` is the count of the `Arc`, and a cell with count 0 is freed.
`waker` tells whether a waker is stored, `woken` whether the task is to be polled,
and `answered` is what the library called back with, if it did. -/
structure Call where
  strong : Nat
  result : Option CallResult
  waker : Bool
  task : Task
  woken : Bool
  answered : Option CallResult
deriving DecidableEq

inductive CallOp
  | start
  | returned (k : Nat) (rc : Int)
  | callback (k : Nat) (ret : Int) (msg : Option String)
  | poll (k : Nat)
  | cancel (k : Nat)

inductive CallError
  | no_such_cell (k : Nat)
  | use_after_free (k : Nat)
deriving DecidableEq

/-- What a poll of the future gave. -/
inductive CallOutput
  | ready (k : Nat) (value : CallResult)
  | pending (k : Nat)
deriving DecidableEq

namespace Call

/-- `make_call_ud`: one reference for the caller and one for the library. -/
def make_call_ud : Call where
  strong := 2
  result := none
  waker := false
  task := .calling
  woken := false
  answered := none

/-- One reference goes. -/
def release (c : Call) : Call := { c with strong := c.strong - 1 }

/-- `call_trampoline`: the reference of the library goes at the end. -/
def call_trampoline (value : CallResult) (c : Call) : Call :=
  release { c with
    result := some value
    waker := false
    woken := c.woken || c.waker
    answered := c.answered.or (some value) }

/-- The C function is back, and the future is awaited. -/
def await (c : Call) : Call := { c with task := .waiting, woken := true }

/-- `drop_call_ud`: the reference of the library is taken back. -/
def drop_call_ud (c : Call) : Call := c.release

/-- The caller leaves with an error, and its reference goes. -/
def fail (rc : Int) (c : Call) : Call := release { c with task := .failed rc }

/-- `CallFuture::poll`. The future that is ready gives its reference up. -/
def poll (c : Call) : Call × Option CallResult :=
  match c.result with
  | some r => (release { c with result := none, task := .ready r, woken := false }, some r)
  | none => ({ c with waker := true, woken := false }, none)

/-- The caller drops the future. -/
def cancel (c : Call) : Call := release { c with task := .cancelled }

end Call

/-- A step that looks into the cell. -/
def visit (calls : List Call) (k : Nat)
    (f : Call → Call × List CallOutput) : Except CallError (List Call × List CallOutput) :=
  match calls[k]? with
  | none => .error (.no_such_cell k)
  | some c =>
    if c.strong = 0 then .error (.use_after_free k) else .ok (calls.set k (f c).1, (f c).2)

/-- Each step holds the mutex of its cell. -/
def step (value : Int → Option String → CallResult) (calls : List Call) :
    CallOp → Except CallError (List Call × List CallOutput)
  | .start => .ok (calls ++ [.make_call_ud], [])
  | .returned k rc =>
    if rc = RET_OK then visit calls k fun c => (c.await, [])
    else do
      let r ← visit calls k fun c => (c.drop_call_ud, [])
      visit r.1 k fun c => (c.fail rc, [])
  | .callback k ret msg => visit calls k fun c => (c.call_trampoline (value ret msg), [])
  | .poll k =>
    visit calls k fun c =>
      (c.poll.1, match c.poll.2 with
        | some r => [.ready k r]
        | none => [.pending k])
  | .cancel k => visit calls k fun c => (c.cancel, [])

/-! ## The contract of the library -/

def Task.Failed : Task → Prop
  | .failed _ => True
  | _ => False

instance : ∀ t : Task, Decidable t.Failed
  | .failed _ => instDecidableTrue
  | .calling => instDecidableFalse
  | .waiting => instDecidableFalse
  | .ready _ => instDecidableFalse
  | .cancelled => instDecidableFalse

/-- The library calls back at most once, and not for a call that it refuses; that
may be before the C function is back. A future is polled while it is awaited, whether
its task was woken or not. -/
def Allowed (calls : List Call) : CallOp → Prop
  | .start => True
  | .returned k rc => ∃ c ∈ calls[k]?, c.task = .calling ∧ (rc ≠ RET_OK → c.answered = none)
  | .callback k _ _ => ∃ c ∈ calls[k]?, c.answered = none ∧ ¬ c.task.Failed
  | .poll k => ∃ c ∈ calls[k]?, c.task = .waiting
  | .cancel k => ∃ c ∈ calls[k]?, c.task = .waiting

instance (calls : List Call) (k : Nat) (P : Call → Prop) [DecidablePred P] :
    Decidable (∃ c ∈ calls[k]?, P c) :=
  match h : calls[k]? with
  | none => isFalse (by rintro ⟨c, hc, -⟩; cases hc)
  | some c =>
    decidable_of_iff (P c) ⟨fun hp => ⟨c, rfl, hp⟩, fun ⟨_, hd, hp⟩ => by cases hd; exact hp⟩

instance (calls : List Call) : ∀ op, Decidable (Allowed calls op)
  | .start => instDecidableTrue
  | .returned k _ => inferInstanceAs (Decidable (∃ c ∈ calls[k]?, c.task = .calling ∧ _))
  | .callback k _ _ => inferInstanceAs (Decidable (∃ c ∈ calls[k]?, c.answered = none ∧ _))
  | .poll k => inferInstanceAs (Decidable (∃ c ∈ calls[k]?, c.task = .waiting))
  | .cancel k => inferInstanceAs (Decidable (∃ c ∈ calls[k]?, c.task = .waiting))

/-- The references that are not yet given up: the one of the library until it has
called back or refused, and the one of the caller. -/
def Call.owners (c : Call) : Nat :=
  (if c.answered = none ∧ ¬ c.task.Failed then 1 else 0) +
    if c.task = .calling ∨ c.task = .waiting then 1 else 0

/-- The cell lives as long as it has an owner. A value that came is there for the
caller, and a caller that waits for it will be woken or is woken already. -/
structure Call.Good (c : Call) : Prop where
  counted : c.strong = c.owners
  kept : c.task = .calling ∨ c.task = .waiting → c.result = c.answered
  awake : c.task = .waiting → c.woken = true ∨ c.answered = none ∧ c.waker = true
  delivered : ∀ v, c.task = .ready v → c.answered = some v

/-- The values that the polls of a future gave. -/
def values (k : Nat) (log : List CallOutput) : List CallResult :=
  log.filterMap fun
    | .ready j v => if j = k then some v else none
    | .pending _ => none

def Task.value : Task → List CallResult
  | .ready v => [v]
  | _ => []

/-! ## One cell -/

namespace Call.Good

variable {c : Call}

theorem make : make_call_ud.Good where
  counted := rfl
  kept _ := rfl
  awake h := nomatch h
  delivered _ h := nomatch h

/-- A caller that is not past its call owns the cell. -/
theorem alive (h : c.Good) (htask : c.task = .calling ∨ c.task = .waiting) : c.strong ≠ 0 := by
  rw [h.counted, owners, if_pos htask]
  omega

/-- So does a library that has not called back. -/
theorem alive_of_owed (h : c.Good) (howed : c.answered = none ∧ ¬ c.task.Failed) :
    c.strong ≠ 0 := by
  rw [h.counted, owners, if_pos howed]
  omega

theorem await (h : c.Good) (htask : c.task = .calling) : c.await.Good := by
  have hcounted := h.counted
  simp only [owners, htask, true_or, if_true] at hcounted
  refine ⟨?_, fun _ => h.kept (.inl htask), fun _ => .inl rfl, fun v hv => (nomatch hv)⟩
  simpa [Call.await, owners, Task.Failed] using hcounted

/-- The cell of a refused call has both its references. -/
theorem refused (h : c.Good) (htask : c.task = .calling) (hnone : c.answered = none) (rc : Int) :
    c.strong = 2 ∧ (c.drop_call_ud.fail rc).Good := by
  have hcounted := h.counted
  simp only [owners, hnone, htask, Task.Failed, not_false_eq_true, and_self, if_true,
    true_or] at hcounted
  refine ⟨hcounted, ?_, ?_, fun hcase => (nomatch hcase), fun v hcase => (nomatch hcase)⟩
  · simp [Call.fail, drop_call_ud, owners, release, Task.Failed, hcounted]
  · rintro (hcase | hcase)
    · cases hcase
    · cases hcase

/-- The callback wakes the caller that waits for it. -/
theorem call_trampoline (h : c.Good) (hnone : c.answered = none) (htask : ¬ c.task.Failed)
    (value : CallResult) : (c.call_trampoline value).Good := by
  have hcounted := h.counted
  simp only [owners, hnone, htask, not_false_eq_true, and_self, if_true] at hcounted
  refine ⟨?_, fun _ => ?_, fun hwaiting => .inl ?_, fun v hv => ?_⟩
  · simp only [Call.call_trampoline, release, owners, hnone, Option.none_or, hcounted]
    simp
  · simp [Call.call_trampoline, release, hnone]
  · rcases h.awake hwaiting with hwoken | ⟨-, hwaker⟩
    · simp [Call.call_trampoline, release, hwoken]
    · simp [Call.call_trampoline, release, hwaker]
  · have hdelivered := h.delivered v hv
    rw [hnone] at hdelivered
    cases hdelivered

theorem poll (h : c.Good) (hwaiting : c.task = .waiting) : c.poll.1.Good := by
  have hcounted := h.counted
  have hkept := h.kept (.inr hwaiting)
  simp only [owners, hwaiting, or_true, if_true] at hcounted
  rw [Call.poll]
  split
  · next r hr =>
    have hanswered : c.answered = some r := hkept ▸ hr
    refine ⟨?_, ?_, fun hcase => (nomatch hcase), fun v hv => ?_⟩
    · simp [owners, release, hanswered, hcounted]
    · rintro (hcase | hcase)
      · cases hcase
      · cases hcase
    · obtain rfl := Task.ready.inj hv
      exact hanswered
  · next hnone =>
    refine ⟨?_, fun _ => hkept, fun _ => .inr ⟨hkept ▸ hnone, rfl⟩, fun v hv => ?_⟩
    · simpa [owners, hwaiting] using hcounted
    · rw [hwaiting] at hv
      cases hv

theorem cancel (h : c.Good) (hwaiting : c.task = .waiting) : c.cancel.Good := by
  have hcounted := h.counted
  simp only [owners, hwaiting, or_true, if_true] at hcounted
  refine ⟨?_, ?_, fun hcase => (nomatch hcase), fun v hcase => (nomatch hcase)⟩
  · simp [Call.cancel, owners, release, Task.Failed, hcounted]
  · rintro (hcase | hcase)
    · cases hcase
    · cases hcase

end Call.Good

/-! ## Runs -/

/-- Every cell is good, and the polls gave out what the ready tasks hold. -/
structure Kept (log : List CallOutput) (calls : List Call) : Prop where
  good : ∀ c ∈ calls, c.Good
  given : ∀ k, values k log = ((calls[k]?).map fun c => c.task.value).getD []

theorem values_append (k : Nat) (log log' : List CallOutput) :
    values k (log ++ log') = values k log ++ values k log' := List.filterMap_append

theorem visit_ok {calls : List Call} {k : Nat} {c : Call} (hget : calls[k]? = some c)
    (hlive : c.strong ≠ 0) (f : Call → Call × List CallOutput) :
    visit calls k f = .ok (calls.set k (f c).1, (f c).2) := by
  simp [visit, hget, hlive]

variable {value : Int → Option String → CallResult} {log : List CallOutput} {calls : List Call}

theorem Kept.start (h : Kept log calls) : Kept log (calls ++ [.make_call_ud]) where
  good c hc := by
    rcases List.mem_append.mp hc with hold | hnew
    · exact h.good c hold
    · rw [List.mem_singleton.mp hnew]
      exact .make
  given k := by
    rw [h.given k]
    rcases Nat.lt_trichotomy k calls.length with hlt | rfl | hgt
    · rw [List.getElem?_append_left hlt]
    · simp [Call.make_call_ud, Task.value]
    · rw [List.getElem?_eq_none (Nat.le_of_lt hgt), List.getElem?_eq_none (by simp; omega)]

/-- A step of one cell. -/
theorem Kept.visit (h : Kept log calls) {k : Nat} {c : Call} (hget : calls[k]? = some c)
    (hlive : c.strong ≠ 0) {f : Call → Call × List CallOutput} (hgood : (f c).1.Good)
    (hvalues : values k (f c).2 = (f c).1.task.value.drop c.task.value.length)
    (hkeeps : c.task.value <+: (f c).1.task.value)
    (hothers : ∀ j, j ≠ k → values j (f c).2 = []) :
    ∃ calls' out, visit calls k f = .ok (calls', out) ∧ Kept (log ++ out) calls' := by
  refine ⟨_, _, visit_ok hget hlive f, ?_, ?_⟩
  · intro d hd
    rcases List.mem_or_eq_of_mem_set hd with hold | rfl
    · exact h.good d hold
    · exact hgood
  · intro j
    rw [values_append, h.given j, List.getElem?_set]
    by_cases hj : k = j
    · subst hj
      have hlt := (List.getElem?_eq_some_iff.mp hget).1
      rw [if_pos rfl, if_pos hlt, hget, hvalues]
      obtain ⟨rest, hrest⟩ := hkeeps
      simp [← hrest]
    · rw [if_neg hj, hothers j (Ne.symm hj), List.append_nil]

theorem Kept.step (h : Kept log calls) {op : CallOp} (hallowed : Allowed calls op) :
    ∃ calls' out, step value calls op = .ok (calls', out) ∧ Kept (log ++ out) calls' := by
  cases op with
  | start =>
    refine ⟨_, _, rfl, ?_⟩
    rw [List.append_nil]
    exact h.start
  | returned k rc =>
    obtain ⟨c, hget, htask, hrefused⟩ := hallowed
    have hgood := h.good c (List.mem_of_getElem? hget)
    by_cases hrc : rc = RET_OK
    · rw [call_future.step, if_pos hrc]
      apply h.visit hget (hgood.alive (.inl htask)) (hgood.await htask)
      · simp [Call.await, Task.value, values]
      · simp [htask, Task.value]
      · exact fun _ _ => rfl
    · obtain ⟨htwo, hfail⟩ := hgood.refused htask (hrefused hrc) rc
      have hdrop := visit_ok hget (by omega) fun c => (c.drop_call_ud, [])
      have hlt := (List.getElem?_eq_some_iff.mp hget).1
      have hlater : (calls.set k c.drop_call_ud)[k]? = some c.drop_call_ud := by simp [hlt]
      have hone : c.drop_call_ud.strong ≠ 0 := by
        simp [Call.drop_call_ud, Call.release, htwo]
      rw [call_future.step, if_neg hrc, hdrop]
      simp only [bind, Except.bind, visit_ok hlater hone, List.set_set]
      obtain ⟨calls', out, hvisit, hkept⟩ := h.visit hget (by omega) hfail
        (f := fun c => (c.drop_call_ud.fail rc, []))
        (by simp [Call.fail, Call.release, Task.value, values])
        (by simp [htask, Task.value]) (fun _ _ => rfl)
      rw [visit_ok hget (by omega)] at hvisit
      exact ⟨calls', out, hvisit, hkept⟩
  | callback k ret msg =>
    obtain ⟨c, hget, hnone, htask⟩ := hallowed
    have hgood := h.good c (List.mem_of_getElem? hget)
    have hsame : (c.call_trampoline (value ret msg)).task = c.task := rfl
    apply h.visit hget (hgood.alive_of_owed ⟨hnone, htask⟩)
      (hgood.call_trampoline hnone htask _)
    · simp [hsame, values]
    · exact List.prefix_refl c.task.value
    · exact fun _ _ => rfl
  | poll k =>
    obtain ⟨c, hget, hwaiting⟩ := hallowed
    have hgood := h.good c (List.mem_of_getElem? hget)
    apply h.visit hget (hgood.alive (.inr hwaiting)) (hgood.poll hwaiting)
    · cases hresult : c.result with
      | none => simp [Call.poll, hresult, hwaiting, values, Task.value]
      | some r => simp [Call.poll, hresult, hwaiting, values, Task.value, Call.release]
    · simp [hwaiting, Task.value]
    · intro j hj
      cases c.poll.2 with
      | none => rfl
      | some r => simp [values, Ne.symm hj]
  | cancel k =>
    obtain ⟨c, hget, hwaiting⟩ := hallowed
    have hgood := h.good c (List.mem_of_getElem? hget)
    apply h.visit hget (hgood.alive (.inr hwaiting)) (hgood.cancel hwaiting)
    · simp [Call.cancel, Call.release, Task.value, values]
    · simp [hwaiting, Task.value]
    · exact fun _ _ => rfl

/-- Whatever calls are made and however the callbacks, the polls and the drops of
their futures come: as long as the library keeps its contract no step touches a
freed cell, each cell has one reference for each owner it still has, a caller never
sleeps on a value that came, and a future gives at most one value, the one of its
callback. -/
theorem every_call_is_answered_once {ops : List CallOp}
    (hmeets : Meets (step value) (fun _ calls op => Allowed calls op) [] ops) :
    ∃ calls log, run (step value) [] ops = .ok (calls, log) ∧
      ∀ k c, calls[k]? = some c →
        c.strong = c.owners ∧ values k log = c.task.value ∧
          (∀ v ∈ values k log, c.answered = some v) ∧
          (c.task = .waiting → ∀ v, c.answered = some v →
            c.woken = true ∧
              ∃ calls', step value calls (.poll k) = .ok (calls', [.ready k v])) := by
  have hstart : Kept [] [] := ⟨fun _ hc => (nomatch hc), fun _ => rfl⟩
  obtain ⟨calls, log, hrun, hkept⟩ := run_returns_of_meets hstart
    (fun _ _ _ hinv hallowed => hinv.step hallowed) hmeets
  refine ⟨calls, log, hrun, fun k c hget => ?_⟩
  have hgood := hkept.good c (List.mem_of_getElem? hget)
  have hvalues : values k log = c.task.value := by
    rw [hkept.given k, hget]
    rfl
  refine ⟨hgood.counted, hvalues, fun v hv => ?_, fun hwaiting v hv => ⟨?_, ?_⟩⟩
  · rw [hvalues] at hv
    cases htask : c.task with
    | ready w =>
      rw [htask] at hv
      obtain rfl := List.mem_singleton.mp hv
      exact hgood.delivered v htask
    | calling => simp [htask, Task.value] at hv
    | waiting => simp [htask, Task.value] at hv
    | failed rc => simp [htask, Task.value] at hv
    | cancelled => simp [htask, Task.value] at hv
  · rcases hgood.awake hwaiting with hwoken | ⟨hnone, -⟩
    · exact hwoken
    · rw [hv] at hnone
      cases hnone
  · have hresult : c.result = some v := (hgood.kept (.inr hwaiting)).trans hv
    have hpoll : c.poll.2 = some v := by rw [Call.poll, hresult]
    exact ⟨_, by rw [step, visit_ok hget (hgood.alive (.inr hwaiting)), hpoll]⟩

/-- A callback before the C function is back, one that finds its caller asleep after
two polls in vain, and a call that is refused. -/
theorem every_call_is_answered_once_three_calls :
    ∃ calls log, run (step logos_delivery_value) []
        [.start, .callback 0 0 (some "hash"), .returned 0 0, .poll 0, .start, .returned 1 0,
          .poll 1, .poll 1, .callback 1 1 none, .poll 1, .start, .returned 2 1] =
        .ok (calls, log) ∧
      ∀ k c, calls[k]? = some c →
        c.strong = c.owners ∧ values k log = c.task.value ∧
          (∀ v ∈ values k log, c.answered = some v) ∧
          (c.task = .waiting → ∀ v, c.answered = some v →
            c.woken = true ∧ ∃ calls', step logos_delivery_value calls (.poll k) =
              .ok (calls', [.ready k v])) :=
  every_call_is_answered_once (by decide)

-- A library that reports a failure in its callback and refuses the call all the same
-- gives its reference up twice.
example : run (step logos_delivery_value) [] [.start, .callback 0 1 (some "bad config"),
    .returned 0 1] = .error (.use_after_free 0) := by decide

end lmao.transport.call_future
