-- Machines that run on a list of inputs. Each input changes the state and
-- emits outputs, or ends the run with an error. The rules below carry an
-- invariant through a run of any length, and tie what holds in every state
-- of a run to a condition on its steps.
import Mathlib.Data.List.Basic
import Mathlib.Data.List.Induction

namespace machine

variable {σ ι ω ε α β : Type}

/-! ## Computations that end with a value -/

/-- The computation ends with a value, not with an error, and `P` holds of
the value. -/
def Returns (x : Except ε α) (P : α → Prop) : Prop := ∃ a, x = .ok a ∧ P a

theorem returns_ok {a : α} {P : α → Prop} (h : P a) : Returns (.ok a : Except ε α) P :=
  ⟨a, rfl, h⟩

instance {x : Except ε α} {P : α → Prop} [DecidablePred P] : Decidable (Returns x P) :=
  match x with
  | .ok a => decidable_of_iff (P a) ⟨returns_ok, fun ⟨_, h, hp⟩ => by cases h; exact hp⟩
  | .error _ => isFalse fun ⟨_, h, _⟩ => by cases h

/-- A computation without errors ends with a value. -/
theorem ends_ok (x : Except Empty α) : ∃ a, x = .ok a := by
  rcases x with e | a
  · exact e.elim
  · exact ⟨a, rfl⟩

/-! ## Logs -/

/-- An element of two lists in a row stands in the first of them or in the
second. -/
theorem append_eq_split {l l' before after : List α} {a : α}
    (h : l ++ l' = before ++ a :: after) :
    (∃ mid, l = before ++ a :: mid) ∨ ∃ mid, before = l ++ mid ∧ l' = mid ++ a :: after := by
  rcases List.append_eq_append_iff.mp h with ⟨mid, rfl, hmid⟩ | ⟨mid, rfl, hmid⟩
  · exact .inr ⟨mid, rfl, hmid⟩
  · cases mid with
    | nil => exact .inr ⟨[], by simp, hmid.symm⟩
    | cons b mid =>
      simp only [List.cons_append, List.cons.injEq] at hmid
      obtain ⟨rfl, rfl⟩ := hmid
      exact .inl ⟨mid, rfl⟩

/-! ## Runs -/

/-- The run of a machine on a list of inputs: the last state, and the
outputs of all the steps, oldest first. -/
def run (step : σ → ι → Except ε (σ × List ω)) : σ → List ι → Except ε (σ × List ω)
  | s, [] => .ok (s, [])
  | s, i :: is => do
    let r ← step s i
    let r' ← run step r.1 is
    .ok (r'.1, r.2 ++ r'.2)

variable {step : σ → ι → Except ε (σ × List ω)}

theorem run_snoc (s : σ) (is : List ι) (i : ι) :
    run step s (is ++ [i]) = run step s is >>= fun r =>
      step r.1 i >>= fun r' => .ok (r'.1, r.2 ++ r'.2) := by
  induction is generalizing s with
  | nil =>
    simp only [List.nil_append, run, bind, Except.bind]
    rcases step s i with e | r
    · rfl
    · simp
  | cons j js ih =>
    simp only [List.cons_append, run]
    rcases step s j with e | r
    · rfl
    · simp only [bind, Except.bind] at ih ⊢
      rw [ih]
      rcases run step r.1 js with e | r'
      · rfl
      · simp only
        rcases step r'.1 i with e | r''
        · rfl
        · simp

/-- A run that ended, and one more step that ends, are a longer run. -/
theorem run_snoc_ok {s s' s'' : σ} {is : List ι} {i : ι} {log out : List ω}
    (h : run step s is = .ok (s', log)) (hi : step s' i = .ok (s'', out)) :
    run step s (is ++ [i]) = .ok (s'', log ++ out) := by
  rw [run_snoc, h]
  simp only [bind, Except.bind, hi]

/-- A run that ended, cut before its last step. -/
theorem run_snoc_cases {s s'' : σ} {is : List ι} {i : ι} {log' : List ω}
    (h : run step s (is ++ [i]) = .ok (s'', log')) :
    ∃ s' log out, run step s is = .ok (s', log) ∧ step s' i = .ok (s'', out) ∧
      log' = log ++ out := by
  rw [run_snoc] at h
  rcases hr : run step s is with e | ⟨s', log⟩
  · simp [hr, bind, Except.bind] at h
  · simp only [hr, bind, Except.bind] at h
    rcases hs : step s' i with e | ⟨t, out⟩
    · simp [hs] at h
    · simp only [hs, Except.ok.injEq, Prod.mk.injEq] at h
      obtain ⟨rfl, rfl⟩ := h
      exact ⟨s', log, out, rfl, hs, rfl⟩

/-- What holds at the start and after each step holds at the end of every
run that ends. -/
theorem run_invariant {I : List ω → σ → Prop} {s : σ} (h0 : I [] s)
    (hstep : ∀ log s i s' out, I log s → step s i = .ok (s', out) → I (log ++ out) s')
    {is : List ι} {s' : σ} {log : List ω} (h : run step s is = .ok (s', log)) : I log s' := by
  induction is using List.reverseRecOn generalizing s' log with
  | nil =>
    simp only [run, Except.ok.injEq, Prod.mk.injEq] at h
    obtain ⟨rfl, rfl⟩ := h
    exact h0
  | append_singleton is i ih =>
    obtain ⟨t, log', out, hr, hs, rfl⟩ := run_snoc_cases h
    exact hstep _ _ _ _ _ (ih hr) hs

/-- A machine whose steps all end runs to the end on every list of inputs. -/
theorem run_total (hstep : ∀ s i, ∃ r, step s i = .ok r) (s : σ) (is : List ι) :
    ∃ r, run step s is = .ok r := by
  induction is generalizing s with
  | nil => exact ⟨_, rfl⟩
  | cons i is ih =>
    obtain ⟨r, hr⟩ := hstep s i
    obtain ⟨r', hr'⟩ := ih r.1
    exact ⟨(r'.1, r.2 ++ r'.2), by simp [run, hr, hr', bind, Except.bind]⟩

/-! ## A condition on each step -/

/-- Each step of the run meets `cond`, which reads the outputs so far, the
state before the step and the input of the step. -/
def Meets (step : σ → ι → Except ε (σ × List ω)) (cond : List ω → σ → ι → Prop) (s : σ)
    (is : List ι) : Prop :=
  ∀ before i after, is = before ++ i :: after →
    ∀ s' log, run step s before = .ok (s', log) → cond log s' i

theorem meets_snoc {cond : List ω → σ → ι → Prop} {s : σ} {is : List ι} {i : ι} :
    Meets step cond s (is ++ [i]) ↔
      Meets step cond s is ∧ ∀ s' log, run step s is = .ok (s', log) → cond log s' i := by
  constructor
  · intro h
    refine ⟨?_, h is i [] rfl⟩
    intro before j after hb
    exact h before j (after ++ [i]) (by simp [hb])
  · rintro ⟨h, hi⟩ before j after hb
    rcases List.eq_nil_or_concat' after with rfl | ⟨after', k, rfl⟩
    · obtain ⟨rfl, hj⟩ := List.append_inj' hb rfl
      simp only [List.cons.injEq, and_true] at hj
      exact hj ▸ hi
    · rw [← List.cons_append, ← List.append_assoc] at hb
      exact h before j after' (List.append_inj' hb rfl).1

/-- The same condition, checked along the run. -/
def MeetsFrom (step : σ → ι → Except ε (σ × List ω)) (cond : List ω → σ → ι → Prop) :
    List ω → σ → List ι → Prop
  | _, _, [] => True
  | log, s, i :: is =>
    cond log s i ∧
      match step s i with
      | .ok r => MeetsFrom step cond (log ++ r.2) r.1 is
      | .error _ => True

instance MeetsFrom.decidable {cond : List ω → σ → ι → Prop} [∀ log s i, Decidable (cond log s i)] :
    ∀ (log : List ω) (s : σ) (is : List ι), Decidable (MeetsFrom step cond log s is)
  | _, _, [] => isTrue trivial
  | log, s, i :: is =>
    @instDecidableAnd _ _ inferInstance
      (match step s i with
        | .ok r => MeetsFrom.decidable (log ++ r.2) r.1 is
        | .error _ => isTrue trivial)

theorem MeetsFrom.cond_of_run {cond : List ω → σ → ι → Prop} {log : List ω} {s : σ}
    {before : List ι} {i : ι} {after : List ι}
    (h : MeetsFrom step cond log s (before ++ i :: after)) {s' : σ} {log' : List ω}
    (hr : run step s before = .ok (s', log')) : cond (log ++ log') s' i := by
  induction before generalizing log s s' log' with
  | nil =>
    simp only [run, Except.ok.injEq, Prod.mk.injEq] at hr
    obtain ⟨rfl, rfl⟩ := hr
    rw [List.append_nil]
    exact h.1
  | cons j js ih =>
    obtain ⟨-, htail⟩ := h
    simp only [run] at hr
    rcases hj : step s j with e | r
    · simp [hj, bind, Except.bind] at hr
    · rcases hrest : run step r.1 js with e | r'
      · simp [hj, hrest, bind, Except.bind] at hr
      · simp only [hj, hrest, bind, Except.bind, Except.ok.injEq, Prod.mk.injEq] at hr
        obtain ⟨rfl, rfl⟩ := hr
        rw [hj] at htail
        rw [← List.append_assoc]
        exact ih htail hrest

theorem MeetsFrom.of_runs {cond : List ω → σ → ι → Prop} {log : List ω} {s : σ} {is : List ι}
    (h : ∀ before i after, is = before ++ i :: after →
      ∀ s' log', run step s before = .ok (s', log') → cond (log ++ log') s' i) :
    MeetsFrom step cond log s is := by
  induction is generalizing log s with
  | nil => trivial
  | cons i is ih =>
    have hfirst := h [] i is rfl s [] rfl
    rw [List.append_nil] at hfirst
    refine ⟨hfirst, ?_⟩
    rcases hi : step s i with e | r
    · trivial
    · apply ih
      intro before j after hb s' log' hr
      rw [List.append_assoc]
      apply h (i :: before) j after (by simp [hb])
      simp [run, hi, hr, bind, Except.bind]

theorem meets_iff_meetsFrom {cond : List ω → σ → ι → Prop} {s : σ} {is : List ι} :
    Meets step cond s is ↔ MeetsFrom step cond [] s is := by
  constructor
  · intro h
    apply MeetsFrom.of_runs
    intro before i after hb s' log hr
    exact h before i after hb s' log hr
  · rintro h before i after rfl s' log hr
    have := h.cond_of_run hr
    simpa using this

instance {cond : List ω → σ → ι → Prop} [∀ log s i, Decidable (cond log s i)] (s : σ)
    (is : List ι) : Decidable (Meets step cond s is) :=
  decidable_of_iff _ meets_iff_meetsFrom.symm

theorem Meets.of_append {cond : List ω → σ → ι → Prop} {s : σ} {is is' : List ι}
    (h : Meets step cond s (is ++ is')) : Meets step cond s is := by
  intro before i after hb
  exact h before i (after ++ is') (by simp [hb])

theorem Meets.and {P Q : List ω → σ → ι → Prop} {s : σ} {is : List ι} (hp : Meets step P s is)
    (hq : Meets step Q s is) : Meets step (fun log s i => P log s i ∧ Q log s i) s is := by
  intro before i after hb s' log hr
  exact ⟨hp before i after hb s' log hr, hq before i after hb s' log hr⟩

/-- An invariant that each step keeps when it meets the condition holds at
the end of every run whose steps all meet it. -/
theorem run_invariant_of_meets {I : List ω → σ → Prop} {cond : List ω → σ → ι → Prop} {s : σ}
    (h0 : I [] s)
    (hstep : ∀ log s i s' out, I log s → cond log s i → step s i = .ok (s', out) →
      I (log ++ out) s')
    {is : List ι} (hm : Meets step cond s is) {s' : σ} {log : List ω}
    (h : run step s is = .ok (s', log)) : I log s' := by
  induction is using List.reverseRecOn generalizing s' log with
  | nil =>
    simp only [run, Except.ok.injEq, Prod.mk.injEq] at h
    obtain ⟨rfl, rfl⟩ := h
    exact h0
  | append_singleton is i ih =>
    obtain ⟨t, log', out, hr, hs, rfl⟩ := run_snoc_cases h
    obtain ⟨hm', hi⟩ := meets_snoc.mp hm
    exact hstep _ _ _ _ _ (ih hm' hr) (hi _ _ hr) hs

/-- When each step that meets the condition ends and keeps the invariant, a run
whose steps all meet it ends, with the invariant. -/
theorem run_returns_of_meets {I : List ω → σ → Prop} {cond : List ω → σ → ι → Prop} {s : σ}
    (h0 : I [] s)
    (hstep : ∀ log s i, I log s → cond log s i → ∃ s' out, step s i = .ok (s', out) ∧
      I (log ++ out) s')
    {is : List ι} (hm : Meets step cond s is) :
    ∃ s' log, run step s is = .ok (s', log) ∧ I log s' := by
  induction is using List.reverseRecOn with
  | nil => exact ⟨s, [], rfl, h0⟩
  | append_singleton is i ih =>
    obtain ⟨hm', hi⟩ := meets_snoc.mp hm
    obtain ⟨s', log, hr, hinv⟩ := ih hm'
    obtain ⟨s'', out, hs, hinv'⟩ := hstep log s' i hinv (hi s' log hr)
    exact ⟨s'', log ++ out, run_snoc_ok hr hs, hinv'⟩

/-- Two conditions that agree wherever the invariant holds are met by the same
runs. -/
theorem meets_congr {I : List ω → σ → Prop} {P Q : List ω → σ → ι → Prop} {s : σ} (h0 : I [] s)
    (hstep : ∀ log s i s' out, I log s → step s i = .ok (s', out) → I (log ++ out) s')
    (hiff : ∀ log s i, I log s → (P log s i ↔ Q log s i)) (is : List ι) :
    Meets step P s is ↔ Meets step Q s is := by
  constructor
  · intro h before i after hb s' log hr
    exact (hiff log s' i (run_invariant h0 hstep hr)).mp (h before i after hb s' log hr)
  · intro h before i after hb s' log hr
    exact (hiff log s' i (run_invariant h0 hstep hr)).mpr (h before i after hb s' log hr)

/-- `P` holds in the first state of the run, and after each of its steps. -/
def Always (step : σ → ι → Except ε (σ × List ω)) (P : σ → Prop) (s : σ) (is : List ι) : Prop :=
  ∀ before after, is = before ++ after → ∀ s' log, run step s before = .ok (s', log) → P s'

theorem always_snoc {P : σ → Prop} {s : σ} {is : List ι} {i : ι} :
    Always step P s (is ++ [i]) ↔
      Always step P s is ∧ ∀ s' log, run step s (is ++ [i]) = .ok (s', log) → P s' := by
  constructor
  · intro h
    refine ⟨?_, h (is ++ [i]) [] (by simp)⟩
    intro before after hb
    exact h before (after ++ [i]) (by simp [hb])
  · rintro ⟨h, hi⟩ before after hb
    rcases List.eq_nil_or_concat' after with rfl | ⟨after', k, rfl⟩
    · rw [List.append_nil] at hb
      exact hb ▸ hi
    · rw [← List.append_assoc] at hb
      exact h before after' (List.append_inj' hb rfl).1

/-- When one step from a state with `P` keeps `P` exactly if it meets the
condition, then `P` holds in every state of a run exactly if all its steps
meet it. `J` is what every state of the run satisfies. -/
theorem always_iff_meets {J P : σ → Prop} {cond : σ → ι → Prop} {s : σ} (hj : J s) (hp : P s)
    (htotal : ∀ s i, J s → ∃ s' out, step s i = .ok (s', out) ∧ J s')
    (hstep : ∀ s i s' out, J s → P s → step s i = .ok (s', out) → (P s' ↔ cond s i))
    (is : List ι) : Always step P s is ↔ Meets step (fun _ s i => cond s i) s is := by
  have hend : ∀ is, ∃ s' log, run step s is = .ok (s', log) ∧ J s' := by
    intro is
    induction is using List.reverseRecOn with
    | nil => exact ⟨s, [], rfl, hj⟩
    | append_singleton is i ih =>
      obtain ⟨s', log, hr, hj'⟩ := ih
      obtain ⟨s'', out, hs, hj''⟩ := htotal s' i hj'
      exact ⟨s'', log ++ out, run_snoc_ok hr hs, hj''⟩
  induction is using List.reverseRecOn with
  | nil =>
    constructor
    · intro _ before i after hb
      simp at hb
    · intro _ before after hb s' log hr
      obtain ⟨rfl, rfl⟩ := List.append_eq_nil_iff.mp hb.symm
      simp only [run, Except.ok.injEq, Prod.mk.injEq] at hr
      exact hr.1 ▸ hp
  | append_singleton is i ih =>
    obtain ⟨s', log, hr, hj'⟩ := hend is
    obtain ⟨s'', out, hs, -⟩ := htotal s' i hj'
    have hlast : run step s (is ++ [i]) = .ok (s'', log ++ out) := run_snoc_ok hr hs
    rw [always_snoc, meets_snoc]
    constructor
    · rintro ⟨ha, h⟩
      refine ⟨ih.mp ha, fun t log' ht => ?_⟩
      rw [hr] at ht
      cases ht
      exact (hstep _ _ _ _ hj' (ha is [] (by simp) _ _ hr) hs).mp (h _ _ hlast)
    · rintro ⟨hm, h⟩
      refine ⟨ih.mpr hm, fun t log' ht => ?_⟩
      rw [hlast] at ht
      cases ht
      exact (hstep _ _ _ _ hj' (ih.mpr hm is [] (by simp) _ _ hr) hs).mpr (h _ _ hr)

end machine
