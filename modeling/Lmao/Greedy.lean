-- Greedy passes over a buffer. A pass walks the buffer once and takes each
-- item that is ready in the state so far. Passes repeat until one of them
-- takes nothing. `drain_spec` says all there is to say about the loop: the
-- items that it takes are ready when it takes them, and the items that it
-- leaves are stuck.
import Mathlib.Data.List.Perm.Basic
import Mathlib.Data.Set.Basic
import Mathlib.Order.Bounds.Basic

namespace greedy

variable {σ μ δ : Type}

/-- What the loop takes: `ready` gives what an item turns into, once the
state lets it go, and `take` is what that does to the state. -/
structure Rule (σ μ δ : Type) where
  ready : σ → μ → Option δ
  take : σ → δ → σ

/-- One pass: the state after it, what it took, and what stays. -/
def Rule.pass (R : Rule σ μ δ) : σ → List μ → σ × List δ × List μ
  | s, [] => (s, [], [])
  | s, m :: ms =>
    match R.ready s m with
    | some d =>
      let r := R.pass (R.take s d) ms
      (r.1, d :: r.2.1, r.2.2)
    | none =>
      let r := R.pass s ms
      (r.1, r.2.1, m :: r.2.2)

/-- Passes until one of them takes nothing, at most `n` of them. -/
def Rule.drain (R : Rule σ μ δ) : Nat → σ → List μ → σ × List δ × List μ
  | 0, s, ms => (s, [], ms)
  | n + 1, s, ms =>
    let p := R.pass s ms
    if p.2.1.isEmpty then p
    else
      let r := R.drain n p.1 p.2.2
      (r.1, p.2.1 ++ r.2.1, r.2.2)

/-! ## Takes: the loop as a sequence of single steps -/

/-- From `s` to `s'`, each item ready at its turn. -/
inductive Rule.Takes (R : Rule σ μ δ) : σ → List (μ × δ) → σ → Prop
  | nil (s : σ) : R.Takes s [] s
  | cons {s s' : σ} {m : μ} {d : δ} {ps : List (μ × δ)} :
      R.ready s m = some d → R.Takes (R.take s d) ps s' → R.Takes s ((m, d) :: ps) s'

variable {R : Rule σ μ δ}

theorem Rule.Takes.append {s s' s'' : σ} {ps qs : List (μ × δ)} (h : R.Takes s ps s')
    (h' : R.Takes s' qs s'') : R.Takes s (ps ++ qs) s'' := by
  induction h with
  | nil => exact h'
  | cons hr _ ih => exact .cons hr (ih h')

/-- What the loop did to a buffer `ms`: it took `ps` and left `rest`. -/
structure Rule.Drains (R : Rule σ μ δ) (s : σ) (ms : List μ) (ps : List (μ × δ)) (s' : σ)
    (rest : List μ) : Prop where
  takes : R.Takes s ps s'
  perm : (ps.map Prod.fst ++ rest).Perm ms
  sublist : rest.Sublist ms
  stuck : ∀ m ∈ rest, R.ready s' m = none

theorem Rule.pass_takes (s : σ) (ms : List μ) :
    ∃ ps, R.Takes s ps (R.pass s ms).1 ∧ (R.pass s ms).2.1 = ps.map Prod.snd ∧
      (ps.map Prod.fst ++ (R.pass s ms).2.2).Perm ms ∧ (R.pass s ms).2.2.Sublist ms := by
  induction ms generalizing s with
  | nil => exact ⟨[], .nil s, by simp [Rule.pass], by simp [Rule.pass], by simp [Rule.pass]⟩
  | cons m ms ih =>
    rcases hr : R.ready s m with _ | d
    · obtain ⟨ps, h1, h2, h3, h4⟩ := ih s
      simp only [Rule.pass, hr]
      refine ⟨ps, h1, h2, ?_, h4.cons_cons m⟩
      exact List.perm_middle.trans (h3.cons m)
    · obtain ⟨ps, h1, h2, h3, h4⟩ := ih (R.take s d)
      simp only [Rule.pass, hr]
      exact ⟨(m, d) :: ps, .cons hr h1, by simp [h2], by simpa using h3.cons m, h4.cons m⟩

/-- A pass that takes nothing changes nothing: every item is stuck. -/
theorem Rule.pass_stuck {s : σ} {ms : List μ} (h : (R.pass s ms).2.1 = []) :
    R.pass s ms = (s, [], ms) ∧ ∀ m ∈ ms, R.ready s m = none := by
  induction ms with
  | nil => exact ⟨rfl, by simp⟩
  | cons m ms ih =>
    rcases hr : R.ready s m with _ | d
    · simp only [Rule.pass, hr] at h ⊢
      obtain ⟨h1, h2⟩ := ih h
      refine ⟨by rw [h1], ?_⟩
      intro x hx
      rcases List.mem_cons.mp hx with rfl | hx
      · exact hr
      · exact h2 x hx
    · simp [Rule.pass, hr] at h

/-- A pass that takes something leaves a shorter buffer. -/
theorem Rule.pass_shorter {s : σ} {ms : List μ} (h : (R.pass s ms).2.1 ≠ []) :
    (R.pass s ms).2.2.length < ms.length := by
  obtain ⟨ps, -, hout, hperm, -⟩ := R.pass_takes s ms
  have hlen := hperm.length_eq
  have hpos : 0 < ps.length := by
    rw [List.length_pos_iff]
    rintro rfl
    exact h hout
  simp only [List.length_append, List.length_map] at hlen
  omega

/-- With one pass more than the buffer has items, the loop runs to its end. -/
theorem Rule.drain_spec {n : Nat} {ms : List μ} (h : ms.length < n) (s : σ) :
    ∃ ps, R.Drains s ms ps (R.drain n s ms).1 (R.drain n s ms).2.2 ∧
      (R.drain n s ms).2.1 = ps.map Prod.snd := by
  induction n generalizing s ms with
  | zero => omega
  | succ n ih =>
    simp only [Rule.drain]
    obtain ⟨ps, htakes, hout, hperm, hsub⟩ := R.pass_takes s ms
    by_cases hnone : (R.pass s ms).2.1 = []
    · obtain ⟨hpass, hstuck⟩ := R.pass_stuck hnone
      simp only [hpass, List.isEmpty_nil, if_true]
      exact ⟨[], ⟨.nil s, by simp, .refl ms, hstuck⟩, rfl⟩
    · simp only [List.isEmpty_iff, hnone, if_false]
      have hshort : (R.pass s ms).2.2.length < n := by
        have := R.pass_shorter hnone
        omega
      obtain ⟨qs, hd, hqs⟩ := ih hshort (R.pass s ms).1
      refine ⟨ps ++ qs, ⟨htakes.append hd.takes, ?_, hd.sublist.trans hsub, hd.stuck⟩, ?_⟩
      · rw [List.map_append, List.append_assoc]
        exact (hd.perm.append_left _).trans hperm
      · rw [List.map_append, hout, hqs]

/-- A buffer where every item is stuck stays as it is. -/
theorem Rule.drain_stuck (n : Nat) {s : σ} {ms : List μ} (h : ∀ m ∈ ms, R.ready s m = none) :
    R.drain n s ms = (s, [], ms) := by
  have hpass : R.pass s ms = (s, [], ms) := by
    induction ms with
    | nil => rfl
    | cons m ms ih =>
      simp only [Rule.pass, h m (by simp)]
      rw [ih (fun x hx => h x (List.mem_cons_of_mem m hx))]
  cases n with
  | zero => rfl
  | succ n => simp [Rule.drain, hpass]

/-! ## A part of the buffer -/

/-- The items that `keep` drops do not matter to the others. `S` relates the
states of a loop over all items to those of a loop over the kept ones, and
`W` holds of all items. -/
structure Rule.Ignores (R : Rule σ μ δ) (S : σ → σ → Prop) (W : μ → Prop) (keep : μ → Bool)
    (kept : δ → Bool) : Prop where
  ready : ∀ s t m, S s t → W m → keep m = true → R.ready s m = R.ready t m
  sort : ∀ s m d, R.ready s m = some d → kept d = keep m
  take : ∀ s t m d, S s t → R.ready s m = some d → keep m = true → S (R.take s d) (R.take t d)
  skip : ∀ s t m d, S s t → R.ready s m = some d → keep m = false → S (R.take s d) t

variable {S : σ → σ → Prop} {W : μ → Prop} {keep : μ → Bool} {kept : δ → Bool}

theorem Rule.Ignores.pass (h : R.Ignores S W keep kept) {s t : σ} {ms : List μ} (hs : S s t)
    (hms : ∀ m ∈ ms, W m) :
    S (R.pass s ms).1 (R.pass t (ms.filter keep)).1 ∧
      (R.pass t (ms.filter keep)).2.1 = (R.pass s ms).2.1.filter kept ∧
      (R.pass t (ms.filter keep)).2.2 = (R.pass s ms).2.2.filter keep := by
  induction ms generalizing s t with
  | nil => exact ⟨hs, rfl, rfl⟩
  | cons m ms ih =>
    have hrest : ∀ x ∈ ms, W x := fun x hx => hms x (List.mem_cons_of_mem m hx)
    rcases hk : keep m with _ | _
    · rw [List.filter_cons_of_neg (by simp [hk])]
      rcases hr : R.ready s m with _ | d
      · obtain ⟨h1, h2, h3⟩ := ih hs hrest
        simp only [Rule.pass, hr]
        exact ⟨h1, h2, by rw [h3, List.filter_cons_of_neg (by simp [hk])]⟩
      · obtain ⟨h1, h2, h3⟩ := ih (h.skip s t m d hs hr hk) hrest
        have hd : kept d = false := (h.sort s m d hr).trans hk
        simp only [Rule.pass, hr]
        exact ⟨h1, by rw [h2, List.filter_cons_of_neg (by simp [hd])], h3⟩
    · rw [List.filter_cons_of_pos (by simp [hk])]
      have hready := h.ready s t m hs (hms m (by simp)) hk
      rcases hr : R.ready s m with _ | d
      · obtain ⟨h1, h2, h3⟩ := ih hs hrest
        simp only [Rule.pass, hr, ← hready]
        exact ⟨h1, h2, by rw [h3, List.filter_cons_of_pos (by simp [hk])]⟩
      · obtain ⟨h1, h2, h3⟩ := ih (h.take s t m d hs hr hk) hrest
        have hd : kept d = true := (h.sort s m d hr).trans hk
        simp only [Rule.pass, hr, ← hready]
        exact ⟨h1, by rw [h2, List.filter_cons_of_pos (by simp [hd])], h3⟩

/-- The loop over the kept items takes and leaves what the loop over all of
them takes and leaves of these. -/
theorem Rule.Ignores.drain (h : R.Ignores S W keep kept) {n k : Nat} {s t : σ} {ms : List μ}
    (hs : S s t) (hms : ∀ m ∈ ms, W m) (hn : ms.length < n) (hk : (ms.filter keep).length < k) :
    S (R.drain n s ms).1 (R.drain k t (ms.filter keep)).1 ∧
      (R.drain k t (ms.filter keep)).2.1 = (R.drain n s ms).2.1.filter kept ∧
      (R.drain k t (ms.filter keep)).2.2 = (R.drain n s ms).2.2.filter keep := by
  induction n generalizing k s t ms with
  | zero => omega
  | succ n ih =>
    obtain ⟨h1, h2, h3⟩ := h.pass hs hms
    by_cases hnone : (R.pass s ms).2.1 = []
    · obtain ⟨hpass, hstuck⟩ := R.pass_stuck hnone
      have hstuck' : ∀ m ∈ ms.filter keep, R.ready t m = none := by
        intro m hm
        rw [List.mem_filter] at hm
        rw [← h.ready s t m hs (hms m hm.1) hm.2]
        exact hstuck m hm.1
      rw [R.drain_stuck _ hstuck, R.drain_stuck _ hstuck']
      exact ⟨hs, rfl, rfl⟩
    · have hshort : (R.pass s ms).2.2.length < n := by
        have := R.pass_shorter hnone
        omega
      have hrest : ∀ m ∈ (R.pass s ms).2.2, W m := by
        obtain ⟨-, -, -, -, hsub⟩ := R.pass_takes s ms
        exact fun m hm => hms m (hsub.subset hm)
      have hdrain : R.drain (n + 1) s ms =
          ((R.drain n (R.pass s ms).1 (R.pass s ms).2.2).1,
            (R.pass s ms).2.1 ++ (R.drain n (R.pass s ms).1 (R.pass s ms).2.2).2.1,
            (R.drain n (R.pass s ms).1 (R.pass s ms).2.2).2.2) := by
        simp only [Rule.drain, List.isEmpty_iff, hnone, if_false]
      rw [hdrain]
      by_cases hnone' : (R.pass t (ms.filter keep)).2.1 = []
      · -- Only dropped items went: the kept ones are stuck, in this pass and after it.
        obtain ⟨hpass', hstuck'⟩ := R.pass_stuck hnone'
        rw [hpass'] at h1 h2 h3
        have hk' : ((R.pass s ms).2.2.filter keep).length < k := by
          rw [← h3]
          exact hk
        obtain ⟨i1, i2, i3⟩ := ih h1 hrest hshort hk'
        rw [← h3, R.drain_stuck k hstuck'] at i1 i2 i3
        rw [R.drain_stuck k hstuck']
        exact ⟨i1, by rw [List.filter_append, ← h2, ← i2]; rfl, i3⟩
      · cases k with
        | zero => omega
        | succ k =>
          have hk' : ((R.pass s ms).2.2.filter keep).length < k := by
            have := R.pass_shorter hnone'
            rw [h3] at this
            omega
          obtain ⟨i1, i2, i3⟩ := ih h1 hrest hshort hk'
          simp only [Rule.drain, List.isEmpty_iff, hnone', if_false]
          rw [h3]
          exact ⟨i1, by rw [List.filter_append, ← h2, ← i2], i3⟩

/-! ## Dependencies

Items with a name and the names that they depend on, and a set of names
that are there from the start. -/

section Closure

variable {ι : Type} (name : μ → ι) (deps : μ → List ι)

/-- `D` holds the name of each item whose dependencies are all there, from
the start or in `D`. -/
def Closed (start : Set ι) (items : Set μ) (D : Set ι) : Prop :=
  ∀ m ∈ items, (∀ i ∈ deps m, i ∈ start ∨ i ∈ D) → name m ∈ D

variable {name deps}

/-- Names that were each taken with the dependencies there are least among
the closed sets, once every item that is left misses a dependency. -/
theorem isLeast_closed {start : Set ι} {items : Set μ} {D : Set ι}
    (hsound : ∀ E, Closed name deps start items E → D ⊆ E)
    (hstuck : ∀ m ∈ items, name m ∉ D → ∃ i ∈ deps m, i ∉ start ∧ i ∉ D) :
    IsLeast {E | Closed name deps start items E} D := by
  refine ⟨?_, fun E hE => hsound E hE⟩
  intro m hm hdeps
  by_contra hnot
  obtain ⟨i, hi, hs, hd⟩ := hstuck m hm hnot
  rcases hdeps i hi with h | h
  · exact hs h
  · exact hd h

end Closure

end greedy
