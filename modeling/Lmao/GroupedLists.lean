-- Lists in which the elements with the same key stand next to each other: how a list
-- is taken apart at one key, and what keeps it grouped.
import Mathlib.Data.List.Basic
import Mathlib.Order.Basic

namespace lmao.lists

variable {α κ : Type} [DecidableEq κ] {key : α → κ} {xs : List α}

/-- The elements of each key stand in one place. -/
def Grouped (key : α → κ) (xs : List α) : Prop := ∀ k, xs.filter (key · = k) <:+: xs

theorem grouped_nil : Grouped key [] := fun _ => List.infix_rfl

theorem filter_cons_own (a : α) (xs : List α) :
    (a :: xs).filter (key · = key a) = a :: xs.filter (key · = key a) :=
  List.filter_cons_of_pos (decide_eq_true rfl)

/-- A grouped list around the elements of one key. -/
theorem Grouped.split (h : Grouped key xs) (k : κ) :
    ∃ pre post, xs = pre ++ xs.filter (key · = k) ++ post ∧ (∀ b ∈ pre, key b ≠ k) ∧
      ∀ b ∈ post, key b ≠ k := by
  obtain ⟨pre, post, hxs⟩ := h k
  have hfilter := congrArg (List.filter (key · = k)) hxs
  rw [List.filter_append, List.filter_append, List.filter_filter] at hfilter
  have hlength := congrArg List.length hfilter
  simp only [Bool.and_self, List.length_append] at hlength
  have hpre : pre.filter (key · = k) = [] := List.length_eq_zero_iff.mp (by omega)
  have hpost : post.filter (key · = k) = [] := List.length_eq_zero_iff.mp (by omega)
  rw [List.filter_eq_nil_iff] at hpre hpost
  refine ⟨pre, post, hxs.symm, ?_, ?_⟩
  · intro b hb heq
    exact hpre b hb (decide_eq_true heq)
  · intro b hb heq
    exact hpost b hb (decide_eq_true heq)

/-- Removing elements keeps the others together. -/
theorem Grouped.filter (h : Grouped key xs) (p : α → Bool) : Grouped key (xs.filter p) := by
  intro k
  obtain ⟨pre, post, hxs⟩ := h k
  refine ⟨pre.filter p, post.filter p, ?_⟩
  have hfilter := congrArg (List.filter p) hxs
  rw [List.filter_append, List.filter_append, List.filter_comm] at hfilter
  exact hfilter

/-- Only which elements have the same key matters. -/
theorem Grouped.congr {κ' : Type} [DecidableEq κ'] {key' : α → κ'} (h : Grouped key xs)
    (hsame : ∀ a ∈ xs, ∀ b ∈ xs, key' a = key' b ↔ key a = key b) : Grouped key' xs := by
  intro k'
  by_cases hsome : ∃ a ∈ xs, key' a = k'
  · obtain ⟨a, ha, rfl⟩ := hsome
    have hfilter : xs.filter (key' · = key' a) = xs.filter (key · = key a) := by
      apply List.filter_congr
      intro b hb
      exact decide_eq_decide.mpr (hsame b hb a ha)
    rw [hfilter]
    exact h (key a)
  · have hnone : xs.filter (key' · = k') = [] := by
      apply List.filter_eq_nil_iff.mpr
      intro a ha heq
      exact hsome ⟨a, ha, of_decide_eq_true heq⟩
    rw [hnone]
    exact List.nil_infix

/-- An element in front of a grouped list: its key stands there already, or nowhere. -/
theorem grouped_cons_iff {a : α} :
    Grouped key (a :: xs) ↔
      Grouped key xs ∧ ∀ b ∈ xs, key b = key a → ∀ c ∈ xs.head?, key c = key a := by
  constructor
  · intro h
    obtain ⟨pre, post, hsplit, hpre, -⟩ := h.split (key a)
    have hnil : pre = [] := by
      cases pre with
      | nil => rfl
      | cons b pre =>
        have hab : a = b := (List.cons.inj hsplit).1
        exact absurd (congrArg key hab.symm) (hpre b (List.mem_cons_self ..))
    rw [hnil, filter_cons_own] at hsplit
    have hxs : xs = xs.filter (key · = key a) ++ post := (List.cons.inj hsplit).2
    refine ⟨?_, ?_⟩
    · intro k
      by_cases hk : key a = k
      · subst hk
        exact ⟨[], post, hxs.symm⟩
      · obtain ⟨pre', post', hinfix⟩ := h k
        rw [List.filter_cons_of_neg (by simpa using hk)] at hinfix
        cases pre' with
        | cons b pre' => exact ⟨pre', post', (List.cons.inj hinfix).2⟩
        | nil =>
          cases hfilter : xs.filter (key · = k) with
          | nil => exact List.nil_infix
          | cons c cs =>
            rw [hfilter] at hinfix
            have hca : c = a := (List.cons.inj hinfix).1
            have hc : c ∈ xs.filter (key · = k) := hfilter ▸ List.mem_cons_self ..
            exact absurd (hca ▸ of_decide_eq_true (List.mem_filter.mp hc).2) hk
    · intro b hb heq c hc
      have hmem : b ∈ xs.filter (key · = key a) := List.mem_filter.mpr ⟨hb, decide_eq_true heq⟩
      cases hfilter : xs.filter (key · = key a) with
      | nil =>
        rw [hfilter] at hmem
        cases hmem
      | cons d ds =>
        rw [hfilter] at hxs
        rw [hxs] at hc
        cases hc
        have hd : c ∈ xs.filter (key · = key a) := hfilter ▸ List.mem_cons_self ..
        exact of_decide_eq_true (List.mem_filter.mp hd).2
  · rintro ⟨h, hhead⟩ k
    by_cases hk : key a = k
    · subst hk
      rw [filter_cons_own]
      obtain ⟨pre, post, hsplit, hpre, -⟩ := h.split (key a)
      cases pre with
      | nil => exact ⟨[], post, congrArg (a :: ·) hsplit.symm⟩
      | cons b pre =>
        have hb : xs.head? = some b := by
          rw [hsplit]
          rfl
        have hnone : xs.filter (key · = key a) = [] := by
          apply List.filter_eq_nil_iff.mpr
          intro d hd heq
          exact hpre b (List.mem_cons_self ..) (hhead d hd (of_decide_eq_true heq) b hb)
        rw [hnone]
        exact ⟨[], xs, rfl⟩
    · rw [List.filter_cons_of_neg (by simpa using hk)]
      exact (h k).trans (List.suffix_cons a xs).isInfix

/-- The elements with the key of `a` go to the front, and `a` behind them. -/
theorem Grouped.to_front (h : Grouped key xs) (a : α) :
    Grouped key (xs.filter (key · = key a) ++ a :: xs.filter (key · ≠ key a)) := by
  intro k
  rw [List.filter_append]
  by_cases hk : key a = k
  · subst hk
    have hnone : (xs.filter (key · ≠ key a)).filter (key · = key a) = [] := by
      apply List.filter_eq_nil_iff.mpr
      intro b hb heq
      exact of_decide_eq_true (List.mem_filter.mp hb).2 (of_decide_eq_true heq)
    rw [List.filter_filter, filter_cons_own, hnone]
    simp only [Bool.and_self]
    exact ⟨[], xs.filter (key · ≠ key a), by rw [List.nil_append, List.append_assoc]; rfl⟩
  · have hnone : (xs.filter (key · = key a)).filter (key · = k) = [] := by
      apply List.filter_eq_nil_iff.mpr
      intro b hb heq
      exact hk ((of_decide_eq_true (List.mem_filter.mp hb).2).symm.trans (of_decide_eq_true heq))
    rw [hnone, List.nil_append, List.filter_cons_of_neg (by simpa using hk)]
    apply ((h.filter (key · ≠ key a)) k).trans
    exact ((List.suffix_cons a _).trans (List.suffix_append ..)).isInfix

/-- A list in an order that tells the keys apart. -/
theorem Grouped.of_sorted {β : Type} [PartialOrder β] {f : α → β}
    (hsorted : xs.Pairwise fun a b => f a ≤ f b)
    (hf : ∀ a ∈ xs, ∀ b ∈ xs, f a = f b ↔ key a = key b) : Grouped key xs := by
  induction xs with
  | nil => exact grouped_nil
  | cons a xs ih =>
    obtain ⟨hfirst, hrest⟩ := List.pairwise_cons.mp hsorted
    refine grouped_cons_iff.mpr ⟨?_, ?_⟩
    · apply ih hrest
      intro b hb c hc
      exact hf b (List.mem_cons_of_mem a hb) c (List.mem_cons_of_mem a hc)
    · intro b hb heq c hc
      cases xs with
      | nil => cases hc
      | cons d ds =>
        cases hc
        have hab : f b = f a :=
          (hf b (List.mem_cons_of_mem a hb) a (List.mem_cons_self ..)).mpr heq
        have hcb : f c ≤ f b := by
          rcases List.mem_cons.mp hb with rfl | hb
          · exact le_refl _
          · exact (List.pairwise_cons.mp hrest).1 b hb
        have hca : f c = f a :=
          le_antisymm (hab ▸ hcb) (hfirst c (List.mem_cons_self ..))
        exact (hf c (List.mem_cons_of_mem a (List.mem_cons_self ..)) a
          (List.mem_cons_self ..)).mp hca

/-- Another list with the same keys. -/
theorem Grouped.of_map {β : Type} {key' : β → κ} {ys : List β} (h : Grouped key xs)
    (hmap : ys.map key' = xs.map key) : Grouped key' ys := by
  induction xs generalizing ys with
  | nil =>
    rw [List.map_nil, List.map_eq_nil_iff] at hmap
    rw [hmap]
    exact grouped_nil
  | cons a xs ih =>
    cases ys with
    | nil => cases hmap
    | cons b ys =>
      rw [List.map_cons, List.map_cons] at hmap
      obtain ⟨hab, hrest⟩ := List.cons.inj hmap
      obtain ⟨hxs, hhead⟩ := grouped_cons_iff.mp h
      refine grouped_cons_iff.mpr ⟨ih hxs hrest, ?_⟩
      intro c hc heq d hd
      have hmem : key' c ∈ xs.map key := hrest ▸ List.mem_map_of_mem hc
      obtain ⟨c₀, hc₀, hcc⟩ := List.mem_map.mp hmem
      have hfirst : (xs.map key).head? = some (key' d) := by
        rw [← hrest, List.head?_map, hd]
        rfl
      rw [List.head?_map] at hfirst
      obtain ⟨d₀, hd₀, hdd⟩ := Option.map_eq_some_iff.mp hfirst
      rw [← hdd, hab]
      exact hhead c₀ hc₀ (hcc.trans (heq.trans hab)) d₀ hd₀

end lmao.lists
