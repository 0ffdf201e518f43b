-- Sorting by a key. Among items of one key the order stays as it was, and the
-- sorted list is the only one with that order.
import Mathlib.Data.List.Sort

namespace stable_sort

variable {α κ : Type} [LinearOrder κ] {key : α → κ}

/-- A stable sort, smallest key first. -/
def sort_by_key (key : α → κ) (l : List α) : List α :=
  l.insertionSort fun a b => key a ≤ key b

/-- `l'` holds the items of `l`, smallest key first, and items of one key in
the order of `l`. -/
structure Sorts (key : α → κ) (l l' : List α) : Prop where
  sorted : l'.Pairwise fun a b => key a ≤ key b
  stable : ∀ k, (l'.filter fun a => key a = k) = l.filter fun a => key a = k

theorem filter_orderedInsert (a : α) (l : List α) (k : κ) :
    ((l.orderedInsert (fun a b => key a ≤ key b) a).filter fun x => key x = k) =
      (a :: l).filter fun x => key x = k := by
  induction l with
  | nil => rfl
  | cons b l ih =>
    by_cases hab : key a ≤ key b
    · rw [List.orderedInsert_cons_of_le _ l hab]
    · rw [List.orderedInsert_of_not_le _ l hab, List.filter_cons, ih]
      by_cases hb : key b = k
      · have ha : key a ≠ k := fun ha => hab (ha.trans hb.symm).le
        simp [hb, ha]
      · simp [List.filter_cons, hb]

theorem sort_by_key_sorts (key : α → κ) (l : List α) : Sorts key l (sort_by_key key l) := by
  have htotal : Std.Total fun a b : α => key a ≤ key b := ⟨fun a b => le_total (key a) (key b)⟩
  have htrans : IsTrans α fun a b : α => key a ≤ key b := ⟨fun _ _ _ => le_trans⟩
  refine ⟨List.pairwise_insertionSort _ l, ?_⟩
  intro k
  induction l with
  | nil => rfl
  | cons a l ih =>
    have hstep : sort_by_key key (a :: l) =
        (sort_by_key key l).orderedInsert (fun a b => key a ≤ key b) a := rfl
    rw [hstep, filter_orderedInsert, List.filter_cons, ih, List.filter_cons]

theorem perm_sort_by_key (key : α → κ) (l : List α) : (sort_by_key key l).Perm l :=
  List.perm_insertionSort _ l

@[simp]
theorem mem_sort_by_key {a : α} {l : List α} : a ∈ sort_by_key key l ↔ a ∈ l :=
  List.mem_insertionSort _

/-- Items with different keys come out strictly sorted. -/
theorem sort_by_key_lt {l : List α} (h : l.Pairwise fun a b => key a ≠ key b) :
    (sort_by_key key l).Pairwise fun a b => key a < key b := by
  have hne : (sort_by_key key l).Pairwise fun a b => key a ≠ key b :=
    h.perm (perm_sort_by_key key l).symm fun hab => hab.symm
  exact ((sort_by_key_sorts key l).sorted.and hne).imp fun hab => lt_of_le_of_ne hab.1 hab.2

theorem mem_iff_of_filter_eq {l l' : List α}
    (h : ∀ k, (l.filter fun a => key a = k) = l'.filter fun a => key a = k) (a : α) :
    a ∈ l ↔ a ∈ l' := by
  have hiff : (a ∈ l.filter fun x => key x = key a) ↔ a ∈ l'.filter fun x => key x = key a := by
    rw [h]
  simpa using hiff

/-- Two sorted lists with the same items of each key are the same list. -/
theorem eq_of_filter_eq {l l' : List α} (hl : l.Pairwise fun a b => key a ≤ key b)
    (hl' : l'.Pairwise fun a b => key a ≤ key b)
    (h : ∀ k, (l.filter fun a => key a = k) = l'.filter fun a => key a = k) : l = l' := by
  induction l generalizing l' with
  | nil =>
    rcases l' with _ | ⟨b, l'⟩
    · rfl
    · exact absurd ((mem_iff_of_filter_eq h b).mpr List.mem_cons_self) List.not_mem_nil
  | cons a l ih =>
    have hmem := mem_iff_of_filter_eq h
    rcases l' with _ | ⟨b, l'⟩
    · exact absurd ((hmem a).mp List.mem_cons_self) List.not_mem_nil
    have hmin : ∀ {x y : α} {m : List α}, (x :: m).Pairwise (fun a b => key a ≤ key b) →
        y ∈ x :: m → key x ≤ key y := by
      intro x y m hm hy
      rcases List.mem_cons.mp hy with rfl | hy
      · exact le_rfl
      · exact List.rel_of_pairwise_cons hm hy
    -- both heads are the least, and so they are the first of one key
    have hkey : key a = key b := le_antisymm (hmin hl ((hmem b).mpr List.mem_cons_self))
      (hmin hl' ((hmem a).mp List.mem_cons_self))
    have hheads := h (key a)
    rw [List.filter_cons_of_pos (by simp), List.filter_cons_of_pos (by simp [hkey])] at hheads
    obtain ⟨rfl, -⟩ := List.cons.inj hheads
    have htails : ∀ k, (l.filter fun x => key x = k) = l'.filter fun x => key x = k := by
      intro k
      have hk := h k
      rw [List.filter_cons, List.filter_cons] at hk
      split at hk
      · exact (List.cons.inj hk).2
      · exact hk
    rw [ih hl.of_cons hl'.of_cons htails]

/-- Two lists are sorted to one if and only if each key has the same items in the
same order. -/
theorem sort_by_key_eq_iff {l l' : List α} : sort_by_key key l = sort_by_key key l' ↔
    ∀ k, (l.filter fun a => key a = k) = l'.filter fun a => key a = k := by
  constructor
  · intro heq k
    rw [← (sort_by_key_sorts key l).stable, ← (sort_by_key_sorts key l').stable, heq]
  · intro h
    apply eq_of_filter_eq (sort_by_key_sorts key l).sorted (sort_by_key_sorts key l').sorted
    intro k
    rw [(sort_by_key_sorts key l).stable, (sort_by_key_sorts key l').stable, h]

end stable_sort
