-- The first element of each key in a list, in the order of the list: what a loop keeps
-- that remembers the keys it has seen.
import Mathlib.Data.List.Induction
import Mathlib.Data.List.Nodup

namespace lmao.lists

variable {α κ : Type} [DecidableEq κ] {key : α → κ} {seen seen' : List κ} {l l' : List α}

/-- The elements whose key is not among the seen ones, each key once. -/
def first_of_each (key : α → κ) : List κ → List α → List α
  | _, [] => []
  | seen, a :: l =>
    if key a ∈ seen then first_of_each key seen l
    else a :: first_of_each key (key a :: seen) l

@[simp] theorem first_of_each_nil (key : α → κ) (seen : List κ) :
    first_of_each key seen [] = [] := rfl

theorem first_of_each_seen {a : α} (h : key a ∈ seen) :
    first_of_each key seen (a :: l) = first_of_each key seen l := if_pos h

theorem first_of_each_fresh {a : α} (h : key a ∉ seen) :
    first_of_each key seen (a :: l) = a :: first_of_each key (key a :: seen) l := if_neg h

/-- Only the members of the seen keys count. -/
theorem first_of_each_congr (h : ∀ k, k ∈ seen ↔ k ∈ seen') (l : List α) :
    first_of_each key seen l = first_of_each key seen' l := by
  induction l generalizing seen seen' with
  | nil => rfl
  | cons a l ih =>
    by_cases ha : key a ∈ seen
    · rw [first_of_each_seen ha, first_of_each_seen ((h _).mp ha), ih h]
    · have hnext : ∀ k, k ∈ key a :: seen ↔ k ∈ key a :: seen' := by
        intro k
        rw [List.mem_cons, List.mem_cons, h]
      rw [first_of_each_fresh ha, first_of_each_fresh (fun ha' => ha ((h _).mpr ha')), ih hnext]

theorem first_of_each_append (key : α → κ) (seen : List κ) (l l' : List α) :
    first_of_each key seen (l ++ l') =
      first_of_each key seen l ++ first_of_each key (seen ++ l.map key) l' := by
  induction l generalizing seen with
  | nil => rw [List.nil_append, List.map_nil, List.append_nil, first_of_each_nil, List.nil_append]
  | cons a l ih =>
    rw [List.cons_append, List.map_cons]
    by_cases ha : key a ∈ seen
    · rw [first_of_each_seen ha, first_of_each_seen ha, ih]
      congr 1
      apply first_of_each_congr
      intro k
      simp only [List.mem_append, List.mem_cons]
      constructor
      · exact fun h => h.imp id .inr
      · rintro (h | rfl | h)
        · exact .inl h
        · exact .inl ha
        · exact .inr h
    · rw [first_of_each_fresh ha, first_of_each_fresh ha, ih, List.cons_append]
      congr 2
      apply first_of_each_congr
      intro k
      simp only [List.mem_append, List.mem_cons]
      tauto

theorem first_of_each_sublist (key : α → κ) (seen : List κ) (l : List α) :
    (first_of_each key seen l).Sublist l := by
  induction l generalizing seen with
  | nil => exact .slnil
  | cons a l ih =>
    by_cases ha : key a ∈ seen
    · rw [first_of_each_seen ha]
      exact (ih seen).cons a
    · rw [first_of_each_fresh ha]
      exact (ih _).cons_cons a

theorem key_of_mem_first {a : α} (h : a ∈ first_of_each key seen l) : key a ∉ seen := by
  induction l generalizing seen with
  | nil => cases h
  | cons b l ih =>
    by_cases hb : key b ∈ seen
    · rw [first_of_each_seen hb] at h
      exact ih h
    · rw [first_of_each_fresh hb, List.mem_cons] at h
      rcases h with rfl | h
      · exact hb
      · exact fun ha => ih h (List.mem_cons_of_mem _ ha)

theorem first_of_each_keys_nodup (key : α → κ) (seen : List κ) (l : List α) :
    ((first_of_each key seen l).map key).Nodup := by
  induction l generalizing seen with
  | nil => exact .nil
  | cons a l ih =>
    by_cases ha : key a ∈ seen
    · rw [first_of_each_seen ha]
      exact ih seen
    · rw [first_of_each_fresh ha, List.map_cons, List.nodup_cons]
      refine ⟨fun hmem => ?_, ih _⟩
      obtain ⟨b, hb, hkey⟩ := List.mem_map.mp hmem
      exact key_of_mem_first hb (hkey ▸ List.mem_cons_self)

/-- Each key has its element. -/
theorem exists_first {a : α} (ha : a ∈ l) (hfresh : key a ∉ seen) :
    ∃ b ∈ first_of_each key seen l, key b = key a := by
  induction l generalizing seen with
  | nil => cases ha
  | cons b l ih =>
    by_cases hb : key b ∈ seen
    · rw [first_of_each_seen hb]
      rcases List.mem_cons.mp ha with rfl | ha
      · exact absurd hb hfresh
      · exact ih ha hfresh
    · rw [first_of_each_fresh hb]
      by_cases hkey : key b = key a
      · exact ⟨b, List.mem_cons_self, hkey⟩
      · have hmem : a ∈ l := by
          apply (List.mem_cons.mp ha).resolve_left
          rintro rfl
          exact hkey rfl
        have hfresh' : key a ∉ key b :: seen := by
          rw [List.mem_cons, not_or]
          exact ⟨Ne.symm hkey, hfresh⟩
        obtain ⟨c, hc, heq⟩ := ih hmem hfresh'
        exact ⟨c, List.mem_cons_of_mem _ hc, heq⟩

/-- Where the keys tell the elements apart, each element stands once. -/
theorem mem_first_of_each (hkey : ∀ a ∈ l, ∀ b ∈ l, key a = key b → a = b) (a : α) :
    a ∈ first_of_each key [] l ↔ a ∈ l := by
  constructor
  · exact fun h => (first_of_each_sublist key [] l).subset h
  · intro h
    obtain ⟨b, hb, heq⟩ := exists_first h (List.not_mem_nil (a := key a))
    rw [← hkey b ((first_of_each_sublist key [] l).subset hb) a h heq]
    exact hb

/-! ## Lists with one element a key -/

/-- The element takes the place of the one with its key, or comes last. -/
def upsert (key : α → κ) (a : α) : List α → List α
  | [] => [a]
  | b :: l => if key b = key a then a :: l else b :: upsert key a l

/-- The last element of a key. -/
def last_with (key : α → κ) (l : List α) (k : κ) : Option α :=
  (l.filter fun a => key a = k).getLast?

theorem last_with_snoc_same (key : α → κ) (l : List α) (a : α) :
    last_with key (l ++ [a]) (key a) = some a := by
  have hself : [a].filter (fun b => key b = key a) = [a] :=
    List.filter_cons_of_pos (decide_eq_true rfl)
  rw [last_with, List.filter_append, hself]
  exact List.getLast?_concat

theorem last_with_snoc_other {k : κ} {a : α} (h : key a ≠ k) (l : List α) :
    last_with key (l ++ [a]) k = last_with key l k := by
  have hnone : [a].filter (fun b => key b = k) = [] :=
    List.filter_cons_of_neg (by simpa using h)
  rw [last_with, List.filter_append, hnone, List.append_nil]
  rfl

theorem upsert_keys (key : α → κ) (a : α) (m : List α) :
    (upsert key a m).map key =
      if key a ∈ m.map key then m.map key else m.map key ++ [key a] := by
  induction m with
  | nil => rfl
  | cons b m ih =>
    rw [upsert]
    by_cases hb : key b = key a
    · have hmem : key a ∈ (b :: m).map key := by
        rw [List.map_cons, hb]
        exact List.mem_cons_self
      rw [if_pos hb, if_pos hmem, List.map_cons, List.map_cons, hb]
    · have hiff : key a ∈ (b :: m).map key ↔ key a ∈ m.map key := by
        rw [List.map_cons, List.mem_cons]
        exact or_iff_right (Ne.symm hb)
      rw [if_neg hb, List.map_cons, ih]
      simp only [hiff]
      split <;> rfl

theorem mem_upsert {a c : α} {m : List α} (hnodup : (m.map key).Nodup)
    (h : c ∈ upsert key a m) : c = a ∨ c ∈ m ∧ key c ≠ key a := by
  induction m with
  | nil => exact .inl (List.mem_singleton.mp h)
  | cons b m ih =>
    rw [List.map_cons, List.nodup_cons] at hnodup
    rw [upsert] at h
    split at h
    case isTrue hb =>
      rcases List.mem_cons.mp h with rfl | hc
      · exact .inl rfl
      · refine .inr ⟨List.mem_cons_of_mem _ hc, fun hkey => hnodup.1 ?_⟩
        rw [hb, ← hkey]
        exact List.mem_map_of_mem hc
    case isFalse hb =>
      rcases List.mem_cons.mp h with rfl | hc
      · exact .inr ⟨List.mem_cons_self, hb⟩
      · exact (ih hnodup.2 hc).imp_right fun hm => ⟨List.mem_cons_of_mem _ hm.1, hm.2⟩

/-- The list after a row of upserts. -/
def upsert_all (key : α → κ) (m l : List α) : List α := l.foldl (fun m a => upsert key a m) m

theorem upsert_all_keys (key : α → κ) (l : List α) :
    (upsert_all key [] l).map key = first_of_each id [] (l.map key) := by
  induction l using List.reverseRecOn with
  | nil => rfl
  | append_singleton l a ih =>
    rw [upsert_all, List.foldl_append, List.map_append, first_of_each_append, List.nil_append,
      List.map_id]
    refine (upsert_keys key a (upsert_all key [] l)).trans ?_
    rw [ih]
    have hiff : key a ∈ first_of_each id [] (l.map key) ↔ key a ∈ l.map key :=
      mem_first_of_each (fun _ _ _ _ h => h) (key a)
    by_cases ha : key a ∈ l.map key
    · have hseen : first_of_each id (l.map key) [key a] = [] := first_of_each_seen ha
      rw [if_pos (hiff.mpr ha), List.map_singleton, hseen, List.append_nil]
    · have hfresh : first_of_each id (l.map key) [key a] = [key a] := first_of_each_fresh ha
      rw [if_neg (fun h => ha (hiff.mp h)), List.map_singleton, hfresh]

theorem mem_upsert_all {c : α} {l : List α} (h : c ∈ upsert_all key [] l) :
    last_with key l (key c) = some c := by
  induction l using List.reverseRecOn generalizing c with
  | nil => cases h
  | append_singleton l a ih =>
    have hnodup : ((upsert_all key [] l).map key).Nodup := by
      rw [upsert_all_keys]
      exact (first_of_each_keys_nodup id [] _).of_map
    rw [upsert_all, List.foldl_append] at h
    rcases mem_upsert hnodup h with rfl | ⟨hc, hne⟩
    · exact last_with_snoc_same key l c
    · rw [last_with_snoc_other (Ne.symm hne)]
      exact ih hc

/-- What stands are the keys in the order in which they came, each with its last
element. -/
theorem upsert_all_eq (key : α → κ) (l : List α) :
    upsert_all key [] l = (first_of_each id [] (l.map key)).filterMap (last_with key l) := by
  rw [← upsert_all_keys, List.filterMap_map]
  have hall : ∀ c ∈ upsert_all key [] l, last_with key l (key c) = some c :=
    fun c hc => mem_upsert_all hc
  exact (List.filterMap_some.symm.trans
    (List.filterMap_congr fun c hc => (hall c hc).symm) : _)

end lmao.lists
