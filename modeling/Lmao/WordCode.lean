-- Codes whose words tell where they end. A text that begins with such a word
-- can be cut after it in one way only, so lists of words, with separators or
-- with an end mark, can be read back, and the code is injective.
import Mathlib.Logic.Function.Basic

namespace word_code

variable {α β : Type}

/-- The word of `a` is told from the word of every other, whatever follows
the two, as long as `Follow` allows it to follow. -/
def ReadsAt (Follow : List β → Prop) (f : α → List β) (a : α) : Prop :=
  ∀ b s t, Follow s → Follow t → f a ++ s = f b ++ t → a = b ∧ s = t

def Reads (Follow : List β → Prop) (f : α → List β) : Prop := ∀ a, ReadsAt Follow f a

/-- Anything may follow. -/
def Anything (_ : List β) : Prop := True

variable {Follow : List β → Prop} {f : α → List β}

theorem Reads.injective (h : Reads Follow f) (hend : Follow []) : Function.Injective f := by
  intro a b hab
  exact (h a b [] [] hend hend (by simpa using hab)).1

/-- Words after a first part that all of them share. -/
theorem ReadsAt.append_left {a : α} (h : ReadsAt Follow f a) (w : List β) :
    ReadsAt Follow (fun b => w ++ f b) a := by
  intro b s t hs ht hab
  simp only [List.append_assoc, List.append_cancel_left_eq] at hab
  exact h b s t hs ht hab

/-- A finite table of words is read when none of them begins another. -/
theorem reads_of_prefix_free (h : ∀ a b, f a <+: f b → a = b) : Reads Anything f := by
  intro a b s t _ _ hab
  have hpre : f a <+: f b ++ t := ⟨s, hab⟩
  have heq : a = b := by
    rcases List.prefix_or_prefix_of_prefix hpre (List.prefix_append _ _) with ha | hb
    · exact h a b ha
    · exact (h b a hb).symm
  subst heq
  exact ⟨rfl, List.append_cancel_left hab⟩

/-- A word is never empty and never begins with `x`. -/
def Avoids (f : α → List β) (x : β) : Prop := ∀ a, ∃ y ys, f a = y :: ys ∧ y ≠ x

/-! ## Lists -/

/-- Words one after the other, up to an end mark that begins no word. -/
theorem reads_flatMap {x : β} (h : Reads Anything f) (havoid : Avoids f x) :
    Reads Anything (fun as : List α => as.flatMap f ++ [x]) := by
  intro as
  induction as with
  | nil =>
    intro bs s t _ _ hab
    cases bs with
    | nil => exact ⟨rfl, by simpa using hab⟩
    | cons b bs =>
      obtain ⟨y, ys, hword, hy⟩ := havoid b
      simp only [List.flatMap_nil, List.flatMap_cons, hword, List.nil_append, List.cons_append,
        List.cons.injEq] at hab
      exact absurd hab.1.symm hy
  | cons a as ih =>
    intro bs s t _ _ hab
    cases bs with
    | nil =>
      obtain ⟨y, ys, hword, hy⟩ := havoid a
      simp only [List.flatMap_nil, List.flatMap_cons, hword, List.nil_append, List.cons_append,
        List.cons.injEq] at hab
      exact absurd hab.1 hy
    | cons b bs =>
      simp only [List.flatMap_cons, List.append_assoc] at hab
      obtain ⟨rfl, hrest⟩ := h a b _ _ trivial trivial hab
      obtain ⟨rfl, hst⟩ := ih bs s t trivial trivial (by simpa using hrest)
      exact ⟨rfl, hst⟩

/-- A sequence of words that begins another one is the beginning of its
words. -/
theorem Reads.of_flatMap_append (h : Reads Anything f) (hne : ∀ a, f a ≠ []) {as bs : List α}
    {s : List β} (hab : as.flatMap f = bs.flatMap f ++ s) :
    ∃ cs, as = bs ++ cs ∧ s = cs.flatMap f := by
  induction bs generalizing as with
  | nil => exact ⟨as, rfl, by simpa using hab.symm⟩
  | cons b bs ih =>
    cases as with
    | nil =>
      simp only [List.flatMap_nil, List.flatMap_cons, List.append_assoc] at hab
      exact absurd (List.append_eq_nil_iff.1 hab.symm).1 (hne b)
    | cons a as =>
      simp only [List.flatMap_cons, List.append_assoc] at hab
      obtain ⟨rfl, hrest⟩ := h a b _ _ trivial trivial hab
      obtain ⟨cs, rfl, hs⟩ := ih hrest
      exact ⟨cs, rfl, hs⟩

theorem Reads.flatMap_injective (h : Reads Anything f) (hne : ∀ a, f a ≠ []) :
    Function.Injective (List.flatMap f) := by
  intro as bs hab
  have hnone : as.flatMap f = bs.flatMap f ++ [] := by simpa using hab
  obtain ⟨cs, rfl, hnil⟩ := h.of_flatMap_append hne hnone
  cases cs with
  | nil => simp
  | cons c cs =>
    simp only [List.flatMap_cons] at hnil
    exact absurd (List.append_eq_nil_iff.1 hnil.symm).1 (hne c)

/-- The words after the first one, each behind the separator. -/
def separated (sep : β) (f : α → List β) (as : List α) : List β :=
  as.flatMap fun a => sep :: f a

theorem flatten_intersperse (sep : β) (f : α → List β) (a : α) (as : List α) :
    (((a :: as).map f).intersperse [sep]).flatten = f a ++ separated sep f as := by
  induction as generalizing a with
  | nil => simp [separated]
  | cons b bs ih =>
    have hb := ih b
    simp only [List.map_cons] at hb
    simp only [List.map_cons, List.intersperse_cons_cons, List.flatten_cons, hb, separated,
      List.flatMap_cons, List.cons_append, List.nil_append]

theorem mem_flatten_intersperse {sep x : β} {as : List α}
    (h : x ∈ ((as.map f).intersperse [sep]).flatten) : x = sep ∨ ∃ a ∈ as, x ∈ f a := by
  cases as with
  | nil => simp at h
  | cons a as =>
    rw [flatten_intersperse, List.mem_append] at h
    rcases h with h | h
    · exact .inr ⟨a, by simp, h⟩
    · obtain ⟨b, hb, hx⟩ := List.mem_flatMap.1 h
      rcases List.mem_cons.1 hx with rfl | hx
      · exact .inl rfl
      · exact .inr ⟨b, by simp [hb], hx⟩

section Separated

variable (sep close : β)

theorem follow_separated (hsep : ∀ s, Follow (sep :: s)) (hclose : ∀ s, Follow (close :: s))
    (as : List α) (s : List β) : Follow (separated sep f as ++ ([close] ++ s)) := by
  cases as with
  | nil => exact hclose s
  | cons a as =>
    simp only [separated, List.flatMap_cons, List.cons_append]
    exact hsep _

theorem separated_reads (hne : sep ≠ close) (hsep : ∀ s, Follow (sep :: s))
    (hclose : ∀ s, Follow (close :: s)) {as : List α} (h : ∀ a ∈ as, ReadsAt Follow f a) :
    ReadsAt Anything (fun as : List α => separated sep f as ++ [close]) as := by
  induction as with
  | nil =>
    intro bs s t _ _ hab
    cases bs with
    | nil => exact ⟨rfl, by simpa [separated] using hab⟩
    | cons b bs =>
      simp only [separated, List.flatMap_nil, List.flatMap_cons, List.nil_append,
        List.cons_append, List.cons.injEq] at hab
      exact absurd hab.1.symm hne
  | cons a as ih =>
    intro bs s t _ _ hab
    cases bs with
    | nil =>
      simp only [separated, List.flatMap_nil, List.flatMap_cons, List.nil_append,
        List.cons_append, List.cons.injEq] at hab
      exact absurd hab.1 hne
    | cons b bs =>
      simp only [separated, List.flatMap_cons, List.cons_append, List.append_assoc,
        List.cons.injEq, true_and] at hab
      obtain ⟨rfl, hrest⟩ := h a (by simp) b _ _ (follow_separated sep close hsep hclose as s)
        (follow_separated sep close hsep hclose bs t) hab
      obtain ⟨rfl, hst⟩ := ih (fun a' ha' => h a' (by simp [ha'])) bs s t trivial trivial
        (by simpa [separated] using hrest)
      exact ⟨rfl, hst⟩

/-- Words with a separator between them, up to a closing mark. -/
theorem reads_intersperse (hne : sep ≠ close) (hsep : ∀ s, Follow (sep :: s))
    (hclose : ∀ s, Follow (close :: s)) (havoid : Avoids f close) {as : List α}
    (h : ∀ a ∈ as, ReadsAt Follow f a) :
    ReadsAt Anything
      (fun as : List α => ((as.map f).intersperse [sep]).flatten ++ [close]) as := by
  intro bs s t _ _ hab
  cases as with
  | nil =>
    cases bs with
    | nil => exact ⟨rfl, by simpa using hab⟩
    | cons b bs =>
      obtain ⟨y, ys, hword, hy⟩ := havoid b
      simp only [flatten_intersperse, List.map_nil, List.intersperse_nil, List.flatten_nil,
        List.nil_append, List.cons_append, hword, List.cons.injEq] at hab
      exact absurd hab.1.symm hy
  | cons a as =>
    cases bs with
    | nil =>
      obtain ⟨y, ys, hword, hy⟩ := havoid a
      simp only [flatten_intersperse, List.map_nil, List.intersperse_nil, List.flatten_nil,
        List.nil_append, List.cons_append, hword, List.cons.injEq] at hab
      exact absurd hab.1 hy
    | cons b bs =>
      simp only [flatten_intersperse, List.append_assoc] at hab
      obtain ⟨rfl, hrest⟩ := h a (by simp) b _ _ (follow_separated sep close hsep hclose as s)
        (follow_separated sep close hsep hclose bs t) hab
      have htail : ∀ a' ∈ as, ReadsAt Follow f a' := fun a' ha' => h a' (by simp [ha'])
      obtain ⟨rfl, hst⟩ := separated_reads sep close hne hsep hclose htail bs s t trivial trivial
        (by simpa using hrest)
      exact ⟨rfl, hst⟩

end Separated

end word_code
