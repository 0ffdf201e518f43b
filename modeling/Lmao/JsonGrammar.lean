-- JSON texts by their grammar, with blanks and with all escapes: what a reader may
-- take a text for, whoever wrote it. Where characters have weights, a text weighs
-- at least as much as the strings that it stands for.
import Mathlib.Algebra.GroupWithZero.Nat
import Mathlib.Algebra.Order.BigOperators.Group.List
import Mathlib.Algebra.Order.Group.Nat
import Lmao.Json

namespace lmao.json

/-! ## The grammar -/

inductive Tree
  | null
  | bool (b : Bool)
  | number (text : Text)
  | str (s : String)
  | array (items : List Tree)
  | object (fields : List (String × Tree))

/-- The characters that stand in a string as themselves. -/
def Plain (c : Char) : Prop := 32 ≤ c.toNat ∧ c ≠ '"' ∧ c ≠ '\\'

instance decidable_plain (c : Char) : Decidable (Plain c) :=
  inferInstanceAs (Decidable (32 ≤ c.toNat ∧ c ≠ '"' ∧ c ≠ '\\'))

/-- What follows a backslash, and what the two stand for. -/
def short_escapes : List (Char × Char) :=
  [('"', '"'), ('\\', '\\'), ('/', '/'), ('b', Char.ofNat 8), ('f', Char.ofNat 12), ('n', '\n'),
    ('r', '\r'), ('t', '\t')]

inductive Hex4 : Text → Nat → Prop
  | mk {a b c d : Char} {x y z w : Nat} (ha : hex_val a = some x) (hb : hex_val b = some y)
      (hc : hex_val c = some z) (hd : hex_val d = some w) :
      Hex4 [a, b, c, d] (((x * 16 + y) * 16 + z) * 16 + w)

/-- What stands between the quotes of a string, and the characters that it
stands for. A pair of surrogates is one character. -/
inductive Body : Text → Text → Prop
  | nil : Body [] []
  | plain {c : Char} {raw s : Text} (hc : Plain c) (h : Body raw s) : Body (c :: raw) (c :: s)
  | short {e c : Char} {raw s : Text} (hc : (e, c) ∈ short_escapes) (h : Body raw s) :
      Body ('\\' :: e :: raw) (c :: s)
  | unicode {n : Nat} {digits raw s : Text} (hdigits : Hex4 digits n) (hvalid : n.isValidChar)
      (h : Body raw s) : Body ('\\' :: 'u' :: (digits ++ raw)) (Char.ofNat n :: s)
  | pair {high low : Nat} {digits digits' raw s : Text} (hdigits : Hex4 digits (0xD800 + high))
      (hdigits' : Hex4 digits' (0xDC00 + low)) (hhigh : high < 0x400) (hlow : low < 0x400)
      (h : Body raw s) :
      Body ('\\' :: 'u' :: (digits ++ '\\' :: 'u' :: (digits' ++ raw)))
        (Char.ofNat (0x10000 + high * 0x400 + low) :: s)

def Blank (t : Text) : Prop := ∀ c ∈ t, c ∈ [' ', '\t', '\n', '\r']

def Digits (t : Text) : Prop := t ≠ [] ∧ ∀ c ∈ t, c.isDigit

inductive Number : Text → Prop
  | mk {sign whole fraction exponent : Text} (hsign : sign = [] ∨ sign = ['-'])
      (hwhole : whole = ['0'] ∨ Digits whole ∧ whole.head? ≠ some '0')
      (hfraction : fraction = [] ∨ ∃ ds, fraction = '.' :: ds ∧ Digits ds)
      (hexponent : exponent = [] ∨ ∃ e s ds, exponent = e :: (s ++ ds) ∧ e ∈ ['e', 'E'] ∧
        s ∈ [[], ['+'], ['-']] ∧ Digits ds) :
      Number (sign ++ whole ++ fraction ++ exponent)

mutual

/-- The text stands for the tree. -/
inductive Denotes : Text → Tree → Prop
  | null {a b : Text} (ha : Blank a) (hb : Blank b) : Denotes (a ++ (json.null ++ b)) .null
  | bool {a b : Text} (ha : Blank a) (hb : Blank b) (v : Bool) :
      Denotes (a ++ (json.bool v ++ b)) (.bool v)
  | number {a b n : Text} (ha : Blank a) (hb : Blank b) (hn : Number n) :
      Denotes (a ++ (n ++ b)) (.number n)
  | str {a b raw : Text} {s : String} (ha : Blank a) (hb : Blank b) (hs : Body raw s.toList) :
      Denotes (a ++ '"' :: (raw ++ '"' :: b)) (.str s)
  | array_nil {a b c : Text} (ha : Blank a) (hb : Blank b) (hc : Blank c) :
      Denotes (a ++ '[' :: (b ++ ']' :: c)) (.array [])
  | array {a b t : Text} {items : List Tree} (ha : Blank a) (hb : Blank b)
      (ht : DenotesItems t items) : Denotes (a ++ '[' :: (t ++ ']' :: b)) (.array items)
  | object_nil {a b c : Text} (ha : Blank a) (hb : Blank b) (hc : Blank c) :
      Denotes (a ++ Char.ofNat 123 :: (b ++ Char.ofNat 125 :: c)) (.object [])
  | object {a b t : Text} {fields : List (String × Tree)} (ha : Blank a) (hb : Blank b)
      (ht : DenotesFields t fields) :
      Denotes (a ++ Char.ofNat 123 :: (t ++ Char.ofNat 125 :: b)) (.object fields)

/-- Items with commas between them, at least one. -/
inductive DenotesItems : Text → List Tree → Prop
  | one {t : Text} {v : Tree} (h : Denotes t v) : DenotesItems t [v]
  | more {t ts : Text} {v : Tree} {vs : List Tree} (h : Denotes t v) (hs : DenotesItems ts vs) :
      DenotesItems (t ++ ',' :: ts) (v :: vs)

/-- Fields with commas between them, at least one. -/
inductive DenotesFields : Text → List (String × Tree) → Prop
  | one {t : Text} {f : String × Tree} (h : DenotesField t f) : DenotesFields t [f]
  | more {t ts : Text} {f : String × Tree} {fs : List (String × Tree)} (h : DenotesField t f)
      (hs : DenotesFields ts fs) : DenotesFields (t ++ ',' :: ts) (f :: fs)

inductive DenotesField : Text → String × Tree → Prop
  | mk {a b raw t : Text} {name : String} {v : Tree} (ha : Blank a) (hb : Blank b)
      (hname : Body raw name.toList) (h : Denotes t v) :
      DenotesField (a ++ '"' :: (raw ++ '"' :: (b ++ ':' :: t))) (name, v)

end

/-- The value of a field. The last one of the name counts. -/
def Tree.get : Tree → String → Option Tree
  | .object fields, name => (fields.reverse.find? (·.1 == name)).map Prod.snd
  | _, _ => none

/-! ## Texts without blanks and escapes -/

theorem body_of_plain {s : Text} (h : ∀ c ∈ s, Plain c) : Body s s := by
  induction s with
  | nil => exact .nil
  | cons c s ih =>
    exact .plain (h c List.mem_cons_self) (ih fun d hd => h d (List.mem_cons_of_mem c hd))

theorem blank_nil : Blank [] := fun _ h => absurd h List.not_mem_nil

theorem denotes_str {s : String} (h : ∀ c ∈ s.toList, Plain c) :
    Denotes ('"' :: (s.toList ++ ['"'])) (.str s) :=
  .str blank_nil blank_nil (body_of_plain h)

theorem denotes_bool (b : Bool) : Denotes (json.bool b) (.bool b) := by
  simpa using Denotes.bool blank_nil blank_nil b

theorem denotesField {name : String} (h : ∀ c ∈ name.toList, Plain c) {t : Text} {v : Tree}
    (hv : Denotes t v) : DenotesField ('"' :: (name.toList ++ '"' :: ':' :: t)) (name, v) :=
  .mk blank_nil blank_nil (body_of_plain h) hv

theorem denotes_object {t : Text} {fields : List (String × Tree)} (h : DenotesFields t fields) :
    Denotes (Char.ofNat 123 :: (t ++ [Char.ofNat 125])) (.object fields) :=
  .object blank_nil blank_nil h

/-- Items that were written one by one. -/
theorem denotes_array {α : Type} (text : α → Text) (tree : α → Tree) (l : List α)
    (h : ∀ x ∈ l, Denotes (text x) (tree x)) :
    Denotes (array (l.map text)) (.array (l.map tree)) := by
  have hitems : ∀ (x : α) (l : List α), (∀ y ∈ x :: l, Denotes (text y) (tree y)) →
      DenotesItems (comma_separated ((x :: l).map text)) ((x :: l).map tree) := by
    intro x l
    induction l generalizing x with
    | nil =>
      intro h
      simpa [comma_separated] using DenotesItems.one (h x List.mem_cons_self)
    | cons y l ih =>
      intro h
      have hrest := ih y fun z hz => h z (List.mem_cons_of_mem x hz)
      simpa [comma_separated] using DenotesItems.more (h x List.mem_cons_self) hrest
  cases l with
  | nil => exact .array_nil blank_nil blank_nil blank_nil
  | cons x l => exact .array blank_nil blank_nil (hitems x l h)

/-! ## Fields -/

theorem mem_of_get {fields : List (String × Tree)} {name : String} {v : Tree}
    (h : (Tree.object fields).get name = some v) : (name, v) ∈ fields := by
  obtain ⟨f, hfind, rfl⟩ := Option.map_eq_some_iff.mp h
  have hname : f.1 = name := by simpa using List.find?_some hfind
  rw [← hname]
  exact List.mem_reverse.mp (List.mem_of_find?_eq_some hfind)

theorem two_le_sum {α : Type} {l : List α} {a b : α} (f : α → Nat) (ha : a ∈ l) (hb : b ∈ l)
    (hne : a ≠ b) : f a + f b ≤ (l.map f).sum := by
  induction l with
  | nil => cases ha
  | cons c l ih =>
    have hmem : ∀ x ∈ l, f x ≤ (l.map f).sum := fun x hx =>
      List.le_sum_of_mem (List.mem_map_of_mem hx)
    simp only [List.map_cons, List.sum_cons]
    rcases List.mem_cons.mp ha with rfl | ha' <;> rcases List.mem_cons.mp hb with rfl | hb'
    case inl.inl => exact absurd rfl hne
    case inl.inr =>
      have := hmem b hb'
      omega
    case inr.inl =>
      have := hmem a ha'
      omega
    case inr.inr =>
      have := ih ha' hb'
      omega

/-! ## Weights -/

/-- Weights of characters under which an escape outweighs what it stands for
by a cost. -/
structure Weighing where
  weight : Char → Nat
  cost : Char → Nat
  plain : ∀ c, Plain c → cost c = 0
  short : ∀ p ∈ short_escapes, weight p.2 + cost p.2 ≤ weight '\\' + weight p.1
  unicode : ∀ c, weight c + cost c ≤ weight '\\' + weight 'u'

namespace Weighing

variable (W : Weighing)

def weigh (t : Text) : Nat := (t.map W.weight).sum

def costs (t : Text) : Nat := (t.map W.cost).sum

@[simp] theorem weigh_nil : W.weigh [] = 0 := rfl

@[simp] theorem weigh_cons (c : Char) (t : Text) : W.weigh (c :: t) = W.weight c + W.weigh t := by
  simp [weigh]

@[simp] theorem weigh_append (t t' : Text) : W.weigh (t ++ t') = W.weigh t + W.weigh t' := by
  simp [weigh]

@[simp] theorem costs_cons (c : Char) (t : Text) : W.costs (c :: t) = W.cost c + W.costs t := by
  simp [costs]

/-- A string is no lighter in the text than what it stands for, and heavier by
the costs. -/
theorem weigh_body {raw s : Text} (h : Body raw s) : W.weigh s + W.costs s ≤ W.weigh raw := by
  induction h with
  | nil => exact Nat.le_refl 0
  | plain hc _ ih =>
    have := W.plain _ hc
    simp only [weigh_cons, costs_cons]
    omega
  | @short e c raw s hc _ ih =>
    have : W.weight c + W.cost c ≤ W.weight '\\' + W.weight e := W.short (e, c) hc
    simp only [weigh_cons, costs_cons]
    omega
  | @unicode n digits raw s _ _ _ ih =>
    have := W.unicode (Char.ofNat n)
    simp only [weigh_cons, weigh_append, costs_cons]
    omega
  | @pair high low digits digits' raw s _ _ _ _ _ ih =>
    have := W.unicode (Char.ofNat (0x10000 + high * 0x400 + low))
    simp only [weigh_cons, weigh_append, costs_cons]
    omega

/-- What a value weighs at least, when it is a string or a truth value. -/
def least : Tree → Nat
  | .str s => W.weigh s.toList + W.costs s.toList
  | .bool b => W.weigh (json.bool b)
  | _ => 0

theorem least_le {t : Text} {v : Tree} (h : Denotes t v) : W.least v ≤ W.weigh t := by
  cases h with
  | bool ha hb v =>
    simp only [least, weigh_append]
    omega
  | str ha hb hs =>
    have := W.weigh_body hs
    simp only [least, weigh_append, weigh_cons]
    omega
  | _ => exact Nat.zero_le _

def least_field (f : String × Tree) : Nat := W.weigh f.1.toList + W.least f.2

theorem least_field_le {t : Text} {f : String × Tree} (h : DenotesField t f) :
    W.least_field f ≤ W.weigh t := by
  cases h with
  | mk ha hb hname hv =>
    have hbody := W.weigh_body hname
    have hleast := W.least_le hv
    simp only [least_field, weigh_append, weigh_cons]
    omega

theorem sum_least_field_le {t : Text} {fields : List (String × Tree)} (h : DenotesFields t fields) :
    (fields.map W.least_field).sum ≤ W.weigh t := by
  induction fields generalizing t with
  | nil => exact Nat.zero_le _
  | cons f fs ih =>
    cases h with
    | one h => simpa using W.least_field_le h
    | more h hs =>
      have hfirst := W.least_field_le h
      have hrest := ih hs
      simp only [List.map_cons, List.sum_cons, weigh_append, weigh_cons]
      omega

/-- The weights of the braces. -/
def braces : Nat := W.weight (Char.ofNat 123) + W.weight (Char.ofNat 125)

theorem object_le {t : Text} {fields : List (String × Tree)} (h : Denotes t (.object fields)) :
    W.braces + (fields.map W.least_field).sum ≤ W.weigh t := by
  unfold braces
  cases h with
  | object_nil ha hb hc =>
    simp only [List.map_nil, List.sum_nil, weigh_append, weigh_cons]
    omega
  | object ha hb ht =>
    have := W.sum_least_field_le ht
    simp only [weigh_append, weigh_cons]
    omega

/-- Any bounds on the items add up. -/
theorem sum_bound_le (bound : Tree → Nat) (hbound : ∀ t v, Denotes t v → bound v ≤ W.weigh t)
    {t : Text} {items : List Tree} (h : DenotesItems t items) :
    (items.map bound).sum ≤ W.weigh t := by
  induction items generalizing t with
  | nil => exact Nat.zero_le _
  | cons v vs ih =>
    cases h with
    | one h => simpa using hbound t v h
    | more h hs =>
      have hfirst := hbound _ v h
      have hrest := ih hs
      simp only [List.map_cons, List.sum_cons, weigh_append, weigh_cons]
      omega

theorem array_le (bound : Tree → Nat) (hbound : ∀ t v, Denotes t v → bound v ≤ W.weigh t)
    {t : Text} {items : List Tree} (h : Denotes t (.array items)) :
    W.weight '[' + W.weight ']' + (items.map bound).sum ≤ W.weigh t := by
  cases h with
  | array_nil ha hb hc =>
    simp only [List.map_nil, List.sum_nil, weigh_append, weigh_cons]
    omega
  | array ha hb ht =>
    have := W.sum_bound_le bound hbound ht
    simp only [weigh_append, weigh_cons]
    omega

/-- Two fields of a value weigh at least this much together, with the braces. -/
theorem two_fields_le {t : Text} {o : Tree} (h : Denotes t o) {name name' : String} {v v' : Tree}
    (hne : name ≠ name') (hv : o.get name = some v) (hv' : o.get name' = some v') :
    W.braces + (W.least_field (name, v) + W.least_field (name', v')) ≤ W.weigh t := by
  cases o with
  | object fields =>
    have htwo := two_le_sum W.least_field (mem_of_get hv) (mem_of_get hv')
      fun heq => hne (Prod.mk.inj heq).1
    have := W.object_le h
    omega
  | _ => cases hv

end Weighing

end lmao.json
