-- The JSON texts that the program writes can be read back. A text is the
-- rendering of a tree, and the rendering of a tree tells where it ends, so no
-- two values of a type have one text, and no text begins another.
import Lmao.Task
import Lmao.WordCode

namespace lmao.json

open word_code

/-! ## Values and their texts -/

inductive Value
  | null
  | str (s : String)
  | nat (n : Nat)
  | bool (b : Bool)
  | array (items : List Value)
  | object (fields : List (String × Value))

namespace Value

mutual

def render : Value → Text
  | .null => json.null
  | .str s => json.str s
  | .nat n => json.nat n
  | .bool b => json.bool b
  | .array items => json.array (render_items items)
  | .object fields => json.object (render_fields fields)

def render_items : List Value → List Text
  | [] => []
  | v :: vs => v.render :: render_items vs

def render_fields : List (String × Value) → List (String × Text)
  | [] => []
  | (name, v) :: fields => (name, v.render) :: render_fields fields

end

theorem render_items_eq (vs : List Value) : render_items vs = vs.map render := by
  induction vs with
  | nil => simp [render_items]
  | cons v vs ih => simp [render_items, ih]

theorem render_fields_eq (fields : List (String × Value)) :
    render_fields fields = fields.map fun f => (f.1, f.2.render) := by
  induction fields with
  | nil => simp [render_fields]
  | cons f fields ih => simp [render_fields, ih]

end Value

/-! ## Strings and numbers -/

/-- What may follow a value: a number goes on as long as digits come. -/
def Follow (s : Text) : Prop := ∀ c ∈ s.head?, ¬ c.isDigit

theorem follow_nil : Follow [] := by simp [Follow]

theorem follow_comma (s : Text) : Follow (',' :: s) := by simp [Follow]

/-- The characters that are not written as they are. -/
def escaped : List Char := (List.range 32).map Char.ofNat ++ ['"', '\\']

theorem escape_escaped :
    ∀ c ∈ escaped, escape c = '\\' :: (escape c).tail ∧
      ∀ d ∈ escaped, escape c <+: escape d → c = d := by
  -- a quantifier over all characters is also decidable, but not in time
  have hall : escaped.all (fun c => decide (escape c = '\\' :: (escape c).tail) &&
      escaped.all fun d => decide (escape c <+: escape d → c = d)) = true := by
    decide +kernel
  simpa only [List.all_eq_true, Bool.and_eq_true, decide_eq_true_eq] using hall

theorem not_lt_of_plain {c : Char} (h : c ∉ escaped) : ¬ c.toNat < 32 := by
  intro hlt
  refine h (List.mem_append_left _ (List.mem_map.2 ⟨c.toNat, ?_, Char.ofNat_toNat c⟩))
  exact List.mem_range.2 hlt

theorem escape_plain {c : Char} (h : c ∉ escaped) : escape c = [c] ∧ c ≠ '\\' ∧ c ≠ '"' := by
  have hlow := not_lt_of_plain h
  have hquote : c ≠ '"' := by
    rintro rfl
    exact h (by decide)
  have hslash : c ≠ '\\' := by
    rintro rfl
    exact h (by decide)
  refine ⟨?_, hslash, hquote⟩
  unfold escape
  simp only [hquote, hslash, if_false]
  rw [if_neg (by omega), if_neg (by omega), if_neg (by omega), if_neg (by omega),
    if_neg (by omega), if_neg hlow]

theorem escape_prefix_free (c d : Char) (h : escape c <+: escape d) : c = d := by
  by_cases hc : c ∈ escaped
  · obtain ⟨hword, hfree⟩ := escape_escaped c hc
    by_cases hd : d ∈ escaped
    · exact hfree d hd h
    · obtain ⟨hplain, hne, -⟩ := escape_plain hd
      rw [hword, hplain, List.cons_prefix_cons] at h
      exact absurd h.1.symm hne
  · obtain ⟨hplain, hne, -⟩ := escape_plain hc
    by_cases hd : d ∈ escaped
    · obtain ⟨hword, -⟩ := escape_escaped d hd
      rw [hword, hplain, List.cons_prefix_cons] at h
      exact absurd h.1 hne
    · rw [hplain, (escape_plain hd).1, List.cons_prefix_cons] at h
      exact h.1

theorem escape_avoids_quote : Avoids escape '"' := by
  intro c
  by_cases hc : c ∈ escaped
  · obtain ⟨hword, -⟩ := escape_escaped c hc
    exact ⟨_, _, hword, by decide⟩
  · obtain ⟨hplain, -, hne⟩ := escape_plain hc
    exact ⟨_, _, hplain, hne⟩

theorem str_reads : Reads Anything str := by
  intro a b s t _ _ hab
  have hchars := reads_flatMap (reads_of_prefix_free escape_prefix_free) escape_avoids_quote
  simp only [str, List.cons_append, List.cons.injEq, true_and] at hab
  obtain ⟨hlist, hst⟩ := hchars a.toList b.toList s t trivial trivial hab
  exact ⟨String.toList_injective hlist, hst⟩

theorem bool_reads : Reads Anything bool := reads_of_prefix_free (by decide)

theorem takeWhile_nat (n : Nat) {s : Text} (hs : Follow s) :
    (nat n ++ s).takeWhile Char.isDigit = nat n := by
  have hdigits : ∀ c ∈ nat n, c.isDigit := fun c hc =>
    Nat.isDigit_of_mem_toDigits (by decide) (by decide) hc
  have hnil : s.takeWhile Char.isDigit = [] := by
    cases s with
    | nil => rfl
    | cons c s =>
      simp only [Follow, List.head?_cons, Option.mem_def, Option.some.injEq, forall_eq',
        Bool.not_eq_true] at hs
      simp [List.takeWhile, hs]
  rw [List.takeWhile_append_of_pos hdigits, hnil, List.append_nil]

theorem nat_injective : Function.Injective nat := by
  intro n k h
  have hn : Nat.ofDigitChars 10 (nat n) 0 = n := Nat.ofDigitChars_ten_toDigits
  rw [h] at hn
  exact hn.symm.trans Nat.ofDigitChars_ten_toDigits

theorem nat_reads : Reads Follow nat := by
  intro n k s t hs ht hab
  have hdigits := congrArg (List.takeWhile Char.isDigit) hab
  rw [takeWhile_nat n hs, takeWhile_nat k ht] at hdigits
  have heq := nat_injective hdigits
  subst heq
  exact ⟨rfl, List.append_cancel_left hab⟩

/-! ## Trees -/

namespace Value

/-- The first character of the text of a value, with one digit for all of them
and `t` for both truth values. -/
def opening : Value → Char
  | .null => 'n'
  | .str _ => '"'
  | .nat _ => '0'
  | .bool _ => 't'
  | .array _ => '['
  | .object _ => Char.ofNat 123

/-- Characters that open values of one kind. -/
def opening_of (c : Char) : Char := if c.isDigit then '0' else if c = 'f' then 't' else c

theorem render_opening (v : Value) : ∃ c cs, v.render = c :: cs ∧ opening_of c = v.opening := by
  cases v with
  | null => exact ⟨'n', _, rfl, rfl⟩
  | str s => exact ⟨'"', _, rfl, rfl⟩
  | nat n =>
    rcases hnat : json.nat n with _ | ⟨c, cs⟩
    · exact absurd hnat Nat.toDigits_ne_nil
    · have hmem : c ∈ json.nat n := by simp [hnat]
      have hdigit : c.isDigit := Nat.isDigit_of_mem_toDigits (by decide) (by decide) hmem
      exact ⟨c, cs, by simp only [render, hnat], by simp [opening_of, hdigit, opening]⟩
  | bool b => cases b <;> exact ⟨_, _, rfl, rfl⟩
  | array items => exact ⟨'[', _, rfl, rfl⟩
  | object fields => exact ⟨Char.ofNat 123, _, rfl, rfl⟩

theorem opening_eq {v w : Value} {s t : Text} (h : v.render ++ s = w.render ++ t) :
    v.opening = w.opening := by
  obtain ⟨c, cs, hv, hc⟩ := render_opening v
  obtain ⟨d, ds, hw, hd⟩ := render_opening w
  rw [hv, hw, List.cons_append, List.cons_append, List.cons.injEq] at h
  rw [← hc, ← hd, h.1]

theorem render_avoids : Avoids render ']' := by
  intro v
  obtain ⟨c, cs, hv, hc⟩ := render_opening v
  refine ⟨c, cs, hv, ?_⟩
  rintro rfl
  cases v <;> simp [opening_of, opening] at hc

/-- A field of an object. -/
def render_field (f : String × Value) : Text := json.str f.1 ++ ':' :: f.2.render

theorem render_field_avoids : Avoids render_field (Char.ofNat 125) := by
  intro f
  exact ⟨'"', _, rfl, by decide⟩

theorem render_field_reads {f : String × Value} (h : ReadsAt Follow render f.2) :
    ReadsAt Follow render_field f := by
  intro g s t hs ht hab
  simp only [render_field, List.append_assoc, List.cons_append] at hab
  obtain ⟨hname, hrest⟩ := str_reads f.1 g.1 _ _ trivial trivial hab
  obtain ⟨hvalue, hst⟩ := h g.2 s t hs ht (by simpa using hrest)
  exact ⟨Prod.ext hname hvalue, hst⟩

theorem render_array (items : List Value) :
    (Value.array items).render =
      ['['] ++ (((items.map render).intersperse [',']).flatten ++ [']']) := by
  simp [render, json.array, comma_separated, render_items_eq]

theorem render_object (fields : List (String × Value)) :
    (Value.object fields).render =
      [Char.ofNat 123] ++
        (((fields.map render_field).intersperse [',']).flatten ++ [Char.ofNat 125]) := by
  have hfields : (fields.map fun f => (f.1, f.2.render)).map
      (fun f => json.str f.1 ++ ':' :: f.2) = fields.map render_field := by
    simp [render_field, Function.comp_def]
  simp [render, json.object, comma_separated, render_fields_eq, ← hfields]

theorem array_reads {items : List Value} (h : ∀ v ∈ items, ReadsAt Follow render v) :
    ReadsAt Anything (fun vs => (Value.array vs).render) items := by
  have hlist := reads_intersperse ',' ']' (by decide) follow_comma
    (fun s => by simp [Follow]) render_avoids h
  intro vs s t hs ht hab
  simp only [render_array] at hab
  exact hlist.append_left ['['] vs s t hs ht hab

theorem object_reads {fields : List (String × Value)}
    (h : ∀ f ∈ fields, ReadsAt Follow render f.2) :
    ReadsAt Anything (fun fs => (Value.object fs).render) fields := by
  have hlist := reads_intersperse ',' (Char.ofNat 125) (by decide) follow_comma
    (fun s => by simp [Follow]) render_field_avoids fun f hf => render_field_reads (h f hf)
  intro fs s t hs ht hab
  simp only [render_object] at hab
  exact hlist.append_left [Char.ofNat 123] fs s t hs ht hab

mutual

/-- The text of a tree tells the tree, and where the text ends. -/
theorem render_reads : ∀ v : Value, ReadsAt Follow render v
  | .null => by
    intro w s t _ _ hab
    have hopen := opening_eq hab
    cases w <;> simp [opening] at hopen
    exact ⟨rfl, List.append_cancel_left hab⟩
  | .str x => by
    intro w s t _ _ hab
    have hopen := opening_eq hab
    cases w <;> simp [opening] at hopen
    simp only [render] at hab
    obtain ⟨rfl, hst⟩ := str_reads x _ s t trivial trivial hab
    exact ⟨rfl, hst⟩
  | .nat n => by
    intro w s t hs ht hab
    have hopen := opening_eq hab
    cases w <;> simp [opening] at hopen
    simp only [render] at hab
    obtain ⟨rfl, hst⟩ := nat_reads n _ s t hs ht hab
    exact ⟨rfl, hst⟩
  | .bool b => by
    intro w s t _ _ hab
    have hopen := opening_eq hab
    cases w <;> simp [opening] at hopen
    simp only [render] at hab
    obtain ⟨rfl, hst⟩ := bool_reads b _ s t trivial trivial hab
    exact ⟨rfl, hst⟩
  | .array items => by
    intro w s t _ _ hab
    have hopen := opening_eq hab
    cases w <;> simp [opening] at hopen
    obtain ⟨rfl, hst⟩ := array_reads (render_reads_items items) _ s t trivial trivial hab
    exact ⟨rfl, hst⟩
  | .object fields => by
    intro w s t _ _ hab
    have hopen := opening_eq hab
    cases w <;> simp [opening] at hopen
    obtain ⟨rfl, hst⟩ := object_reads (render_reads_fields fields) _ s t trivial trivial hab
    exact ⟨rfl, hst⟩

theorem render_reads_items : ∀ items : List Value, ∀ v ∈ items, ReadsAt Follow render v
  | [] => by simp
  | v :: vs => by
    have hv := render_reads v
    have hvs := render_reads_items vs
    simpa using ⟨hv, hvs⟩

theorem render_reads_fields :
    ∀ fields : List (String × Value), ∀ f ∈ fields, ReadsAt Follow render f.2
  | [] => by simp
  | (name, v) :: fields => by
    have hv := render_reads v
    have hfields := render_reads_fields fields
    simp only [List.mem_cons, forall_eq_or_imp]
    exact ⟨hv, hfields⟩

end

theorem render_injective : Function.Injective render := Reads.injective render_reads follow_nil

end Value

/-! ## No control characters -/

/-- A text without control characters. -/
def Printable (t : Text) : Prop := ∀ c ∈ t, 32 ≤ c.toNat

theorem printable_of_all {t : Text} (h : t.all (fun c => decide (32 ≤ c.toNat)) = true) :
    Printable t := by
  simpa only [Printable, List.all_eq_true, decide_eq_true_eq] using h

theorem escape_printable (c : Char) : Printable (escape c) := by
  by_cases hc : c ∈ escaped
  · have hall : escaped.all (fun c => (escape c).all fun x => decide (32 ≤ x.toNat)) = true := by
      decide +kernel
    exact printable_of_all (List.all_eq_true.mp hall c hc)
  · rw [(escape_plain hc).1]
    simpa [Printable] using not_lt_of_plain hc

theorem str_printable (s : String) : Printable (str s) := by
  intro c hc
  simp only [str, List.cons_append, List.mem_cons, List.mem_append, List.mem_flatMap,
    List.not_mem_nil, or_false] at hc
  rcases hc with rfl | ⟨d, -, hd⟩ | rfl
  · decide
  · exact escape_printable d c hd
  · decide

theorem nat_printable (n : Nat) : Printable (nat n) := by
  intro c hc
  have hdigit : c.isDigit := Nat.isDigit_of_mem_toDigits (by decide) (by decide) hc
  simp only [Char.isDigit, Bool.and_eq_true, decide_eq_true_eq] at hdigit
  have hlow : (48 : UInt32).toNat ≤ c.val.toNat := UInt32.le_iff_toNat_le.1 hdigit.1
  exact Nat.le_trans (by decide) hlow

namespace Value

theorem render_array_printable {items : List Value} (h : ∀ v ∈ items, Printable v.render) :
    Printable (Value.array items).render := by
  intro c hc
  simp only [render_array, List.cons_append, List.nil_append, List.mem_cons, List.mem_append,
    List.not_mem_nil, or_false] at hc
  rcases hc with rfl | hc | rfl
  · decide
  · rcases mem_flatten_intersperse hc with rfl | ⟨v, hv, hc⟩
    · decide
    · exact h v hv c hc
  · decide

theorem render_object_printable {fields : List (String × Value)}
    (h : ∀ f ∈ fields, Printable f.2.render) : Printable (Value.object fields).render := by
  intro c hc
  simp only [render_object, List.cons_append, List.nil_append, List.mem_cons, List.mem_append,
    List.not_mem_nil, or_false] at hc
  rcases hc with rfl | hc | rfl
  · decide
  · rcases mem_flatten_intersperse hc with rfl | ⟨f, hf, hc⟩
    · decide
    · simp only [render_field, List.mem_append, List.mem_cons] at hc
      rcases hc with hc | rfl | hc
      · exact str_printable f.1 c hc
      · decide
      · exact h f hf c hc
  · decide

mutual

theorem render_printable : ∀ v : Value, Printable v.render
  | .null => by rw [render]; exact printable_of_all rfl
  | .str s => by rw [render]; exact str_printable s
  | .nat n => by rw [render]; exact nat_printable n
  | .bool b => by cases b <;> exact printable_of_all rfl
  | .array items => render_array_printable (render_printable_items items)
  | .object fields => render_object_printable (render_printable_fields fields)

theorem render_printable_items : ∀ items : List Value, ∀ v ∈ items, Printable v.render
  | [] => by simp
  | v :: vs => by
    have hv := render_printable v
    have hvs := render_printable_items vs
    simpa using ⟨hv, hvs⟩

theorem render_printable_fields :
    ∀ fields : List (String × Value), ∀ f ∈ fields, Printable f.2.render
  | [] => by simp
  | (name, v) :: fields => by
    have hv := render_printable v
    have hfields := render_printable_fields fields
    simp only [List.mem_cons, forall_eq_or_imp]
    exact ⟨hv, hfields⟩

end

end Value

/-! ## Bytes -/

theorem utf8EncodeChar_printable {c : Char} (hc : 32 ≤ c.toNat) :
    ∀ b ∈ String.utf8EncodeChar c, 32 ≤ b.toNat := by
  have hval : c.toNat = c.val.toNat := rfl
  intro b hb
  unfold String.utf8EncodeChar at hb
  dsimp only at hb
  split at hb
  · simp only [List.mem_singleton] at hb
    rw [hb, UInt8.toNat_ofNat']
    omega
  · split at hb
    · simp only [List.mem_cons, List.not_mem_nil, or_false] at hb
      rcases hb with rfl | rfl <;> rw [UInt8.toNat_ofNat'] <;> omega
    · split at hb
      · simp only [List.mem_cons, List.not_mem_nil, or_false] at hb
        rcases hb with rfl | rfl | rfl <;> rw [UInt8.toNat_ofNat'] <;> omega
      · simp only [List.mem_cons, List.not_mem_nil, or_false] at hb
        rcases hb with rfl | rfl | rfl | rfl <;> rw [UInt8.toNat_ofNat'] <;> omega

theorem to_vec_printable {t : Text} (h : Printable t) : ∀ b ∈ to_vec t, 32 ≤ b.toNat := by
  intro b hb
  obtain ⟨c, hc, hb⟩ := List.mem_flatMap.1 hb
  exact utf8EncodeChar_printable (h c hc) b hb

theorem utf8_reads : Reads Anything String.utf8EncodeChar := by
  intro c d s t _ _ hab
  have hc : ((String.utf8EncodeChar c).toByteArray ++ s.toByteArray).utf8DecodeChar? 0 =
      some c := ByteArray.utf8DecodeChar?_utf8EncodeChar_append
  have hd : ((String.utf8EncodeChar d).toByteArray ++ t.toByteArray).utf8DecodeChar? 0 =
      some d := ByteArray.utf8DecodeChar?_utf8EncodeChar_append
  rw [← List.toByteArray_append, hab, List.toByteArray_append, hd] at hc
  cases hc
  exact ⟨rfl, List.append_cancel_left hab⟩

theorem utf8EncodeChar_ne_nil (c : Char) : String.utf8EncodeChar c ≠ [] := by
  intro h
  have hlen := String.length_utf8EncodeChar c
  rw [h] at hlen
  have hpos := c.utf8Size_pos
  simp only [List.length_nil] at hlen
  omega

theorem to_vec_injective : Function.Injective to_vec :=
  utf8_reads.flatMap_injective utf8EncodeChar_ne_nil

/-- No text of an object begins another one. -/
theorem object_texts_do_not_begin_one_another (v : Value) (fields : List (String × Value))
    {s : Bytes} (h : to_vec v.render = to_vec (Value.object fields).render ++ s) : s = [] := by
  obtain ⟨cs, htext, rfl⟩ := utf8_reads.of_flatMap_append utf8EncodeChar_ne_nil h
  have hopen : (Value.object fields).opening = v.opening :=
    Value.opening_eq (s := cs) (t := []) (by rw [List.append_nil]; exact htext.symm)
  cases v with
  | object fields' =>
    have hread := Value.object_reads (Value.render_reads_fields fields) fields' cs [] trivial
      trivial (by simpa using htext.symm)
    rw [hread.2, List.flatMap_nil]
  | _ => simp [Value.opening] at hopen

/-! ## Fields -/

namespace Value

/-- The field is there only when it has a value. -/
def skip_none {α : Type} (name : String) (f : α → Value) (o : Option α) :
    List (String × Value) := (o.map fun a => (name, f a)).toList

theorem render_fields_append (fs gs : List (String × Value)) :
    render_fields (fs ++ gs) = render_fields fs ++ render_fields gs := by
  simp [render_fields_eq]

theorem render_fields_skip_none {α : Type} {name : String} {f : α → Value} {text : α → Text}
    (h : ∀ a, (f a).render = text a) (o : Option α) :
    render_fields (skip_none name f o) = json.skip_none name text o := by
  cases o with
  | none => rfl
  | some a => simp [skip_none, render_fields, json.skip_none, h]

theorem render_list {α : Type} {f : α → Value} {text : α → Text} (h : ∀ a, (f a).render = text a)
    (as : List α) : (Value.array (as.map f)).render = json.array (as.map text) := by
  simp [render, render_items_eq, Function.comp_def, h]

@[simp]
theorem lookup_skip_none {α : Type} (key name : String) (f : α → Value) (o : Option α) :
    (skip_none name f o).lookup key = if key == name then o.map f else none := by
  cases o with
  | none => simp [skip_none]
  | some a =>
    simp only [skip_none, Option.map_some, Option.toList_some, List.lookup_cons, List.lookup_nil]
    split <;> simp_all

def bytes (bs : Bytes) : Value := .array (bs.map fun b => .nat b.toNat)

theorem render_bytes (bs : Bytes) : (bytes bs).render = json.bytes bs :=
  render_list (fun _ => by rw [render]) bs

theorem bytes_injective : Function.Injective bytes := by
  intro as bs h
  simp only [bytes, array.injEq] at h
  refine List.map_injective_iff.2 ?_ h
  intro a b hab
  simpa [UInt8.toNat_inj] using hab

end Value

end lmao.json

namespace lmao

open crypto json
open json.Value (skip_none lookup_skip_none render_fields_append render_fields_skip_none
  render_list)

/-! ## The trees of tasks and envelopes -/

def TaskState.tree : TaskState → Value
  | .Submitted => .str "submitted"
  | .Working => .str "working"
  | .InputRequired => .str "input_required"
  | .Completed => .str "completed"
  | .Failed => .str "failed"
  | .Cancelled => .str "cancelled"

def Part.tree : Part → Value
  | .Text text => .object [("type", .str "text"), ("text", .str text)]

def Message.tree (m : Message) : Value :=
  .object [("role", .str m.role), ("parts", .array (m.parts.map Part.tree))]

def Task.tree_fields (t : Task) : List (String × Value) :=
  [("id", .str t.id), ("from", .str t.sender), ("to", .str t.recipient),
    ("state", t.state.tree), ("message", t.message.tree)] ++
  skip_none "result" Message.tree t.result ++
  skip_none "session_id" Value.str t.session_id ++
  skip_none "payload_cid" Value.str t.payload_cid ++
  skip_none "payment_tx" Value.str t.payment_tx ++
  skip_none "payment_amount" (fun n => Value.nat n.toNat) t.payment_amount

def IntroBundle.tree (b : IntroBundle) : Value :=
  .object [("agent_pubkey", .str b.agent_pubkey), ("version", .str b.version)]

def AgentCard.tree_fields (c : AgentCard) : List (String × Value) :=
  [("name", Value.str c.name), ("description", Value.str c.description),
    ("version", Value.str c.version), ("capabilities", Value.array (c.capabilities.map Value.str)),
    ("public_key", Value.str c.public_key)] ++
  skip_none "intro_bundle" IntroBundle.tree c.intro_bundle

def EncryptedPayload.tree (p : EncryptedPayload) : Value :=
  .object [("nonce", .str p.nonce), ("ciphertext", .str p.ciphertext)]

def SealedStatus.tree (s : SealedStatus) : Value :=
  .object [("recipient_hint", .bytes s.recipient_hint), ("ephemeral_pub", .bytes s.ephemeral_pub),
    ("nonce", .bytes s.nonce), ("ciphertext", .bytes s.ciphertext)]

def PresenceAnnouncement.tree_fields (a : PresenceAnnouncement) : List (String × Value) :=
  [("agent_id", Value.str a.agent_id), ("name", Value.str a.name),
    ("capabilities", Value.array (a.capabilities.map Value.str)),
    ("waku_topic", Value.str a.waku_topic), ("ttl_secs", Value.nat a.ttl_secs.toNat)] ++
  skip_none "sealed_status" (fun ss => Value.array (ss.map SealedStatus.tree))
    (if a.sealed_status = [] then none else some a.sealed_status) ++
  skip_none "signature" Value.bytes a.signature

def TaskStreamChunk.tree_fields (c : TaskStreamChunk) : List (String × Value) :=
  [("task_id", .str c.task_id), ("chunk_index", .nat c.chunk_index.toNat), ("text", .str c.text),
    ("is_final", .bool c.is_final)]

def A2AEnvelope.tree_fields : A2AEnvelope → List (String × Value)
  | .AgentCard card => ("type", .str "agent_card") :: card.tree_fields
  | .Task task => ("type", .str "task") :: task.tree_fields
  | .Ack message_id => [("type", .str "ack"), ("message_id", .str message_id)]
  | .EncryptedTask encrypted sender_pubkey =>
    [("type", .str "encrypted_task"), ("encrypted", EncryptedPayload.tree encrypted),
      ("sender_pubkey", .str sender_pubkey)]
  | .Presence announcement => ("type", .str "presence") :: announcement.tree_fields
  | .StreamChunk chunk => ("type", .str "stream_chunk") :: chunk.tree_fields

/-! ## Their texts are the renderings -/

theorem TaskState.render_tree (s : TaskState) : s.tree.render = s.to_json := by
  cases s <;> simp [TaskState.tree, Value.render, TaskState.to_json]

theorem Part.render_tree (p : Part) : p.tree.render = p.to_json := by
  cases p
  simp [Part.tree, Value.render, Value.render_fields, Part.to_json]

theorem Message.render_tree (m : Message) : m.tree.render = m.to_json := by
  simp [Message.tree, Value.render, Value.render_fields, Value.render_items_eq, Message.to_json,
    Function.comp_def, Part.render_tree]

theorem Task.render_tree_fields (t : Task) :
    Value.render_fields t.tree_fields = t.fields := by
  have hstr : ∀ s, (Value.str s).render = json.str s := fun s => by rw [Value.render]
  have hnat : ∀ n : UInt64, (Value.nat n.toNat).render = json.nat n.toNat := fun n => by
    rw [Value.render]
  simp only [Task.tree_fields, render_fields_append, render_fields_skip_none Message.render_tree,
    render_fields_skip_none hstr, render_fields_skip_none hnat, Task.fields, Value.render_fields,
    hstr, TaskState.render_tree, Message.render_tree]

theorem IntroBundle.render_tree (b : IntroBundle) :
    (IntroBundle.tree b).render = IntroBundle.to_json b := by
  simp [IntroBundle.tree, Value.render, Value.render_fields, IntroBundle.to_json]

theorem AgentCard.render_tree_fields (c : AgentCard) :
    Value.render_fields c.tree_fields = c.fields := by
  simp [AgentCard.tree_fields, render_fields_skip_none IntroBundle.render_tree, AgentCard.fields,
    Value.render_fields, Value.render, Value.render_items_eq, Function.comp_def]

theorem EncryptedPayload.render_tree (p : EncryptedPayload) :
    (EncryptedPayload.tree p).render = EncryptedPayload.to_json p := by
  simp [EncryptedPayload.tree, Value.render, Value.render_fields, EncryptedPayload.to_json]

theorem SealedStatus.render_tree (s : SealedStatus) : s.tree.render = s.to_json := by
  simp [SealedStatus.tree, Value.render, Value.render_fields, SealedStatus.to_json,
    Value.render_bytes]

theorem PresenceAnnouncement.render_tree_fields (a : PresenceAnnouncement) :
    Value.render_fields a.tree_fields = a.fields := by
  have hsealed := render_list SealedStatus.render_tree
  by_cases hnil : a.sealed_status = []
  · simp [PresenceAnnouncement.tree_fields, render_fields_append,
      render_fields_skip_none Value.render_bytes, render_fields_skip_none hsealed,
      PresenceAnnouncement.fields, Value.render_fields, Value.render, Value.render_items_eq,
      Function.comp_def, hnil, json.skip_none]
  · simp [PresenceAnnouncement.tree_fields, render_fields_append,
      render_fields_skip_none Value.render_bytes, render_fields_skip_none hsealed,
      PresenceAnnouncement.fields, Value.render_fields, Value.render, Value.render_items_eq,
      Function.comp_def, hnil, json.skip_none]

theorem TaskStreamChunk.render_tree_fields (c : TaskStreamChunk) :
    Value.render_fields c.tree_fields = c.fields := by
  simp [TaskStreamChunk.tree_fields, TaskStreamChunk.fields, Value.render_fields, Value.render]

theorem Task.to_vec_eq (t : Task) : t.to_vec = json.to_vec (Value.object t.tree_fields).render := by
  simp [Task.to_vec, Value.render, Task.render_tree_fields]

theorem A2AEnvelope.to_vec_eq (e : A2AEnvelope) :
    e.to_vec = json.to_vec (Value.object e.tree_fields).render := by
  cases e <;>
    simp [A2AEnvelope.to_vec, A2AEnvelope.to_json, A2AEnvelope.tree_fields, Value.render,
      Value.render_fields, Task.render_tree_fields, AgentCard.render_tree_fields,
      EncryptedPayload.render_tree, PresenceAnnouncement.render_tree_fields,
      TaskStreamChunk.render_tree_fields]

/-! ## No two values have one text -/

theorem Part.tree_injective : Function.Injective Part.tree := by
  rintro ⟨a⟩ ⟨b⟩ h
  simpa [Part.tree] using h

theorem Message.tree_injective : Function.Injective Message.tree := by
  rintro ⟨role, parts⟩ ⟨role', parts'⟩ h
  simp only [Message.tree, Value.object.injEq, List.cons.injEq, Prod.mk.injEq, Value.str.injEq,
    Value.array.injEq, true_and, and_true] at h
  obtain ⟨rfl, hparts⟩ := h
  rw [List.map_injective_iff.2 Part.tree_injective hparts]

theorem TaskState.tree_injective : Function.Injective TaskState.tree := by
  intro a b h
  cases a <;> cases b <;> simp [TaskState.tree] at h <;> rfl

theorem str_injective : Function.Injective Value.str := fun _ _ h => Value.str.inj h

theorem nat_of_UInt64_injective : Function.Injective fun n : UInt64 => Value.nat n.toNat := by
  intro n k h
  exact UInt64.toNat_inj.1 (Value.nat.inj h)

/-- The fields of a task, found by name. -/
theorem Task.tree_fields_injective : Function.Injective Task.tree_fields := by
  intro t u h
  have hfield := fun key => congrArg (List.lookup key) h
  simp only [Task.tree_fields, List.lookup_append, lookup_skip_none] at hfield
  have hid : t.id = u.id := by simpa [List.lookup_cons] using hfield "id"
  have hsender : t.sender = u.sender := by simpa [List.lookup_cons] using hfield "from"
  have hrecipient : t.recipient = u.recipient := by simpa [List.lookup_cons] using hfield "to"
  have hstate : t.state.tree = u.state.tree := by simpa [List.lookup_cons] using hfield "state"
  have hmessage : t.message.tree = u.message.tree := by
    simpa [List.lookup_cons] using hfield "message"
  have hresult : t.result.map Message.tree = u.result.map Message.tree := by
    simpa [List.lookup_cons] using hfield "result"
  have hsession : t.session_id.map Value.str = u.session_id.map Value.str := by
    simpa [List.lookup_cons] using hfield "session_id"
  have hcid : t.payload_cid.map Value.str = u.payload_cid.map Value.str := by
    simpa [List.lookup_cons] using hfield "payload_cid"
  have htx : t.payment_tx.map Value.str = u.payment_tx.map Value.str := by
    simpa [List.lookup_cons] using hfield "payment_tx"
  have hamount : t.payment_amount.map (fun n => Value.nat n.toNat) =
      u.payment_amount.map fun n => Value.nat n.toNat := by
    simpa [List.lookup_cons] using hfield "payment_amount"
  have hstrs := Option.map_injective str_injective
  have hstate' := TaskState.tree_injective hstate
  have hmessage' := Message.tree_injective hmessage
  have hresult' := Option.map_injective Message.tree_injective hresult
  have hsession' := hstrs hsession
  have hcid' := hstrs hcid
  have htx' := hstrs htx
  have hamount' := Option.map_injective nat_of_UInt64_injective hamount
  cases t
  cases u
  simp_all only

theorem IntroBundle.tree_injective : Function.Injective IntroBundle.tree := by
  rintro ⟨key, version⟩ ⟨key', version'⟩ h
  simpa [IntroBundle.tree] using h

theorem AgentCard.tree_fields_injective : Function.Injective AgentCard.tree_fields := by
  intro c d h
  have hbundle := congrArg (List.lookup "intro_bundle") h
  simp only [AgentCard.tree_fields, List.lookup_append, lookup_skip_none] at hbundle
  have hbundle' : c.intro_bundle.map IntroBundle.tree = d.intro_bundle.map IntroBundle.tree := by
    simpa [List.lookup_cons] using hbundle
  have hsame := Option.map_injective IntroBundle.tree_injective hbundle'
  have hmaps := List.map_injective_iff.2 str_injective
  have hhead := (List.append_inj h rfl).1
  simp only [List.cons.injEq, Prod.mk.injEq, Value.str.injEq, Value.array.injEq, hmaps.eq_iff,
    true_and, and_true] at hhead
  cases c
  cases d
  simp_all only

theorem EncryptedPayload.tree_injective : Function.Injective EncryptedPayload.tree := by
  rintro ⟨nonce, ciphertext⟩ ⟨nonce', ciphertext'⟩ h
  simpa [EncryptedPayload.tree] using h

theorem SealedStatus.tree_injective : Function.Injective SealedStatus.tree := by
  rintro ⟨hint, pub, nonce, ciphertext⟩ ⟨hint', pub', nonce', ciphertext'⟩ h
  simpa [SealedStatus.tree, Value.bytes_injective.eq_iff] using h

theorem PresenceAnnouncement.tree_fields_injective :
    Function.Injective PresenceAnnouncement.tree_fields := by
  intro a b h
  have hfield := fun key => congrArg (List.lookup key) h
  simp only [PresenceAnnouncement.tree_fields, List.lookup_append, lookup_skip_none] at hfield
  have hsignature : a.signature.map Value.bytes = b.signature.map Value.bytes := by
    simpa [List.lookup_cons] using hfield "signature"
  have hsealed := hfield "sealed_status"
  have hsame := Option.map_injective Value.bytes_injective hsignature
  have hstatus : a.sealed_status = b.sealed_status := by
    have hmaps := List.map_injective_iff.2 SealedStatus.tree_injective
    by_cases ha : a.sealed_status = [] <;> by_cases hb : b.sealed_status = [] <;>
      simp [List.lookup_cons, ha, hb, hmaps.eq_iff] at hsealed ⊢
    exact hsealed
  have hmaps := List.map_injective_iff.2 str_injective
  simp only [PresenceAnnouncement.tree_fields, List.append_assoc] at h
  have hhead := (List.append_inj h rfl).1
  simp only [List.cons.injEq, Prod.mk.injEq, Value.str.injEq, Value.array.injEq, Value.nat.injEq,
    hmaps.eq_iff, UInt64.toNat_inj, true_and, and_true] at hhead
  cases a
  cases b
  simp_all only

theorem TaskStreamChunk.tree_fields_injective : Function.Injective TaskStreamChunk.tree_fields := by
  rintro ⟨id, index, text, is_final⟩ ⟨id', index', text', is_final'⟩ h
  simpa [TaskStreamChunk.tree_fields, UInt32.toNat_inj] using h

/-- The tag tells the variants apart. -/
theorem A2AEnvelope.tree_fields_injective : Function.Injective A2AEnvelope.tree_fields := by
  intro e e' h
  cases e <;> cases e' <;> simp only [A2AEnvelope.tree_fields, List.cons.injEq, Prod.mk.injEq,
    Value.str.injEq, String.reduceEq, and_false, false_and, true_and, and_true] at h
  · rw [AgentCard.tree_fields_injective h]
  · rw [Task.tree_fields_injective h]
  · rw [h]
  · rw [EncryptedPayload.tree_injective h.1, h.2]
  · rw [PresenceAnnouncement.tree_fields_injective h]
  · rw [TaskStreamChunk.tree_fields_injective h]

theorem Task.to_vec_injective : Function.Injective Task.to_vec := by
  intro t u h
  rw [Task.to_vec_eq, Task.to_vec_eq] at h
  have htree := Value.render_injective (json.to_vec_injective h)
  exact Task.tree_fields_injective (Value.object.inj htree)

theorem A2AEnvelope.to_vec_injective : Function.Injective A2AEnvelope.to_vec := by
  intro e e' h
  rw [A2AEnvelope.to_vec_eq, A2AEnvelope.to_vec_eq] at h
  have htree := Value.render_injective (json.to_vec_injective h)
  exact A2AEnvelope.tree_fields_injective (Value.object.inj htree)

end lmao
