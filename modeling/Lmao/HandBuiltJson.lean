-- JSON that the program builds by hand: the parameters of a Logos Core method
-- (logos_core_transport.rs of the transport crate, logos_core_backend.rs of the
-- storage crate), and the error of the C interface (lib.rs of the ffi crate).
import Mathlib.Data.Bool.AllAny
import Lmao.JsonGrammar
import Lmao.StorageTransfers

namespace lmao

/-! ## The three formatters -/

/-- Name/value pairs, all string-typed. -/
def transport.params_json (pairs : List (String × String)) : String :=
  "[" ++ ",".intercalate (pairs.map fun (name, value) =>
    "\x7b\"name\":\"" ++ name ++ "\",\"value\":\"" ++ value ++ "\",\"type\":\"string\"\x7d") ++ "]"

namespace ffi

/-- A text with a NUL makes no C string, and an empty object takes its place. -/
def to_cstring (s : String) : String := if Char.ofNat 0 ∈ s.toList then "\x7b\x7d" else s

def escape_quote (c : Char) : List Char := if c = '"' then ['\\', '"'] else [c]

/-- `msg.replace('"', "\\\"")`. -/
def replace_quotes (msg : String) : String := String.ofList (msg.toList.flatMap escape_quote)

def error_json (msg : String) : String :=
  to_cstring ("\x7b\"success\":false,\"error\":\"" ++ replace_quotes msg ++ "\"\x7d")

end ffi

/-- The types that the storage backend gives its parameters. -/
inductive storage.ParamType
  | string
  | int
  | bool
deriving DecidableEq, Repr

def storage.ParamType.name : storage.ParamType → String
  | .string => "string"
  | .int => "int"
  | .bool => "bool"

namespace json

open storage (ParamType)

/-! ## Texts -/

def str_field (name s : String) : Text :=
  '"' :: (name.toList ++ '"' :: ':' :: '"' :: (s.toList ++ ['"']))

/-- The text of one parameter. -/
def param_text (p : String × String × String) : Text :=
  Char.ofNat 123 :: (str_field "name" p.1 ++ ',' :: (str_field "value" p.2.1 ++
    ',' :: str_field "type" p.2.2) ++ [Char.ofNat 125])

theorem params_json_toList (params : List (String × String × String)) :
    (storage.params_json params).toList = array (params.map param_text) := by
  have hparam : ∀ p : String × String × String,
      ("\x7b\"name\":\"" ++ p.1 ++ "\",\"value\":\"" ++ p.2.1 ++ "\",\"type\":\"" ++ p.2.2 ++
        "\"\x7d").toList = param_text p := by
    intro p
    have hname : "\x7b\"name\":\"".toList = Char.ofNat 123 :: '"' :: ("name".toList ++
        ['"', ':', '"']) := by decide
    have hvalue : "\",\"value\":\"".toList = '"' :: ',' :: '"' :: ("value".toList ++
        ['"', ':', '"']) := by decide
    have htype : "\",\"type\":\"".toList = '"' :: ',' :: '"' :: ("type".toList ++
        ['"', ':', '"']) := by decide
    have hend : "\"\x7d".toList = ['"', Char.ofNat 125] := by decide
    simp only [String.toList_append, hname, hvalue, htype, hend, param_text, str_field,
      List.append_assoc, List.cons_append, List.nil_append]
  have hcomma : ",".toList = [','] := by decide
  have hopen : "[".toList = ['['] := by decide
  have hclose : "]".toList = [']'] := by decide
  unfold storage.params_json array comma_separated
  rw [String.toList_append, String.toList_append, String.toList_intercalate, hcomma, hopen, hclose,
    List.map_map, List.intercalate, List.singleton_append]
  exact congrArg (fun texts => '[' :: (texts.intersperse [',']).flatten ++ [']'])
    (List.map_congr_left fun p _ => hparam p)

/-- The transport's text is the one of the storage with strings only. -/
theorem transport_params_json (pairs : List (String × String)) :
    transport.params_json pairs =
      storage.params_json (pairs.map fun p => (p.1, p.2, ParamType.string.name)) := by
  unfold transport.params_json storage.params_json
  rw [List.map_map]
  congr 3
  apply List.map_congr_left
  intro p _
  have hend : "\",\"type\":\"string\"\x7d" =
      "\",\"type\":\"" ++ ParamType.string.name ++ "\"\x7d" := by decide
  simp only [Function.comp_apply, hend, String.append_assoc]

/-! ## What a reader makes of them -/

/-- The array has exactly these names and values. -/
def Yields (t : Text) (pairs : List (String × String)) : Prop :=
  ∃ items : List Tree, Denotes t (.array items) ∧
    items.map (fun o => (o.get "name", o.get "value")) =
      pairs.map fun p => (some (.str p.1), some (.str p.2))

/-- The object is a failure with this message. -/
def Reports (t : Text) (msg : String) : Prop :=
  ∃ o : Tree, Denotes t o ∧ o.get "success" = some (.bool false) ∧ o.get "error" = some (.str msg)

theorem plain_of_all {s : String} (h : (s.toList.all fun c => decide (Plain c)) = true) :
    ∀ c ∈ s.toList, Plain c :=
  List.all_iff_forall_prop.mp h

theorem denotes_str_field {name s : String} (hname : ∀ c ∈ name.toList, Plain c)
    (hs : ∀ c ∈ s.toList, Plain c) : DenotesField (str_field name s) (name, .str s) := by
  have := denotesField hname (denotes_str hs)
  unfold str_field
  simpa using this

theorem denotes_param (p : String × String × ParamType) (hname : ∀ c ∈ p.1.toList, Plain c)
    (hvalue : ∀ c ∈ p.2.1.toList, Plain c) :
    Denotes (param_text (p.1, p.2.1, p.2.2.name))
      (.object [("name", .str p.1), ("value", .str p.2.1), ("type", .str p.2.2.name)]) := by
  have htype : ∀ ty : ParamType, ∀ c ∈ ty.name.toList, Plain c := by
    intro ty
    cases ty <;> exact plain_of_all (by decide)
  exact denotes_object
    (.more (denotes_str_field (plain_of_all (by decide)) hname)
      (.more (denotes_str_field (plain_of_all (by decide)) hvalue)
        (.one (denotes_str_field (plain_of_all (by decide)) (htype p.2.2)))))

/-- Plain names and values are read as they are. -/
theorem yields_of_plain (params : List (String × String × ParamType))
    (h : ∀ p ∈ params, (∀ c ∈ p.1.toList, Plain c) ∧ ∀ c ∈ p.2.1.toList, Plain c) :
    Yields (array (params.map fun p => param_text (p.1, p.2.1, p.2.2.name)))
      (params.map fun p => (p.1, p.2.1)) := by
  refine ⟨_, denotes_array _ _ params fun p hp => denotes_param p (h p hp).1 (h p hp).2, ?_⟩
  rw [List.map_map, List.map_map]
  exact List.map_congr_left fun p _ => rfl

/-! ## Weights -/

/-- A backslash is heavy, and what the types are written with weighs nothing. -/
def hand_weight (c : Char) : Nat :=
  if c = '\\' then 2 else if c ∈ ",\":typestringintbool".toList then 0 else 1

def hand_cost (c : Char) : Nat :=
  if c = '"' then 2 else if c = '\\' then 1 else if c.toNat < 32 then 1 else 0

theorem hand_cost_eq_zero_iff (c : Char) : hand_cost c = 0 ↔ Plain c := by
  unfold hand_cost Plain
  split
  · simp [*]
  · split
    · simp [*]
    · split <;> simp [*]
      omega

def hand_weighing : Weighing where
  weight := hand_weight
  cost := hand_cost
  plain c hc := (hand_cost_eq_zero_iff c).mpr hc
  short := by decide
  unicode c := by
    have hu : hand_weight '\\' + hand_weight 'u' = 3 := by decide
    rw [hu]
    by_cases hquote : c = '"'
    · subst hquote
      decide
    · by_cases hslash : c = '\\'
      · subst hslash
        decide
      · have hweight : hand_weight c ≤ 1 := by
          unfold hand_weight
          rw [if_neg hslash]
          split <;> omega
        have hcost : hand_cost c ≤ 1 := by
          unfold hand_cost
          rw [if_neg hquote, if_neg hslash]
          split <;> omega
        omega

theorem weigh_array (texts : List Text) :
    hand_weighing.weigh (array texts) = hand_weighing.weight '[' + hand_weighing.weight ']' +
      (texts.map hand_weighing.weigh).sum := by
  have hcomma : hand_weighing.weight ',' = 0 := by decide
  have hitems : hand_weighing.weigh (comma_separated texts) =
      (texts.map hand_weighing.weigh).sum := by
    unfold comma_separated
    induction texts with
    | nil => rfl
    | cons t ts ih =>
      cases ts with
      | nil => simp
      | cons u us =>
        simp only [List.intersperse_cons_cons, List.flatten_cons, Weighing.weigh_append,
          Weighing.weigh_cons, Weighing.weigh_nil, hcomma, ih, List.map_cons, List.sum_cons]
        omega
  unfold array
  simp only [List.cons_append, Weighing.weigh_cons, Weighing.weigh_append, Weighing.weigh_nil,
    hitems]
  omega

theorem weigh_str_field (name s : String) : hand_weighing.weigh (str_field name s) =
    hand_weighing.weigh name.toList + hand_weighing.weigh s.toList := by
  have hquote : hand_weighing.weight '"' = 0 := by decide
  have hcolon : hand_weighing.weight ':' = 0 := by decide
  simp only [str_field, Weighing.weigh_cons, Weighing.weigh_append, Weighing.weigh_nil, hquote,
    hcolon]
  omega

theorem weigh_param_text (p : String × String × ParamType) :
    hand_weighing.weigh (param_text (p.1, p.2.1, p.2.2.name)) = hand_weighing.braces +
      ((hand_weighing.weigh "name".toList + hand_weighing.weigh p.1.toList) +
        (hand_weighing.weigh "value".toList + hand_weighing.weigh p.2.1.toList)) := by
  have hcomma : hand_weighing.weight ',' = 0 := by decide
  have htype : ∀ ty : ParamType,
      hand_weighing.weigh "type".toList + hand_weighing.weigh ty.name.toList = 0 := by
    intro ty
    cases ty <;> decide
  simp only [param_text, Weighing.braces, Weighing.weigh_cons, Weighing.weigh_append,
    Weighing.weigh_nil, weigh_str_field, hcomma, htype]
  omega

/-- What an object weighs at least with its name and its value. -/
def pair_bound (name value : Option Tree) : Nat :=
  match name, value with
  | some n, some v => hand_weighing.braces +
      (hand_weighing.least_field ("name", n) + hand_weighing.least_field ("value", v))
  | _, _ => 0

theorem pair_bound_le (t : Text) (o : Tree) (h : Denotes t o) :
    pair_bound (o.get "name") (o.get "value") ≤ hand_weighing.weigh t := by
  cases hname : o.get "name" with
  | none => exact Nat.zero_le _
  | some n =>
    cases hvalue : o.get "value" with
    | none => exact Nat.zero_le _
    | some v => exact hand_weighing.two_fields_le h (by decide) hname hvalue

theorem plain_of_costs {t : Text} (h : hand_weighing.costs t = 0) : ∀ c ∈ t, Plain c := by
  intro c hc
  rw [← hand_cost_eq_zero_iff]
  have := List.le_sum_of_mem (List.mem_map_of_mem (f := hand_cost) hc)
  unfold Weighing.costs at h
  exact Nat.le_zero.mp (h ▸ this)

/-- Names and values that are read back have no escape, so they need none. -/
theorem plain_of_yields (params : List (String × String × ParamType))
    (h : Yields (array (params.map fun p => param_text (p.1, p.2.1, p.2.2.name)))
      (params.map fun p => (p.1, p.2.1))) :
    ∀ p ∈ params, (∀ c ∈ p.1.toList, Plain c) ∧ ∀ c ∈ p.2.1.toList, Plain c := by
  obtain ⟨items, hdenotes, hitems⟩ := h
  have hle := hand_weighing.array_le (fun o => pair_bound (o.get "name") (o.get "value"))
    pair_bound_le hdenotes
  have hbounds : items.map (fun o => pair_bound (o.get "name") (o.get "value")) =
      params.map fun p => pair_bound (some (.str p.1)) (some (.str p.2.1)) := by
    have := congrArg (List.map fun q => pair_bound q.1 q.2) hitems
    simpa only [List.map_map, Function.comp_def] using this
  have hcosts : ∀ p : String × String × ParamType,
      pair_bound (some (.str p.1)) (some (.str p.2.1)) =
        hand_weighing.weigh (param_text (p.1, p.2.1, p.2.2.name)) +
          (hand_weighing.costs p.1.toList + hand_weighing.costs p.2.1.toList) := by
    intro p
    rw [weigh_param_text]
    simp only [pair_bound, Weighing.least_field, Weighing.least]
    omega
  have hsum : (params.map fun p =>
      hand_weighing.costs p.1.toList + hand_weighing.costs p.2.1.toList).sum = 0 := by
    rw [hbounds, weigh_array, List.map_map] at hle
    simp only [hcosts, List.sum_map_add, Function.comp_def] at hle ⊢
    omega
  intro p hp
  have hzero := List.le_sum_of_mem (List.mem_map_of_mem (f := fun p : String × String × ParamType =>
    hand_weighing.costs p.1.toList + hand_weighing.costs p.2.1.toList) hp)
  rw [hsum] at hzero
  exact ⟨plain_of_costs (by omega), plain_of_costs (by omega)⟩

/-! ## The error -/

def quoted (msg : String) : Text := msg.toList.flatMap ffi.escape_quote

def error_text (raw : Text) : Text :=
  Char.ofNat 123 :: (('"' :: ("success".toList ++ '"' :: ':' :: bool false) ++
    ',' :: '"' :: ("error".toList ++ '"' :: ':' :: '"' :: (raw ++ ['"']))) ++ [Char.ofNat 125])

theorem error_json_toList {msg : String} (h : Char.ofNat 0 ∉ msg.toList) :
    (ffi.error_json msg).toList = error_text (quoted msg) := by
  have hopen : "\x7b\"success\":false,\"error\":\"".toList =
      Char.ofNat 123 :: ('"' :: ("success".toList ++ '"' :: ':' :: bool false) ++
        ',' :: '"' :: ("error".toList ++ ['"', ':', '"'])) := by decide
  have hclose : "\"\x7d".toList = ['"', Char.ofNat 125] := by decide
  have hquoted : Char.ofNat 0 ∉ quoted msg := by
    unfold quoted
    rw [List.mem_flatMap]
    rintro ⟨c, hc, hmem⟩
    unfold ffi.escape_quote at hmem
    split at hmem
    · exact absurd hmem (by decide)
    · exact h (List.mem_singleton.mp hmem ▸ hc)
  have htext : ("\x7b\"success\":false,\"error\":\"" ++ ffi.replace_quotes msg ++ "\"\x7d").toList =
      error_text (quoted msg) := by
    simp only [String.toList_append, hopen, hclose, ffi.replace_quotes, String.toList_ofList,
      error_text, quoted, List.append_assoc, List.cons_append, List.nil_append]
  have hnul : Char.ofNat 0 ∉ error_text (quoted msg) := by
    have hstart : Char.ofNat 0 ∉ Char.ofNat 123 :: ('"' :: ("success".toList ++ '"' :: ':' ::
        bool false) ++ ',' :: '"' :: ("error".toList ++ ['"', ':', '"'])) := by decide
    have hend : Char.ofNat 0 ∉ ['"', Char.ofNat 125] := by decide
    have hsplit : error_text (quoted msg) = (Char.ofNat 123 :: ('"' :: ("success".toList ++
        '"' :: ':' :: bool false) ++ ',' :: '"' :: ("error".toList ++ ['"', ':', '"']))) ++
        (quoted msg ++ ['"', Char.ofNat 125]) := by
      simp only [error_text, List.append_assoc, List.cons_append, List.nil_append]
    rw [hsplit, List.mem_append, List.mem_append]
    exact fun h => h.elim hstart fun h => h.elim hquoted hend
  unfold ffi.error_json ffi.to_cstring
  rw [htext, if_neg hnul, htext]

/-- A message that needs no escape but those of its quotes. -/
def QuotesOnly (msg : String) : Prop := ∀ c ∈ msg.toList, 32 ≤ c.toNat ∧ c ≠ '\\'

theorem body_quoted {msg : Text} (h : ∀ c ∈ msg, 32 ≤ c.toNat ∧ c ≠ '\\') :
    Body (msg.flatMap ffi.escape_quote) msg := by
  induction msg with
  | nil => exact .nil
  | cons c msg ih =>
    have hrest := ih fun d hd => h d (List.mem_cons_of_mem c hd)
    obtain ⟨hlow, hslash⟩ := h c List.mem_cons_self
    by_cases hquote : c = '"'
    · subst hquote
      exact .short (by decide) hrest
    · rw [List.flatMap_cons, ffi.escape_quote, if_neg hquote]
      exact .plain ⟨hlow, hquote, hslash⟩ hrest

theorem reports_of_quotesOnly {msg : String} (h : QuotesOnly msg) :
    Reports (error_text (quoted msg)) msg := by
  have hsuccess : DenotesField ('"' :: ("success".toList ++ '"' :: ':' :: bool false))
      ("success", .bool false) := denotesField (plain_of_all (by decide)) (denotes_bool false)
  have herror : DenotesField ('"' :: ("error".toList ++ '"' :: ':' :: '"' :: (quoted msg ++ ['"'])))
      ("error", .str msg) :=
    denotesField (plain_of_all (by decide)) (.str blank_nil blank_nil (body_quoted h))
  exact ⟨_, denotes_object (.more hsuccess (.one herror)), rfl, rfl⟩

/-- The backslashes that `quoted` adds are the cost of the quotes, and of
nothing else. -/
theorem quotesOnly_of_costs {msg : Text}
    (h : hand_weighing.weigh msg + hand_weighing.costs msg ≤
      hand_weighing.weigh (msg.flatMap ffi.escape_quote)) :
    ∀ c ∈ msg, 32 ≤ c.toNat ∧ c ≠ '\\' := by
  have hchar : ∀ c, hand_weighing.weigh (ffi.escape_quote c) ≤
      hand_weighing.weight c + hand_weighing.cost c := by
    intro c
    unfold ffi.escape_quote
    split
    · subst_vars
      decide
    · simp
  have htext : ∀ t : Text, hand_weighing.weigh (t.flatMap ffi.escape_quote) ≤
      hand_weighing.weigh t + hand_weighing.costs t := by
    intro t
    induction t with
    | nil => exact Nat.zero_le _
    | cons c t ih =>
      have := hchar c
      simp only [List.flatMap_cons, Weighing.weigh_append, Weighing.weigh_cons, Weighing.costs_cons]
      omega
  induction msg with
  | nil => exact fun c hc => absurd hc List.not_mem_nil
  | cons c msg ih =>
    have hrest := htext msg
    have hc := hchar c
    simp only [List.flatMap_cons, Weighing.weigh_append, Weighing.weigh_cons,
      Weighing.costs_cons] at h
    have hfirst : 32 ≤ c.toNat ∧ c ≠ '\\' := by
      by_cases hquote : c = '"'
      · subst hquote
        decide
      · have hsame : hand_weighing.weigh (ffi.escape_quote c) = hand_weighing.weight c := by
          rw [ffi.escape_quote, if_neg hquote, Weighing.weigh_cons, Weighing.weigh_nil,
            Nat.add_zero]
        have hcost : hand_weighing.cost c = 0 := by omega
        have hplain := (hand_cost_eq_zero_iff c).mp hcost
        exact ⟨hplain.1, hplain.2.2⟩
    intro d hd
    rcases List.mem_cons.mp hd with rfl | hd
    · exact hfirst
    · exact ih (by omega) d hd

theorem quotesOnly_of_reports {msg : String} (h : Reports (error_text (quoted msg)) msg) :
    QuotesOnly msg := by
  obtain ⟨o, hdenotes, hsuccess, herror⟩ := h
  have hle := hand_weighing.two_fields_le hdenotes (by decide) hsuccess herror
  have hquote : hand_weighing.weight '"' = 0 := by decide
  have hcolon : hand_weighing.weight ':' = 0 := by decide
  have hcomma : hand_weighing.weight ',' = 0 := by decide
  apply quotesOnly_of_costs
  simp only [Weighing.braces, Weighing.least_field, Weighing.least, error_text, quoted,
    Weighing.weigh_cons, Weighing.weigh_append, Weighing.weigh_nil, hquote, hcolon, hcomma,
    List.cons_append] at hle
  omega

/-! ## The law of the formatters -/

/-- The parameters are read back if and only if nothing in them needs an
escape. The error is if and only if nothing needs one but quotes. -/
theorem hand_built_json_is_faithful_iff (pairs : List (String × String))
    (params : List (String × String × ParamType)) (msg : String) :
    (Yields (transport.params_json pairs).toList pairs ↔
      ∀ p ∈ pairs, (∀ c ∈ p.1.toList, Plain c) ∧ ∀ c ∈ p.2.toList, Plain c) ∧
    (Yields (storage.params_json (params.map fun p => (p.1, p.2.1, p.2.2.name))).toList
        (params.map fun p => (p.1, p.2.1)) ↔
      ∀ p ∈ params, (∀ c ∈ p.1.toList, Plain c) ∧ ∀ c ∈ p.2.1.toList, Plain c) ∧
    (Char.ofNat 0 ∉ msg.toList →
      (Reports (ffi.error_json msg).toList msg ↔ QuotesOnly msg)) := by
  have hstorage : ∀ params : List (String × String × ParamType),
      Yields (storage.params_json (params.map fun p => (p.1, p.2.1, p.2.2.name))).toList
          (params.map fun p => (p.1, p.2.1)) ↔
        ∀ p ∈ params, (∀ c ∈ p.1.toList, Plain c) ∧ ∀ c ∈ p.2.1.toList, Plain c := by
    intro params
    rw [params_json_toList, List.map_map]
    exact ⟨plain_of_yields params, yields_of_plain params⟩
  refine ⟨?_, hstorage params, fun hnul => ?_⟩
  · have hpairs := hstorage (pairs.map fun p => (p.1, p.2, ParamType.string))
    rw [List.map_map, List.map_map] at hpairs
    rw [transport_params_json]
    simpa only [Function.comp_def, List.map_id', Prod.mk.eta, List.forall_mem_map] using hpairs
  · rw [error_json_toList hnul]
    exact ⟨quotesOnly_of_reports, reports_of_quotesOnly⟩

/-- The configuration of a node is JSON itself, and a path may have backslashes. -/
theorem hand_built_json_is_broken :
    ¬ Yields (transport.params_json [("cfg", "\x7b\"relay\":true\x7d")]).toList
      [("cfg", "\x7b\"relay\":true\x7d")] ∧
    ¬ Reports (ffi.error_json "C:\\temp").toList "C:\\temp" := by
  constructor
  · intro h
    rw [transport_params_json, params_json_toList, List.map_map] at h
    have hplain := plain_of_yields [("cfg", "\x7b\"relay\":true\x7d", .string)] h
    have hquote := (hplain _ List.mem_cons_self).2 '"' (by decide)
    exact hquote.2.1 rfl
  · intro h
    rw [error_json_toList (by decide)] at h
    exact (quotesOnly_of_reports h '\\' (by decide)).2 rfl

end json

end lmao
