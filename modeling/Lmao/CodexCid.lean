-- The reference to the audit log in a response: the agent writes it behind its
-- answer (agent.rs of the cli crate), the node reads it back (delegation.rs), and
-- so does the Basecamp module, with a regular expression (agent_impl.cpp).
import Mathlib.Data.List.TakeWhile
import Lmao.Agent
import Lmao.DelegationHistory

namespace lmao.basecamp

open lmao.node

/-- The leftmost match of `codex://([A-Za-z0-9]+)`, as the text that it captures. -/
def captured : List Char → Option (List Char)
  | [] => none
  | c :: cs =>
    let id := ((c :: cs).drop codex_marker.length).takeWhile Char.isAlphanum
    if codex_marker.isPrefixOf (c :: cs) ∧ id ≠ [] then some id else captured cs

/-- The `cid` of the event of `start_delegate`, when there is one. -/
def event_cid (body : String) : Option String :=
  (captured body.toList).map String.ofList

example : event_cid "codex://, codex://abc" = some "abc" := by decide

end lmao.basecamp

namespace lmao.node

/-! ## Links -/

/-- A link of the text, with what stands before it and the id that it names. -/
structure LinkAt (text before id : List Char) : Prop where
  alphanumeric : ∀ c ∈ id, c.isAlphanum
  placed : ∃ rest, text = before ++ (codex_marker ++ (id ++ rest)) ∧
    ∀ c ∈ rest.head?, ¬ c.isAlphanum

/-- The text has no link. -/
def Linkless (text : List Char) : Prop := ∀ before id, ¬ LinkAt text before id

/-- The first link of the text names this id. -/
def FirstLink (text id : List Char) : Prop :=
  ∃ before, LinkAt text before id ∧ ∀ b i, LinkAt text b i → before.length ≤ b.length

/-- The ids of all links, in their order. -/
def links : List Char → List (List Char)
  | [] => []
  | c :: cs =>
    if codex_marker.isPrefixOf (c :: cs) then
      ((c :: cs).drop codex_marker.length).takeWhile Char.isAlphanum :: links cs
    else links cs

theorem takeWhile_eq_iff (p : Char → Bool) (l id : List Char) :
    l.takeWhile p = id ↔
      (∀ c ∈ id, p c) ∧ ∃ rest, l = id ++ rest ∧ ∀ c ∈ rest.head?, ¬ p c := by
  constructor
  · rintro rfl
    refine ⟨List.all_eq_true.mp List.all_takeWhile, l.dropWhile p, ?_, fun c hc => ?_⟩
    · exact (List.takeWhile_append_dropWhile (p := p)).symm
    · have := List.head?_dropWhile_not p l
      rw [Option.mem_def] at hc
      rw [hc] at this
      simpa using this
  · rintro ⟨hid, rest, rfl, hrest⟩
    rw [List.takeWhile_append_of_pos hid]
    cases rest with
    | nil => simp
    | cons c rest =>
      have hc := hrest c rfl
      simp [hc]

theorem linkAt_nil_iff (text id : List Char) :
    LinkAt text [] id ↔
      codex_marker <+: text ∧ (text.drop codex_marker.length).takeWhile Char.isAlphanum = id := by
  rw [takeWhile_eq_iff]
  constructor
  · rintro ⟨hid, rest, rfl, hrest⟩
    refine ⟨List.prefix_append _ _, hid, rest, ?_, hrest⟩
    rw [List.nil_append, List.drop_left]
  · rintro ⟨⟨tail, rfl⟩, hid, rest, htail, hrest⟩
    rw [List.drop_left] at htail
    exact ⟨hid, rest, by rw [htail, List.nil_append], hrest⟩

theorem linkAt_cons_iff (c b : Char) (cs before id : List Char) :
    LinkAt (c :: cs) (b :: before) id ↔ c = b ∧ LinkAt cs before id := by
  constructor
  · rintro ⟨hid, rest, htext, hrest⟩
    rw [List.cons_append, List.cons.injEq] at htext
    exact ⟨htext.1, hid, rest, htext.2, hrest⟩
  · rintro ⟨rfl, hid, rest, rfl, hrest⟩
    exact ⟨hid, rest, rfl, hrest⟩

theorem not_linkAt_nil (before id : List Char) : ¬ LinkAt [] before id := by
  rintro ⟨-, rest, htext, -⟩
  have hlen := congrArg List.length htext
  have hmarker : codex_marker.length = 8 := by decide
  simp only [List.length_nil, List.length_append, hmarker] at hlen
  omega

theorem mem_links_iff (text id : List Char) :
    id ∈ links text ↔ ∃ before, LinkAt text before id := by
  induction text with
  | nil =>
    refine ⟨fun h => absurd h List.not_mem_nil, fun ⟨before, h⟩ => ?_⟩
    exact absurd h (not_linkAt_nil before id)
  | cons c cs ih =>
    have hsplit : (∃ before, LinkAt (c :: cs) before id) ↔
        LinkAt (c :: cs) [] id ∨ ∃ before, LinkAt cs before id := by
      constructor
      · rintro ⟨before, h⟩
        cases before with
        | nil => exact .inl h
        | cons b before => exact .inr ⟨before, ((linkAt_cons_iff c b cs before id).mp h).2⟩
      · rintro (h | ⟨before, h⟩)
        · exact ⟨[], h⟩
        · exact ⟨c :: before, (linkAt_cons_iff c c cs before id).mpr ⟨rfl, h⟩⟩
    rw [hsplit, linkAt_nil_iff, ← ih, links, ← List.isPrefixOf_iff_prefix]
    by_cases hp : codex_marker.isPrefixOf (c :: cs) = true
    · rw [if_pos hp, List.mem_cons]
      exact or_congr_left ⟨fun h => ⟨hp, h.symm⟩, fun h => h.2.symm⟩
    · rw [if_neg hp]
      exact ⟨.inr, fun h => h.resolve_left fun h => hp h.1⟩

theorem isPrefixOf_append_cons {pat : List Char} {c : Char} (hc : c ∉ pat) (l rest : List Char) :
    pat.isPrefixOf (l ++ c :: rest) = pat.isPrefixOf l := by
  induction pat generalizing l with
  | nil => simp
  | cons a pat ih =>
    rw [List.mem_cons, not_or] at hc
    cases l with
    | nil => simp [List.isPrefixOf, beq_eq_false_iff_ne.mpr (Ne.symm hc.1)]
    | cons b l => rw [List.cons_append, List.isPrefixOf, List.isPrefixOf, ih hc.2]

/-- A character that no link can run over separates the links of two texts. -/
theorem links_append {c : Char} (hc : c ∉ codex_marker) (hid : ¬ c.isAlphanum)
    (text rest : List Char) : links (text ++ c :: rest) = links text ++ links (c :: rest) := by
  induction text with
  | nil => rfl
  | cons b bs ih =>
    have hprefix := isPrefixOf_append_cons hc (b :: bs) rest
    rw [List.cons_append] at hprefix
    rw [List.cons_append, links, links, hprefix]
    by_cases hp : codex_marker.isPrefixOf (b :: bs) = true
    · have hlen : codex_marker.length ≤ (b :: bs).length :=
        (List.isPrefixOf_iff_prefix.mp hp).length_le
      have hdrop : (b :: (bs ++ c :: rest)).drop codex_marker.length =
          (b :: bs).drop codex_marker.length ++ c :: rest := by
        rw [← List.drop_append_of_le_length hlen, List.cons_append]
      rw [if_pos hp, if_pos hp, ih, List.cons_append, hdrop, List.takeWhile_append]
      split
      · rw [List.takeWhile_cons_of_neg hid, List.append_nil,
          (List.takeWhile_prefix _).eq_of_length ‹_›]
      · rfl
    · rw [if_neg hp, if_neg hp, ih]

theorem head?_links_iff (text id : List Char) :
    (links text).head? = some id ↔ FirstLink text id := by
  induction text with
  | nil =>
    refine ⟨fun h => (Option.some_ne_none id h.symm).elim, fun ⟨before, h, _⟩ => ?_⟩
    exact absurd h (not_linkAt_nil before id)
  | cons c cs ih =>
    rw [links]
    by_cases hp : codex_marker.isPrefixOf (c :: cs) = true
    · rw [if_pos hp, List.head?_cons, Option.some_inj]
      have hat := linkAt_nil_iff (c :: cs)
      rw [← List.isPrefixOf_iff_prefix] at hat
      constructor
      · intro hid
        exact ⟨[], (hat id).mpr ⟨hp, hid⟩, fun b i _ => Nat.zero_le _⟩
      · rintro ⟨before, h, hfirst⟩
        have hlen := hfirst [] _ ((hat _).mpr ⟨hp, rfl⟩)
        obtain rfl := List.length_eq_zero_iff.mp (Nat.le_zero.mp hlen)
        exact ((hat id).mp h).2
    · have hnil : ∀ i, ¬ LinkAt (c :: cs) [] i := fun i h =>
        hp (List.isPrefixOf_iff_prefix.mpr ((linkAt_nil_iff _ _).mp h).1)
      rw [if_neg hp, ih]
      constructor
      · rintro ⟨before, h, hfirst⟩
        refine ⟨c :: before, (linkAt_cons_iff c c cs before id).mpr ⟨rfl, h⟩, fun b i hb => ?_⟩
        cases b with
        | nil => exact absurd hb (hnil i)
        | cons d b => exact Nat.succ_le_succ (hfirst b i ((linkAt_cons_iff c d cs b i).mp hb).2)
      · rintro ⟨before, h, hfirst⟩
        cases before with
        | nil => exact absurd h (hnil id)
        | cons d before =>
          refine ⟨before, ((linkAt_cons_iff c d cs before id).mp h).2, fun b i hb => ?_⟩
          exact Nat.le_of_succ_le_succ
            (hfirst (c :: b) i ((linkAt_cons_iff c c cs b i).mpr ⟨rfl, hb⟩))

theorem links_eq_nil_iff (text : List Char) : links text = [] ↔ Linkless text := by
  rw [List.eq_nil_iff_forall_not_mem]
  refine ⟨fun h before id hat => ?_, fun h id hmem => ?_⟩
  · exact h id ((mem_links_iff text id).mpr ⟨before, hat⟩)
  · obtain ⟨before, hat⟩ := (mem_links_iff text id).mp hmem
    exact h before id hat

/-! ## The readers -/

theorem extract_codex_cid_eq (body : String) :
    extract_codex_cid body = String.ofList ((links body.toList).head?.getD []) := by
  have hafter : ∀ text, (after_codex text).map (List.takeWhile Char.isAlphanum) =
      (links text).head? := by
    intro text
    induction text with
    | nil => rfl
    | cons c cs ih =>
      rw [after_codex, links]
      split
      · rfl
      · exact ih
  rw [← hafter]
  unfold extract_codex_cid
  cases after_codex body.toList with
  | none => rfl
  | some tail => rfl

/-- The regular expression takes the first link that names something. -/
theorem captured_eq (text : List Char) : basecamp.captured text = (links text).find? (· ≠ []) := by
  induction text with
  | nil => rfl
  | cons c cs ih =>
    rw [basecamp.captured, links]
    by_cases hp : codex_marker.isPrefixOf (c :: cs) = true
    · by_cases hid : ((c :: cs).drop codex_marker.length).takeWhile Char.isAlphanum = []
      · rw [if_neg (fun h => h.2 hid), if_pos hp, hid, ih]
        simp
      · rw [if_pos ⟨hp, hid⟩, if_pos hp, List.find?_cons_of_pos (by simpa using hid)]
    · rw [if_neg (fun h => hp h.1), if_neg hp, ih]

/-! ## The law of the reference -/

/-- The CID of an upload. -/
structure Cid where
  text : String
  alphanumeric : ∀ c ∈ text.toList, c.isAlphanum

theorem links_eq_nil_of_alphanumeric {text : List Char} (h : ∀ c ∈ text, c.isAlphanum) :
    links text = [] := by
  rw [links_eq_nil_iff]
  rintro before id ⟨-, rest, rfl, -⟩
  have hmem : '/' ∈ codex_marker := by decide
  exact absurd (h '/' (by simp [hmem])) (by decide)

theorem codex_marker_eq : codex_marker = ['c', 'o', 'd', 'e', 'x', ':', '/', '/'] := by decide

theorem links_marker (cid : Cid) :
    links (codex_marker ++ cid.text.toList) = [cid.text.toList] := by
  have hid : cid.text.toList.takeWhile Char.isAlphanum = cid.text.toList :=
    List.takeWhile_eq_self_iff.mpr cid.alphanumeric
  have hrest := links_eq_nil_of_alphanumeric cid.alphanumeric
  rw [codex_marker_eq]
  simp [links, codex_marker_eq, hid, hrest]

/-- The trailer ends the links of the answer and adds its own. -/
theorem links_format_response (answer : String) (cid : Cid) :
    links (cli.format_response answer (some cid.text)).toList =
      links answer.toList ++ [cid.text.toList] := by
  have htrailer : "\n\n---\nexecution log: codex://".toList =
      '\n' :: ("\n---\nexecution log:".toList ++ ' ' :: codex_marker) := by decide
  have htext : (cli.format_response answer (some cid.text)).toList = answer.toList ++
      '\n' :: ("\n---\nexecution log:".toList ++ ' ' :: (codex_marker ++ cid.text.toList)) := by
    simp only [cli.format_response, String.toList_append, htrailer, List.append_assoc,
      List.cons_append]
  have hnewline : links ('\n' :: "\n---\nexecution log:".toList) = [] := by decide
  have hspace : links (' ' :: (codex_marker ++ cid.text.toList)) = [cid.text.toList] := by
    rw [links, codex_marker_eq, if_neg (by simp [List.isPrefixOf]), ← codex_marker_eq, links_marker]
  rw [htext, links_append (by decide) (by decide), ← List.cons_append,
    links_append (by decide) (by decide), hnewline, hspace, List.nil_append]

theorem ofList_eq_iff (l : List Char) (s : String) : String.ofList l = s ↔ l = s.toList := by
  constructor
  · rintro rfl
    exact String.toList_ofList.symm
  · rintro rfl
    exact String.ofList_toList

theorem find_named_eq_nil_iff (ids : List (List Char)) :
    (ids.find? (· ≠ [])).getD [] = [] ↔ ∀ id ∈ ids, id = [] := by
  cases hfind : ids.find? (· ≠ []) with
  | none => simpa using hfind
  | some id =>
    have hid : id ≠ [] := by simpa using List.find?_some hfind
    exact ⟨fun h => absurd h hid, fun h => absurd (h id (List.mem_of_find?_eq_some hfind)) hid⟩

/-- The first id that is not empty is the first of all. -/
theorem find_named_eq_head_iff (ids : List (List Char)) :
    (ids.find? (· ≠ [])).getD [] = ids.head?.getD [] ↔
      (ids.head? = some [] → ∀ id ∈ ids, id = []) := by
  cases ids with
  | nil => simp
  | cons id ids =>
    rw [List.head?_cons, Option.getD_some, Option.some_inj]
    by_cases hid : id = []
    · rw [hid, find_named_eq_nil_iff]
      exact ⟨fun h _ => h, fun h => h rfl⟩
    · rw [List.find?_cons_of_pos (by simpa using hid), Option.getD_some]
      exact ⟨fun _ h => absurd h hid, fun _ => rfl⟩

/-- The reference survives behind exactly the answers that have no link of
their own, or name the same id first. The two readers agree on exactly the
bodies whose first link names something, or none does. -/
theorem a_reference_is_read_back_iff (answer : String) (cid : Cid) (body : String) :
    (extract_codex_cid (cli.format_response answer (some cid.text)) = cid.text ↔
      Linkless answer.toList ∨ FirstLink answer.toList cid.text.toList) ∧
    ((basecamp.event_cid body).getD "" = extract_codex_cid body ↔
      (FirstLink body.toList [] → ∀ before id, LinkAt body.toList before id → id = [])) := by
  refine ⟨?_, ?_⟩
  case refine_1 =>
    rw [extract_codex_cid_eq, links_format_response, ofList_eq_iff, ← links_eq_nil_iff,
      ← head?_links_iff]
    cases links answer.toList with
    | nil => simp
    | cons id ids => simp
  case refine_2 =>
    have hempty : (∀ before id, LinkAt body.toList before id → id = []) ↔
        ∀ id ∈ links body.toList, id = [] := by
      simp only [mem_links_iff]
      constructor
      · rintro h id ⟨before, hat⟩
        exact h before id hat
      · rintro h before id hat
        exact h id ⟨before, hat⟩
    have hreader : (basecamp.event_cid body).getD "" =
        String.ofList (((links body.toList).find? (· ≠ [])).getD []) := by
      unfold basecamp.event_cid
      rw [captured_eq]
      cases (links body.toList).find? (· ≠ []) <;> rfl
    rw [extract_codex_cid_eq, hreader, String.ofList_inj, hempty, ← head?_links_iff]
    exact find_named_eq_head_iff _

/-- An answer with a link of its own hides the reference, and a body with an
empty link first divides the readers. -/
theorem a_reference_is_hidden :
    extract_codex_cid (cli.format_response "see codex://abc" (some "zDv")) ≠ "zDv" ∧
    (basecamp.event_cid "codex://, codex://abc").getD "" ≠
      extract_codex_cid "codex://, codex://abc" := by
  decide +kernel

end lmao.node
