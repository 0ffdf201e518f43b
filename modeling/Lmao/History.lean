-- The task-history log (history.rs): one JSON row a line, appended to a file.
-- A write can be cut off at any byte, and the log is read and written again
-- after that.
import Mathlib.Order.OrderDual
import Lmao.JsonReading
import Lmao.Machine
import Lmao.StableSort

namespace lmao.node.history

open json (Value)
open machine stable_sort

/-! ## Rows -/

/-- One persisted task-history row. -/
structure HistoryEntry where
  task_id : String
  parent_id : String
  created_at_ms : UInt64
  direction : String
  peer_pubkey : String
  peer_name : String
  capability : String
  text : String
  body : String
  cid : String
  success : Bool
  error : Option String
  elapsed_ms : UInt64
  session_id : String
deriving DecidableEq, Repr

namespace HistoryEntry

def tree_fields (e : HistoryEntry) : List (String × Value) :=
  [("task_id", .str e.task_id), ("parent_id", .str e.parent_id),
    ("created_at_ms", .nat e.created_at_ms.toNat), ("direction", .str e.direction),
    ("peer_pubkey", .str e.peer_pubkey), ("peer_name", .str e.peer_name),
    ("capability", .str e.capability), ("text", .str e.text), ("body", .str e.body),
    ("cid", .str e.cid), ("success", .bool e.success),
    ("error", e.error.elim .null .str), ("elapsed_ms", .nat e.elapsed_ms.toNat),
    ("session_id", .str e.session_id)]

/-- `serde_json::to_string` of a row. -/
def to_json (e : HistoryEntry) : json.Text := (Value.object e.tree_fields).render

/-- The bytes of an append: the row and a newline. -/
def line (e : HistoryEntry) : Bytes := json.to_vec e.to_json ++ [10]

theorem tree_fields_injective : Function.Injective tree_fields := by
  intro e e' h
  have herror : ∀ a b : Option String,
      (a.elim Value.null Value.str = b.elim Value.null Value.str) → a = b := by
    rintro (_ | a) (_ | b) hab <;> simp_all
  cases e
  cases e'
  simp only [tree_fields, List.cons.injEq, Prod.mk.injEq, Value.str.injEq, Value.nat.injEq,
    Value.bool.injEq, UInt64.toNat_inj, true_and, and_true] at h
  have hsame := herror _ _ h.2.2.2.2.2.2.2.2.2.2.2.1
  simp_all

theorem to_json_injective : Function.Injective to_json := by
  intro e e' h
  exact tree_fields_injective (Value.object.inj (Value.render_injective h))

end HistoryEntry

/-- Filters for `list`. -/
structure HistoryFilter where
  direction : Option String
  capability : Option String
  since_ms : Option UInt64

/-- No filter. -/
def HistoryFilter.default : HistoryFilter :=
  { direction := none, capability := none, since_ms := none }

def HistoryFilter.keeps (filter : HistoryFilter) (e : HistoryEntry) : Bool :=
  (filter.direction.all fun d => e.direction == d) &&
  (filter.capability.all fun c => e.capability == c) &&
  (filter.since_ms.all fun s => s ≤ e.created_at_ms)

/-! ## Lines -/

/-- A file that holds something else than UTF-8. -/
inductive IoError
  | InvalidData
deriving DecidableEq, Repr

/-- The carriage return before a newline goes with it. -/
def strip_cr (line : Bytes) : Bytes := if line.getLast? = some 13 then line.dropLast else line

/-- The lines of a file. The last one needs no newline, and keeps its carriage
return. -/
def lines : Bytes → Bytes → List Bytes
  | acc, [] => if acc = [] then [] else [acc]
  | acc, b :: bs => if b = 10 then strip_cr acc :: lines [] bs else lines (acc ++ [b]) bs

def from_utf8 (bs : Bytes) : Option String := String.fromUTF8? bs.toByteArray

/-- The characters of Unicode that are white space. -/
def is_whitespace (c : Char) : Bool :=
  let n := c.toNat
  (9 ≤ n && n ≤ 13) || n == 32 || n == 0x85 || n == 0xa0 || n == 0x1680 ||
    (0x2000 ≤ n && n ≤ 0x200a) || n == 0x2028 || n == 0x2029 || n == 0x202f || n == 0x205f ||
    n == 0x3000

def trim (s : String) : String :=
  String.ofList
    (((s.toList.dropWhile is_whitespace).reverse.dropWhile is_whitespace).reverse)

/-! ## The code -/

section Code

variable (from_str : String → Option HistoryEntry)

/-- The rows of the lines, up to a line that is no UTF-8. Lines that do not
parse are skipped. -/
def list_loop (filter : HistoryFilter) : List Bytes → Except IoError (List HistoryEntry)
  | [] => .ok []
  | raw :: rest =>
    match from_utf8 raw with
    | none => .error .InvalidData
    | some line =>
      match list_loop filter rest with
      | .error e => .error e
      | .ok all =>
        if trim line = "" then .ok all
        else
          match from_str line with
          | none => .ok all
          | some entry => if filter.keeps entry then .ok (entry :: all) else .ok all

/-- Newest entries first. There is no file before the first append. -/
def list (file : Option Bytes) (limit offset : Nat) (filter : HistoryFilter) :
    Except IoError (List HistoryEntry) :=
  match file with
  | none => .ok []
  | some content =>
    match list_loop from_str filter (lines [] content) with
    | .error e => .error e
    | .ok all =>
      .ok (((sort_by_key (fun e => OrderDual.toDual e.created_at_ms.toNat) all).drop offset).take
        limit)

/-- The last match wins. -/
def get_loop (task_id : String) :
    Option HistoryEntry → List Bytes → Except IoError (Option HistoryEntry)
  | found, [] => .ok found
  | found, raw :: rest =>
    match from_utf8 raw with
    | none => .error .InvalidData
    | some line =>
      match from_str (trim line) with
      | none => get_loop task_id found rest
      | some entry => get_loop task_id (if entry.task_id = task_id then some entry else found) rest

def get (file : Option Bytes) (task_id : String) : Except IoError (Option HistoryEntry) :=
  match file with
  | none => .ok none
  | some content => get_loop from_str task_id none (lines [] content)

end Code

/-- An append whose write is cut off after `n` bytes. -/
def append_cut (file : Option Bytes) (entry : HistoryEntry) (n : Nat) : Option Bytes :=
  some (file.getD [] ++ entry.line.take n)

def append (file : Option Bytes) (entry : HistoryEntry) : Option Bytes :=
  append_cut file entry entry.line.length

/-! ## What a row looks like in the file -/

theorem fromUTF8_toByteArray (s : String) : String.fromUTF8? s.toByteArray = some s := by
  unfold String.fromUTF8?
  rw [dif_pos s.isValidUTF8]
  rfl

theorem from_utf8_to_vec (t : json.Text) : from_utf8 (json.to_vec t) = some (String.ofList t) := by
  have hbytes : (json.to_vec t).toByteArray = (String.ofList t).toByteArray := by
    rw [String.toByteArray_ofList]
    rfl
  rw [from_utf8, hbytes, fromUTF8_toByteArray]

theorem trim_braces (t : json.Text) :
    trim (String.ofList ([Char.ofNat 123] ++ t ++ [Char.ofNat 125])) =
      String.ofList ([Char.ofNat 123] ++ t ++ [Char.ofNat 125]) := by
  have hopen : is_whitespace (Char.ofNat 123) = false := by decide
  have hclose : is_whitespace (Char.ofNat 125) = false := by decide
  unfold trim
  rw [String.toList_ofList]
  simp [hopen, hclose]

theorem strip_cr_printable {xs : Bytes} (h : ∀ b ∈ xs, 32 ≤ b.toNat) : strip_cr xs = xs := by
  unfold strip_cr
  rw [if_neg]
  intro hlast
  exact absurd (h 13 (List.mem_of_getLast? hlast)) (by decide)

theorem newline_not_mem_printable {xs : Bytes} (h : ∀ b ∈ xs, 32 ≤ b.toNat) : 10 ∉ xs := by
  intro hmem
  exact absurd (h 10 hmem) (by decide)

namespace HistoryEntry

theorem row_printable (e : HistoryEntry) : ∀ b ∈ json.to_vec e.to_json, 32 ≤ b.toNat :=
  json.to_vec_printable (Value.render_printable _)

/-- A row holds no newline. -/
theorem newline_not_mem_row (e : HistoryEntry) : 10 ∉ json.to_vec e.to_json :=
  newline_not_mem_printable e.row_printable

theorem strip_cr_row (e : HistoryEntry) :
    strip_cr (json.to_vec e.to_json) = json.to_vec e.to_json :=
  strip_cr_printable e.row_printable

theorem from_utf8_row (e : HistoryEntry) :
    from_utf8 (json.to_vec e.to_json) = some (String.ofList e.to_json) :=
  from_utf8_to_vec e.to_json

theorem to_json_eq (e : HistoryEntry) :
    ∃ t, e.to_json = [Char.ofNat 123] ++ t ++ [Char.ofNat 125] := by
  refine ⟨((e.tree_fields.map Value.render_field).intersperse [',']).flatten, ?_⟩
  rw [to_json, Value.render_object, List.append_assoc]

theorem row_length_lt (e : HistoryEntry) : (json.to_vec e.to_json).length < e.line.length := by
  simp [line]

theorem take_line (e : HistoryEntry) :
    e.line.take (json.to_vec e.to_json).length = json.to_vec e.to_json := by
  simp [line]

theorem take_one (e : HistoryEntry) : e.line.take 1 = [123] := by
  obtain ⟨t, ht⟩ := to_json_eq e
  rw [line, ht, json.to_vec, List.flatMap_append, List.flatMap_append]
  rfl

theorem one_lt_line (e : HistoryEntry) : 1 < e.line.length := by
  obtain ⟨t, ht⟩ := to_json_eq e
  have hrow : 0 < (json.to_vec e.to_json).length := by
    rw [ht, json.to_vec, List.append_assoc, List.flatMap_append, List.length_append]
    exact Nat.add_pos_left (by decide) _
  have hlt := row_length_lt e
  omega

theorem trim_row (e : HistoryEntry) : trim (String.ofList e.to_json) = String.ofList e.to_json := by
  obtain ⟨t, ht⟩ := to_json_eq e
  rw [ht]
  exact trim_braces t

theorem row_not_blank (e : HistoryEntry) : String.ofList e.to_json ≠ "" := by
  obtain ⟨t, ht⟩ := to_json_eq e
  intro h
  have hlist := congrArg String.toList h
  rw [String.toList_ofList, ht] at hlist
  simp at hlist

end HistoryEntry

/-! ## Reading whole rows -/

theorem lines_append_newline {xs : Bytes} (h : 10 ∉ xs) (acc rest : Bytes) :
    lines acc (xs ++ 10 :: rest) = strip_cr (acc ++ xs) :: lines [] rest := by
  induction xs generalizing acc with
  | nil => simp [lines]
  | cons b xs ih =>
    simp only [List.mem_cons, not_or] at h
    rw [List.cons_append, lines, if_neg (Ne.symm h.1), ih h.2, List.append_assoc,
      List.singleton_append]

theorem lines_of_no_newline {xs : Bytes} (h : 10 ∉ xs) (acc : Bytes) :
    lines acc xs = if acc ++ xs = [] then [] else [acc ++ xs] := by
  induction xs generalizing acc with
  | nil => simp [lines]
  | cons b xs ih =>
    simp only [List.mem_cons, not_or] at h
    rw [lines, if_neg (Ne.symm h.1), ih h.2, List.append_assoc, List.singleton_append]

/-- The lines of whole rows with something behind them. -/
theorem lines_rows (entries : List HistoryEntry) {tail : Bytes} (h : 10 ∉ tail) :
    lines [] (entries.flatMap HistoryEntry.line ++ tail) =
      entries.map (fun e => json.to_vec e.to_json) ++ if tail = [] then [] else [tail] := by
  induction entries with
  | nil => simp [lines_of_no_newline h]
  | cons e entries ih =>
    have hfirst := lines_append_newline e.newline_not_mem_row []
      (entries.flatMap HistoryEntry.line ++ tail)
    simp only [List.flatMap_cons, HistoryEntry.line, List.append_assoc, List.cons_append,
      List.nil_append, List.map_cons] at hfirst ih ⊢
    rw [hfirst, ih, HistoryEntry.strip_cr_row]

/-- The bytes behind the last newline of a file. -/
def tail (content : Bytes) : Bytes := (content.reverse.takeWhile (· ≠ 10)).reverse

theorem tail_rows (entries : List HistoryEntry) {t : Bytes} (h : 10 ∉ t) :
    tail (entries.flatMap HistoryEntry.line ++ t) = t := by
  have hall : ∀ b ∈ t.reverse, decide (b ≠ 10) = true := by
    intro b hb
    simp only [decide_eq_true_eq]
    rintro rfl
    exact h (List.mem_reverse.1 hb)
  unfold tail
  rw [List.reverse_append, List.takeWhile_append_of_pos hall]
  rcases List.eq_nil_or_concat' entries with rfl | ⟨front, e, rfl⟩
  · simp
  · simp [HistoryEntry.line]

section Readers

variable {from_str : String → Option HistoryEntry}

/-- The readers pass over these bytes at the end of a file: there are none, or
they are a text that is no row. -/
def Skipped (from_str : String → Option HistoryEntry) (tail : Bytes) : Prop :=
  tail = [] ∨ ∃ s, from_utf8 tail = some s ∧ (trim s = "" ∨ from_str s = none) ∧
    from_str (trim s) = none

theorem keeps_default (e : HistoryEntry) : HistoryFilter.default.keeps e = true := rfl

theorem list_loop_rows (hserde : ∀ e, from_str (String.ofList e.to_json) = some e)
    (entries : List HistoryEntry) {t : Bytes} (h : Skipped from_str t) :
    list_loop from_str .default
      (entries.map (fun e => json.to_vec e.to_json) ++ if t = [] then [] else [t]) =
        .ok entries := by
  induction entries with
  | nil =>
    rcases h with rfl | ⟨s, hs, hskip, -⟩
    · rfl
    · by_cases ht : t = []
      · simp [ht, list_loop]
      · simp only [List.map_nil, List.nil_append, if_neg ht, list_loop, hs]
        rcases hskip with hblank | hnone
        · rw [if_pos hblank]
        · split
          · rfl
          · rw [hnone]
  | cons e entries ih =>
    rw [List.map_cons, List.cons_append, list_loop, HistoryEntry.from_utf8_row, ih]
    simp only [HistoryEntry.trim_row, e.row_not_blank, if_false, hserde, keeps_default, if_true]

theorem get_loop_rows (hserde : ∀ e, from_str (String.ofList e.to_json) = some e)
    (task_id : String) (entries : List HistoryEntry) {t : Bytes} (h : Skipped from_str t)
    (found : Option HistoryEntry) :
    get_loop from_str task_id found
      (entries.map (fun e => json.to_vec e.to_json) ++ if t = [] then [] else [t]) =
        .ok (((entries.filter fun e => e.task_id = task_id).getLast?).or found) := by
  induction entries generalizing found with
  | nil =>
    rcases h with rfl | ⟨s, hs, -, hnone⟩
    · rfl
    · by_cases ht : t = []
      · simp [ht, get_loop]
      · simp only [List.map_nil, List.nil_append, if_neg ht, get_loop, hs, hnone]
        rfl
  | cons e entries ih =>
    rw [List.map_cons, List.cons_append, get_loop, HistoryEntry.from_utf8_row]
    simp only [HistoryEntry.trim_row, hserde, ih]
    by_cases hid : e.task_id = task_id
    · simp only [hid, if_true, List.filter_cons, decide_true, List.getLast?_cons]
      generalize (entries.filter _).getLast? = last
      cases last <;> rfl
    · simp [hid]

end Readers

/-! ## Runs of appends -/

/-- The file of the log, and the rows whose append was written to its end. -/
structure Log where
  file : Option Bytes
  written : List HistoryEntry

/-- `torn` is an append that is cut off after `n` bytes, before its end. -/
inductive LogOp
  | append (entry : HistoryEntry)
  | torn (entry : HistoryEntry) (n : Nat) (short : n < entry.line.length)

namespace Log

def new : Log := { file := none, written := [] }

def step (s : Log) : LogOp → Except Empty (Log × List Unit)
  | .append entry =>
    .ok ({ file := history.append s.file entry, written := s.written ++ [entry] }, [])
  | .torn entry n _ => .ok ({ s with file := append_cut s.file entry n }, [])

variable (from_str : String → Option HistoryEntry)

/-- `list` gives the rows that were written to their end and no other, newest
first and in the order of the log among rows of one time, and `get` gives the
last of a task. -/
structure Intact (s : Log) : Prop where
  list : ∀ limit, s.written.length ≤ limit →
    ∃ rows, history.list from_str s.file limit 0 .default = .ok rows ∧
      Sorts (fun e => OrderDual.toDual e.created_at_ms.toNat) s.written rows
  get : ∀ task_id, history.get from_str s.file task_id =
    .ok (s.written.filter fun e => e.task_id = task_id).getLast?

/-- A row is written only behind a newline or to an empty file, and a write that
is cut off leaves bytes that the readers pass over. -/
def Survives (_ : List Unit) (s : Log) : LogOp → Prop
  | .append _ => tail (s.file.getD []) = []
  | .torn entry n _ => Skipped from_str (tail (s.file.getD []) ++ entry.line.take n)

/-- The file holds the written rows, and behind them bytes that the readers pass
over. -/
def Whole (s : Log) : Prop :=
  ∃ t, s.file.getD [] = s.written.flatMap HistoryEntry.line ++ t ∧ 10 ∉ t ∧ Skipped from_str t

variable {from_str}

theorem Whole.intact (hserde : ∀ e, from_str (String.ofList e.to_json) = some e) {s : Log}
    (h : Whole from_str s) : Intact from_str s := by
  obtain ⟨t, hfile, hnl, hskip⟩ := h
  have hlines := lines_rows s.written hnl
  rcases hs : s.file with _ | content
  · -- There is no file yet, so nothing was written.
    rw [hs, Option.getD_none] at hfile
    obtain ⟨hrows, rfl⟩ := List.append_eq_nil_iff.1 hfile.symm
    have hnone : s.written = [] := by
      rcases hw : s.written with _ | ⟨e, entries⟩
      · rfl
      · rw [hw] at hrows
        simp [HistoryEntry.line] at hrows
    refine ⟨fun limit _ => ⟨[], by rw [hs]; rfl, ?_⟩, fun task_id => by rw [hs, hnone]; rfl⟩
    rw [hnone]
    exact sort_by_key_sorts _ []
  · rw [hs, Option.getD_some] at hfile
    subst hfile
    constructor
    · intro limit hlimit
      refine ⟨_, ?_, sort_by_key_sorts _ s.written⟩
      simp only [history.list, hs, hlines, list_loop_rows hserde s.written hskip, List.drop_zero]
      rw [List.take_of_length_le]
      rw [(perm_sort_by_key _ s.written).length_eq]
      exact hlimit
    · intro task_id
      simp only [history.get, hs, hlines, get_loop_rows hserde task_id s.written hskip none,
        Option.or_none]

theorem Whole.step {s s' : Log} {op : LogOp} {log out : List Unit} (h : Whole from_str s)
    (hcond : Survives from_str log s op) (hs : s.step op = .ok (s', out)) : Whole from_str s' := by
  obtain ⟨t, hfile, hnl, hskip⟩ := h
  have htail : tail (s.file.getD []) = t := by rw [hfile, tail_rows s.written hnl]
  cases op with
  | append entry =>
    simp only [Log.step, Except.ok.injEq, Prod.mk.injEq] at hs
    obtain ⟨rfl, -⟩ := hs
    rw [Survives, htail] at hcond
    subst hcond
    refine ⟨[], ?_, by simp, .inl rfl⟩
    simp [history.append, append_cut, hfile]
  | torn entry n short =>
    simp only [Log.step, Except.ok.injEq, Prod.mk.injEq] at hs
    obtain ⟨rfl, -⟩ := hs
    rw [Survives, htail] at hcond
    refine ⟨t ++ entry.line.take n, ?_, ?_, hcond⟩
    · simp [append_cut, hfile]
    · have hn : n ≤ (json.to_vec entry.to_json).length := by
        simp only [HistoryEntry.line, List.length_append, List.length_singleton] at short
        omega
      intro hmem
      rcases List.mem_append.1 hmem with hmem | hmem
      · exact hnl hmem
      · simp only [HistoryEntry.line, List.take_append_of_le_length hn] at hmem
        exact entry.newline_not_mem_row (List.mem_of_mem_take hmem)

end Log

/-- In a run in which rows are appended only behind a newline, and cut-off
writes leave bytes that are no row, the log is intact in every state. -/
theorem the_log_survives_writes_cut_off_at_its_end {from_str : String → Option HistoryEntry}
    (hserde : ∀ e, from_str (String.ofList e.to_json) = some e) {ops : List LogOp}
    (hm : Meets Log.step (Log.Survives from_str) .new ops) :
    ∀ before after, ops = before ++ after →
      Returns (run Log.step .new before) fun r => Log.Intact from_str r.1 := by
  rintro before after rfl
  obtain ⟨⟨s, log⟩, hr⟩ := ends_ok (run Log.step .new before)
  have hnew : Log.Whole from_str .new := ⟨[], rfl, by simp, .inl rfl⟩
  have hwhole : Log.Whole from_str s := by
    refine run_invariant_of_meets (I := fun _ s => Log.Whole from_str s) hnew ?_ hm.of_append hr
    intro log s op s' out hi hc hs
    exact hi.step hc hs
  exact ⟨_, hr, hwhole.intact hserde⟩

/-! ## A row without its newline -/

/-- Two rows on one line are no row. -/
theorem lines_of_two_rows (a b : HistoryEntry) :
    lines [] (json.to_vec a.to_json ++ b.line) = [json.to_vec (a.to_json ++ b.to_json)] := by
  have hprint : ∀ x ∈ json.to_vec a.to_json ++ json.to_vec b.to_json, 32 ≤ x.toNat := by
    intro x hx
    rcases List.mem_append.1 hx with hx | hx
    · exact a.row_printable x hx
    · exact b.row_printable x hx
  have hline := lines_append_newline (newline_not_mem_printable hprint) [] []
  rw [HistoryEntry.line, ← List.append_assoc, hline, List.nil_append, strip_cr_printable hprint]
  simp [lines, json.to_vec]

theorem trim_of_two_rows (a b : HistoryEntry) :
    trim (String.ofList (a.to_json ++ b.to_json)) = String.ofList (a.to_json ++ b.to_json) := by
  obtain ⟨t, ht⟩ := a.to_json_eq
  obtain ⟨u, hu⟩ := b.to_json_eq
  have htext : a.to_json ++ b.to_json =
      [Char.ofNat 123] ++ (t ++ [Char.ofNat 125] ++ [Char.ofNat 123] ++ u) ++
        [Char.ofNat 125] := by
    rw [ht, hu]
    simp only [List.append_assoc]
  rw [htext]
  exact trim_braces _

/-- A row behind a row that was written without its newline. -/
theorem append_after_row (a b : HistoryEntry) :
    append (append_cut none a (json.to_vec a.to_json).length) b =
      some (json.to_vec a.to_json ++ b.line) := by
  simp only [append, append_cut, Option.getD_none, Option.getD_some, List.nil_append,
    HistoryEntry.take_line, List.take_length]

section Glued

variable {from_str : String → Option HistoryEntry} {a b : HistoryEntry}

/-- When the newline of a row is not written, neither that row nor the next one
is found. -/
theorem glued_rows_not_listed (h : from_str (String.ofList (a.to_json ++ b.to_json)) = none)
    (limit : Nat) :
    list from_str (some (json.to_vec a.to_json ++ b.line)) limit 0 .default = .ok [] := by
  have hloop : list_loop from_str .default (lines [] (json.to_vec a.to_json ++ b.line)) =
      .ok [] := by
    rw [lines_of_two_rows]
    simp only [list_loop, from_utf8_to_vec, h]
    split <;> rfl
  simp only [list, hloop]
  simp [sort_by_key]

theorem glued_rows_not_found (h : from_str (String.ofList (a.to_json ++ b.to_json)) = none)
    (task_id : String) :
    get from_str (some (json.to_vec a.to_json ++ b.line)) task_id = .ok none := by
  simp only [get, lines_of_two_rows, get_loop, from_utf8_to_vec, trim_of_two_rows, h]

end Glued

namespace Sample

/-- A row with a task id and nothing else. -/
def row (task_id : String) (created_at_ms : UInt64) : HistoryEntry :=
  { task_id, created_at_ms
    parent_id := "", direction := "received", peer_pubkey := "", peer_name := "", capability := ""
    text := "", body := "", cid := "", success := true, error := none, elapsed_ms := 0
    session_id := "" }

/-- A reader that knows the texts that were written and no other. -/
noncomputable def from_str (s : String) : Option HistoryEntry :=
  Function.partialInv (fun e : HistoryEntry => String.ofList e.to_json) s

theorem from_str_row (e : HistoryEntry) : from_str (String.ofList e.to_json) = some e := by
  have hinj : Function.Injective fun e : HistoryEntry => String.ofList e.to_json :=
    fun _ _ h => HistoryEntry.to_json_injective (String.ofList_injective h)
  exact Function.partialInv_left hinj e

theorem from_str_eq_none {t : json.Text} (h : ∀ e : HistoryEntry, e.to_json ≠ t) :
    from_str (String.ofList t) = none := by
  unfold from_str Function.partialInv
  rw [dif_neg]
  rintro ⟨e, he⟩
  exact h e (String.ofList_injective he)

/-- The text of an object tells where it ends, so nothing goes on behind it. -/
theorem from_str_two_rows (a b : HistoryEntry) :
    from_str (String.ofList (a.to_json ++ b.to_json)) = none := by
  apply from_str_eq_none
  intro e he
  have hread := Value.object_reads (Value.render_reads_fields a.tree_fields) e.tree_fields
    b.to_json [] trivial trivial (by simpa [HistoryEntry.to_json] using he.symm)
  obtain ⟨t, ht⟩ := b.to_json_eq
  rw [ht] at hread
  simp at hread

end Sample

/-- The newline of a row is not written. The next row, which is written to its
end, is lost. -/
theorem a_torn_row_takes_the_next_one_with_it :
    Returns (run Log.step .new
      [.torn (Sample.row "a" 1) (json.to_vec (Sample.row "a" 1).to_json).length
        (HistoryEntry.row_length_lt _), .append (Sample.row "b" 2)]) fun r =>
          r.1.written = [Sample.row "b" 2] ∧
          list Sample.from_str r.1.file 100 0 .default = .ok [] ∧
          get Sample.from_str r.1.file "b" = .ok none := by
  have hfile := append_after_row (Sample.row "a" 1) (Sample.row "b" 2)
  have hnone := Sample.from_str_two_rows (Sample.row "a" 1) (Sample.row "b" 2)
  refine ⟨({ file := some _, written := [Sample.row "b" 2] }, []), ?_, rfl,
    glued_rows_not_listed hnone 100, glued_rows_not_found hnone "b"⟩
  rw [← hfile]
  rfl

/-- A row is written, and the next write is cut off after its first byte. -/
theorem a_torn_row_at_the_end_is_passed_over :
    Meets Log.step (Log.Survives Sample.from_str) .new [.append (Sample.row "b" 2),
        .torn (Sample.row "a" 1) 1 (HistoryEntry.one_lt_line _)] ∧
      Returns (run Log.step .new [.append (Sample.row "b" 2),
          .torn (Sample.row "a" 1) 1 (HistoryEntry.one_lt_line _)])
        fun r => Log.Intact Sample.from_str r.1 := by
  have hbytes : tail ((append none (Sample.row "b" 2)).getD []) ++ (Sample.row "a" 1).line.take 1 =
      [123] := by
    have htail := tail_rows [Sample.row "b" 2] (List.not_mem_nil (a := 10))
    simp only [List.flatMap_cons, List.flatMap_nil, List.append_nil] at htail
    simp only [append, append_cut, Option.getD_none, Option.getD_some, List.nil_append,
      List.take_length, htail, HistoryEntry.take_one]
  have hopen : Sample.from_str (String.ofList [Char.ofNat 123]) = none := by
    apply Sample.from_str_eq_none
    intro e he
    obtain ⟨t, ht⟩ := e.to_json_eq
    rw [ht] at he
    simp at he
  have hmeets : Meets Log.step (Log.Survives Sample.from_str) .new [.append (Sample.row "b" 2),
      .torn (Sample.row "a" 1) 1 (HistoryEntry.one_lt_line _)] := by
    rw [meets_iff_meetsFrom]
    refine ⟨rfl, ?_, trivial⟩
    change Skipped Sample.from_str
      (tail ((append none (Sample.row "b" 2)).getD []) ++ (Sample.row "a" 1).line.take 1)
    rw [hbytes]
    refine .inr ⟨String.ofList [Char.ofNat 123], by decide, .inr hopen, ?_⟩
    have htrim : trim (String.ofList [Char.ofNat 123]) = String.ofList [Char.ofNat 123] := by
      decide
    rw [htrim]
    exact hopen
  refine ⟨hmeets, ?_⟩
  exact the_log_survives_writes_cut_off_at_its_end Sample.from_str_row hmeets _ []
    (List.append_nil _).symm

end lmao.node.history
