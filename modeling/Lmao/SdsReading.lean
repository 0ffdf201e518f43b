-- The texts of SDS messages can be read back: no two messages have one text,
-- so there is a reader that returns each message that was written.
import Mathlib.Logic.Function.Basic
import Lmao.JsonReading
import Lmao.SdsMessage

namespace lmao.sds

open json
open json.Value (skip_none lookup_skip_none render_fields_skip_none render_list)

/-! ## The trees -/

/-- A field that is `null` without a value. -/
def optional {α : Type} (f : α → Value) : Option α → Value
  | none => .null
  | some a => f a

def HistoryEntry.tree (e : HistoryEntry) : Value :=
  .object ([("message_id", Value.str e.message_id),
    ("lamport_timestamp", Value.nat e.lamport_timestamp.toNat)] ++
    skip_none "retrieval_hint" Value.bytes e.retrieval_hint)

def history_tree (history : List HistoryEntry) : Value := .array (history.map HistoryEntry.tree)

def SdsMessage.tree_fields : SdsMessage → List (String × Value)
  | .Content m => [
      ("type", .str "Content"),
      ("message_id", .str m.message_id),
      ("channel_id", .str m.channel_id),
      ("sender_id", .str m.sender_id),
      ("lamport_timestamp", .nat m.lamport_timestamp.toNat),
      ("causal_history", history_tree m.causal_history),
      ("bloom_filter", optional Value.bytes m.bloom_filter),
      ("content", .bytes m.content),
      ("repair_request", history_tree m.repair_request)]
  | .Sync m => [
      ("type", .str "Sync"),
      ("message_id", .str m.message_id),
      ("channel_id", .str m.channel_id),
      ("sender_id", .str m.sender_id),
      ("lamport_timestamp", .nat m.lamport_timestamp.toNat),
      ("causal_history", history_tree m.causal_history),
      ("bloom_filter", optional Value.bytes m.bloom_filter),
      ("repair_request", history_tree m.repair_request)]
  | .Ephemeral m => [
      ("type", .str "Ephemeral"),
      ("message_id", .str m.message_id),
      ("channel_id", .str m.channel_id),
      ("sender_id", .str m.sender_id),
      ("causal_history", history_tree m.causal_history),
      ("bloom_filter", optional Value.bytes m.bloom_filter),
      ("content", .bytes m.content),
      ("repair_request", history_tree m.repair_request)]

theorem render_optional {α : Type} {f : α → Value} {text : α → Text}
    (h : ∀ a, (f a).render = text a) (o : Option α) :
    (optional f o).render = json.option text o := by
  cases o with
  | none => rfl
  | some a => exact h a

theorem HistoryEntry.render_tree (e : HistoryEntry) : e.tree.render = e.to_json := by
  simp [HistoryEntry.tree, HistoryEntry.to_json, Value.render, Value.render_fields,
    render_fields_skip_none Value.render_bytes]

theorem render_history_tree (history : List HistoryEntry) :
    (history_tree history).render = history_to_json history :=
  render_list HistoryEntry.render_tree history

theorem SdsMessage.to_vec_eq (m : SdsMessage) :
    m.to_vec = json.to_vec (Value.object m.tree_fields).render := by
  unfold SdsMessage.to_vec
  congr 1
  cases m <;>
    simp [SdsMessage.tree_fields, SdsMessage.to_json, Value.render, Value.render_fields,
      render_history_tree, render_optional Value.render_bytes, Value.render_bytes]

/-! ## One message for each text -/

theorem optional_bytes_injective : Function.Injective (optional Value.bytes) := by
  intro a b h
  cases a with
  | none =>
    cases b with
    | none => rfl
    | some b => cases h
  | some a =>
    cases b with
    | none => cases h
    | some b => rw [Value.bytes_injective h]

theorem HistoryEntry.tree_injective : Function.Injective HistoryEntry.tree := by
  intro e e' h
  have hfield := fun key => congrArg (List.lookup key) (Value.object.inj h)
  simp only [List.lookup_append, lookup_skip_none] at hfield
  have hid : e.message_id = e'.message_id := by
    simpa [List.lookup_cons] using hfield "message_id"
  have hts : e.lamport_timestamp.toNat = e'.lamport_timestamp.toNat := by
    simpa [List.lookup_cons] using hfield "lamport_timestamp"
  have hhint : e.retrieval_hint.map Value.bytes = e'.retrieval_hint.map Value.bytes := by
    simpa [List.lookup_cons] using hfield "retrieval_hint"
  have hts' := UInt64.toNat_inj.mp hts
  have hhint' := Option.map_injective Value.bytes_injective hhint
  cases e
  cases e'
  simp_all only

theorem history_tree_injective : Function.Injective history_tree := by
  intro a b h
  exact List.map_injective_iff.mpr HistoryEntry.tree_injective (Value.array.inj h)

/-- The tag tells the variants apart. -/
theorem SdsMessage.tree_fields_injective : Function.Injective SdsMessage.tree_fields := by
  intro m m' h
  cases m <;> cases m' <;> simp only [SdsMessage.tree_fields, List.cons.injEq, Prod.mk.injEq,
    Value.str.injEq, Value.nat.injEq, UInt64.toNat_inj, String.reduceEq, and_false, false_and,
    true_and, and_true, history_tree_injective.eq_iff, optional_bytes_injective.eq_iff,
    Value.bytes_injective.eq_iff] at h
  · rename_i a b
    cases a
    cases b
    simp_all only
  · rename_i a b
    cases a
    cases b
    simp_all only
  · rename_i a b
    cases a
    cases b
    simp_all only

theorem SdsMessage.to_vec_injective : Function.Injective SdsMessage.to_vec := by
  intro m m' h
  rw [SdsMessage.to_vec_eq, SdsMessage.to_vec_eq] at h
  have htree := Value.render_injective (json.to_vec_injective h)
  exact SdsMessage.tree_fields_injective (Value.object.inj htree)

/-- The reader of a table reads each message of the table. -/
theorem Wire.ofTable_reads {hashes : List (Bytes × MessageId)} {msgs : List SdsMessage}
    {m : SdsMessage} (h : m ∈ msgs) :
    (Wire.ofTable hashes msgs).sds_from_slice m.to_vec = some m := by
  rcases hread : (Wire.ofTable hashes msgs).sds_from_slice m.to_vec with _ | m'
  · have hnone := List.find?_eq_none.mp hread m h
    simp at hnone
  · have htext := List.find?_some hread
    rw [decide_eq_true_eq] at htext
    rw [SdsMessage.to_vec_injective htext]

/-- A reader that returns every message from the text that was written of it,
and nothing from any other text. -/
noncomputable def Wire.strict (compute_message_id : Bytes → MessageId) : Wire where
  compute_message_id
  sds_from_slice := Function.partialInv SdsMessage.to_vec
  ack_message_id _ := none

theorem Wire.strict_reads (compute_message_id : Bytes → MessageId) (m : SdsMessage) :
    (Wire.strict compute_message_id).sds_from_slice m.to_vec = some m :=
  Function.partialInv_left SdsMessage.to_vec_injective m

end lmao.sds
