-- Streamed answers (streaming.rs): a node publishes the chunks of an answer one
-- by one, and another one polls for them, keeps what it got sorted by index,
-- and puts the text together once it has the final chunk.
import Mathlib.Data.Finset.Basic
import Lmao.Offload
import Lmao.StableSort

namespace lmao

/-- The content topic of the stream of a task. -/
def stream_topic (task_id : String) : String := "/lmao/1/stream-" ++ task_id ++ "/proto"

end lmao

namespace lmao.node

open sds stable_sort

/-! ## The code -/

/-- The chunk at index `i` of `total`. The index is cut to 32 bits. -/
def stream_chunk (task_id : String) (total i : Nat) (text : String) : TaskStreamChunk :=
  { task_id, chunk_index := UInt32.ofNat i, text, is_final := i == total - 1 }

/-- The chunks from index `i` on. `publish` says what the transport answers at
each index. -/
def publish_chunks (task_id : String) (total : Nat) (publish : Nat → Option TransportError) :
    Nat → List String → List (String × Bytes) × Except NodeError Unit
  | _, [] => ([], .ok ())
  | i, text :: chunks =>
    match publish i with
    | some e => ([], .error (.Transport e))
    | none =>
      let envelope := A2AEnvelope.StreamChunk (stream_chunk task_id total i text)
      let r := publish_chunks task_id total publish (i + 1) chunks
      ((stream_topic task_id, envelope.to_vec) :: r.1, r.2)

/-- Publish a sequence of stream chunks for a task: what is published, and the
answer. -/
def respond_stream (task : Task) (chunks : List String) (publish : Nat → Option TransportError) :
    List (String × Bytes) × Except NodeError Unit :=
  publish_chunks task.id chunks.length publish 0 chunks

/-- What a node keeps of streams: the tasks whose stream it reads, and the
chunks that came. -/
structure Streams where
  stream_rx : Finset String
  stream_chunks : AList fun _ : String => List TaskStreamChunk

namespace Streams

def new : Streams := { stream_rx := ∅, stream_chunks := ∅ }

/-- The chunks that are kept for a task. -/
def buffer (s : Streams) (task_id : String) : List TaskStreamChunk :=
  (s.stream_chunks.lookup task_id).getD []

/-- The chunk of the task that a message holds, if it holds one. -/
def read_chunk (L : Libs) (task_id : String) (msg : Bytes) : Option TaskStreamChunk :=
  match L.envelope_from_slice msg with
  | some (.StreamChunk chunk) => if chunk.task_id = task_id then some chunk else none
  | _ => none

/-- Avoid duplicates by index. -/
def push_new (entry : List TaskStreamChunk) (chunk : TaskStreamChunk) : List TaskStreamChunk :=
  if entry.any fun c => c.chunk_index == chunk.chunk_index then entry else entry ++ [chunk]

/-- Poll for the chunks of a task. `subscribe` is the error of the subscription,
which is opened on the first call, and `drained` is what waits in it. -/
def poll_stream_chunks (L : Libs) (s : Streams) (task_id : String)
    (subscribe : Option TransportError) (drained : List Bytes) :
    Streams × Except NodeError (List TaskStreamChunk) :=
  match if task_id ∈ s.stream_rx then none else subscribe with
  | some e => (s, .error (.Transport e))
  | none =>
    let new_chunks := drained.filterMap (read_chunk L task_id)
    let entry := sort_by_key (fun c => c.chunk_index.toNat)
      (new_chunks.foldl push_new (s.buffer task_id))
    ({ stream_rx := insert task_id s.stream_rx
       stream_chunks := s.stream_chunks.insert task_id entry }, .ok entry)

/-- Reassemble the buffered chunks of a task into one text. -/
def reassemble_stream (s : Streams) (task_id : String) : Option String :=
  match s.stream_chunks.lookup task_id with
  | none => none
  | some chunks =>
    if chunks.isEmpty then none
    else if !(chunks.any TaskStreamChunk.is_final) then none
    else some (String.join (chunks.map TaskStreamChunk.text))

/-! ## One poll -/

variable {L : Libs} {s : Streams} {task_id : String}

/-- The kept chunks stand in the order of their indices, none of them twice. -/
def StrictlySorted (chunks : List TaskStreamChunk) : Prop :=
  chunks.Pairwise fun c d => c.chunk_index < d.chunk_index

theorem push_new_distinct {entry : List TaskStreamChunk}
    (h : entry.Pairwise fun c d => c.chunk_index.toNat ≠ d.chunk_index.toNat)
    (chunk : TaskStreamChunk) :
    (push_new entry chunk).Pairwise fun c d => c.chunk_index.toNat ≠ d.chunk_index.toNat := by
  unfold push_new
  split
  · exact h
  · rename_i hnew
    simp only [List.any_eq_true, beq_iff_eq, not_exists, not_and] at hnew
    refine List.pairwise_append.2 ⟨h, List.pairwise_singleton _ _, ?_⟩
    intro c hc d hd
    rw [List.mem_singleton] at hd
    subst hd
    exact fun heq => hnew c hc (UInt32.toNat_inj.1 heq)

theorem foldl_push_new_distinct (chunks : List TaskStreamChunk) {entry : List TaskStreamChunk}
    (h : entry.Pairwise fun c d => c.chunk_index.toNat ≠ d.chunk_index.toNat) :
    (chunks.foldl push_new entry).Pairwise
      fun c d => c.chunk_index.toNat ≠ d.chunk_index.toNat := by
  induction chunks generalizing entry with
  | nil => exact h
  | cons c chunks ih => exact ih (push_new_distinct h c)

theorem mem_push_new {entry : List TaskStreamChunk} {chunk c : TaskStreamChunk}
    (h : c ∈ push_new entry chunk) : c ∈ entry ∨ c = chunk := by
  unfold push_new at h
  split at h
  · exact .inl h
  · simpa using h

theorem index_push_new (entry : List TaskStreamChunk) (chunk : TaskStreamChunk) :
    ∃ d ∈ push_new entry chunk, d.chunk_index = chunk.chunk_index := by
  unfold push_new
  split
  · rename_i hold
    simpa using hold
  · exact ⟨chunk, by simp, rfl⟩

theorem subset_push_new (entry : List TaskStreamChunk) (chunk : TaskStreamChunk) :
    entry ⊆ push_new entry chunk := by
  unfold push_new
  split
  · exact fun c hc => hc
  · exact List.subset_append_left _ _

theorem subset_foldl_push_new (chunks entry : List TaskStreamChunk) :
    entry ⊆ chunks.foldl push_new entry := by
  induction chunks generalizing entry with
  | nil => exact fun c hc => hc
  | cons x chunks ih => exact fun c hc => ih _ (subset_push_new entry x hc)

theorem mem_foldl_push_new {chunks entry : List TaskStreamChunk} {c : TaskStreamChunk}
    (h : c ∈ chunks.foldl push_new entry) : c ∈ entry ∨ c ∈ chunks := by
  induction chunks generalizing entry with
  | nil => exact .inl h
  | cons x chunks ih =>
    rcases ih h with hc | hc
    · rcases mem_push_new hc with hc | rfl
      · exact .inl hc
      · exact .inr (by simp)
    · exact .inr (by simp [hc])

theorem index_foldl_push_new {chunks : List TaskStreamChunk} (entry : List TaskStreamChunk)
    {c : TaskStreamChunk} (h : c ∈ chunks) :
    ∃ d ∈ chunks.foldl push_new entry, d.chunk_index = c.chunk_index := by
  induction chunks generalizing entry with
  | nil => cases h
  | cons x chunks ih =>
    rcases List.mem_cons.1 h with rfl | hc
    · obtain ⟨d, hd, hindex⟩ := index_push_new entry c
      exact ⟨d, subset_foldl_push_new chunks _ hd, hindex⟩
    · exact ih _ hc

theorem buffer_insert (s : Streams) (rx : Finset String) (task_id key : String)
    (entry : List TaskStreamChunk) :
    buffer { stream_rx := rx, stream_chunks := s.stream_chunks.insert key entry } task_id =
      if task_id = key then entry else s.buffer task_id := by
  unfold buffer
  by_cases hkey : task_id = key
  · subst hkey
    simp
  · simp [hkey, AList.lookup_insert_ne hkey]

/-- A text comes out once a final chunk is kept. -/
theorem reassemble_stream_eq (s : Streams) (task_id : String) :
    s.reassemble_stream task_id =
      if (s.buffer task_id).any TaskStreamChunk.is_final then
        some (String.join ((s.buffer task_id).map TaskStreamChunk.text))
      else none := by
  unfold reassemble_stream buffer
  rcases s.stream_chunks.lookup task_id with _ | chunks
  · rfl
  · cases chunks with
    | nil => rfl
    | cons c chunks => cases hany : (c :: chunks).any TaskStreamChunk.is_final <;> simp [hany]

end Streams

/-! ## Runs of polls -/

open machine

/-- A call of `poll_stream_chunks`, with what the transport answers and what
waits in the subscription. -/
structure StreamPoll where
  task_id : String
  subscribe : Option TransportError
  drained : List Bytes

/-- One call, with the messages that it took. -/
def Streams.step (L : Libs) (s : Streams) (call : StreamPoll) :
    Except Empty (Streams × List (String × Bytes)) :=
  let r := s.poll_stream_chunks L call.task_id call.subscribe call.drained
  .ok (r.1,
    match r.2 with
    | .ok _ => call.drained.map fun msg => (call.task_id, msg)
    | .error _ => [])

variable {L : Libs} {s s' : Streams} {task_id : String}

theorem Streams.step_cases {call : StreamPoll} {taken : List (String × Bytes)}
    (h : s.step L call = .ok (s', taken)) :
    (s' = s ∧ taken = []) ∨
    (taken = call.drained.map (fun msg => (call.task_id, msg)) ∧
      ∀ task_id, s'.buffer task_id =
        if task_id = call.task_id then
          sort_by_key (fun c => c.chunk_index.toNat)
            ((call.drained.filterMap (read_chunk L task_id)).foldl push_new (s.buffer task_id))
        else s.buffer task_id) := by
  unfold Streams.step Streams.poll_stream_chunks at h
  rcases hsub : (if call.task_id ∈ s.stream_rx then none else call.subscribe) with _ | e
  · simp only [hsub, Except.ok.injEq, Prod.mk.injEq] at h
    obtain ⟨rfl, rfl⟩ := h
    refine .inr ⟨rfl, ?_⟩
    intro task_id
    rw [buffer_insert]
    by_cases hkey : task_id = call.task_id
    · simp only [hkey, if_true]
    · simp only [hkey, if_false]
  · simp only [hsub, Except.ok.injEq, Prod.mk.injEq] at h
    exact .inl ⟨h.1.symm, h.2.symm⟩

/-- What is kept of the messages that were taken: one chunk for each index that
came, in the order of the indices. -/
structure Buffered (L : Libs) (task_id : String) (taken : List (String × Bytes)) (s : Streams) :
    Prop where
  sorted : Streams.StrictlySorted (s.buffer task_id)
  came : ∀ c ∈ s.buffer task_id,
    ∃ msg, (task_id, msg) ∈ taken ∧ Streams.read_chunk L task_id msg = some c
  indexed : ∀ msg c, (task_id, msg) ∈ taken → Streams.read_chunk L task_id msg = some c →
    ∃ d ∈ s.buffer task_id, d.chunk_index = c.chunk_index

theorem Buffered.new (L : Libs) (task_id : String) : Buffered L task_id [] .new where
  sorted := by simp [Streams.StrictlySorted, Streams.buffer, Streams.new]
  came := by simp [Streams.buffer, Streams.new]
  indexed := by simp

theorem Buffered.step {taken out : List (String × Bytes)} {call : StreamPoll}
    (h : Buffered L task_id taken s) (hs : s.step L call = .ok (s', out)) :
    Buffered L task_id (taken ++ out) s' := by
  obtain ⟨rfl, rfl⟩ | ⟨rfl, hbuffer⟩ := Streams.step_cases hs
  · rw [List.append_nil]
    exact h
  have hbuf := hbuffer task_id
  by_cases hkey : task_id = call.task_id
  · subst hkey
    simp only [if_true] at hbuf
    have hdistinct : (s.buffer call.task_id).Pairwise
        fun c d => c.chunk_index.toNat ≠ d.chunk_index.toNat :=
      List.Pairwise.imp (fun hcd => Nat.ne_of_lt (UInt32.lt_iff_toNat_lt.1 hcd)) h.sorted
    refine ⟨?_, ?_, ?_⟩
    · rw [hbuf]
      exact sort_by_key_lt (Streams.foldl_push_new_distinct _ hdistinct)
    · intro c hc
      rw [hbuf, mem_sort_by_key] at hc
      rcases Streams.mem_foldl_push_new hc with hc | hc
      · obtain ⟨msg, hmem, hread⟩ := h.came c hc
        exact ⟨msg, List.mem_append_left _ hmem, hread⟩
      · obtain ⟨msg, hmem, hread⟩ := List.mem_filterMap.1 hc
        exact ⟨msg, List.mem_append_right _ (List.mem_map.2 ⟨msg, hmem, rfl⟩), hread⟩
    · intro msg c hmem hread
      simp only [hbuf, mem_sort_by_key]
      rcases List.mem_append.1 hmem with hmem | hmem
      · obtain ⟨d, hd, hindex⟩ := h.indexed msg c hmem hread
        exact ⟨d, Streams.subset_foldl_push_new _ _ hd, hindex⟩
      · obtain ⟨msg', hmsg, heq⟩ := List.mem_map.1 hmem
        cases heq
        exact Streams.index_foldl_push_new _ (List.mem_filterMap.2 ⟨msg, hmsg, hread⟩)
  · simp only [hkey, if_false] at hbuf
    refine ⟨hbuf ▸ h.sorted, ?_, ?_⟩
    · intro c hc
      obtain ⟨msg, hmem, hread⟩ := h.came c (hbuf ▸ hc)
      exact ⟨msg, List.mem_append_left _ hmem, hread⟩
    · intro msg c hmem hread
      rw [hbuf]
      rcases List.mem_append.1 hmem with hmem | hmem
      · exact h.indexed msg c hmem hread
      · obtain ⟨msg', -, heq⟩ := List.mem_map.1 hmem
        cases heq
        exact absurd rfl hkey

/-! ## A published stream -/

/-- The chunks that `respond_stream` makes of the texts. -/
def chunks_of (task_id : String) (texts : List String) : List TaskStreamChunk :=
  texts.mapIdx fun i text => stream_chunk task_id texts.length i text

/-- The message of a chunk. -/
def chunk_message (c : TaskStreamChunk) : Bytes := (A2AEnvelope.StreamChunk c).to_vec

theorem mem_publish_chunks {total : Nat} {publish : Nat → Option TransportError} {k : Nat}
    {chunks : List String} {topic : String} {msg : Bytes}
    (h : (topic, msg) ∈ (publish_chunks task_id total publish k chunks).1) :
    ∃ i, ∃ hi : i < chunks.length,
      msg = chunk_message (stream_chunk task_id total (k + i) chunks[i]) := by
  induction chunks generalizing k with
  | nil => simp [publish_chunks] at h
  | cons text chunks ih =>
    simp only [publish_chunks] at h
    rcases hpub : publish k with _ | e
    · simp only [hpub, List.mem_cons, Prod.mk.injEq] at h
      rcases h with ⟨-, rfl⟩ | h
      · exact ⟨0, by simp, rfl⟩
      · obtain ⟨i, hi, rfl⟩ := ih h
        exact ⟨i + 1, by simpa using hi, by simp [Nat.add_assoc, Nat.add_comm 1 i]⟩
    · simp [hpub] at h

/-- Each published message is the message of one of the chunks. -/
theorem mem_respond_stream {task : Task} {texts : List String}
    {publish : Nat → Option TransportError} {topic : String} {msg : Bytes}
    (h : (topic, msg) ∈ (respond_stream task texts publish).1) :
    ∃ c ∈ chunks_of task.id texts, msg = chunk_message c := by
  obtain ⟨i, hi, rfl⟩ := mem_publish_chunks h
  refine ⟨_, List.mem_mapIdx.2 ⟨i, hi, rfl⟩, ?_⟩
  rw [Nat.zero_add]

theorem chunks_of_sorted {texts : List String} (hlen : texts.length ≤ 2 ^ 32) :
    Streams.StrictlySorted (chunks_of task_id texts) := by
  unfold Streams.StrictlySorted
  rw [List.pairwise_iff_getElem]
  intro i j hi hj hij
  have hj' : j < texts.length := by simpa [chunks_of] using hj
  simp only [chunks_of, List.getElem_mapIdx, stream_chunk]
  rw [UInt32.lt_iff_toNat_lt, UInt32.toNat_ofNat', UInt32.toNat_ofNat']
  rw [Nat.mod_eq_of_lt (by omega), Nat.mod_eq_of_lt (by omega)]
  exact hij

theorem chunks_of_texts (task_id : String) (texts : List String) :
    (chunks_of task_id texts).map TaskStreamChunk.text = texts := by
  apply List.ext_getElem
  · simp [chunks_of]
  · intro i hi hi'
    simp [chunks_of, stream_chunk]

theorem chunks_of_index {texts : List String} (hlen : texts.length ≤ 2 ^ 32)
    {c d : TaskStreamChunk} (hc : c ∈ chunks_of task_id texts) (hd : d ∈ chunks_of task_id texts)
    (hindex : c.chunk_index = d.chunk_index) : c = d := by
  obtain ⟨i, hi, rfl⟩ := List.mem_mapIdx.1 hc
  obtain ⟨j, hj, rfl⟩ := List.mem_mapIdx.1 hd
  have hij := congrArg UInt32.toNat hindex
  simp only [stream_chunk, UInt32.toNat_ofNat'] at hij
  rw [Nat.mod_eq_of_lt (by omega), Nat.mod_eq_of_lt (by omega)] at hij
  subst hij
  rfl

theorem read_chunk_message (hserde : L.RoundTrips) {texts : List String} {c : TaskStreamChunk}
    (hc : c ∈ chunks_of task_id texts) :
    Streams.read_chunk L task_id (chunk_message c) = some c := by
  obtain ⟨i, hi, rfl⟩ := List.mem_mapIdx.1 hc
  simp [Streams.read_chunk, chunk_message, hserde.envelope, stream_chunk]

/-- Of the messages of the stream, only those of `chunks` were taken. Messages
that hold no chunk of the task do not matter. -/
def OnlyFrom (L : Libs) (task_id : String) (chunks : List TaskStreamChunk)
    (taken : List (String × Bytes)) : Prop :=
  ∀ msg, (task_id, msg) ∈ taken →
    (∃ c ∈ chunks, msg = chunk_message c) ∨ Streams.read_chunk L task_id msg = none

/-- The chunks that are kept are the chunks that came. -/
theorem Buffered.mem_iff {texts : List String} (hlen : texts.length < 2 ^ 32)
    (hserde : L.RoundTrips) {taken : List (String × Bytes)} (h : Buffered L task_id taken s)
    (honly : OnlyFrom L task_id (chunks_of task_id texts) taken) (c : TaskStreamChunk) :
    c ∈ s.buffer task_id ↔
      c ∈ chunks_of task_id texts ∧ (task_id, chunk_message c) ∈ taken := by
  have hfrom : ∀ d ∈ s.buffer task_id,
      d ∈ chunks_of task_id texts ∧ (task_id, chunk_message d) ∈ taken := by
    intro d hd
    obtain ⟨msg, hmem, hread⟩ := h.came d hd
    rcases honly msg hmem with ⟨x, hx, rfl⟩ | hnone
    · rw [read_chunk_message hserde hx] at hread
      cases hread
      exact ⟨hx, hmem⟩
    · rw [hnone] at hread
      cases hread
  constructor
  · exact hfrom c
  · rintro ⟨hc, hmem⟩
    obtain ⟨d, hd, hindex⟩ := h.indexed _ c hmem (read_chunk_message hserde hc)
    rw [← chunks_of_index hlen.le (hfrom d hd).1 hc hindex]
    exact hd

/-! ## Reassembly -/

/-- Every chunk of the stream came. -/
def AllCame (task_id : String) (texts : List String) (taken : List (String × Bytes)) : Prop :=
  ∀ c ∈ chunks_of task_id texts, (task_id, chunk_message c) ∈ taken

/-- The final chunk of the stream came. -/
def FinalCame (task_id : String) (texts : List String) (taken : List (String × Bytes)) : Prop :=
  ∃ c ∈ chunks_of task_id texts, c.is_final ∧ (task_id, chunk_message c) ∈ taken

/-- A text comes out only of a whole stream, and it is the whole text. -/
def Reassembles (task_id : String) (texts : List String) (taken : List (String × Bytes))
    (s : Streams) : Prop :=
  ∀ text, s.reassemble_stream task_id = some text →
    AllCame task_id texts taken ∧ text = String.join texts

theorem Buffered.reassembles_iff {texts : List String} (hlen : texts.length < 2 ^ 32)
    (hserde : L.RoundTrips) {taken : List (String × Bytes)} (h : Buffered L task_id taken s)
    (honly : OnlyFrom L task_id (chunks_of task_id texts) taken) :
    Reassembles task_id texts taken s ↔
      (FinalCame task_id texts taken → AllCame task_id texts taken) := by
  have hmem := h.mem_iff hlen hserde honly
  have hfinal : (s.buffer task_id).any TaskStreamChunk.is_final ↔
      FinalCame task_id texts taken := by
    simp only [List.any_eq_true, FinalCame]
    constructor
    · rintro ⟨c, hc, hf⟩
      exact ⟨c, ((hmem c).1 hc).1, hf, ((hmem c).1 hc).2⟩
    · rintro ⟨c, hc, hf, hcame⟩
      exact ⟨c, (hmem c).2 ⟨hc, hcame⟩, hf⟩
  unfold Reassembles
  rw [Streams.reassemble_stream_eq]
  constructor
  · intro hlaw hcame
    rw [if_pos (hfinal.2 hcame)] at hlaw
    exact (hlaw _ rfl).1
  · intro hgap text htext
    by_cases hany : (s.buffer task_id).any TaskStreamChunk.is_final
    · rw [if_pos hany, Option.some.injEq] at htext
      have hall := hgap (hfinal.1 hany)
      refine ⟨hall, ?_⟩
      -- Both lists are strictly sorted by index, and have the same chunks.
      have hbuffer : s.buffer task_id = chunks_of task_id texts := by
        have hasymm : Std.Antisymm fun c d : TaskStreamChunk => c.chunk_index < d.chunk_index :=
          ⟨fun _ _ hab hba => absurd hab (UInt32.lt_asymm hba)⟩
        have hirrefl : Std.Irrefl fun c d : TaskStreamChunk => c.chunk_index < d.chunk_index :=
          ⟨fun _ => UInt32.lt_irrefl _⟩
        apply List.Pairwise.eq_of_mem_iff h.sorted (chunks_of_sorted hlen.le)
        exact fun c => ⟨fun hc => ((hmem c).1 hc).1, fun hc => (hmem c).2 ⟨hc, hall c hc⟩⟩
      rw [← htext, hbuffer, chunks_of_texts]
    · rw [if_neg hany] at htext
      cases htext

theorem run_buffered {calls : List StreamPoll} {taken : List (String × Bytes)}
    (h : run (Streams.step L) .new calls = .ok (s, taken)) (task_id : String) :
    Buffered L task_id taken s :=
  run_invariant (.new L task_id) (fun _ _ _ _ _ hi hs => hi.step hs) h

theorem run_taken {calls : List StreamPoll} {taken : List (String × Bytes)}
    (h : run (Streams.step L) .new calls = .ok (s, taken)) {msg : Bytes}
    (hmem : (task_id, msg) ∈ taken) :
    ∃ call ∈ calls, call.task_id = task_id ∧ msg ∈ call.drained := by
  induction calls using List.reverseRecOn generalizing s taken with
  | nil =>
    simp only [run, Except.ok.injEq, Prod.mk.injEq] at h
    simp [← h.2] at hmem
  | append_singleton calls call ih =>
    obtain ⟨t, log, out, hr, hs, rfl⟩ := run_snoc_cases h
    rcases List.mem_append.1 hmem with hmem | hmem
    · obtain ⟨c, hc, hid, hd⟩ := ih hr hmem
      exact ⟨c, List.mem_append_left _ hc, hid, hd⟩
    · obtain ⟨-, rfl⟩ | ⟨rfl, -⟩ := Streams.step_cases hs
      · cases hmem
      · obtain ⟨msg', hd, heq⟩ := List.mem_map.1 hmem
        cases heq
        exact ⟨call, by simp, rfl, hd⟩

/-- Whatever of a published stream comes to a node, in any order, any number of
times and over any polls, is kept in the order of the indices, none of them
twice. What is put together of it is the whole text, exactly as long as the
final chunk does not come before another one. -/
theorem a_stream_is_whole_iff_its_final_chunk_comes_last (hserde : L.RoundTrips) (task : Task)
    (texts : List String) (hlen : texts.length < 2 ^ 32) (publish : Nat → Option TransportError)
    (calls : List StreamPoll)
    (hnet : ∀ call ∈ calls, call.task_id = task.id → ∀ msg ∈ call.drained,
      (stream_topic task.id, msg) ∈ (respond_stream task texts publish).1 ∨
        Streams.read_chunk L task.id msg = none) :
    Returns (run (Streams.step L) .new calls) fun r =>
      Streams.StrictlySorted (r.1.buffer task.id) ∧
      (Reassembles task.id texts r.2 r.1 ↔
        (FinalCame task.id texts r.2 → AllCame task.id texts r.2)) := by
  obtain ⟨⟨s, taken⟩, hr⟩ := ends_ok (run (Streams.step L) .new calls)
  have hbuffered := run_buffered hr task.id
  have honly : OnlyFrom L task.id (chunks_of task.id texts) taken := by
    intro msg hmem
    obtain ⟨call, hcall, hid, hd⟩ := run_taken hr hmem
    rcases hnet call hcall hid msg hd with hpub | hnone
    · exact .inl (mem_respond_stream hpub)
    · exact .inr hnone
  exact ⟨_, hr, hbuffered.sorted, hbuffered.reassembles_iff hlen hserde honly⟩

instance AllCame.decidable (task_id : String) (texts : List String)
    (taken : List (String × Bytes)) : Decidable (AllCame task_id texts taken) :=
  inferInstanceAs (Decidable (∀ c ∈ chunks_of task_id texts, (task_id, chunk_message c) ∈ taken))

namespace Sample

def streamed : Task := .new "t" "02alice" "02bob" "hi"

/-- The messages of the stream of two texts. -/
def stream_messages : List Bytes :=
  (respond_stream streamed ["a", "b"] fun _ => none).1.map Prod.snd

def stream_libs : Libs :=
  .ofTables (.ofTable [] []) tagging ((chunks_of "t" ["a", "b"]).map .StreamChunk) []

end Sample

/-- The first of two chunks is lost, and the second one alone is given out as
the text. -/
theorem a_lost_chunk_is_not_missed :
    Returns (run (Streams.step Sample.stream_libs) .new
      [⟨"t", none, Sample.stream_messages.drop 1⟩]) fun r =>
        r.1.reassemble_stream "t" = some "b" ∧ ¬ AllCame "t" ["a", "b"] r.2 := by
  decide +kernel

/-- The two chunks come in two polls, the second one first. -/
theorem two_chunks_come_in_two_polls :
    Returns (run (Streams.step Sample.strict_libs) .new
      [⟨"t", none, Sample.stream_messages.drop 1⟩, ⟨"t", none, Sample.stream_messages⟩]) fun r =>
        Streams.StrictlySorted (r.1.buffer "t") ∧
        (Reassembles "t" ["a", "b"] r.2 r.1 ↔
          (FinalCame "t" ["a", "b"] r.2 → AllCame "t" ["a", "b"] r.2)) := by
  have hpub : ∀ msg ∈ Sample.stream_messages,
      (stream_topic "t", msg) ∈ (respond_stream Sample.streamed ["a", "b"] fun _ => none).1 := by
    simp [Sample.stream_messages, respond_stream, publish_chunks, Sample.streamed, Task.new]
  refine a_stream_is_whole_iff_its_final_chunk_comes_last
    (Libs.strict_roundTrips (.ofTable [] []) Sample.tagging) Sample.streamed ["a", "b"] (by decide)
    (fun _ => none) _ ?_
  intro call hcall _ msg hmsg
  simp only [List.mem_cons, List.not_mem_nil, or_false] at hcall
  rcases hcall with rfl | rfl
  · exact .inl (hpub msg (List.mem_of_mem_drop hmsg))
  · exact .inl (hpub msg hmsg)

end lmao.node
