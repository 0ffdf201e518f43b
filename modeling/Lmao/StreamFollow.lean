-- `lmao task stream` (task.rs of the cli crate): a loop of polls that prints each
-- chunk above the last printed index, until it sees a final chunk.
import Lmao.Streaming

namespace lmao.cli

open node stable_sort
open node.Streams (StrictlySorted push_new read_chunk)

/-! ## The loop -/

/-- One poll of the loop: the error of the subscription, if it is opened, and
what waits in it. -/
structure FollowPoll where
  subscribe : Option sds.TransportError
  drained : List Bytes

namespace task

def is_new (last_index : Option UInt32) (chunk : TaskStreamChunk) : Bool :=
  match last_index with
  | none => true
  | some last => decide (last < chunk.chunk_index)

/-- The chunks that a poll prints, and the last index after it. -/
def print_new : Option UInt32 → List TaskStreamChunk → List TaskStreamChunk × Option UInt32
  | last_index, [] => ([], last_index)
  | last_index, chunk :: chunks =>
    if is_new last_index chunk then
      let r := print_new (some chunk.chunk_index) chunks
      (chunk :: r.1, r.2)
    else print_new last_index chunks

/-- What the loop leaves: the chunks that it printed, in print order, and the
number of chunks that it reports with a complete stream. -/
structure Followed where
  printed : List TaskStreamChunk
  complete : Option Nat

/-- The polls that fit before the deadline. An error of a poll is shown, and
the loop goes on. -/
def stream (L : Libs) (s : Streams) (id : String) (last_index : Option UInt32) :
    List FollowPoll → Followed
  | [] => { printed := [], complete := none }
  | poll :: polls =>
    match s.poll_stream_chunks L id poll.subscribe poll.drained with
    | (s, .error _) => stream L s id last_index polls
    | (s, .ok chunks) =>
      let out := print_new last_index chunks
      if chunks.any TaskStreamChunk.is_final then
        { printed := out.1, complete := some chunks.length }
      else
        let r := stream L s id out.2 polls
        { r with printed := out.1 ++ r.printed }

/-! ## Printing one poll -/

theorem print_new_eq {chunks : List TaskStreamChunk} (h : StrictlySorted chunks)
    (last : Option UInt32) : (print_new last chunks).1 = chunks.filter (is_new last) := by
  induction chunks generalizing last with
  | nil => rfl
  | cons c cs ih =>
    obtain ⟨hfirst, hrest⟩ := List.pairwise_cons.mp h
    rw [print_new]
    by_cases hnew : is_new last c = true
    · have hall : ∀ d ∈ cs, is_new last d = true := by
        intro d hd
        cases last with
        | none => rfl
        | some i =>
          have hc : i < c.chunk_index := by simpa [is_new] using hnew
          simpa [is_new] using UInt32.lt_trans hc (hfirst d hd)
      have hnext : ∀ d ∈ cs, is_new (some c.chunk_index) d = true := fun d hd => by
        simpa [is_new] using hfirst d hd
      simp only [if_pos hnew, List.filter_cons_of_pos hnew, ih hrest, List.filter_eq_self.mpr hall,
        List.filter_eq_self.mpr hnext]
    · rw [if_neg hnew, List.filter_cons_of_neg hnew, ih hrest]

/-- The last index bounds what was polled, and is one that was printed. -/
structure LastOf (last : Option UInt32) (printed polled : List TaskStreamChunk) : Prop where
  bounded : ∀ c ∈ polled, ∃ i, last = some i ∧ c.chunk_index ≤ i
  shown : ∀ i, last = some i → ∃ d ∈ printed, d.chunk_index = i

theorem print_new_grows (last : Option UInt32) (chunks : List TaskStreamChunk) {i : UInt32}
    (h : last = some i) : ∃ j, (print_new last chunks).2 = some j ∧ i ≤ j := by
  induction chunks generalizing last i with
  | nil => exact ⟨i, h, UInt32.le_refl i⟩
  | cons c cs ih =>
    rw [print_new]
    split
    · rename_i hnew
      obtain ⟨j, hj, hle⟩ := ih (some c.chunk_index) rfl
      have hlt : i < c.chunk_index := by simpa [is_new, h] using hnew
      exact ⟨j, hj, UInt32.le_trans (UInt32.le_of_lt hlt) hle⟩
    · exact ih last h

theorem print_new_last {last : Option UInt32} {printed : List TaskStreamChunk}
    (hshown : ∀ i, last = some i → ∃ d ∈ printed, d.chunk_index = i)
    (chunks : List TaskStreamChunk) :
    LastOf (print_new last chunks).2 (printed ++ (print_new last chunks).1) chunks := by
  induction chunks generalizing last printed with
  | nil => exact ⟨fun c hc => absurd hc List.not_mem_nil, by simpa [print_new] using hshown⟩
  | cons c cs ih =>
    rw [print_new]
    split
    · have hshown' : ∀ i, some c.chunk_index = some i →
          ∃ d ∈ printed ++ [c], d.chunk_index = i := fun i hi => ⟨c, by simp, by simpa using hi⟩
      have hnext := ih hshown'
      rw [List.append_assoc] at hnext
      refine ⟨?_, hnext.shown⟩
      intro d hd
      rcases List.mem_cons.mp hd with rfl | hd
      · exact print_new_grows _ cs rfl
      · exact hnext.bounded d hd
    · rename_i hold
      have hrest := ih hshown
      refine ⟨?_, hrest.shown⟩
      intro d hd
      rcases List.mem_cons.mp hd with rfl | hd
      · cases hlast : last with
        | none => simp [is_new, hlast] at hold
        | some i =>
          have hle : d.chunk_index ≤ i := by simpa [is_new, hlast] using hold
          obtain ⟨j, hj, hij⟩ := print_new_grows last cs hlast
          exact ⟨j, hlast ▸ hj, UInt32.le_trans hle hij⟩
      · exact hrest.bounded d hd

/-! ## What has come -/

/-- The chunks that the polls take. A poll that cannot subscribe takes none. -/
def arrived (L : Libs) (id : String) : (subscribed : Bool) → List FollowPoll → List TaskStreamChunk
  | _, [] => []
  | subscribed, poll :: polls =>
    if subscribed || poll.subscribe.isNone then
      poll.drained.filterMap (read_chunk L id) ++ arrived L id true polls
    else arrived L id subscribed polls

/-- The chunk is the first of its index to come. -/
def First (came : List TaskStreamChunk) (c : TaskStreamChunk) : Prop :=
  came.find? (·.chunk_index == c.chunk_index) = some c

theorem First.append {came : List TaskStreamChunk} {c : TaskStreamChunk} (h : First came c)
    (more : List TaskStreamChunk) : First (came ++ more) c := by
  unfold First at h ⊢
  rw [List.find?_append, h, Option.some_or]

theorem First.mem {came : List TaskStreamChunk} {c : TaskStreamChunk} (h : First came c) :
    c ∈ came := List.mem_of_find?_eq_some h

/-- What is kept is what was the first to come. -/
theorem mem_push_new_iff {entry came : List TaskStreamChunk}
    (h : ∀ c, c ∈ entry ↔ First came c) (x c : TaskStreamChunk) :
    c ∈ push_new entry x ↔ First (came ++ [x]) c := by
  have hany : (entry.any fun d => d.chunk_index == x.chunk_index) = true ↔
      (came.find? (·.chunk_index == x.chunk_index)).isSome = true := by
    rw [List.any_eq_true, Option.isSome_iff_exists]
    constructor
    · rintro ⟨d, hd, hindex⟩
      have hfirst := (h d).mp hd
      rw [First, beq_iff_eq.mp hindex] at hfirst
      exact ⟨d, hfirst⟩
    · rintro ⟨d, hd⟩
      have hindex := List.find?_some hd
      refine ⟨d, (h d).mpr ?_, hindex⟩
      rw [First, beq_iff_eq.mp hindex]
      exact hd
  unfold push_new
  by_cases hold : (entry.any fun d => d.chunk_index == x.chunk_index) = true
  · rw [if_pos hold, h]
    unfold First
    rw [List.find?_append]
    by_cases hindex : x.chunk_index = c.chunk_index
    · obtain ⟨d, hd⟩ := Option.isSome_iff_exists.mp (hany.mp hold)
      rw [← hindex, hd, Option.some_or]
    · have hx : [x].find? (·.chunk_index == c.chunk_index) = none := by simp [hindex]
      rw [hx, Option.or_none]
  · rw [if_neg hold, List.mem_append, List.mem_singleton, h]
    unfold First
    rw [List.find?_append]
    by_cases hindex : x.chunk_index = c.chunk_index
    · have hnone : came.find? (·.chunk_index == x.chunk_index) = none := by
        rw [hany] at hold
        simpa using hold
      rw [← hindex, hnone, Option.none_or]
      simp [eq_comm]
    · have hx : [x].find? (·.chunk_index == c.chunk_index) = none := by simp [hindex]
      rw [hx, Option.or_none]
      exact ⟨fun h => h.resolve_right fun heq => hindex (heq ▸ rfl), .inl⟩

theorem mem_foldl_push_new_iff {entry came : List TaskStreamChunk}
    (h : ∀ c, c ∈ entry ↔ First came c) (more : List TaskStreamChunk) (c : TaskStreamChunk) :
    c ∈ more.foldl push_new entry ↔ First (came ++ more) c := by
  induction more generalizing entry came with
  | nil => rw [List.append_nil]; exact h c
  | cons x more ih =>
    rw [List.foldl_cons, ih (mem_push_new_iff h x), List.append_assoc, List.singleton_append]

/-! ## The invariant of the loop -/

/-- The state of the loop after some chunks came. -/
structure Following (s : Streams) (id : String) (last : Option UInt32)
    (printed came : List TaskStreamChunk) : Prop where
  sorted : StrictlySorted (s.buffer id)
  kept : ∀ c, c ∈ s.buffer id ↔ First came c
  printed_sorted : StrictlySorted printed
  printed_kept : printed ⊆ s.buffer id
  last_of : LastOf last printed (s.buffer id)

theorem Following.new (id : String) : Following .new id none [] [] where
  sorted := by simp [StrictlySorted, Streams.buffer, Streams.new]
  kept c := by simp [Streams.buffer, Streams.new, First]
  printed_sorted := List.Pairwise.nil
  printed_kept := List.nil_subset _
  last_of := ⟨by simp [Streams.buffer, Streams.new], by simp⟩

variable {L : Libs} {s : Streams} {id : String}

/-- A poll fails and changes nothing, or keeps what waits. -/
theorem poll_cases (L : Libs) (s : Streams) (id : String) (poll : FollowPoll) :
    ((decide (id ∈ s.stream_rx) || poll.subscribe.isNone) = false ∧
      ∃ e, s.poll_stream_chunks L id poll.subscribe poll.drained = (s, .error e)) ∨
    ((decide (id ∈ s.stream_rx) || poll.subscribe.isNone) = true ∧
      ∃ s' : Streams, s.poll_stream_chunks L id poll.subscribe poll.drained =
          (s', .ok (s'.buffer id)) ∧ id ∈ s'.stream_rx ∧
        s'.buffer id = sort_by_key (fun c => c.chunk_index.toNat)
          ((poll.drained.filterMap (read_chunk L id)).foldl push_new (s.buffer id))) := by
  have hbuffer : ∀ entry : List TaskStreamChunk, Streams.buffer
      { stream_rx := insert id s.stream_rx, stream_chunks := s.stream_chunks.insert id entry } id =
        entry := fun entry => by rw [Streams.buffer_insert, if_pos rfl]
  by_cases hopen : (decide (id ∈ s.stream_rx) || poll.subscribe.isNone) = true
  · have hsub : (if id ∈ s.stream_rx then none else poll.subscribe) = none := by
      by_cases hrx : id ∈ s.stream_rx
      · rw [if_pos hrx]
      · rw [if_neg hrx]
        simpa [hrx] using hopen
    refine .inr ⟨hopen, _, ?_, Finset.mem_insert_self id _, hbuffer _⟩
    simp only [Streams.poll_stream_chunks, hsub, hbuffer]
  · rw [Bool.not_eq_true] at hopen
    obtain ⟨hrx, hsub⟩ := Bool.or_eq_false_iff.mp hopen
    obtain ⟨e, he⟩ := Option.isSome_iff_exists.mp (by simpa using hsub)
    refine .inl ⟨hopen, .Transport e, ?_⟩
    simp only [Streams.poll_stream_chunks, if_neg (of_decide_eq_false hrx), he]

/-- One poll that succeeds keeps the invariant. -/
theorem Following.step {s' : Streams} {last : Option UInt32} {printed came : List TaskStreamChunk}
    (h : Following s id last printed came) (new_chunks : List TaskStreamChunk)
    (hbuffer : s'.buffer id =
      sort_by_key (fun c => c.chunk_index.toNat) (new_chunks.foldl push_new (s.buffer id))) :
    Following s' id (print_new last (s'.buffer id)).2
      (printed ++ (print_new last (s'.buffer id)).1) (came ++ new_chunks) := by
  have hmem : ∀ c, c ∈ s'.buffer id ↔ First (came ++ new_chunks) c := by
    intro c
    rw [hbuffer, mem_sort_by_key, mem_foldl_push_new_iff h.kept]
  have hsorted : StrictlySorted (s'.buffer id) := by
    have hdistinct : (s.buffer id).Pairwise
        fun c d => c.chunk_index.toNat ≠ d.chunk_index.toNat :=
      List.Pairwise.imp (fun hcd => Nat.ne_of_lt (UInt32.lt_iff_toNat_lt.1 hcd)) h.sorted
    rw [hbuffer]
    exact sort_by_key_lt (Streams.foldl_push_new_distinct _ hdistinct)
  have hgrows : s.buffer id ⊆ s'.buffer id := fun c hc =>
    (hmem c).mpr (((h.kept c).mp hc).append new_chunks)
  have hout := print_new_eq hsorted last
  refine ⟨hsorted, hmem, ?_, ?_, print_new_last h.last_of.shown _⟩
  · rw [hout]
    refine List.pairwise_append.mpr ⟨h.printed_sorted, hsorted.filter _, ?_⟩
    intro c hc d hd
    -- what was printed is not above the last index, and what is new is
    obtain ⟨i, hi, hle⟩ := h.last_of.bounded c (h.printed_kept hc)
    have hnew := (List.mem_filter.mp hd).2
    rw [hi] at hnew
    exact UInt32.lt_of_le_of_lt hle (by simpa [is_new] using hnew)
  · rw [hout]
    intro c hc
    rcases List.mem_append.mp hc with hc | hc
    · exact hgrows (h.printed_kept hc)
    · exact (List.mem_filter.mp hc).1

/-! ## Complete streams -/

/-- The final chunk came, and no other of its index before it. -/
def Shows (came : List TaskStreamChunk) : Prop := ∃ c, First came c ∧ c.is_final = true

theorem Shows.append {came : List TaskStreamChunk} (h : Shows came)
    (more : List TaskStreamChunk) : Shows (came ++ more) := by
  obtain ⟨c, hc, hfinal⟩ := h
  exact ⟨c, hc.append more, hfinal⟩

theorem Following.any_final_iff {last : Option UInt32} {printed came : List TaskStreamChunk}
    (h : Following s id last printed came) :
    (s.buffer id).any TaskStreamChunk.is_final = true ↔ Shows came := by
  rw [List.any_eq_true]
  exact exists_congr fun c => and_congr_left fun _ => h.kept c

/-- What the loop does with its next poll. -/
theorem stream_cons (L : Libs) {last : Option UInt32} {printed came : List TaskStreamChunk}
    (h : Following s id last printed came) (poll : FollowPoll) (polls : List FollowPoll) :
    (stream L s id last (poll :: polls) = stream L s id last polls ∧
      ∀ rest, arrived L id (decide (id ∈ s.stream_rx)) (poll :: rest) =
        arrived L id (decide (id ∈ s.stream_rx)) rest) ∨
    ∃ (s' : Streams) (last' : Option UInt32) (out new_chunks : List TaskStreamChunk),
      Following s' id last' (printed ++ out) (came ++ new_chunks) ∧
      (∀ c ∈ s'.buffer id, is_new last c = true → c ∈ out) ∧
      (∀ rest, arrived L id (decide (id ∈ s.stream_rx)) (poll :: rest) =
        new_chunks ++ arrived L id (decide (id ∈ s'.stream_rx)) rest) ∧
      (stream L s id last (poll :: polls)).printed =
        (if (s'.buffer id).any TaskStreamChunk.is_final then out
          else out ++ (stream L s' id last' polls).printed) ∧
      (stream L s id last (poll :: polls)).complete =
        (if (s'.buffer id).any TaskStreamChunk.is_final then some (s'.buffer id).length
          else (stream L s' id last' polls).complete) := by
  obtain ⟨hclosed, e, he⟩ | ⟨hopen, s', hpoll, hrx, hbuffer⟩ := poll_cases L s id poll
  · refine .inl ⟨by simp only [stream, he], fun rest => ?_⟩
    rw [arrived, hclosed]
    rfl
  · have hfollowing := h.step _ hbuffer
    refine .inr ⟨s', _, _, _, hfollowing, fun c hc hnew => ?_, fun rest => ?_, ?_, ?_⟩
    · rw [print_new_eq hfollowing.sorted]
      exact List.mem_filter.mpr ⟨hc, hnew⟩
    · rw [arrived, if_pos hopen, decide_eq_true hrx]
    · simp only [stream, hpoll]
      split <;> rfl
    · simp only [stream, hpoll]
      split <;> rfl

theorem stream_complete_iff {last : Option UInt32} {printed came : List TaskStreamChunk}
    (h : Following s id last printed came) (hopen : ¬ Shows came) (polls : List FollowPoll) :
    (stream L s id last polls).complete ≠ none ↔
      Shows (came ++ arrived L id (decide (id ∈ s.stream_rx)) polls) := by
  induction polls generalizing s last printed came with
  | nil => simpa [stream, arrived] using hopen
  | cons poll polls ih =>
    obtain ⟨hstream, harrived⟩ | ⟨s', last', out, new_chunks, hnext, -, harrived, -, hcomplete⟩ :=
      stream_cons L h poll polls
    · rw [hstream, harrived]
      exact ih h hopen
    · rw [hcomplete, harrived, ← List.append_assoc]
      by_cases hfinal : (s'.buffer id).any TaskStreamChunk.is_final = true
      · rw [if_pos hfinal]
        exact ⟨fun _ => (hnext.any_final_iff.mp hfinal).append _, fun _ => by simp⟩
      · rw [if_neg hfinal]
        exact ih hnext fun hshows => hfinal (hnext.any_final_iff.mpr hshows)

/-- What is printed comes from the polls, in the order of the indices. -/
theorem stream_printed {last : Option UInt32} {printed came : List TaskStreamChunk}
    (h : Following s id last printed came) (polls : List FollowPoll) :
    StrictlySorted (printed ++ (stream L s id last polls).printed) ∧
      ∀ c ∈ printed ++ (stream L s id last polls).printed,
        c ∈ came ++ arrived L id (decide (id ∈ s.stream_rx)) polls := by
  have hkept : ∀ {s : Streams} {last : Option UInt32} {printed came : List TaskStreamChunk},
      Following s id last printed came → ∀ c ∈ printed, c ∈ came :=
    fun h c hc => ((h.kept c).mp (h.printed_kept hc)).mem
  induction polls generalizing s last printed came with
  | nil => simpa [stream, arrived] using ⟨h.printed_sorted, hkept h⟩
  | cons poll polls ih =>
    obtain ⟨hstream, harrived⟩ | ⟨s', last', out, new_chunks, hnext, -, harrived, hprinted, -⟩ :=
      stream_cons L h poll polls
    · rw [hstream, harrived]
      exact ih h
    · rw [hprinted, harrived, ← List.append_assoc]
      split
      · exact ⟨hnext.printed_sorted, fun c hc => List.mem_append_left _ (hkept hnext c hc)⟩
      · rw [← List.append_assoc]
        exact ih hnext

/-! ## Gaps -/

/-- No chunk of the stream is missing below one that came. -/
def NoGap (chunks came : List TaskStreamChunk) : Prop :=
  ∀ c ∈ chunks, ∀ d ∈ came, c.chunk_index < d.chunk_index → c ∈ came

/-- As long as the final chunk is not shown, no poll leaves a gap. -/
def InOrder (L : Libs) (id : String) (chunks : List TaskStreamChunk) (subscribed : Bool)
    (came : List TaskStreamChunk) (polls : List FollowPoll) : Prop :=
  ∀ before poll, before ++ [poll] <+: polls → ¬ Shows (came ++ arrived L id subscribed before) →
    NoGap chunks (came ++ arrived L id subscribed (before ++ [poll]))

theorem InOrder.tail {chunks came : List TaskStreamChunk} {subscribed subscribed' : Bool}
    {poll : FollowPoll} {polls : List FollowPoll}
    (h : InOrder L id chunks subscribed came (poll :: polls)) (new_chunks : List TaskStreamChunk)
    (harrived : ∀ rest, arrived L id subscribed (poll :: rest) =
      new_chunks ++ arrived L id subscribed' rest) :
    InOrder L id chunks subscribed' (came ++ new_chunks) polls := by
  intro before q hbefore hopen
  have hnext := h (poll :: before) q (List.cons_prefix_cons.mpr ⟨rfl, hbefore⟩)
  rw [List.cons_append, harrived, harrived, ← List.append_assoc, ← List.append_assoc] at hnext
  exact hnext hopen

section

variable {chunks : List TaskStreamChunk} (hchunks : StrictlySorted chunks)
include hchunks

theorem eq_of_index {c d : TaskStreamChunk} (hc : c ∈ chunks) (hd : d ∈ chunks)
    (h : c.chunk_index = d.chunk_index) : c = d := by
  obtain ⟨i, hi, rfl⟩ := List.getElem_of_mem hc
  obtain ⟨j, hj, rfl⟩ := List.getElem_of_mem hd
  have hlt := List.pairwise_iff_getElem.mp hchunks
  rcases Nat.lt_trichotomy i j with hij | rfl | hij
  · exact absurd h (UInt32.ne_of_lt (hlt i j hi hj hij))
  · rfl
  · exact absurd h.symm (UInt32.ne_of_lt (hlt j i hj hi hij))

/-- Of a stream with one chunk an index, all that came is kept. -/
theorem first_of_mem {came : List TaskStreamChunk} (hfrom : came ⊆ chunks) {c : TaskStreamChunk}
    (hc : c ∈ came) : First came c := by
  have hsome : (came.find? (·.chunk_index == c.chunk_index)).isSome = true :=
    List.find?_isSome.mpr ⟨c, hc, beq_self_eq_true c.chunk_index⟩
  obtain ⟨d, hd⟩ := Option.isSome_iff_exists.mp hsome
  have hindex : d.chunk_index = c.chunk_index := by simpa using List.find?_some hd
  have hsame := eq_of_index hchunks (hfrom (List.mem_of_find?_eq_some hd)) (hfrom hc) hindex
  rw [hsame] at hd
  exact hd

/-- While the loop prints the stream from its start, there is no gap. -/
theorem noGap_of_prefix {last : Option UInt32} {printed came : List TaskStreamChunk}
    (h : Following s id last printed came) (hfrom : came ⊆ chunks) (hstart : printed <+: chunks) :
    NoGap chunks came := by
  intro c hc d hd hlt
  have hdkept := (h.kept d).mpr (first_of_mem hchunks hfrom hd)
  obtain ⟨i, hi, hle⟩ := h.last_of.bounded d hdkept
  obtain ⟨e, he, rfl⟩ := h.last_of.shown i hi
  obtain ⟨rest, rfl⟩ := hstart
  rcases List.mem_append.mp hc with hc | hc
  · exact ((h.kept c).mp (h.printed_kept hc)).mem
  · have hafter := (List.pairwise_append.mp hchunks).2.2 e he c hc
    exact absurd (UInt32.lt_of_lt_of_le hlt hle) (UInt32.lt_asymm hafter)

/-- A stream that is printed whole came without gaps. -/
theorem inOrder_of_whole {last : Option UInt32} {printed came : List TaskStreamChunk}
    {polls : List FollowPoll} (h : Following s id last printed came) (hfrom : came ⊆ chunks)
    (harrive : arrived L id (decide (id ∈ s.stream_rx)) polls ⊆ chunks)
    (hwhole : printed ++ (stream L s id last polls).printed = chunks) :
    InOrder L id chunks (decide (id ∈ s.stream_rx)) came polls := by
  induction polls generalizing s last printed came with
  | nil =>
    intro before poll hbefore
    simp at hbefore
  | cons poll polls ih =>
    intro before q hbefore hopen
    obtain ⟨hstream, harrived⟩ | ⟨s', last', out, new_chunks, hnext, -, harrived, hprinted, -⟩ :=
      stream_cons L h poll polls
    · rw [hstream] at hwhole
      rw [harrived] at harrive
      cases before with
      | nil =>
        obtain rfl : q = poll := by simpa using hbefore
        rw [List.nil_append, harrived, arrived, List.append_nil]
        exact noGap_of_prefix hchunks h hfrom ⟨_, hwhole⟩
      | cons b before =>
        obtain ⟨rfl, hrest⟩ : b = poll ∧ before ++ [q] <+: polls := by simpa using hbefore
        rw [harrived] at hopen
        rw [List.cons_append, harrived]
        exact ih h hfrom harrive hwhole before q hrest hopen
    · rw [harrived, List.append_subset] at harrive
      have hfrom' : came ++ new_chunks ⊆ chunks := List.append_subset.mpr ⟨hfrom, harrive.1⟩
      cases before with
      | nil =>
        obtain rfl : q = poll := by simpa using hbefore
        rw [List.nil_append, harrived, arrived, List.append_nil]
        apply noGap_of_prefix hchunks hnext hfrom'
        rw [hprinted] at hwhole
        split at hwhole
        · exact ⟨[], by rw [List.append_nil, hwhole]⟩
        · exact ⟨_, by rw [List.append_assoc, hwhole]⟩
      | cons b before =>
        obtain ⟨rfl, hrest⟩ : b = poll ∧ before ++ [q] <+: polls := by simpa using hbefore
        rw [harrived, ← List.append_assoc] at hopen
        rw [List.cons_append, harrived, ← List.append_assoc]
        have hlast : ¬ (s'.buffer id).any TaskStreamChunk.is_final = true := fun hfinal =>
          hopen ((hnext.any_final_iff.mp hfinal).append _)
        rw [hprinted, if_neg hlast, ← List.append_assoc] at hwhole
        exact ih hnext hfrom' harrive.2 hwhole before q hrest hopen

/-- A poll that leaves no gap leaves nothing unprinted, if nothing was before it. -/
theorem printed_all {s' : Streams} {last last' : Option UInt32}
    {printed out came new_chunks : List TaskStreamChunk} (h : Following s id last printed came)
    (hgap : NoGap chunks came) (hprinted : s.buffer id ⊆ printed)
    (hnext : Following s' id last' (printed ++ out) (came ++ new_chunks))
    (hfrom : came ++ new_chunks ⊆ chunks)
    (hout : ∀ c ∈ s'.buffer id, is_new last c = true → c ∈ out) :
    s'.buffer id ⊆ printed ++ out := by
  obtain ⟨hcame, -⟩ := List.append_subset.mp hfrom
  intro c hc
  by_cases hnew : is_new last c = true
  · exact List.mem_append_right _ (hout c hc hnew)
  · apply List.mem_append_left _
    -- a chunk that is not new is at or below one that was printed
    have hcstream := hfrom ((hnext.kept c).mp hc).mem
    cases hlast : last with
    | none => exact absurd (by rw [hlast]; rfl) hnew
    | some i =>
      obtain ⟨d, hd, rfl⟩ := h.last_of.shown i hlast
      have hdcame := ((h.kept d).mp (h.printed_kept hd)).mem
      have hle : c.chunk_index ≤ d.chunk_index := by simpa [is_new, hlast] using hnew
      rcases UInt32.le_iff_lt_or_eq.mp hle with hlt | heq
      · have hccame := hgap c hcstream d hdcame hlt
        exact hprinted ((h.kept c).mpr (first_of_mem hchunks hcame hccame))
      · rwa [eq_of_index hchunks hcstream (hcame hdcame) heq]

omit hchunks in
/-- Without gaps below the final chunk, all the chunks have come. -/
theorem all_came {came : List TaskStreamChunk}
    (hfinal : ∀ f ∈ chunks, f.is_final = true → ∀ c ∈ chunks,
      c = f ∨ c.chunk_index < f.chunk_index)
    (hfrom : came ⊆ chunks) (hgap : NoGap chunks came) (hshows : Shows came) : chunks ⊆ came := by
  obtain ⟨f, hf, hffinal⟩ := hshows
  intro c hc
  rcases hfinal f (hfrom hf.mem) hffinal c hc with rfl | hlt
  · exact hf.mem
  · exact hgap c hc f hf.mem hlt

/-- A stream that comes without gaps is printed whole. -/
theorem whole_of_inOrder {last : Option UInt32} {printed came : List TaskStreamChunk}
    {polls : List FollowPoll} (h : Following s id last printed came) (hfrom : came ⊆ chunks)
    (harrive : arrived L id (decide (id ∈ s.stream_rx)) polls ⊆ chunks)
    (hfinal : ∀ f ∈ chunks, f.is_final = true → ∀ c ∈ chunks,
      c = f ∨ c.chunk_index < f.chunk_index)
    (hopen : ¬ Shows came) (hgap : NoGap chunks came) (hprinted : s.buffer id ⊆ printed)
    (horder : InOrder L id chunks (decide (id ∈ s.stream_rx)) came polls)
    (hcomplete : (stream L s id last polls).complete ≠ none) :
    chunks ⊆ printed ++ (stream L s id last polls).printed := by
  induction polls generalizing s last printed came with
  | nil => exact absurd rfl hcomplete
  | cons poll polls ih =>
    obtain ⟨hstream, harrived⟩ | ⟨s', last', out, new_chunks, hnext, hout, harrived, hp, hcomp⟩ :=
      stream_cons L h poll polls
    · rw [hstream] at hcomplete ⊢
      rw [harrived] at harrive
      have hrest := horder.tail [] harrived
      rw [List.append_nil] at hrest
      exact ih h hfrom harrive hopen hgap hprinted hrest hcomplete
    · rw [harrived, List.append_subset] at harrive
      have hfrom' : came ++ new_chunks ⊆ chunks := List.append_subset.mpr ⟨hfrom, harrive.1⟩
      have hgap' : NoGap chunks (came ++ new_chunks) := by
        have := horder [] poll (List.cons_prefix_cons.mpr ⟨rfl, List.nil_prefix⟩)
        rw [List.nil_append, harrived, arrived, arrived, List.append_nil, List.append_nil] at this
        exact this hopen
      have hprinted' := printed_all hchunks h hgap hprinted hnext hfrom' hout
      rw [hp]
      rw [hcomp] at hcomplete
      by_cases hshown : (s'.buffer id).any TaskStreamChunk.is_final = true
      · rw [if_pos hshown]
        intro c hc
        have hcame := all_came hfinal hfrom' hgap' (hnext.any_final_iff.mp hshown) hc
        exact hprinted' ((hnext.kept c).mpr (first_of_mem hchunks hfrom' hcame))
      · rw [if_neg hshown, ← List.append_assoc]
        rw [if_neg hshown] at hcomplete
        have hopen' : ¬ Shows (came ++ new_chunks) := fun hs =>
          hshown (hnext.any_final_iff.mpr hs)
        exact ih hnext hfrom' harrive.2 hopen' hgap' hprinted' (horder.tail new_chunks harrived)
          hcomplete

end

/-! ## The law of the loop -/

theorem arrived_mem {subscribed : Bool} {polls : List FollowPoll} {c : TaskStreamChunk}
    (h : c ∈ arrived L id subscribed polls) :
    ∃ poll ∈ polls, ∃ msg ∈ poll.drained, read_chunk L id msg = some c := by
  induction polls generalizing subscribed with
  | nil => cases h
  | cons poll polls ih =>
    rw [arrived] at h
    split at h
    · rcases List.mem_append.mp h with h | h
      · obtain ⟨msg, hmsg, hread⟩ := List.mem_filterMap.mp h
        exact ⟨poll, List.mem_cons_self, msg, hmsg, hread⟩
      · obtain ⟨p, hp, hmsg⟩ := ih h
        exact ⟨p, List.mem_cons_of_mem _ hp, hmsg⟩
    · obtain ⟨p, hp, hmsg⟩ := ih h
      exact ⟨p, List.mem_cons_of_mem _ hp, hmsg⟩

/-- What the polls take from the messages of a stream are chunks of it. -/
theorem arrived_subset (hserde : L.RoundTrips) {task : Task} {texts : List String}
    {publish : Nat → Option sds.TransportError} {polls : List FollowPoll}
    (hnet : ∀ poll ∈ polls, ∀ msg ∈ poll.drained,
      (stream_topic task.id, msg) ∈ (respond_stream task texts publish).1 ∨
        read_chunk L task.id msg = none) (subscribed : Bool) :
    arrived L task.id subscribed polls ⊆ chunks_of task.id texts := by
  intro c hc
  obtain ⟨poll, hpoll, msg, hmsg, hread⟩ := arrived_mem hc
  rcases hnet poll hpoll msg hmsg with hpub | hnone
  · obtain ⟨x, hx, rfl⟩ := mem_respond_stream hpub
    rw [read_chunk_message hserde hx] at hread
    cases hread
    exact hx
  · rw [hnone] at hread
    cases hread

/-- There are no more chunks in the order of their indices than indices. -/
theorem length_le_of_sorted {chunks : List TaskStreamChunk} (h : StrictlySorted chunks) :
    chunks.length ≤ 2 ^ 32 := by
  have hfrom : ∀ (k : Nat) (l : List TaskStreamChunk), StrictlySorted l →
      (∀ c ∈ l, k ≤ c.chunk_index.toNat) → l.length + k ≤ 2 ^ 32 ∨ l = [] := by
    intro k l
    induction l generalizing k with
    | nil => exact fun _ _ => .inr rfl
    | cons c l ih =>
      intro hl hk
      obtain ⟨hfirst, hrest⟩ := List.pairwise_cons.mp hl
      have hbound := c.chunk_index.toNat_lt
      have hkc := hk c List.mem_cons_self
      rcases ih (k + 1) hrest (fun d hd => by
        have := UInt32.lt_iff_toNat_lt.mp (hfirst d hd)
        omega) with hlen | rfl
      · refine .inl ?_
        rw [List.length_cons]
        omega
      · refine .inl ?_
        rw [List.length_singleton]
        omega
  rcases hfrom 0 chunks h (fun _ _ => Nat.zero_le _) with hlen | rfl
  · simpa using hlen
  · simp

/-- The final chunk of a stream has the highest index. -/
theorem final_last {texts : List String} (hlen : texts.length ≤ 2 ^ 32) {f : TaskStreamChunk}
    (hf : f ∈ chunks_of id texts) (hfinal : f.is_final = true) :
    ∀ c ∈ chunks_of id texts, c = f ∨ c.chunk_index < f.chunk_index := by
  intro c hc
  obtain ⟨i, hi, rfl⟩ := List.mem_mapIdx.mp hf
  obtain ⟨j, hj, rfl⟩ := List.mem_mapIdx.mp hc
  have hi' : i = texts.length - 1 := by simpa [stream_chunk] using hfinal
  by_cases hij : j = i
  · subst hij
    exact .inl rfl
  · refine .inr ?_
    simp only [stream_chunk, UInt32.lt_iff_toNat_lt, UInt32.toNat_ofNat']
    rw [Nat.mod_eq_of_lt (by omega), Nat.mod_eq_of_lt (by omega)]
    omega

theorem eq_of_subset {l l' : List TaskStreamChunk} (h : StrictlySorted l) (h' : StrictlySorted l')
    (hmem : ∀ c, c ∈ l ↔ c ∈ l') : l = l' := by
  have hasymm : Std.Antisymm fun c d : TaskStreamChunk => c.chunk_index < d.chunk_index :=
    ⟨fun _ _ hab hba => absurd hab (UInt32.lt_asymm hba)⟩
  have hirrefl : Std.Irrefl fun c d : TaskStreamChunk => c.chunk_index < d.chunk_index :=
    ⟨fun _ => UInt32.lt_irrefl _⟩
  exact List.Pairwise.eq_of_mem_iff h h' hmem

/-- Chunks of a stream with all of its texts are the stream. -/
theorem eq_chunks_of_texts {texts : List String} {l : List TaskStreamChunk}
    (h : StrictlySorted l) (hchunks : StrictlySorted (chunks_of id texts))
    (hfrom : l ⊆ chunks_of id texts) (htexts : l.map TaskStreamChunk.text = texts) :
    l = chunks_of id texts := by
  have hnodup : l.Nodup :=
    List.Pairwise.imp (fun hlt => ne_of_apply_ne _ (UInt32.ne_of_lt hlt)) h
  have hcount : (chunks_of id texts).length ≤ l.length := by
    have := congrArg List.length htexts
    simp only [List.length_map] at this
    simp [chunks_of, this]
  have hperm := (List.subperm_of_subset hnodup hfrom).perm_of_length_le hcount
  exact eq_of_subset h hchunks fun c => hperm.mem_iff

/-- Of a stream whose final chunk is shown, the loop prints all the texts in
their order, if and only if it has no more chunks than there are indices, and no
poll up to the one that shows the final chunk leaves a gap. -/
theorem a_stream_is_printed_whole_iff (hserde : L.RoundTrips) (task : Task)
    (texts : List String) (publish : Nat → Option sds.TransportError) (polls : List FollowPoll)
    (hnet : ∀ poll ∈ polls, ∀ msg ∈ poll.drained,
      (stream_topic task.id, msg) ∈ (respond_stream task texts publish).1 ∨
        read_chunk L task.id msg = none) :
    ((stream L .new task.id none polls).complete ≠ none →
        (stream L .new task.id none polls).printed.map TaskStreamChunk.text = texts) ↔
      (Shows (arrived L task.id false polls) →
        texts.length ≤ 2 ^ 32 ∧ InOrder L task.id (chunks_of task.id texts) false [] polls) := by
  have hnew := Following.new task.id
  have hrx : decide (task.id ∈ Streams.new.stream_rx) = false := by simp [Streams.new]
  have hempty : ¬ Shows [] := by
    rintro ⟨c, hc, -⟩
    exact absurd hc.mem List.not_mem_nil
  have hfrom := arrived_subset hserde hnet false
  have hcomplete := stream_complete_iff (L := L) hnew hempty polls
  obtain ⟨hsorted, hcame⟩ := stream_printed (L := L) hnew polls
  rw [List.nil_append, hrx] at hcomplete
  rw [List.nil_append] at hsorted
  simp only [List.nil_append, hrx] at hcame
  rw [hcomplete]
  constructor
  · intro h hshows
    have htexts := h hshows
    have hlen : texts.length ≤ 2 ^ 32 := by
      rw [← htexts, List.length_map]
      exact length_le_of_sorted hsorted
    have hchunks : StrictlySorted (chunks_of task.id texts) := chunks_of_sorted hlen
    have hwhole := eq_chunks_of_texts hsorted hchunks (fun c hc => hfrom (hcame c hc)) htexts
    have horder := inOrder_of_whole (L := L) hchunks hnew (List.nil_subset _) (hrx ▸ hfrom) hwhole
    rw [hrx] at horder
    exact ⟨hlen, horder⟩
  · intro h hshows
    obtain ⟨hlen, horder⟩ := h hshows
    have hchunks : StrictlySorted (chunks_of task.id texts) := chunks_of_sorted hlen
    have hsubset := whole_of_inOrder (L := L) hchunks hnew (List.nil_subset _) (hrx ▸ hfrom)
      (fun f hf hfinal => final_last hlen hf hfinal) hempty
      (fun _ _ d hd => absurd hd List.not_mem_nil)
      (fun c hc => by simp [Streams.buffer, Streams.new] at hc)
      (by rw [hrx]; exact horder) (by rw [hcomplete]; exact hshows)
    rw [List.nil_append] at hsubset
    rw [eq_of_subset hsorted hchunks fun c => ⟨fun hc => hfrom (hcame c hc), fun hc => hsubset hc⟩,
      chunks_of_texts]

open node.Sample (stream_messages stream_libs strict_libs tagging streamed)

/-- The two chunks of a stream come in order, in two polls. -/
theorem two_chunks_are_printed :
    ((stream strict_libs .new "t" none
          [⟨none, stream_messages.take 1⟩, ⟨none, stream_messages.drop 1⟩]).complete ≠ none →
        (stream strict_libs .new "t" none
          [⟨none, stream_messages.take 1⟩, ⟨none, stream_messages.drop 1⟩]).printed.map
            TaskStreamChunk.text = ["a", "b"]) ↔
      (Shows (arrived strict_libs "t" false
          [⟨none, stream_messages.take 1⟩, ⟨none, stream_messages.drop 1⟩]) →
        ["a", "b"].length ≤ 2 ^ 32 ∧
          InOrder strict_libs "t" (chunks_of "t" ["a", "b"]) false []
            [⟨none, stream_messages.take 1⟩, ⟨none, stream_messages.drop 1⟩]) := by
  have hpub : ∀ msg ∈ stream_messages,
      (stream_topic "t", msg) ∈ (respond_stream streamed ["a", "b"] fun _ => none).1 := by
    simp [stream_messages, respond_stream, publish_chunks, streamed, Task.new]
  refine a_stream_is_printed_whole_iff
    (Libs.strict_roundTrips (.ofTable [] []) tagging) streamed ["a", "b"] (fun _ => none) _ ?_
  intro poll hpoll msg hmsg
  simp only [List.mem_cons, List.not_mem_nil, or_false] at hpoll
  rcases hpoll with rfl | rfl
  · exact .inl (hpub msg (List.mem_of_mem_take hmsg))
  · exact .inl (hpub msg (List.mem_of_mem_drop hmsg))

/-- The second of two chunks comes a poll before the first one, and is all that
is printed. -/
theorem a_late_chunk_is_not_printed :
    ¬ ((stream stream_libs .new "t" none
          [⟨none, stream_messages.drop 1⟩, ⟨none, stream_messages.take 1⟩]).complete ≠ none →
        (stream stream_libs .new "t" none
          [⟨none, stream_messages.drop 1⟩, ⟨none, stream_messages.take 1⟩]).printed.map
            TaskStreamChunk.text = ["a", "b"]) := by
  decide +kernel

end task

end lmao.cli
